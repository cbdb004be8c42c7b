/-
# The events of a build

The calls on a build offer a connection three things: a start offers news of
the new operation (`History.start_call`), a finish offers news of an operation
that was shown to the connection when it started (`History.finish_call`), and
the end of the build offers no event (`History.end_call`).

The events that a connection accepts of a build are the first of those that
it is offered, and all of them while it is attached.

Key definitions: `eventsIn`, `startedIds`, `finishedIds`.
Key theorems: `History.start_call`, `History.finish_call`,
`History.accepted_first`.
-/
import BuildFeed.Proofs.Session.Parents
import BuildFeed.Proofs.Session.Streams

namespace BuildFeed

/-- The event that a message brings. -/
def Message.event? : Message → Option Event
  | .event _ e => some e
  | .endOfStream _ _ => none

/-- The events of a build among what each call brings. -/
def eventsIn (i : Nat) (brought : Call → List Message) (h : List Call) : List Event :=
  h.flatMap fun k => if k.step.build? = some i then (brought k).filterMap Message.event? else []

/-- The operations whose start is among events. -/
def startedIds (es : List Event) : List OperationId :=
  (es.filter Event.isStarted).map (·.descriptor.id)

/-- The operations whose end is among events. -/
def finishedIds (es : List Event) : List OperationId :=
  (es.filter (!·.isStarted)).map (·.descriptor.id)

theorem mem_startedIds {es : List Event} {x : OperationId} :
    x ∈ startedIds es ↔ ∃ t d, .started t d ∈ es ∧ d.id = x := by
  rw [startedIds, List.mem_map]
  constructor
  · rintro ⟨e, he, rfl⟩
    obtain ⟨he, hs⟩ := List.mem_filter.mp he
    cases e with
    | started t d => exact ⟨t, d, he, rfl⟩
    | finished => simp [Event.isStarted] at hs
  · rintro ⟨t, d, he, rfl⟩
    exact ⟨_, List.mem_filter.mpr ⟨he, rfl⟩, rfl⟩

theorem mem_finishedIds {es : List Event} {x : OperationId} :
    x ∈ finishedIds es ↔ ∃ t d r task, .finished t d r task ∈ es ∧ d.id = x := by
  rw [finishedIds, List.mem_map]
  constructor
  · rintro ⟨e, he, rfl⟩
    obtain ⟨he, hs⟩ := List.mem_filter.mp he
    cases e with
    | started => simp [Event.isStarted] at hs
    | finished t d r task => exact ⟨t, d, r, task, he, rfl⟩
  · rintro ⟨t, d, r, task, he, rfl⟩
    exact ⟨_, List.mem_filter.mpr ⟨he, rfl⟩, rfl⟩

section EventsIn

variable {i : Nat} {brought : Call → List Message} {h h' : List Call} {k : Call} {e : Event}

@[simp] theorem eventsIn_append :
    eventsIn i brought (h ++ h') = eventsIn i brought h ++ eventsIn i brought h' := List.flatMap_append

theorem eventsIn_singleton : eventsIn i brought [k] =
    if k.step.build? = some i then (brought k).filterMap Message.event? else [] := by
  simp [eventsIn]

theorem mem_eventsIn : e ∈ eventsIn i brought h ↔
    ∃ k ∈ h, k.step.build? = some i ∧ ∃ build, .event build e ∈ brought k := by
  rw [eventsIn, List.mem_flatMap]
  constructor
  · rintro ⟨k, hk, he⟩
    by_cases hi : k.step.build? = some i
    · rw [if_pos hi] at he
      obtain ⟨m, hm, hev⟩ := List.mem_filterMap.mp he
      cases m with
      | event build e' =>
        obtain rfl := Option.some.inj hev
        exact ⟨k, hk, hi, build, hm⟩
      | endOfStream => simp [Message.event?] at hev
    · simp [hi] at he
  · rintro ⟨k, hk, hi, build, hm⟩
    refine ⟨k, hk, ?_⟩
    rw [if_pos hi]
    exact List.mem_filterMap.mpr ⟨_, hm, rfl⟩

/-- A call that brings one message or none brings one event or none. -/
theorem eventsIn_cases (i : Nat) (hone : (brought k).length ≤ 1) :
    eventsIn i brought [k] = [] ∨ ∃ build e, k.step.build? = some i ∧ .event build e ∈ brought k ∧
      eventsIn i brought [k] = [e] := by
  rw [eventsIn_singleton]
  by_cases hi : k.step.build? = some i
  · rw [if_pos hi]
    cases hms : brought k with
    | nil => exact Or.inl rfl
    | cons m rest =>
      obtain rfl : rest = [] := by simpa [hms] using hone
      cases m with
      | endOfStream => exact Or.inl rfl
      | event build e => exact Or.inr ⟨build, e, hi, List.mem_singleton_self _, rfl⟩
  · rw [if_neg hi]
    exact Or.inl rfl

end EventsIn

/-! ### What the calls offer -/

namespace Showing

variable {sh : Showing} {registry : Registry} {op : StartSignal}

theorem Made.id_eq (hm : sh.Made registry op) (hu : ∀ m ∈ registry.mappers, m.Uniform) :
    sh.descriptor.id = op.id := (hu _ hm.mapper_mem).consult_id (hm.consult_eq hu)

/-- The news of an end is what the mapper makes of it. -/
theorem exists_of_finished {build : BuildId} {f : FinishSignal} {m : Message}
    (h : sh.finished build f = some m) :
    ∃ data e, sh.mapper.finished sh.descriptor data sh.op f = some e ∧ m = .event build e := by
  unfold finished Mapper.finishedEvent at h
  cases hd : sh.mapper.dataOf sh.op with
  | error e => simp [hd, Except.map] at h
  | ok data =>
    cases he : sh.mapper.finished sh.descriptor data sh.op f with
    | none => simp [hd, he, Except.map] at h
    | some e =>
      simp only [hd, he, Except.map, Option.some.injEq] at h
      exact ⟨data, e, he, h.symm⟩

/-- The news of an end carries what was shown. -/
theorem Made.finished_eq (hm : sh.Made registry op) (hu : ∀ m ∈ registry.mappers, m.Uniform)
    {build : BuildId} {f : FinishSignal} {m : Message} (h : sh.finished build f = some m) :
    ∃ r task, m = .event build (.finished f.endTime sh.descriptor r task) := by
  obtain ⟨data, e, he, rfl⟩ := exists_of_finished h
  obtain ⟨r, task, rfl⟩ := (hu _ hm.mapper_mem).finished_eq he
  exact ⟨r, task, rfl⟩

/-- What a built-in mapper tells of an end: the time of the signal, and the
result that the operation and the signal make. -/
theorem Made.finished_of_builtIn (hmade : sh.Made registry op)
    (hm : ∀ m ∈ registry.mappers, m ∈ Mapper.builtIn) {build : BuildId} {f : FinishSignal}
    {m : Message} (h : sh.finished build f = some m) :
    ∃ task, m = .event build (.finished f.endTime sh.descriptor
      (.ofOutcome sh.op.startTime f.endTime f.outcome) task) := by
  obtain ⟨data, e, he, rfl⟩ := exists_of_finished h
  have hbuiltIn : sh.mapper ∈ Mapper.builtIn := hm _ hmade.mapper_mem
  obtain ⟨task, rfl⟩ := Mapper.finished_of_mem_builtIn hbuiltIn he
  exact ⟨task, rfl⟩

end Showing

theorem Sees.mem {policy : ParentPolicy} {i : Nat} {h : List Call} {c : Nat}
    {ops : List StartSignal} {parent : Option OperationId} {l : List OperationId} {p : OperationId}
    (hs : Sees policy i h c parent l p) (hl : Lineage ops parent l) :
    p ∈ l ∧ PublishedTo i h c p := by
  cases policy with
  | nearestEnabledAncestor =>
    obtain ⟨l₁, l₂, rfl, hpub, -⟩ := hs
    exact ⟨by simp, hpub⟩
  | ownParentOnly =>
    obtain ⟨rfl, -, hpub⟩ := hs
    obtain ⟨op, -, l', -, rfl, -⟩ := hl.of_some
    exact ⟨List.mem_cons_self, hpub⟩

namespace History

variable {listing : Listing} {config : Config} {registry : Registry} {s₀ s : Session}
  {pre post h : List Call} {k : Call} {i c : Nat} {m : Message}

/-- What a start offers: news of the operation, under the parent that the
connection sees. -/
theorem start_sees (h₀ : s₀.Fresh config registry)
    (hf : ∀ m ∈ registry.mappers, m.Faithful) (hist : History listing s₀ (pre ++ k :: post) s)
    (hord : Ordered (startsIn i (pre ++ k :: post))) {op : StartSignal} (hst : k.step = .start i op)
    (hm : m ∈ k.offered c) :
    ∃ (build : BuildId) (sh : Showing) (l : List OperationId), m = sh.started build ∧
      sh.Made registry op ∧ Lineage (startsIn i pre) op.parent l ∧
      ∀ p, sh.descriptor.parent = some p ↔ Sees config.dispatch.parentPolicy i pre c op.parent l p := by
  obtain ⟨hpre, hstep, -⟩ := hist.split
  have hop : startsIn i (pre ++ k :: post) = (startsIn i pre ++ [op]) ++ startsIn i post := by
    simp [startsIn, hst, Step.start?]
  rw [hop] at hord
  have hord' := hord.of_initial (List.prefix_append ..)
  obtain ⟨hord₀, -, hpar⟩ := hord'.of_snoc
  obtain ⟨l, hl, -⟩ := hord₀.exists_lineage op.parent hpar
  rw [hst] at hstep
  obtain ⟨b, t, hb, ht, -, ho⟩ := (Session.step_eq_ok.mp hstep).of_start
  rw [Call.offered, ho] at hm
  obtain ⟨sh, hsh, hmade, hsees⟩ := hpre.start_offers h₀ hf hb hord' hl ht hm
  exact ⟨b.id, sh, l, hsh, hmade, hl, (hpre.settings h₀).2.1 ▸ hsees⟩

/-- What a start offers: news of the operation, under an ancestor that was
published to the connection before. -/
theorem start_call (h₀ : s₀.Fresh config registry)
    (hf : ∀ m ∈ registry.mappers, m.Faithful) (hist : History listing s₀ (pre ++ k :: post) s)
    (hord : Ordered (startsIn i (pre ++ k :: post))) {op : StartSignal} (hst : k.step = .start i op)
    (hm : m ∈ k.offered c) :
    ∃ (build : BuildId) (sh : Showing) (l : List OperationId), m = sh.started build ∧
      sh.Made registry op ∧ Lineage (startsIn i pre) op.parent l ∧
      ∀ p, sh.descriptor.parent = some p → p ∈ l ∧ PublishedTo i pre c p := by
  obtain ⟨build, sh, l, hsh, hmade, hl, hsees⟩ := hist.start_sees h₀ hf hord hst hm
  exact ⟨build, sh, l, hsh, hmade, hl, fun p hp => ((hsees p).mp hp).mem hl⟩

/-- What a finish offers: news of an operation that is live, and that was
shown to the connection when it started. -/
theorem finish_call (h₀ : s₀.Fresh config registry)
    (hf : ∀ m ∈ registry.mappers, m.Faithful) (hist : History listing s₀ (pre ++ k :: post) s)
    {f : FinishSignal} (hst : k.step = .finish i f) (hm : m ∈ k.offered c) :
    ∃ (build : BuildId) (k₀ : Call) (op : StartSignal) (sh : Showing),
      Opened i pre f.id k₀ op ∧ sh.started build ∈ k₀.offered c ∧ sh.Made registry op ∧
      sh.finished build f = some m := by
  obtain ⟨hpre, hstep, -⟩ := hist.split
  rw [hst] at hstep
  obtain ⟨b, hb, -, ho⟩ := (Session.step_eq_ok.mp hstep).of_finish
  rw [Call.offered, ho] at hm
  cases hc : b.closed with
  | true =>
    rw [Build.finish_of_closed hc] at hm
    simp [Build.quiet] at hm
  | false =>
    cases hl : b.live.get? f.id with
    | none =>
      rw [Build.finish_of_unknown hl] at hm
      simp [Build.quiet] at hm
    | some e =>
      have hsound := hpre.sound h₀.sound i b hb
      obtain ⟨k₀, op, ho, -, hoff, hmade⟩ := (hpre.reflects h₀ hf hb hc).opened _ e hl
      rw [(Build.finish_of_live k.before.hub hsound hc hl).2.2.2 c] at hm
      split at hm
      · rw [Option.mem_toList, Option.bind_eq_some_iff] at hm
        obtain ⟨sh, hshown, hfin⟩ := hm
        exact ⟨b.id, k₀, op, sh, ho, by simp [hoff c, hshown], hmade _ sh hshown, hfin⟩
      · simp at hm

/-- What the end of a build offers is not an event. -/
theorem end_call (h₀ : s₀.Fresh config registry) (hist : History listing s₀ (pre ++ k :: post) s)
    (hi : k.step.build? = some i) (hs : ∀ op, k.step ≠ .start i op) (hf : ∀ f, k.step ≠ .finish i f)
    (hm : m ∈ k.offered c) : m.event? = none := by
  obtain ⟨s₁, st, a⟩ := k
  obtain ⟨hpre, hstep, -⟩ := hist.split
  have hclose : ∀ {b : Build} {reason : EndReason}, s₁.build? i = some b →
      m ∈ messagesTo c (b.close s₁.hub reason).offers → m.event? = none := by
    intro b reason hb hm
    rw [Build.messagesTo_close (hpre.sound h₀.sound i b hb)] at hm
    split at hm
    · rw [List.mem_singleton.mp hm]
      rfl
    · simp at hm
  rw [Call.offered] at hm
  cases Session.effect_on_build (Session.step_eq_ok.mp hstep) i with
  | begun => simp [Step.build?] at hi
  | other hne => exact absurd hi hne
  | start => exact absurd rfl (hs _)
  | finish => exact absurd rfl (hf _)
  | close hb _ ho => exact hclose hb (ho ▸ hm)
  | drop hb _ ho => exact hclose hb (ho ▸ hm)

/-- An event is news of the operation that its call starts or finishes. -/
theorem event_call (h₀ : s₀.Fresh config registry)
    (hu : ∀ m ∈ registry.mappers, m.Uniform) (hist : History listing s₀ (pre ++ k :: post) s)
    (hord : Ordered (startsIn i (pre ++ k :: post))) (hi : k.step.build? = some i) {build : BuildId}
    {e : Event} (hm : .event build e ∈ k.offered c) :
    (∃ op d, k.step = .start i op ∧ e = .started op.startTime d ∧ d.id = op.id) ∨
      ∃ f d r task, k.step = .finish i f ∧ e = .finished f.endTime d r task ∧ d.id = f.id := by
  have hf : ∀ m ∈ registry.mappers, m.Faithful := fun m hm => (hu m hm).faithful
  by_cases hst : ∃ op, k.step = .start i op
  · obtain ⟨op, hst⟩ := hst
    obtain ⟨build', sh, l, hsh, hmade, -⟩ := hist.start_call h₀ hf hord hst hm
    obtain ⟨-, rfl⟩ := Message.event.inj hsh
    exact Or.inl ⟨op, sh.descriptor, hst, by rw [hmade.op_eq], hmade.id_eq hu⟩
  · by_cases hfi : ∃ f, k.step = .finish i f
    · obtain ⟨f, hfi⟩ := hfi
      obtain ⟨build', k₀, op, sh, ho, -, hmade, hfin⟩ := hist.finish_call h₀ hf hfi hm
      obtain ⟨r, task, hev⟩ := hmade.finished_eq hu hfin
      obtain ⟨-, rfl⟩ := Message.event.inj hev
      exact Or.inr ⟨f, sh.descriptor, r, task, hfi, rfl, (hmade.id_eq hu).trans ho.id_eq⟩
    · have hnone := hist.end_call h₀ hi (fun op hop => hst ⟨op, hop⟩) (fun f hop => hfi ⟨f, hop⟩) hm
      simp [Message.event?] at hnone

/-- The call that told a connection of a start. -/
theorem start_of_mem (h₀ : s₀.Fresh config registry) (hu : ∀ m ∈ registry.mappers, m.Uniform)
    (hist : History listing s₀ h s) (hord : Ordered (startsIn i h)) {t : Time.Instant}
    {d : Descriptor} (he : .started t d ∈ eventsIn i (Call.offered c) h) :
    ∃ k ∈ h, ∃ op build, k.step = .start i op ∧ op.id = d.id ∧
      .event build (.started t d) ∈ k.offered c := by
  obtain ⟨k, hk, hi, build, hm⟩ := mem_eventsIn.mp he
  obtain ⟨pre, post, rfl⟩ := List.append_of_mem hk
  rcases hist.event_call h₀ hu hord hi hm with ⟨op, d', hst, hev, hid⟩ | ⟨f, d', r, task, -, hev, -⟩
  · obtain ⟨-, rfl⟩ := Event.started.inj hev
    exact ⟨k, hk, op, build, hst, hid.symm, hm⟩
  · exact absurd hev (by simp)

/-- What a connection was told started was started. -/
theorem started_of_mem (h₀ : s₀.Fresh config registry) (hu : ∀ m ∈ registry.mappers, m.Uniform)
    (hist : History listing s₀ h s) (hord : Ordered (startsIn i h)) {x : OperationId}
    (hx : x ∈ startedIds (eventsIn i (Call.offered c) h)) : ∃ op ∈ startsIn i h, op.id = x := by
  obtain ⟨t, d, he, rfl⟩ := mem_startedIds.mp hx
  obtain ⟨k, hk, op, -, hst, hid, -⟩ := hist.start_of_mem h₀ hu hord he
  exact ⟨op, mem_startsIn.mpr ⟨k, hk, hst⟩, hid⟩

/-- What a connection was told finished was finished. -/
theorem finished_of_mem (h₀ : s₀.Fresh config registry)
    (hu : ∀ m ∈ registry.mappers, m.Uniform) (hist : History listing s₀ h s)
    (hord : Ordered (startsIn i h)) {x : OperationId}
    (hx : x ∈ finishedIds (eventsIn i (Call.offered c) h)) :
    ∃ k ∈ h, ∃ f, k.step = .finish i f ∧ f.id = x := by
  obtain ⟨t, d, r, task, he, rfl⟩ := mem_finishedIds.mp hx
  obtain ⟨k, hk, hi, build, hm⟩ := mem_eventsIn.mp he
  obtain ⟨pre, post, rfl⟩ := List.append_of_mem hk
  rcases hist.event_call h₀ hu hord hi hm with ⟨op, d', -, hev, -⟩ | ⟨f, d', r', task', hst, hev, hid⟩
  · simp at hev
  · obtain ⟨-, rfl, -⟩ := Event.finished.inj hev
    exact ⟨k, hk, f, hst, hid.symm⟩

/-- The operations that were published to a connection are those that it was
told started. -/
theorem mem_of_publishedTo (h₀ : s₀.Fresh config registry)
    (hu : ∀ m ∈ registry.mappers, m.Uniform) (hist : History listing s₀ h s)
    (hord : Ordered (startsIn i h)) {x : OperationId} (hp : PublishedTo i h c x) :
    x ∈ startedIds (eventsIn i (Call.offered c) h) := by
  obtain ⟨k, hk, op, hst, rfl, hne⟩ := hp
  obtain ⟨m, hm⟩ := List.exists_mem_of_ne_nil _ hne
  obtain ⟨pre, post, rfl⟩ := List.append_of_mem hk
  obtain ⟨build, sh, l, rfl, hmade, -⟩ :=
    hist.start_call h₀ (fun m hm => (hu m hm).faithful) hord hst hm
  exact mem_startedIds.mpr ⟨_, _, mem_eventsIn.mpr ⟨k, hk, by rw [hst]; rfl, build, hm⟩, hmade.id_eq hu⟩

/-! ### What is accepted -/

/-- A connection accepts the first of the events that it is offered, and all
of them unless it is detached. -/
theorem accepted_first (h₀ : s₀.Sound) (hist : History listing s₀ h s) (i c : Nat) :
    eventsIn i (Call.accepted c) h <+: eventsIn i (Call.offered c) h ∧
      (eventsIn i (Call.accepted c) h = eventsIn i (Call.offered c) h ∨
        ∃ x, s.hub.connections[c]? = some x ∧ x.attached = false) :=
  hist.accepts_first
    (fun k ms => if k.step.build? = some i then ms.filterMap Message.event? else [])
    (fun k => by simp) h₀ c

end History

end BuildFeed
