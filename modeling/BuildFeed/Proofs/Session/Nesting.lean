/-
# The events of a build are well nested

A scheduler that keeps its contract (`Scheduled`) starts an operation once,
under a parent that was started and not finished, and finishes it once, when
all its children are finished. Then the ancestors of an unfinished operation
are unfinished (`Scheduled.lineage_unfinished`).

So in what a connection is sent of a build every event of an operation comes
between the start and the end of the parent that it names (`WellNested`),
although that parent was chosen when the operation started, and may be an
ancestor of any degree.

Key definitions: `finishesIn`, `Step.Allowed`, `Scheduled`, `WellNested`.
Key theorems: `Scheduled.ordered`, `Scheduled.lineage_unfinished`,
`History.wellNested_offered`, `streams_well_nested`.
-/
import BuildFeed.Proofs.Session.Events
import Mathlib.Data.List.Induction

namespace BuildFeed

/-! ### The contract of the scheduler -/

/-- The operation that a step finishes in a build. -/
def Step.finish? (i : Nat) : Step → Option OperationId
  | .finish j f => if j = i then some f.id else none
  | _ => none

/-- The operations that were finished in a build, in order. -/
def finishesIn (i : Nat) (h : List Call) : List OperationId := h.filterMap (·.step.finish? i)

/-- A step keeps the contract for a build after the calls of a history. -/
def Step.Allowed (i : Nat) (h : List Call) : Step → Prop
  | .start j op => j = i →
    (∀ o ∈ startsIn i h, o.id ≠ op.id) ∧
      ∀ p ∈ op.parent, (∃ o ∈ startsIn i h, o.id = p) ∧ p ∉ finishesIn i h
  | .finish j f => j = i →
    (∃ o ∈ startsIn i h, o.id = f.id) ∧ f.id ∉ finishesIn i h ∧
      ∀ o ∈ startsIn i h, o.parent = some f.id → o.id ∈ finishesIn i h
  | _ => True

instance (i : Nat) (h : List Call) : (st : Step) → Decidable (st.Allowed i h)
  | .start j op => inferInstanceAs (Decidable (j = i →
      (∀ o ∈ startsIn i h, o.id ≠ op.id) ∧
        ∀ p ∈ op.parent, (∃ o ∈ startsIn i h, o.id = p) ∧ p ∉ finishesIn i h))
  | .finish j f => inferInstanceAs (Decidable (j = i →
      (∃ o ∈ startsIn i h, o.id = f.id) ∧ f.id ∉ finishesIn i h ∧
        ∀ o ∈ startsIn i h, o.parent = some f.id → o.id ∈ finishesIn i h))
  | .connect _ _ | .disconnect _ | .dropStream _ | .drain _ | .receive _ | .dropBridge | .begin _
  | .close _ _ | .dropBuild _ => inferInstanceAs (Decidable True)

/-- Calls keep the contract for a build after the calls of a history. -/
def ScheduledAfter (i : Nat) : List Call → List Call → Prop
  | _, [] => True
  | h, k :: rest => k.step.Allowed i h ∧ ScheduledAfter i (h ++ [k]) rest

instance decidableScheduledAfter (i : Nat) : (h rest : List Call) → Decidable (ScheduledAfter i h rest)
  | _, [] => inferInstanceAs (Decidable True)
  | h, k :: rest =>
    have := decidableScheduledAfter i (h ++ [k]) rest
    inferInstanceAs (Decidable (k.step.Allowed i h ∧ ScheduledAfter i (h ++ [k]) rest))

/-- The scheduler keeps the contract for a build. -/
def Scheduled (i : Nat) (h : List Call) : Prop := ScheduledAfter i [] h

instance (i : Nat) (h : List Call) : Decidable (Scheduled i h) :=
  inferInstanceAs (Decidable (ScheduledAfter i [] h))

theorem scheduledAfter_append (i : Nat) : ∀ h rest rest' : List Call,
    ScheduledAfter i h (rest ++ rest') ↔ ScheduledAfter i h rest ∧ ScheduledAfter i (h ++ rest) rest'
  | h, [], rest' => by simp [ScheduledAfter]
  | h, k :: rest, rest' => by
    rw [List.cons_append, ScheduledAfter, ScheduledAfter, scheduledAfter_append, and_assoc,
      List.append_assoc, List.singleton_append]

@[simp] theorem finishesIn_append (i : Nat) (h h' : List Call) :
    finishesIn i (h ++ h') = finishesIn i h ++ finishesIn i h' := List.filterMap_append

theorem mem_finishesIn {i : Nat} {h : List Call} {x : OperationId} :
    x ∈ finishesIn i h ↔ ∃ k ∈ h, ∃ f, k.step = .finish i f ∧ f.id = x := by
  rw [finishesIn, List.mem_filterMap]
  constructor
  · rintro ⟨k, hk, hf⟩
    cases hst : k.step with
    | finish j f =>
      rw [hst, Step.finish?] at hf
      by_cases hj : j = i
      · rw [if_pos hj, Option.some.injEq] at hf
        exact ⟨k, hk, f, hj ▸ hst, hf⟩
      · simp [hj] at hf
    | _ => simp [hst, Step.finish?] at hf
  · rintro ⟨k, hk, f, hst, rfl⟩
    exact ⟨k, hk, by rw [hst]; exact if_pos rfl⟩

namespace Scheduled

variable {i : Nat} {h : List Call} {k : Call}

theorem of_append {h' : List Call} (hs : Scheduled i (h ++ h')) : Scheduled i h :=
  ((scheduledAfter_append i [] h h').mp hs).1

/-- Each call keeps the contract after those before it. -/
theorem allowed {post : List Call} (hs : Scheduled i (h ++ k :: post)) : k.step.Allowed i h :=
  ((scheduledAfter_append i [] h (k :: post)).mp hs).2.1

/-- The operations are started in order. -/
theorem ordered (hs : Scheduled i h) : Ordered (startsIn i h) := by
  induction h using List.reverseRecOn with
  | nil => exact .nil
  | append_singleton h k ih =>
    rw [startsIn_append]
    have hord := ih hs.of_append
    cases hst : k.step.start? i with
    | none => simpa [startsIn, hst] using hord
    | some op =>
      have hk : startsIn i [k] = [op] := by simp [startsIn, hst]
      have hall := hs.allowed
      rw [Step.start?_eq_some.mp hst] at hall
      obtain ⟨hid, hp⟩ := hall rfl
      rw [hk]
      exact hord.snoc hid fun p hp' => (hp p hp').1

/-- The parent of an unfinished operation is unfinished. -/
theorem parent_unfinished (hs : Scheduled i h) : ∀ op ∈ startsIn i h, op.id ∉ finishesIn i h →
    ∀ p, op.parent = some p → p ∉ finishesIn i h := by
  induction h using List.reverseRecOn with
  | nil => exact fun op hop => absurd hop (by simp [startsIn])
  | append_singleton h k ih =>
    have ih := ih hs.of_append
    intro op hop hid p hp
    rw [finishesIn_append, List.mem_append, not_or] at hid ⊢
    have hall := hs.allowed
    rw [startsIn_append, List.mem_append] at hop
    rcases hop with hop | hop
    · refine ⟨ih op hop hid.1 p hp, fun hpk => ?_⟩
      obtain ⟨k', hk', f, hst, rfl⟩ := mem_finishesIn.mp hpk
      rw [← List.mem_singleton.mp hk', hst] at hall
      obtain ⟨-, -, hchildren⟩ := hall rfl
      exact hid.1 (hchildren op hop hp)
    · obtain ⟨k', hk', hst⟩ := mem_startsIn.mp hop
      rw [← List.mem_singleton.mp hk', hst] at hall
      refine ⟨((hall rfl).2 p hp).2, fun hpk => ?_⟩
      obtain ⟨k'', hk'', f, hst', -⟩ := mem_finishesIn.mp hpk
      rw [List.mem_singleton.mp hk'', ← List.mem_singleton.mp hk', hst] at hst'
      simp at hst'

/-- The ancestors of an unfinished operation are unfinished. -/
theorem lineage_unfinished (hs : Scheduled i h) {p : Option OperationId} {l : List OperationId}
    (hl : Lineage (startsIn i h) p l) (hp : ∀ x, p = some x → x ∉ finishesIn i h) :
    ∀ x ∈ l, x ∉ finishesIn i h := by
  induction hl with
  | root => simp
  | @step op l hop _ ih =>
    have hop' := hp op.id rfl
    intro x hx
    rcases List.mem_cons.mp hx with rfl | hx
    · exact hop'
    · exact ih (hs.parent_unfinished op hop hop') x hx

end Scheduled

/-! ### Well-nested events -/

/-- Events are well nested: an operation is told started once, and told
finished once and after that, and the parent that an event names was told
started before and was not told finished. -/
inductive WellNested : List Event → Prop
  | nil : WellNested []
  | snoc {es : List Event} {e : Event} (h : WellNested es)
      (hs : e.isStarted = true → e.descriptor.id ∉ startedIds es)
      (hf : e.isStarted = false →
        e.descriptor.id ∈ startedIds es ∧ e.descriptor.id ∉ finishedIds es)
      (hp : ∀ p, e.descriptor.parent = some p → p ∈ startedIds es ∧ p ∉ finishedIds es) :
    WellNested (es ++ [e])

/-- The beginning of well-nested events is well nested. -/
theorem WellNested.of_initial {es es' : List Event} (h : WellNested es') (hes : es <+: es') :
    WellNested es := by
  induction h with
  | nil =>
    obtain rfl := List.prefix_nil.mp hes
    exact .nil
  | snoc h hs hf hp ih =>
    rcases List.prefix_concat_iff.mp hes with rfl | hes
    · exact h.snoc hs hf hp
    · exact ih hes

namespace History

variable {listing : Listing} {config : Config} {registry : Registry} {s₀ s : Session}
  {h : List Call} {k : Call} {i c : Nat}

/-- An ancestor that was published was told started, and it was not told
finished if the operation below it is not finished. -/
theorem ancestor_open (h₀ : s₀.Fresh config registry) (hu : ∀ m ∈ registry.mappers, m.Uniform)
    (hist : History listing s₀ h s) (hsched : Scheduled i h) {parent : Option OperationId}
    {l : List OperationId} (hl : Lineage (startsIn i h) parent l)
    (hpar : ∀ x, parent = some x → x ∉ finishesIn i h) {p : OperationId} (hp : p ∈ l)
    (hpub : PublishedTo i h c p) :
    p ∈ startedIds (eventsIn i (Call.offered c) h) ∧
      p ∉ finishedIds (eventsIn i (Call.offered c) h) := by
  constructor
  · exact hist.mem_of_publishedTo h₀ hu hsched.ordered hpub
  · intro hfin
    have hfinished : p ∈ finishesIn i h :=
      mem_finishesIn.mpr (hist.finished_of_mem h₀ hu hsched.ordered hfin)
    exact hsched.lineage_unfinished hl hpar p hp hfinished

/-- An event of a start fits after the events before it. -/
theorem start_nested (h₀ : s₀.Fresh config registry) (hu : ∀ m ∈ registry.mappers, m.Uniform)
    (hist : History listing s₀ (h ++ [k]) s) (hsched : Scheduled i (h ++ [k])) {op : StartSignal}
    (hst : k.step = .start i op) {build : BuildId} {e : Event} (hm : .event build e ∈ k.offered c)
    (hes : WellNested (eventsIn i (Call.offered c) h)) :
    WellNested (eventsIn i (Call.offered c) h ++ [e]) := by
  have hpre := hist.split.1
  have hsched₀ := hsched.of_append
  have hall := hsched.allowed
  rw [hst] at hall
  obtain ⟨hid, hpar⟩ := hall rfl
  obtain ⟨build', sh, l, hsh, hmade, hl, hsees⟩ :=
    hist.start_call h₀ (fun m hm => (hu m hm).faithful) hsched.ordered hst hm
  obtain ⟨-, rfl⟩ := Message.event.inj hsh
  apply hes.snoc
  · intro _ hmem
    obtain ⟨o, ho, hoid⟩ := hpre.started_of_mem h₀ hu hsched₀.ordered hmem
    exact hid o ho (hoid.trans (hmade.id_eq hu))
  · intro hns
    exact absurd hns (by simp [Event.isStarted])
  · intro p hp
    obtain ⟨hmem, hpub⟩ := hsees p hp
    exact hpre.ancestor_open h₀ hu hsched₀ hl (fun x hx => (hpar x hx).2) hmem hpub

/-- An event of a finish fits after the events before it. The parent in it is
an ancestor of an operation that was not finished before. -/
theorem finish_nested (h₀ : s₀.Fresh config registry) (hu : ∀ m ∈ registry.mappers, m.Uniform)
    (hist : History listing s₀ (h ++ [k]) s) (hsched : Scheduled i (h ++ [k])) {f : FinishSignal}
    (hst : k.step = .finish i f) {build : BuildId} {e : Event} (hm : .event build e ∈ k.offered c)
    (hes : WellNested (eventsIn i (Call.offered c) h)) :
    WellNested (eventsIn i (Call.offered c) h ++ [e]) := by
  have hf : ∀ m ∈ registry.mappers, m.Faithful := fun m hm => (hu m hm).faithful
  have hpre := hist.split.1
  have hsched₀ := hsched.of_append
  have hord := hsched₀.ordered
  have hall := hsched.allowed
  rw [hst] at hall
  obtain ⟨-, hunfinished, -⟩ := hall rfl
  obtain ⟨build', k₀, op, sh, ho, hshown, hmade, hfin⟩ := hist.finish_call h₀ hf hst hm
  obtain ⟨r, task, hev⟩ := hmade.finished_eq hu hfin
  obtain ⟨-, rfl⟩ := Message.event.inj hev
  have hid : (Event.finished f.endTime sh.descriptor r task).descriptor.id = f.id :=
    (hmade.id_eq hu).trans ho.id_eq
  have hpub : PublishedTo i h c f.id :=
    ⟨k₀, ho.mem, op, ho.step_eq, ho.id_eq, List.ne_nil_of_mem hshown⟩
  apply hes.snoc
  · intro hs
    exact absurd hs (by simp [Event.isStarted])
  · intro _
    rw [hid]
    refine ⟨hpre.mem_of_publishedTo h₀ hu hord hpub, fun hmem => ?_⟩
    exact hunfinished (mem_finishesIn.mpr (hpre.finished_of_mem h₀ hu hord hmem))
  · intro p hp
    -- the parent in the event is the one that was chosen at the start
    obtain ⟨pre, post, rfl, hst₀, hid₀, -⟩ := ho
    obtain ⟨build₀, sh₀, l, hsh, -, hl, hsees⟩ := hpre.start_call h₀ hf hord hst₀ hshown
    have hdesc : sh₀.descriptor = sh.descriptor := by
      obtain ⟨-, hev⟩ := Message.event.inj hsh
      exact (Event.started.inj hev).2.symm
    obtain ⟨hmem, hpubp⟩ := hsees p (hdesc ▸ hp)
    have hsub : pre ⊆ pre ++ k₀ :: post := List.subset_append_left ..
    have hop : op ∈ startsIn i (pre ++ k₀ :: post) := mem_startsIn.mpr ⟨k₀, by simp, hst₀⟩
    have hpar := hsched₀.parent_unfinished op hop (hid₀ ▸ hunfinished)
    exact hpre.ancestor_open h₀ hu hsched₀ (hl.mono (startsIn_subset hsub)) hpar hmem (hpubp.mono hsub)

/-- What a connection is offered of a build is well nested. -/
theorem wellNested_offered (h₀ : s₀.Fresh config registry) (hu : ∀ m ∈ registry.mappers, m.Uniform)
    (hist : History listing s₀ h s) (hsched : Scheduled i h) :
    WellNested (eventsIn i (Call.offered c) h) := by
  induction hist with
  | nil => exact .nil
  | @snoc h s st a hist hs ih =>
    have ih := ih hsched.of_append
    have hlonger := hist.snoc hs
    have hproper := (Session.step_eq_ok.mp hs).proper (hist.sound h₀.sound)
    have hone : (Call.offered c ⟨s, st, a⟩).length ≤ 1 := messagesTo_length_le_one c a.offers hproper.1
    rw [eventsIn_append]
    rcases eventsIn_cases i hone with hnil | ⟨build, e, hi, hm, hone⟩
    · rw [hnil, List.append_nil]
      exact ih
    · rw [hone]
      rcases hlonger.event_call h₀ hu hsched.ordered hi hm with
        ⟨op, d, hst, -⟩ | ⟨f, d, r, task, hst, -⟩
      · exact hlonger.start_nested h₀ hu hsched hst hm ih
      · exact hlonger.finish_nested h₀ hu hsched hst hm ih

end History

/-! ### Ends -/

/-- A step ends a build. -/
def Step.ends (i : Nat) : Step → Bool
  | .close j _ => j = i
  | .dropBuild j => j = i
  | _ => false

/-- An operation was finished before its build ended, and a connection was
attached after that. -/
def FinishedFor (i c : Nat) (h : List Call) (x : OperationId) : Prop :=
  ∃ pre k post f, h = pre ++ k :: post ∧ k.step = .finish i f ∧ f.id = x ∧
    (∀ k' ∈ pre, k'.step.ends i = false) ∧ k.outcome.session.hub.isAttached c = true

/-- A built-in mapper tells of the end of what it showed, except of problems. -/
theorem Showing.Made.exists_finished {sh : Showing} {registry : Registry} {op : StartSignal}
    (hmade : sh.Made registry op) (hm : ∀ m ∈ registry.mappers, m ∈ Mapper.builtIn)
    (hp : sh.descriptor.operationType ≠ .problems) (build : BuildId) (f : FinishSignal) :
    ∃ r task, sh.finished build f = some (.event build (.finished f.endTime sh.descriptor r task)) := by
  have hu : ∀ m ∈ registry.mappers, m.Uniform := fun m h => Mapper.uniform_of_mem_builtIn (hm m h)
  have hcons := hmade.consult_eq hu
  unfold Mapper.consult at hcons
  cases hd : sh.mapper.dataOf op with
  | error e => simp [hd] at hcons
  | ok data =>
    simp only [hd] at hcons
    have hne := mt (Mapper.finished_eq_none_iff (hm _ hmade.mapper_mem) hcons f).mp hp
    obtain ⟨e, he⟩ := Option.ne_none_iff_exists'.mp hne
    have hfin : sh.finished build f = some (.event build e) := by
      rw [Showing.finished, hmade.op_eq, Build.finishedEvent_of_dataOf hd, he]
    obtain ⟨r, task, hev⟩ := hmade.finished_eq hu hfin
    exact ⟨r, task, hev ▸ hfin⟩

namespace History

variable {listing : Listing} {config : Config} {registry : Registry} {s₀ s : Session}
  {pre post h : List Call} {k : Call} {i c : Nat}

/-- A build is open until a call ends it. -/
theorem open_of_no_end (h₀ : s₀.Fresh config registry) (hist : History listing s₀ h s)
    (hends : ∀ k ∈ h, k.step.ends i = false) : ∀ {b : Build}, s.build? i = some b → b.closed = false := by
  apply hist.build_invariant (P := fun b => b.closed = false) h₀
  · intro id audience
    rfl
  · intro k _ op b t _ _ ht hb
    rw [Build.closed_start ht]
    exact hb
  · intro hub f b hs hb
    rw [Build.closed_finish hub f hs]
    exact hb
  · intro k hk reason b hst _
    have hend := hends k hk
    rw [hst] at hend
    simp [Step.ends] at hend

/-- A connection that was offered something is there. -/
theorem exists_connection (h₀ : s₀.Fresh config registry) (hist : History listing s₀ h s) (hk : k ∈ h)
    (hne : k.offered c ≠ []) : ∃ x, s.hub.connections[c]? = some x := by
  obtain ⟨pre, post, -, hpre, he, hpost⟩ := hist.exists_split hk
  have hsound := hpre.sound h₀.sound
  cases hc : k.before.hub.connections[c]? with
  | none => exact absurd (he.nothing hsound hc).1 hne
  | some x =>
    obtain ⟨y, hy, -⟩ := he.move hsound hc
    obtain ⟨z, hz, -⟩ := hpost.keeps_connection (he.sound hsound) hy
    exact ⟨z, hz⟩

/-- A start that offers anything makes its operation live until it is finished. -/
theorem liveAfter_of_offered (hist : History listing s₀ h s) (hk : k ∈ h)
    {op : StartSignal} (hst : k.step = .start i op) (hne : k.offered c ≠ [])
    (hf : op.id ∉ finishesIn i h) : LiveAfter i h op.id := by
  obtain ⟨pre, post, rfl⟩ := List.append_of_mem hk
  obtain ⟨hpre, hstep, -⟩ := hist.split
  rw [hst] at hstep
  refine ⟨k, op, pre, post, rfl, hst, rfl, ?_, fun k' hk' f hst' hid => hf ?_⟩
  · obtain ⟨b, t, -, ht, hr, ho⟩ := (Session.step_eq_ok.mp hstep).of_start
    have hoffers : t.offers ≠ [] := by
      intro hnil
      apply hne
      rw [Call.offered, ho, hnil]
      rfl
    rw [hr, Build.result_of_offers ht hoffers]
  · exact mem_finishesIn.mpr ⟨k', List.mem_append_right _ (List.mem_cons_of_mem _ hk'), f, hst', hid⟩

/-- A connection that was told of a start is told of the end, if it is attached. -/
theorem told_finished (h₀ : s₀.Fresh config registry)
    (hm : ∀ m ∈ registry.mappers, m ∈ Mapper.builtIn)
    (hist : History listing s₀ (pre ++ k :: post) s) (hsched : Scheduled i (pre ++ k :: post))
    {f : FinishSignal} (hst : k.step = .finish i f) (hends : ∀ k' ∈ pre, k'.step.ends i = false)
    (hatt : k.outcome.session.hub.isAttached c = true) {t : Time.Instant} {d : Descriptor}
    (he : .started t d ∈ eventsIn i (Call.offered c) (pre ++ k :: post)) (hid : d.id = f.id)
    (hp : d.operationType ≠ .problems) :
    ∃ build r task, .event build (.finished f.endTime d r task) ∈ k.offered c := by
  have hu : ∀ m ∈ registry.mappers, m.Uniform := fun m h => Mapper.uniform_of_mem_builtIn (hm m h)
  obtain ⟨hpre, hstep, -⟩ := hist.split
  have hall := hsched.allowed
  rw [hst] at hall hstep
  obtain ⟨⟨o, ho, hoid⟩, hunfinished, -⟩ := hall rfl
  -- the call that told of the start is before the finish
  obtain ⟨k₀, hk₀, op, build, hst₀, hopid, hmsg⟩ := hist.start_of_mem h₀ hu hsched.ordered he
  have hid' : op.id = f.id := hopid.trans hid
  obtain ⟨k₁, hk₁, hst₁⟩ := mem_startsIn.mp ho
  obtain rfl : k₀ = k₁ := hsched.ordered.call_unique hk₀ (List.mem_append_left _ hk₁) hst₀ hst₁
    (hid'.trans hoid.symm)
  have hne : k₀.offered c ≠ [] := List.ne_nil_of_mem hmsg
  have hlive := hpre.liveAfter_of_offered hk₁ hst₀ hne (hid' ▸ hunfinished)
  -- the build still holds what the connection was shown
  have heff := Session.step_eq_ok.mp hstep
  obtain ⟨b, hb, -, hoffers⟩ := heff.of_finish
  have hopen := hpre.open_of_no_end h₀ hends hb
  have hr := hpre.reflects h₀ (fun m hm => (hu m hm).faithful) hb hopen
  obtain ⟨e, sh, hl, hshown, rfl, hmade⟩ :=
    hr.shown_of_start hsched.of_append.ordered hk₁ hst₀ hlive hmsg
  obtain ⟨r, task, hfin⟩ := hmade.exists_finished hm hp b.id f
  -- the connection was attached before the finish, since it is attached after it
  have hsound := hpre.sound h₀.sound
  obtain ⟨x, hx⟩ := hpre.exists_connection h₀ hk₁ hne
  have hxatt : x.attached = true := by
    obtain ⟨y, hy, hmove⟩ := heff.move hsound hx
    exact hmove.attached_of_attached (Session.isAttached_eq hy ▸ hatt)
  have hmsgs := (Build.finish_of_live k.before.hub (hsound i b hb) hopen (hid' ▸ hl)).2.2.2 c
  rw [Session.isAttached_eq hx, if_pos hxatt, hshown, Option.bind_some, hfin] at hmsgs
  refine ⟨b.id, r, task, ?_⟩
  rw [Call.offered, hoffers, hmsgs]
  exact List.mem_singleton_self _

end History

/-! ### Whole sessions -/

/-- What a connection has accepted is what its client has read and what is queued, as
long as the stream is held. The events of a build among it are well nested, and what
was told started and was finished in time was told finished, except of problems. -/
theorem streams_well_nested {listing : Listing} {config : Config} {registry : Registry}
    {s₀ s : Session} {h : List Call} {i : Nat} (h₀ : Session.new config registry = .ok s₀)
    (hm : ∀ m ∈ registry.mappers, m ∈ Mapper.builtIn) (hist : History listing s₀ h s)
    (hsched : Scheduled i h) (c : Nat) :
    (∀ x, s.hub.connections[c]? = some x → x.held = true → acceptedBy c h = readBy c h ++ x.queue) ∧
      WellNested (eventsIn i (Call.accepted c) h) ∧
      ∀ t d, .started t d ∈ eventsIn i (Call.accepted c) h → d.operationType ≠ .problems →
        FinishedFor i c h d.id →
        ∃ t' r task, .finished t' d r task ∈ eventsIn i (Call.accepted c) h := by
  have hfresh := Session.fresh_of_new h₀
  have hu : ∀ m ∈ registry.mappers, m.Uniform := fun m h => Mapper.uniform_of_mem_builtIn (hm m h)
  have hfirst := (hist.accepted_first hfresh.sound i c).1
  refine ⟨fun x hx hheld => hist.acceptedBy_eq hfresh hx hheld, ?_, ?_⟩
  · have hoffered : WellNested (eventsIn i (Call.offered c) h) := hist.wellNested_offered hfresh hu hsched
    exact hoffered.of_initial hfirst
  · rintro t d he hp ⟨pre, k, post, f, rfl, hst, hid, hends, hatt⟩
    have he' : .started t d ∈ eventsIn i (Call.offered c) (pre ++ k :: post) :=
      hfirst.subset he
    obtain ⟨build, r, task, hmsg⟩ :=
      hist.told_finished hfresh hm hsched hst hends hatt he' hid.symm hp
    refine ⟨f.endTime, r, task, ?_⟩
    obtain ⟨hpre, hstep, -⟩ := hist.split
    have hk : History listing s₀ (pre ++ [k]) k.outcome.session := hpre.snoc hstep
    have heq : eventsIn i (Call.accepted c) (pre ++ [k]) = eventsIn i (Call.offered c) (pre ++ [k]) := by
      refine (hk.accepted_first hfresh.sound i c).2.resolve_right ?_
      rintro ⟨x, hx, hdet⟩
      rw [Session.isAttached_eq hx, hdet] at hatt
      exact absurd hatt (by simp)
    rw [← List.singleton_append, ← List.append_assoc, eventsIn_append, heq]
    refine List.mem_append_left _ (mem_eventsIn.mpr ⟨k, by simp, ?_, build, hmsg⟩)
    rw [hst]
    rfl

/-- A work item is started and finished below work of a phase that nobody asked
for, which is below another work item. -/
theorem streams_well_nested_over_hidden :
    ∃ (s₀ s : Session) (h : List Call),
      Session.new default .builtIn = .ok s₀ ∧ History .inOrder s₀ h s ∧ Scheduled 0 h ∧
      (eventsIn 0 (Call.accepted 0) h).length = 4 ∧
      (∀ x, s.hub.connections[0]? = some x → x.held = true →
        acceptedBy 0 h = readBy 0 h ++ x.queue) ∧
      WellNested (eventsIn 0 (Call.accepted 0) h) ∧
        ∀ t d, .started t d ∈ eventsIn 0 (Call.accepted 0) h → d.operationType ≠ .problems →
          FinishedFor 0 0 h d.id →
          ∃ t' r task, .finished t' d r task ∈ eventsIn 0 (Call.accepted 0) h :=
  let s₀ := sampleSession .nearestEnabledAncestor 1024
  let steps : List Step := [.connect ⟨"a"⟩ (.ofList [.workItem]), .begin ⟨"x"⟩,
    .start 0 (sampleItem 1 none), .start 0 (samplePhase 2 (some ⟨1⟩)),
    .start 0 (sampleItem 3 (some ⟨2⟩)), .finish 0 ⟨⟨3⟩, default, .success⟩,
    .finish 0 ⟨⟨2⟩, default, .success⟩, .finish 0 ⟨⟨1⟩, default, .success⟩, .close 0 .completed]
  have h₀ : Session.new default .builtIn = .ok s₀ := rfl
  have hist := Session.history_calls .inOrder steps s₀
  have hsched : Scheduled 0 (s₀.calls .inOrder steps) := by decide
  ⟨s₀, _, _, h₀, hist, hsched, by decide,
    streams_well_nested h₀ (fun _ hm => hm) hist hsched 0⟩

end BuildFeed
