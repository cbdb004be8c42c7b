/-
# Contracted trees

The events that a connection is sent of a build draw a tree: each names the
parent of its operation. A connection that asks for less is sent the
contraction of the tree that another is sent (`Contraction`): the operations
that it asked for, each under the first of these that comes on the way up.

The parents are looked for when an operation starts, and for every connection
anew, in tables that change. What is found does not: it is the nearest ancestor
of the whole history that was published to the connection, if no operation up
to it was refused (`History.event_nearest`), since parents are finished after
their children (`ParentsLast`). So the walks of both connections can be
compared along one lineage (`FirstRequested.of_lineage`).

Key definitions: `ParentsLast`, `FirstRequested`, `Contraction`, `StaysFor`.
Key theorems: `History.event_nearest`, `FirstRequested.of_lineage`,
`narrower_sees_contraction`.
-/
import BuildFeed.Proofs.Session.Narrowing
import BuildFeed.Proofs.Session.Refusals

namespace BuildFeed

open List (Forall₂)

/-! ### Parents are finished last -/

/-- Parents are finished after their children: when an operation was finished,
its children were too, however late they are started; except for those that
were refused, which need not be finished. -/
def ParentsLast (i : Nat) (h : List Call) : Prop :=
  ∀ pre, pre <+: h → ∀ op ∈ startsIn i h, ∀ x, op.parent = some x → DoneIn i pre x →
    DoneIn i pre op.id ∨ RefusedIn i pre op.id

theorem DoneIn.started {i : Nat} {h : List Call} {x : OperationId} (hd : DoneIn i h x) :
    ∃ op ∈ startsIn i h, op.id = x := by
  obtain ⟨pre, k, post, op, rfl, hst, hid, -⟩ := hd
  exact ⟨op, mem_startsIn.mpr ⟨k, by simp, hst⟩, hid⟩

theorem RefusedIn.started {i : Nat} {h : List Call} {x : OperationId} (hr : RefusedIn i h x) :
    ∃ op ∈ startsIn i h, op.id = x := by
  obtain ⟨k, hk, op, e, hst, hid, -⟩ := hr
  exact ⟨op, mem_startsIn.mpr ⟨k, hk, hst⟩, hid⟩

theorem DoneIn.finished {i : Nat} {h : List Call} {x : OperationId} (hd : DoneIn i h x) :
    x ∈ finishesIn i h := by
  obtain ⟨pre, k, post, op, rfl, -, -, k', hk', hfin⟩ := hd
  exact mem_finishesIn.mpr ⟨k', by simp [hk'], hfin⟩

/-- With a scheduler that keeps its contract, what was finished was started before. -/
theorem Scheduled.done_of_finished {i : Nat} {h : List Call} {x : OperationId} (hs : Scheduled i h)
    (hx : x ∈ finishesIn i h) : DoneIn i h x := by
  obtain ⟨k', hk', f, hst', rfl⟩ := mem_finishesIn.mp hx
  obtain ⟨pre, post, rfl⟩ := List.append_of_mem hk'
  have hall := hs.allowed
  rw [hst'] at hall
  obtain ⟨⟨op, hop, hid⟩, -⟩ := hall rfl
  obtain ⟨k, hk, hst⟩ := mem_startsIn.mp hop
  obtain ⟨pre₀, post₀, rfl⟩ := List.append_of_mem hk
  exact ⟨pre₀, k, post₀ ++ k' :: post, op, by simp, hst, hid, k', by simp, f, hst', rfl⟩

/-- A scheduler that keeps its contract finishes parents last. -/
theorem Scheduled.parentsLast {i : Nat} {h : List Call} (hs : Scheduled i h) : ParentsLast i h := by
  rintro pre ⟨post, rfl⟩ op hop x hx hdone
  rw [startsIn_append, List.mem_append] at hop
  rcases hop with hop | hop
  · refine Or.inl (hs.of_append.done_of_finished ?_)
    by_contra hnot
    exact hs.of_append.parent_unfinished op hop hnot x hx hdone.finished
  · -- it may not be started below a parent that was finished
    obtain ⟨k, hk, hst⟩ := mem_startsIn.mp hop
    obtain ⟨post₀, post₁, rfl⟩ := List.append_of_mem hk
    rw [← List.append_assoc] at hs
    have hall := hs.allowed
    rw [hst] at hall
    obtain ⟨-, hparent⟩ := hall rfl
    refine absurd ?_ (hparent x hx).2
    rw [finishesIn_append]
    exact List.mem_append_left _ hdone.finished

/-- Up to the first operation that was refused, the ancestors of an operation that
is not done are not done. -/
theorem ParentsLast.nearestIn_liveAfter_iff {listing : Listing} {s₀ s : Session} {i : Nat}
    {h pre : List Call} (hlast : ParentsLast i h) (hpre : pre <+: h) (hord : Ordered (startsIn i pre))
    (hist : History listing s₀ pre s) {published : OperationId → Prop} {p : OperationId}
    {parent : Option OperationId} {l : List OperationId} (hl : Lineage (startsIn i pre) parent l)
    (hp : ∀ x, parent = some x → ¬ DoneIn i pre x) :
    NearestIn l published (LiveAfter i pre) p ↔
      NearestIn l published (fun x => ¬ RefusedIn i pre x) p := by
  induction hl with
  | root => exact iff_of_false not_nearestIn_nil not_nearestIn_nil
  | @step op l hop _ ih =>
    have hnot := hp op.id rfl
    rw [nearestIn_cons, nearestIn_cons, liveAfter_iff_not_refused hord hist ⟨op, hop, rfl⟩ hnot]
    refine and_congr_right fun hrefused => or_congr_right (and_congr_right fun _ => ih ?_)
    intro x hx hdone
    rcases hlast pre hpre op (startsIn_subset hpre.subset hop) x hx hdone with h | h
    · exact hnot h
    · exact hrefused h

/-- An operation that was started before is not started later. -/
theorem Ordered.mem_of_started {i : Nat} {pre post : List Call} {k : Call} {op : StartSignal}
    (hord : Ordered (startsIn i (pre ++ post))) (hk : k ∈ pre ++ post) (hst : k.step = .start i op)
    (hop : ∃ o ∈ startsIn i pre, o.id = op.id) : k ∈ pre := by
  obtain ⟨o, ho, hid⟩ := hop
  obtain ⟨k', hk', hst'⟩ := mem_startsIn.mp ho
  rwa [hord.call_unique hk (List.mem_append_left _ hk') hst hst' hid.symm]

/-- Before the call that starts an operation it was not started. -/
theorem Ordered.not_started_before {i : Nat} {pre post : List Call} {k : Call} {op : StartSignal}
    (hord : Ordered (startsIn i (pre ++ k :: post))) (hst : k.step = .start i op) :
    ∀ o ∈ startsIn i pre, o.id ≠ op.id := by
  have hcons : startsIn i (k :: post) = [op] ++ startsIn i post := by
    simp [startsIn, hst, Step.start?]
  rw [startsIn_append, hcons, ← List.append_assoc] at hord
  exact (hord.of_initial (List.prefix_append ..)).of_snoc.2.1

/-- What becomes of an operation that was started does not change. -/
theorem publishedTo_append_iff {i c : Nat} {pre post : List Call} {x : OperationId}
    (hord : Ordered (startsIn i (pre ++ post))) (hx : ∃ o ∈ startsIn i pre, o.id = x) :
    PublishedTo i (pre ++ post) c x ↔ PublishedTo i pre c x := by
  constructor
  · rintro ⟨k, hk, op, hst, rfl, hne⟩
    exact ⟨k, hord.mem_of_started hk hst hx, op, hst, rfl, hne⟩
  · exact fun hp => hp.mono (List.subset_append_left ..)

theorem refusedIn_append_iff {i : Nat} {pre post : List Call} {x : OperationId}
    (hord : Ordered (startsIn i (pre ++ post))) (hx : ∃ o ∈ startsIn i pre, o.id = x) :
    RefusedIn i (pre ++ post) x ↔ RefusedIn i pre x := by
  constructor
  · rintro ⟨k, hk, op, e, hst, rfl, hreply⟩
    exact ⟨k, hord.mem_of_started hk hst hx, op, e, hst, rfl, hreply⟩
  · rintro ⟨k, hk, hrest⟩
    exact ⟨k, List.mem_append_left _ hk, hrest⟩

namespace History

variable {listing : Listing} {config : Config} {registry : Registry} {s₀ s : Session}
  {h : List Call} {i c : Nat} {e : Event}

/-- An event names the nearest ancestor that was published to the connection, if
none up to that was refused. -/
theorem event_nearest (h₀ : s₀.Fresh config registry)
    (hpolicy : config.dispatch.parentPolicy = .nearestEnabledAncestor)
    (hu : ∀ m ∈ registry.mappers, m.Uniform) (hist : History listing s₀ h s)
    (hord : Ordered (startsIn i h)) (hlast : ParentsLast i h)
    (he : e ∈ eventsIn i (Call.offered c) h) :
    ∃ op ∈ startsIn i h, op.id = e.descriptor.id ∧ ∃ l, Lineage (startsIn i h) op.parent l ∧
      ∀ p, e.descriptor.parent = some p ↔
        NearestIn l (PublishedTo i h c) (fun x => ¬ RefusedIn i h x) p := by
  obtain ⟨pre, k, post, op, l, rfl, hst, hid, hl, hsees⟩ := hist.event_sees h₀ hu hord he
  have hpre := hist.split.1
  have hinitial : pre <+: pre ++ k :: post := List.prefix_append ..
  have hop : op ∈ startsIn i (pre ++ k :: post) := mem_startsIn.mpr ⟨k, by simp, hst⟩
  have hord₀ : Ordered (startsIn i pre) := by
    rw [startsIn_append] at hord
    exact hord.of_initial (List.prefix_append ..)
  have hparent : ∀ x, op.parent = some x → ¬ DoneIn i pre x := by
    intro x hx hdone
    have hstarted : ∃ o ∈ startsIn i pre, o.id = op.id :=
      (hlast pre hinitial op hop x hx hdone).elim DoneIn.started RefusedIn.started
    obtain ⟨o, ho, hoid⟩ := hstarted
    exact hord.not_started_before hst o ho hoid
  refine ⟨op, hop, hid, l, hl.mono (startsIn_subset hinitial.subset), fun p => ?_⟩
  rw [hsees p, hpolicy]
  refine (hlast.nearestIn_liveAfter_iff hinitial hord₀ hpre hl hparent).trans ?_
  refine nearestIn_congr (fun x hx => ?_) fun x hx => ?_
  · exact (publishedTo_append_iff hord (hl.started x hx)).symm
  · rw [refusedIn_append_iff hord (hl.started x hx)]

end History

/-! ### Following parents upward -/

/-- The first operation of a type asked for that is reached from a parent by
following the parents in started events upward; `none` if the way up ends before. -/
inductive FirstRequested (subs : SubscriptionSet) (es : List Event) :
    Option OperationId → Option OperationId → Prop
  | root : FirstRequested subs es none none
  | here {t : Time.Instant} {d : Descriptor} (he : .started t d ∈ es)
      (hr : subs.requests d.operationType = true) : FirstRequested subs es (some d.id) (some d.id)
  | up {t : Time.Instant} {d : Descriptor} {q : Option OperationId} (he : .started t d ∈ es)
      (hr : subs.requests d.operationType = false) (hup : FirstRequested subs es d.parent q) :
    FirstRequested subs es (some d.id) q

/-- The events are those of the other list that were asked for, in the same order
and equal but for the parent, which is the first operation asked for that is
reached by following the parents in the other list. -/
def Contraction (subs : SubscriptionSet) (es₁ es₂ : List Event) : Prop :=
  Forall₂ (fun e₁ e₂ => ∃ q, e₁ = e₂.withParent q ∧
    ∀ q', FirstRequested subs es₂ e₂.descriptor.parent q' ↔ q' = q) es₁ (requestedIn subs es₂)

/-- No operation is told started in two ways. -/
def StartedOnce (es : List Event) : Prop :=
  ∀ {t t' d d'}, .started t d ∈ es → .started t' d' ∈ es → d.id = d'.id → d = d'

namespace FirstRequested

variable {subs : SubscriptionSet} {es : List Event} {p q q' : Option OperationId}

/-- Only one operation is reached. -/
theorem unique (hone : StartedOnce es) (h : FirstRequested subs es p q)
    (h' : FirstRequested subs es p q') : q' = q := by
  induction h generalizing q' with
  | root => cases h'; rfl
  | @here t d he hr =>
    generalize hp : some d.id = p at h'
    cases h' with
    | root => exact absurd hp (by simp)
    | here => rfl
    | up he' hr' _ =>
      obtain rfl := hone he he' (Option.some.inj hp)
      exact absurd (hr.symm.trans hr') (by simp)
  | @up t d q he hr _ ih =>
    generalize hp : some d.id = p at h'
    cases h' with
    | root => exact absurd hp (by simp)
    | here he' hr' =>
      obtain rfl := hone he he' (Option.some.inj hp)
      exact absurd (hr'.symm.trans hr) (by simp)
    | up he' _ hup' =>
      obtain rfl := hone he he' (Option.some.inj hp)
      exact ih hup'

/-- The walks of two connections along one lineage: following the parents that the
second sees leads from the nearest ancestor for the second to the nearest for the
first. -/
theorem of_lineage {ops : List StartSignal} {published₁ published₂ live : OperationId → Prop}
    (hsub : ∀ x, published₁ x → published₂ x)
    (hevent : ∀ op ∈ ops, published₂ op.id → ∃ t d, .started t d ∈ es ∧ d.id = op.id ∧
      (subs.requests d.operationType = true ↔ published₁ op.id) ∧
      ∀ l, Lineage ops op.parent l → ∀ p, d.parent = some p ↔ NearestIn l published₂ live p)
    {parent : Option OperationId} {l : List OperationId} (hl : Lineage ops parent l) :
    ∀ {q₁ q₂ : Option OperationId}, (∀ p, q₁ = some p ↔ NearestIn l published₁ live p) →
      (∀ p, q₂ = some p ↔ NearestIn l published₂ live p) → FirstRequested subs es q₂ q₁ := by
  have hnone : ∀ {q : Option OperationId} {P : OperationId → Prop}, (∀ p, q = some p ↔ P p) →
      (∀ p, ¬ P p) → q = none := fun hq hP =>
    Option.eq_none_iff_forall_not_mem.mpr fun p hp => hP p ((hq p).mp hp)
  induction hl with
  | root =>
    intro q₁ q₂ h₁ h₂
    rw [hnone h₁ fun _ => not_nearestIn_nil, hnone h₂ fun _ => not_nearestIn_nil]
    exact .root
  | @step op l hop hl ih =>
    intro q₁ q₂ h₁ h₂
    simp only [nearestIn_cons] at h₁ h₂
    by_cases hlive : live op.id
    swap
    · -- both walks end
      rw [hnone h₁ fun p hp => hlive hp.1, hnone h₂ fun p hp => hlive hp.1]
      exact .root
    by_cases hpub₂ : published₂ op.id
    · obtain ⟨t, d, he, hid, hreq, hparent⟩ := hevent op hop hpub₂
      have hq₂ : q₂ = some d.id := by
        rw [hid]
        exact (h₂ op.id).mpr ⟨hlive, Or.inl ⟨hpub₂, rfl⟩⟩
      rw [hq₂]
      by_cases hpub₁ : published₁ op.id
      · have hq₁ : q₁ = some d.id := by
          rw [hid]
          exact (h₁ op.id).mpr ⟨hlive, Or.inl ⟨hpub₁, rfl⟩⟩
        rw [hq₁]
        exact .here he (hreq.mpr hpub₁)
      · -- the second was sent an ancestor that the first did not ask for
        have hr : subs.requests d.operationType = false :=
          Bool.eq_false_iff.mpr fun hr => hpub₁ (hreq.mp hr)
        refine .up he hr (ih (fun p => ?_) (hparent l hl))
        rw [h₁ p]
        simp [hlive, hpub₁]
    · have hpub₁ : ¬ published₁ op.id := fun h => hpub₂ (hsub _ h)
      refine ih (fun p => ?_) fun p => ?_
      · rw [h₁ p]
        simp [hlive, hpub₁]
      · rw [h₂ p]
        simp [hlive, hpub₂]

end FirstRequested

/-! ### Two connections -/

/-- What the narrower connection was told started was told to the other. -/
theorem exists_started_of_narrowed {subs : SubscriptionSet} {es₁ es₂ : List Event}
    (hrel : Forall₂ Event.SameButParent es₁ (requestedIn subs es₂)) {t : Time.Instant}
    {d₁ : Descriptor} (he : .started t d₁ ∈ es₁) : ∃ d₂, .started t d₂ ∈ es₂ ∧ d₂.id = d₁.id ∧
      subs.requests d₂.operationType = true := by
  obtain ⟨e₂, hmem, p, heq⟩ := exists_of_mem_left hrel he
  obtain ⟨hmem, hr⟩ := mem_requestedIn.mp hmem
  cases e₂ with
  | started t₂ d₂ =>
    obtain ⟨rfl, rfl⟩ := Event.started.inj heq
    exact ⟨d₂, hmem, rfl, hr⟩
  | finished => exact absurd heq (by simp [Event.withParent])

namespace History

variable {listing : Listing} {config : Config} {registry : Registry} {s₀ s : Session}
  {h : List Call} {i c c₁ c₂ : Nat} {subs₁ subs₂ : SubscriptionSet}

theorem startedOnce (h₀ : s₀.Fresh config registry) (hu : ∀ m ∈ registry.mappers, m.Uniform)
    (hist : History listing s₀ h s) (hord : Ordered (startsIn i h)) :
    StartedOnce (eventsIn i (Call.offered c) h) := by
  intro t t' d d' he he' hid
  obtain ⟨k, hk, op, build, hst, hopid, hm⟩ := hist.start_of_mem h₀ hu hord he
  obtain ⟨k', hk', op', build', hst', hopid', hm'⟩ := hist.start_of_mem h₀ hu hord he'
  obtain rfl := hord.call_unique hk hk' hst hst' (by rw [hopid, hopid', hid])
  obtain ⟨pre, post, -, hpre, heff, -⟩ := hist.exists_split hk
  have hproper := heff.proper (hpre.sound h₀.sound)
  have hone : (k.offered c).length ≤ 1 := messagesTo_length_le_one c k.outcome.offers hproper.1
  have hmm : Message.event build (.started t d) = .event build' (.started t' d') := by
    obtain ⟨m, hm₀⟩ := List.length_eq_one_iff.mp (Nat.le_antisymm hone (List.length_pos_of_mem hm))
    rw [hm₀, List.mem_singleton] at hm hm'
    rw [hm, hm']
  obtain ⟨-, hev⟩ := Message.event.inj hmm
  exact (Event.started.inj hev).2

/-- The operations that were published to a connection are those that it was told
started. -/
theorem publishedTo_iff (h₀ : s₀.Fresh config registry) (hu : ∀ m ∈ registry.mappers, m.Uniform)
    (hist : History listing s₀ h s) (hord : Ordered (startsIn i h)) {x : OperationId} :
    PublishedTo i h c x ↔ x ∈ startedIds (eventsIn i (Call.offered c) h) := by
  refine ⟨hist.mem_of_publishedTo h₀ hu hord, fun hx => ?_⟩
  obtain ⟨t, d, he, rfl⟩ := mem_startedIds.mp hx
  obtain ⟨k, hk, op, build, hst, hid, hm⟩ := hist.start_of_mem h₀ hu hord he
  exact ⟨k, hk, op, hst, hid, List.ne_nil_of_mem hm⟩

/-- Of an operation that the second connection was told started, the first was
told if it asked for the type. -/
theorem requested_iff_publishedTo (h₀ : s₀.Fresh config registry)
    (hu : ∀ m ∈ registry.mappers, m.Uniform) (hist : History listing s₀ h s)
    (hord : Ordered (startsIn i h))
    (hrel : Forall₂ Event.SameButParent (eventsIn i (Call.offered c₁) h)
      (requestedIn subs (eventsIn i (Call.offered c₂) h)))
    {t : Time.Instant} {d : Descriptor} (he : .started t d ∈ eventsIn i (Call.offered c₂) h) :
    subs.requests d.operationType = true ↔ PublishedTo i h c₁ d.id := by
  rw [hist.publishedTo_iff h₀ hu hord, mem_startedIds]
  constructor
  · intro hr
    obtain ⟨e₁, he₁, p, rfl⟩ := exists_of_mem_right hrel (mem_requestedIn.mpr ⟨he, hr⟩)
    exact ⟨t, d.withParent p, he₁, rfl⟩
  · rintro ⟨t₁, d₁, he₁, hid⟩
    obtain ⟨d₂, he₂, hid₂, hr⟩ := exists_started_of_narrowed hrel he₁
    obtain rfl := hist.startedOnce h₀ hu hord he₂ he (hid₂.trans hid)
    exact hr

/-- The parent that the first connection is told leads on from the one that the
second is told. -/
theorem firstRequested (h₀ : s₀.Fresh config registry)
    (hpolicy : config.dispatch.parentPolicy = .nearestEnabledAncestor)
    (hu : ∀ m ∈ registry.mappers, m.Uniform) (hist : History listing s₀ h s)
    (hord : Ordered (startsIn i h)) (hlast : ParentsLast i h)
    (hrel : Forall₂ Event.SameButParent (eventsIn i (Call.offered c₁) h)
      (requestedIn subs (eventsIn i (Call.offered c₂) h)))
    {e₁ e₂ : Event} (he₁ : e₁ ∈ eventsIn i (Call.offered c₁) h)
    (he₂ : e₂ ∈ eventsIn i (Call.offered c₂) h) (hid : e₁.descriptor.id = e₂.descriptor.id) :
    FirstRequested subs (eventsIn i (Call.offered c₂) h) e₂.descriptor.parent e₁.descriptor.parent := by
  obtain ⟨op₁, hop₁, hid₁, l₁, hl₁, hp₁⟩ := hist.event_nearest h₀ hpolicy hu hord hlast he₁
  obtain ⟨op₂, hop₂, hid₂, l₂, hl₂, hp₂⟩ := hist.event_nearest h₀ hpolicy hu hord hlast he₂
  obtain rfl := hord.eq_of_id hop₁ hop₂ (by rw [hid₁, hid₂, hid])
  obtain rfl := hord.lineage_unique hl₁ hl₂
  refine FirstRequested.of_lineage ?_ ?_ hl₁ hp₁ hp₂
  · intro x hx
    rw [hist.publishedTo_iff h₀ hu hord] at hx ⊢
    obtain ⟨t, d₁, he, rfl⟩ := mem_startedIds.mp hx
    obtain ⟨d₂, he₂, hid₂, -⟩ := exists_started_of_narrowed hrel he
    exact mem_startedIds.mpr ⟨t, d₂, he₂, hid₂⟩
  · intro op hop hpub
    obtain ⟨t, d, he, hid⟩ := mem_startedIds.mp (hist.mem_of_publishedTo h₀ hu hord hpub)
    refine ⟨t, d, he, hid, ?_, fun l hl p => ?_⟩
    · rw [hist.requested_iff_publishedTo h₀ hu hord hrel he, hid]
    · obtain ⟨op', hop', hid', l', hl', hp'⟩ := hist.event_nearest h₀ hpolicy hu hord hlast he
      obtain rfl := hord.eq_of_id hop' hop (hid'.trans hid)
      obtain rfl := hord.lineage_unique hl hl'
      exact hp' p

end History

/-! ### Connections that stay -/

/-- A connection stays for a build: it is of the audience, and while the build is
open the calls that start and finish operations leave it attached. -/
def StaysFor (i c : Nat) (h : List Call) : Prop :=
  ∀ k ∈ h, k.step.build? = some i → k.step.ends i = false → ∀ b ∈ k.before.build? i,
    b.closed = false → c ∈ b.audience ∧ k.outcome.session.hub.isAttached c = true

instance (i c : Nat) (h : List Call) : Decidable (StaysFor i c h) :=
  inferInstanceAs (Decidable (∀ k ∈ h, k.step.build? = some i → k.step.ends i = false →
    ∀ b ∈ k.before.build? i, b.closed = false →
      c ∈ b.audience ∧ k.outcome.session.hub.isAttached c = true))

namespace History

variable {listing : Listing} {config : Config} {registry : Registry} {s₀ s : Session}
  {pre post h : List Call} {k : Call} {i c : Nat} {m : Message} {x : Connection}

/-- Events come of signals on an open build. -/
theorem open_of_event (h₀ : s₀.Fresh config registry) (hist : History listing s₀ (pre ++ k :: post) s)
    (hi : k.step.build? = some i) (hm : m ∈ k.offered c) (hev : m.event? ≠ none) :
    k.step.ends i = false ∧ ∃ b, k.before.build? i = some b ∧ b.closed = false := by
  have hend : (∀ op, k.step ≠ .start i op) → ¬ ∀ f, k.step ≠ .finish i f := fun hs hf =>
    hev (hist.end_call h₀ hi hs hf hm)
  have hstep := hist.split.2.1
  obtain ⟨s₁, st, a⟩ := k
  have hoffers : a.offers ≠ [] := by
    intro hnil
    rw [Call.offered, hnil] at hm
    exact absurd hm (by simp [messagesTo])
  cases Session.effect_on_build (Session.step_eq_ok.mp hstep) i with
  | begun => exact absurd hi (by simp [Step.build?])
  | other hne => exact absurd hi hne
  | @start op b t a hb ht _ _ ho =>
    refine ⟨rfl, b, hb, Bool.eq_false_iff.mpr fun hc => hoffers ?_⟩
    rw [Build.start_of_closed _ _ _ _ hc, Option.some.injEq] at ht
    rw [ho, ← ht]
    rfl
  | @finish f b a hb _ _ ho =>
    refine ⟨rfl, b, hb, Bool.eq_false_iff.mpr fun hc => hoffers ?_⟩
    rw [ho, Build.finish_of_closed hc]
    rfl
  | close => exact absurd (by simp) (hend (by simp))
  | drop => exact absurd (by simp) (hend (by simp))

/-- A connection that stays for a build attends it. -/
theorem attends (h₀ : s₀.Fresh config registry) (hist : History listing s₀ h s)
    (hx : s.hub.connections[c]? = some x) (hstay : StaysFor i c h) : Attends i c x.subscriptions h := by
  intro k hk hi hends b hb hopen
  obtain ⟨hc, hatt⟩ := hstay k hk hi hends b hb hopen
  refine ⟨hc, ?_⟩
  obtain ⟨pre, post, -, hpre, heff, hpost⟩ := hist.exists_split hk
  have hsound := hpre.sound h₀.sound
  cases hz : k.before.hub.connections[c]? with
  | none =>
    -- a connection is not made by a call on a build
    obtain ⟨y, hy⟩ : ∃ y, k.outcome.session.hub.connections[c]? = some y := by
      rw [Hub.isAttached] at hatt
      exact Option.isSome_iff_exists.mp (Option.isSome_of_any hatt)
    obtain ⟨-, id, subs, hst, -⟩ := heff.made hz hy
    rw [hst] at hi
    exact absurd hi (by simp [Step.build?])
  | some z =>
    obtain ⟨y, hy, hmove⟩ := heff.move hsound hz
    obtain ⟨x', hx', hsubs⟩ := hpost.keeps_connection (heff.sound hsound) hy
    obtain rfl := Option.some.inj (hx'.symm.trans hx)
    have hzatt : z.attached = true := hmove.attached_of_attached (Session.isAttached_eq hy ▸ hatt)
    rw [Hub.subscriptions?, hz, hsubs, hmove.subscriptions_eq]
    simp [hzatt]

/-- A connection that stays accepts all events of the build. -/
theorem accepted_of_staysFor (h₀ : s₀.Fresh config registry) (hist : History listing s₀ h s)
    (hstay : StaysFor i c h) : eventsIn i (Call.accepted c) h = eventsIn i (Call.offered c) h := by
  refine List.flatMap_congr fun k hk => ?_
  split
  swap
  · rfl
  next hi =>
  obtain ⟨pre, post, rfl, hpre, heff, -⟩ := hist.exists_split hk
  rcases heff.accepted_cases (hpre.sound h₀.sound) with
    heq | ⟨hnil, y, hy, hdet⟩
  · rw [heq]
  · -- it would not be attached after news that it did not accept
    rw [hnil, List.filterMap_nil]
    refine (List.filterMap_eq_nil_iff.mpr fun m hm => ?_).symm
    by_contra hev
    obtain ⟨hends, b, hb, hopen⟩ := hist.open_of_event h₀ hi hm hev
    obtain ⟨-, hatt⟩ := hstay k hk hi hends b hb hopen
    rw [Session.isAttached_eq hy, hdet] at hatt
    exact absurd hatt (by simp)

end History

/-! ### Whole sessions -/

/-- If every operation is started once, after its parent, and parents are finished
last, then of two connections that stay for a build the one that asks for less
is sent the contraction of what the other is sent. -/
theorem narrower_sees_contraction {listing : Listing} {config : Config} {registry : Registry}
    {s₀ s : Session} {h : List Call} {i c₁ c₂ : Nat} {x₁ x₂ : Connection}
    (h₀ : Session.new config registry = .ok s₀)
    (hpolicy : config.dispatch.parentPolicy = .nearestEnabledAncestor)
    (hm : ∀ m ∈ registry.mappers, m ∈ Mapper.builtIn) (hist : History listing s₀ h s)
    (hord : Ordered (startsIn i h)) (hlast : ParentsLast i h)
    (hx₁ : s.hub.connections[c₁]? = some x₁) (hx₂ : s.hub.connections[c₂]? = some x₂)
    (hsubs : ∀ ty, x₁.subscriptions.requests ty = true → x₂.subscriptions.requests ty = true)
    (hstay₁ : StaysFor i c₁ h) (hstay₂ : StaysFor i c₂ h) :
    Contraction x₁.subscriptions (eventsIn i (Call.accepted c₁) h)
      (eventsIn i (Call.accepted c₂) h) := by
  have hfresh := Session.fresh_of_new h₀
  have hu : ∀ m ∈ registry.mappers, m.Uniform := fun m h => Mapper.uniform_of_mem_builtIn (hm m h)
  rw [hist.accepted_of_staysFor hfresh hstay₁, hist.accepted_of_staysFor hfresh hstay₂]
  have hrel := hist.narrowed_offered hfresh hm hsubs (hist.attends hfresh hx₁ hstay₁)
    (hist.attends hfresh hx₂ hstay₂)
  refine (forall₂_imp_of_mem hrel fun e₁ he₁ e₂ he₂ hsame => ?_)
  obtain ⟨q, rfl⟩ := hsame
  have he₂' := (mem_requestedIn.mp he₂).1
  have hdesc := Event.descriptor_withParent e₂ q
  have hreached : FirstRequested x₁.subscriptions _ e₂.descriptor.parent
      (e₂.withParent q).descriptor.parent :=
    hist.firstRequested hfresh hpolicy hu hord hlast hrel he₁ he₂' (by rw [hdesc]; rfl)
  rw [hdesc, Descriptor.parent_withParent] at hreached
  refine ⟨q, rfl, fun q' => ⟨hreached.unique (hist.startedOnce hfresh hu hord), ?_⟩⟩
  rintro rfl
  exact hreached

/-- An item below a phase below an item, of which one client asks for the items
alone. -/
theorem narrower_sees_contraction_of_items :
    ∃ (s₀ s : Session) (h : List Call) (x₁ x₂ : Connection),
      Session.new default .builtIn = .ok s₀ ∧ History .inOrder s₀ h s ∧ Scheduled 0 h ∧
      s.hub.connections[0]? = some x₁ ∧ s.hub.connections[1]? = some x₂ ∧
      StaysFor 0 0 h ∧ StaysFor 0 1 h ∧
      (eventsIn 0 (Call.accepted 0) h).map (·.descriptor.parent) = [none, some ⟨1⟩, some ⟨1⟩, none] ∧
      (eventsIn 0 (Call.accepted 1) h).map (·.descriptor.parent) =
        [none, some ⟨1⟩, some ⟨2⟩, some ⟨2⟩, some ⟨1⟩, none] ∧
      Contraction x₁.subscriptions (eventsIn 0 (Call.accepted 0) h) (eventsIn 0 (Call.accepted 1) h) := by
  let s₀ := sampleSession .nearestEnabledAncestor 1024
  let steps : List Step := [.connect ⟨"a"⟩ (.ofList [.workItem]),
    .connect ⟨"b"⟩ (.ofList [.workItem, .buildPhase]), .begin ⟨"x"⟩, .start 0 (sampleItem 1 none),
    .start 0 (samplePhase 2 (some ⟨1⟩)), .start 0 (sampleItem 3 (some ⟨2⟩)),
    .finish 0 ⟨⟨3⟩, default, .success⟩, .finish 0 ⟨⟨2⟩, default, .success⟩,
    .finish 0 ⟨⟨1⟩, default, .success⟩]
  let h := s₀.calls .inOrder steps
  have h₀ : Session.new default .builtIn = .ok s₀ := rfl
  have hist := Session.history_calls .inOrder steps s₀
  have hsched : Scheduled 0 h := by decide
  have hstay₁ : StaysFor 0 0 h := by decide
  have hstay₂ : StaysFor 0 1 h := by decide
  have hone : ∃ x ∈ (s₀.after .inOrder steps).hub.connections[0]?,
      x.subscriptions = .ofList [.workItem] := by decide
  have htwo : ∃ x ∈ (s₀.after .inOrder steps).hub.connections[1]?,
      x.subscriptions = .ofList [.workItem, .buildPhase] := by decide
  obtain ⟨x₁, hx₁, hs₁⟩ := hone
  obtain ⟨x₂, hx₂, hs₂⟩ := htwo
  have hsubs : ∀ ty, x₁.subscriptions.requests ty = true → x₂.subscriptions.requests ty = true := by
    rw [hs₁, hs₂]
    intro ty
    cases ty <;> decide
  exact ⟨s₀, _, h, x₁, x₂, h₀, hist, hsched, hx₁, hx₂, hstay₁, hstay₂, by decide, by decide,
    narrower_sees_contraction h₀ rfl (fun _ hm => hm) hist hsched.ordered hsched.parentsLast hx₁ hx₂
      hsubs hstay₁ hstay₂⟩

end BuildFeed
