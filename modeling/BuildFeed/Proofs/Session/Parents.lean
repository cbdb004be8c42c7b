/-
# The parents that connections see

The parent of a new operation in the message to a connection is the nearest
ancestor that was published to the connection, if it and all ancestors before
it are live; under the other policy it is the operation's own parent, if that
is live and was published (`Sees`). The walk to it ends. All this is said of
the history alone: it holds for each connection, whatever the others ask for.

Key definitions: `NearestIn`, `Sees`.
Key theorems: `nearestIn_cons`, `Build.Reflects.resolve_eq_some`,
`History.start_offers`, `parents_exact`.
-/
import BuildFeed.Proofs.Session.Live

namespace BuildFeed

/-- An operation is the first of a lineage that was published, and it and all
before it are live. -/
def NearestIn (l : List OperationId) (published live : OperationId → Prop) (p : OperationId) : Prop :=
  ∃ l₁ l₂, l = l₁ ++ p :: l₂ ∧ published p ∧ (∀ x ∈ l₁, ¬ published x) ∧ ∀ x ∈ l₁ ++ [p], live x

section NearestIn

variable {l : List OperationId} {published published' live live' : OperationId → Prop}
  {p x : OperationId}

theorem not_nearestIn_nil : ¬ NearestIn [] published live p := by
  rintro ⟨l₁, l₂, h, -⟩
  simp at h

/-- The first of a lineage is the nearest if it was published; otherwise the
nearest is further on. -/
theorem nearestIn_cons : NearestIn (x :: l) published live p ↔
    live x ∧ ((published x ∧ x = p) ∨ (¬ published x ∧ NearestIn l published live p)) := by
  constructor
  · rintro ⟨l₁, l₂, h, hpub, hhidden, hlive⟩
    cases l₁ with
    | nil =>
      obtain ⟨rfl, rfl⟩ := List.cons.inj h
      exact ⟨hlive x (by simp), Or.inl ⟨hpub, rfl⟩⟩
    | cons y l₁ =>
      obtain ⟨rfl, rfl⟩ := List.cons.inj h
      exact ⟨hlive x (by simp), Or.inr ⟨hhidden x (by simp), l₁, l₂, rfl, hpub,
        fun z hz => hhidden z (List.mem_cons_of_mem _ hz),
        fun z hz => hlive z (List.mem_cons_of_mem _ hz)⟩⟩
  · rintro ⟨hx, ⟨hpub, rfl⟩ | ⟨hnot, l₁, l₂, rfl, hpub, hhidden, hlive⟩⟩
    · exact ⟨[], l, rfl, hpub, by simp, by simpa using hx⟩
    · refine ⟨x :: l₁, l₂, rfl, hpub, ?_, ?_⟩
      · exact List.forall_mem_cons.mpr ⟨hnot, hhidden⟩
      · exact List.forall_mem_cons.mpr ⟨hx, hlive⟩

theorem nearestIn_congr (hp : ∀ x ∈ l, published x ↔ published' x) (hl : ∀ x ∈ l, live x ↔ live' x) :
    NearestIn l published live p ↔ NearestIn l published' live' p := by
  induction l with
  | nil => exact iff_of_false not_nearestIn_nil not_nearestIn_nil
  | cons x l ih =>
    rw [nearestIn_cons, nearestIn_cons, hp x List.mem_cons_self, hl x List.mem_cons_self,
      ih (fun y hy => hp y (List.mem_cons_of_mem _ hy)) fun y hy => hl y (List.mem_cons_of_mem _ hy)]

end NearestIn

/-- A connection sees an operation as the parent of a new one, which has a
given parent and lineage. -/
def Sees (policy : ParentPolicy) (i : Nat) (h : List Call) (c : Nat) (parent : Option OperationId)
    (l : List OperationId) (p : OperationId) : Prop :=
  match policy with
  | .nearestEnabledAncestor => NearestIn l (PublishedTo i h c) (LiveAfter i h) p
  | .ownParentOnly => parent = some p ∧ LiveAfter i h p ∧ PublishedTo i h c p

namespace Build.Reflects

variable {registry : Registry} {i : Nat} {h : List Call} {b : Build} {parent : Option OperationId}
  {l : List OperationId}

/-- The walk finds the nearest published ancestor. -/
theorem walk_eq_some (hr : b.Reflects registry i h) (hord : Ordered (startsIn i h)) (c : Nat)
    (p : OperationId) :
    b.live.walk (b.slotOf c) l = some p ↔ NearestIn l (PublishedTo i h c) (LiveAfter i h) p := by
  rw [LiveTable.walk_eq_some]
  constructor
  · rintro ⟨l₁, l₂, rfl, hbefore, e, he, hreached⟩
    have hpub : PublishedTo i h c p := (hr.publishedTo_iff hord he c).mpr hreached
    have hhidden : ∀ x ∈ l₁, ¬ PublishedTo i h c x := by
      intro x hx hpub'
      obtain ⟨e', he', hnot⟩ := hbefore x hx
      have hreached' := (hr.publishedTo_iff hord he' c).mp hpub'
      rw [hnot] at hreached'
      exact absurd hreached' (by simp)
    have hlive : ∀ x ∈ l₁ ++ [p], LiveAfter i h x := by
      intro x hx
      rw [hr.live_iff]
      rcases List.mem_append.mp hx with hx | hx
      · obtain ⟨e', he', -⟩ := hbefore x hx
        exact ⟨e', he'⟩
      · rw [List.mem_singleton.mp hx]
        exact ⟨e, he⟩
    exact ⟨l₁, l₂, rfl, hpub, hhidden, hlive⟩
  · rintro ⟨l₁, l₂, rfl, hpub, hhidden, hlive⟩
    obtain ⟨e, he⟩ := (hr.live_iff p).mp (hlive p (by simp))
    have hreached : e.reached (b.slotOf c) = true := (hr.publishedTo_iff hord he c).mp hpub
    have hbefore : ∀ x ∈ l₁, ∃ e', b.live.get? x = some e' ∧ e'.reached (b.slotOf c) = false := by
      intro x hx
      obtain ⟨e', he'⟩ := (hr.live_iff x).mp (hlive x (List.mem_append_left _ hx))
      refine ⟨e', he', ?_⟩
      by_contra hne
      have hpub' := (hr.publishedTo_iff hord he' c).mpr (Bool.not_eq_false _ ▸ hne)
      exact hhidden x hx hpub'
    exact ⟨l₁, l₂, rfl, hbefore, e, he, hreached⟩

theorem ownParent_eq_some (hr : b.Reflects registry i h) (hord : Ordered (startsIn i h)) (c : Nat)
    (p : OperationId) : ownParent b.live (b.slotOf c) parent = some p ↔
      parent = some p ∧ LiveAfter i h p ∧ PublishedTo i h c p := by
  cases parent with
  | none => simp [ownParent]
  | some x =>
    rw [ownParent, Option.ite_none_right_eq_some, Option.some.injEq]
    constructor
    · rintro ⟨hany, rfl⟩
      obtain ⟨e, he, hreached⟩ := (Option.any_eq_true _ _).mp hany
      exact ⟨rfl, (hr.live_iff x).mpr ⟨e, he⟩, (hr.publishedTo_iff hord he c).mpr hreached⟩
    · rintro ⟨rfl, hlive, hpub⟩
      obtain ⟨e, he⟩ := (hr.live_iff x).mp hlive
      rw [he, Option.any_some]
      exact ⟨(hr.publishedTo_iff hord he c).mp hpub, rfl⟩

/-- The search for a parent ends, and finds the parent that the connection sees. -/
theorem resolve_eq_some (hr : b.Reflects registry i h) (hord : Ordered (startsIn i h))
    (hl : Lineage (startsIn i h) parent l) (hn : l.Nodup) (policy : ParentPolicy) (c : Nat) :
    ∃ q, resolve policy b.live (b.slotOf c) parent = some q ∧
      ∀ p, q = some p ↔ Sees policy i h c parent l p := by
  cases policy with
  | nearestEnabledAncestor =>
    exact ⟨_, nearest_eq_walk hord hr.knows _ hl hn, hr.walk_eq_some hord c⟩
  | ownParentOnly => exact ⟨_, rfl, hr.ownParent_eq_some hord c⟩

end Build.Reflects

namespace History

variable {listing : Listing} {config : Config} {registry : Registry} {s₀ s : Session}
  {h : List Call} {i : Nat} {b : Build} {op : StartSignal} {l : List OperationId}

/-- The search for the parent of a new operation ends for every connection. -/
theorem exists_start (h₀ : s₀.Fresh config registry)
    (hf : ∀ m ∈ registry.mappers, m.Faithful) (hist : History listing s₀ h s)
    (hb : s.build? i = some b) (hord : Ordered (startsIn i h ++ [op])) :
    ∃ t, b.start s.registry s.policy s.hub op = some t := by
  obtain ⟨hord, -, hpar⟩ := hord.of_snoc
  obtain ⟨l, hl, hn⟩ := hord.exists_lineage op.parent hpar
  cases hc : b.closed with
  | true => exact ⟨_, Build.start_of_closed _ _ _ _ hc⟩
  | false =>
    refine Build.exists_start _ _ fun _ _ slot hslot => ?_
    obtain ⟨c, rfl, -⟩ :=
      Build.exists_slotOf_of_mem_targets (hist.sound h₀.sound i b hb).audience hslot
    obtain ⟨q, hq, -⟩ := (hist.reflects h₀ hf hb hc).resolve_eq_some hord hl hn s.policy c
    exact ⟨q, hq⟩

/-- A start offers a connection the operation under the parent that the
connection sees. -/
theorem start_offers (h₀ : s₀.Fresh config registry)
    (hf : ∀ m ∈ registry.mappers, m.Faithful) (hist : History listing s₀ h s)
    (hb : s.build? i = some b) (hord : Ordered (startsIn i h ++ [op]))
    (hl : Lineage (startsIn i h) op.parent l) {t : Turn}
    (ht : b.start s.registry s.policy s.hub op = some t) {c : Nat} {m : Message}
    (hm : m ∈ messagesTo c t.offers) :
    ∃ sh : Showing, m = sh.started b.id ∧ sh.Made registry op ∧
      ∀ p, sh.descriptor.parent = some p ↔ Sees s.policy i h c op.parent l p := by
  obtain ⟨hord, hid, hpar⟩ := hord.of_snoc
  cases hc : b.closed with
  | true =>
    rw [Build.start_of_closed _ _ _ _ hc, Option.some.injEq] at ht
    rw [← ht] at hm
    simp [Build.quiet] at hm
  | false =>
    have hr := hist.reflects h₀ hf hb hc
    have hnone : b.live.get? op.id = none := by
      cases hget : b.live.get? op.id with
      | none => rfl
      | some e =>
        obtain ⟨o, ho, hoid⟩ := ((hr.live_iff op.id).mpr ⟨e, hget⟩).started
        exact absurd hoid (hid o ho)
    have hreg := (hist.settings h₀).1
    rcases Build.start_outcome (hreg ▸ hf) (hist.sound h₀.sound i b hb) hc hnone ht with
      ⟨e, href⟩ | ⟨e, hrec⟩
    · simp [href.offers] at hm
    · rw [hrec.offers c, Option.mem_toList, Option.map_eq_some_iff] at hm
      obtain ⟨sh, hshown, rfl⟩ := hm
      obtain ⟨l', hl', hn⟩ := hord.exists_lineage op.parent hpar
      obtain rfl := hord.lineage_unique hl hl'
      obtain ⟨q, hq, hsees⟩ := hr.resolve_eq_some hord hl hn s.policy c
      obtain rfl := Option.some.inj (hq.symm.trans (hrec.sees _ sh hshown))
      exact ⟨sh, rfl, hreg ▸ hrec.made _ sh hshown, hsees⟩

end History

/-! ### Whole sessions -/

/-- A start always returns, and the messages that it offers name the parents
that their connections see. -/
theorem parents_exact {listing : Listing} {config : Config} {registry : Registry} {s₀ s : Session}
    {h : List Call} {i : Nat} {b : Build} {op : StartSignal}
    (h₀ : Session.new config registry = .ok s₀) (hf : ∀ m ∈ registry.mappers, m.Faithful)
    (hist : History listing s₀ h s) (hb : s.build? i = some b)
    (hord : Ordered (startsIn i h ++ [op])) :
    ∃ a, s.step listing (.start i op) = .ok a ∧
      ∃ l, (∀ l', Lineage (startsIn i h) op.parent l' ↔ l' = l) ∧
        ∀ c m, m ∈ messagesTo c a.offers →
          ∃ d, m = .event b.id (.started op.startTime d) ∧
            ∀ p, d.parent = some p ↔ Sees config.dispatch.parentPolicy i h c op.parent l p := by
  have hfresh := Session.fresh_of_new h₀
  have hpolicy := (hist.settings hfresh).2.1
  obtain ⟨hord', -, hpar⟩ := hord.of_snoc
  obtain ⟨l, hl, -⟩ := hord'.exists_lineage op.parent hpar
  have honly : ∀ l', Lineage (startsIn i h) op.parent l' ↔ l' = l := by
    intro l'
    constructor
    · intro hl'
      exact hord'.lineage_unique hl' hl
    · rintro rfl
      exact hl
  obtain ⟨t, ht⟩ := hist.exists_start hfresh hf hb hord
  have hstep : s.step listing (.start i op) = .ok ⟨s.takeTurn i t, .signalled t.result, t.offers⟩ :=
    Session.step_eq_ok.mpr (.start hb ht)
  refine ⟨_, hstep, l, honly, ?_⟩
  intro c m hm
  obtain ⟨sh, rfl, hmade, hsees⟩ := hist.start_offers hfresh hf hb hord hl ht hm
  have hevent : sh.started b.id = .event b.id (.started op.startTime sh.descriptor) := by
    rw [Showing.started, hmade.op_eq]
  exact ⟨sh.descriptor, hevent, hpolicy ▸ hsees⟩

/-- A work item starts under work of a phase that nobody asked for, which was
started under another work item. The client is told of it under that item. -/
theorem parents_exact_beyond_hidden :
    ∃ (s₀ s : Session) (h : List Call) (b : Build),
      Session.new default .builtIn = .ok s₀ ∧ History .inOrder s₀ h s ∧ s.build? 0 = some b ∧
      ∃ a, s.step .inOrder (.start 0 (sampleItem 3 (some ⟨2⟩))) = .ok a ∧
        messagesTo 0 a.offers = [.event ⟨"x"⟩ (.started default
          ⟨⟨⟨3⟩, "item", "item", some ⟨1⟩⟩, .workItem "item"⟩)] ∧
        ∃ l, (∀ l', Lineage (startsIn 0 h) (some ⟨2⟩) l' ↔ l' = l) ∧
          ∀ c m, m ∈ messagesTo c a.offers →
            ∃ d, m = .event b.id (.started default d) ∧
              ∀ p, d.parent = some p ↔ Sees .nearestEnabledAncestor 0 h c (some ⟨2⟩) l p := by
  let s₀ := sampleSession .nearestEnabledAncestor 1024
  let steps : List Step := [.connect ⟨"a"⟩ (.ofList [.workItem]), .begin ⟨"x"⟩,
    .start 0 (sampleItem 1 none), .start 0 (samplePhase 2 (some ⟨1⟩))]
  let s := s₀.after .inOrder steps
  have h₀ : Session.new default .builtIn = .ok s₀ := rfl
  have hf : ∀ m ∈ Registry.builtIn.mappers, m.Faithful := fun m hm =>
    (Mapper.uniform_of_mem_builtIn hm).faithful
  have hist := Session.history_calls .inOrder steps s₀
  have hord : Ordered (startsIn 0 (s₀.calls .inOrder steps) ++ [sampleItem 3 (some ⟨2⟩)]) := by
    decide
  obtain ⟨b, hb⟩ : ∃ b, s.build? 0 = some b := Option.isSome_iff_exists.mp (by decide)
  have htold : (s.step .inOrder (.start 0 (sampleItem 3 (some ⟨2⟩)))).toOption.map
      (fun a => messagesTo 0 a.offers) = some [.event ⟨"x"⟩ (.started default
        ⟨⟨⟨3⟩, "item", "item", some ⟨1⟩⟩, .workItem "item"⟩)] := by decide
  obtain ⟨a, hstep, hexact⟩ := parents_exact h₀ hf hist hb hord
  rw [hstep, Except.toOption, Option.map_some, Option.some.injEq] at htold
  exact ⟨s₀, s, _, b, h₀, hist, hb, a, hstep, htold, hexact⟩

end BuildFeed
