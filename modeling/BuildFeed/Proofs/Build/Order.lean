/-
# Builds that differ in the order of their audiences

The audience of a build is a list, and its order decides which connection is
asked for first, and in which order connections are grouped and told. If
mappers treat all parents alike, nothing of this can be seen: two builds with
the same audience in two orders, which look alike to every connection and
count the same operations as published (`Build.Same`), answer every call
alike, and offer every connection the same (`Turn.Same`).

Key definitions: `Build.Same`, `Build.LooksLike`, `Turn.Same`.
Key theorems: `Build.Same.start`, `Build.Same.finish`, `Build.Same.close`.
-/
import BuildFeed.Proofs.Build.States
import BuildFeed.Proofs.Build.View

namespace BuildFeed

namespace LiveTable

/-- Which operations are live, and whether they were published. -/
def kinds (t : LiveTable) : List (OperationId × Bool) := t.map fun x => (x.1, x.2.isPublished)

theorem kinds_insert (t : LiveTable) (x : OperationId) (e : Entry) :
    (t.insert x e).kinds = (x, e.isPublished) :: t.kinds := rfl

theorem kinds_erase (t : LiveTable) (x : OperationId) :
    (t.erase x).kinds = t.kinds.filter fun y => y.1 ≠ x :=
  map_erase Entry.isPublished t x

end LiveTable

namespace Build

/-- Two builds look alike to every connection, and to the caller. -/
structure Same (b b' : Build) : Prop where
  alike : ∀ c, b.Alike c c b'
  kinds_eq : b'.live.kinds = b.live.kinds

end Build

/-- Two builds look alike to the caller: they tell the same of every operation. -/
structure Build.LooksLike (b b' : Build) : Prop where
  id_eq : b'.id = b.id
  closed_eq : b'.closed = b.closed
  state_eq : ∀ x, b'.state x = b.state x
  inFlight_eq : b'.inFlight = b.inFlight

namespace Build.LooksLike

theorem refl (b : Build) : b.LooksLike b := ⟨rfl, rfl, fun _ => rfl, rfl⟩

theorem trans {b b' b'' : Build} (h : b.LooksLike b') (h' : b'.LooksLike b'') : b.LooksLike b'' :=
  ⟨h'.id_eq.trans h.id_eq, h'.closed_eq.trans h.closed_eq,
    fun x => (h'.state_eq x).trans (h.state_eq x), h'.inFlight_eq.trans h.inFlight_eq⟩

/-- What a build tells of operations is told by which are live and were published. -/
theorem of_kinds {b b' : Build} (hid : b'.id = b.id) (hclosed : b'.closed = b.closed)
    (hkinds : b'.live.kinds = b.live.kinds) : b.LooksLike b' := by
  refine ⟨hid, hclosed, fun x => ?_, ?_⟩
  · have hx : (b'.live.get? x).map Entry.isPublished = (b.live.get? x).map Entry.isPublished := by
      rw [← LiveTable.lookup_map, ← LiveTable.lookup_map]
      exact congrArg (·.lookup x) hkinds
    unfold state
    cases hl : b.live.get? x with
    | none =>
      rw [hl, Option.map_none, Option.map_eq_none_iff] at hx
      rw [hx]
    | some e =>
      rw [hl, Option.map_some, Option.map_eq_some_iff] at hx
      obtain ⟨e', he', hpub⟩ := hx
      rw [he']
      cases e <;> cases e' <;> simp [Entry.isPublished] at hpub ⊢
  · have hcount := congrArg (List.countP (·.2)) hkinds
    rwa [LiveTable.kinds, LiveTable.kinds, List.countP_map, List.countP_map] at hcount

theorem orphans_eq {b b' : Build} (h : b.LooksLike b') : b'.orphans = b.orphans := by
  rw [orphans, orphans, h.closed_eq, h.inFlight_eq]

end Build.LooksLike

/-- Two calls answer alike, for every connection and for the caller. -/
structure Turn.Same (t t' : Turn) : Prop where
  build : t.build.Same t'.build
  result_eq : t'.result = t.result
  messages_eq : ∀ c, messagesTo c t'.offers = messagesTo c t.offers
  consulted_eq : t'.consulted = t.consulted

namespace Build.Same

variable {b b' : Build} {hub : Hub}

theorem id_eq (h : b.Same b') : b'.id = b.id := (h.alike 0).id_eq

theorem closed_eq (h : b.Same b') : b'.closed = b.closed := (h.alike 0).closed_eq

theorem looksLike (h : b.Same b') : b.LooksLike b' := .of_kinds h.id_eq h.closed_eq h.kinds_eq

theorem quiet (h : b.Same b') (r : Except Error Unit) : (b.quiet r).Same (b'.quiet r) :=
  ⟨h, rfl, fun _ => rfl, rfl⟩

/-- Two builds that have just begun, with the same audience. -/
theorem begin (id : BuildId) {audience audience' : List Nat}
    (h : ∀ c, c ∈ audience' ↔ c ∈ audience) :
    (Build.begin id audience).Same (Build.begin id audience') :=
  ⟨fun c => ⟨rfl, rfl, h c, rfl⟩, rfl⟩

/-! ### Starting -/

section Start

variable {registry : Registry} {policy : ParentPolicy} {op : StartSignal} {t t' : Turn}

/-- The same mappers serve somebody. -/
theorem targets_ne_nil_iff (h : b.Same b') (m : Mapper) :
    b'.targets hub m ≠ [] ↔ b.targets hub m ≠ [] := by
  rw [Build.targets_ne_nil_iff, Build.targets_ne_nil_iff]
  simp only [(h.alike _).audience]

theorem symm (h : b.Same b') : b'.Same b where
  alike c := ⟨h.id_eq.symm, h.closed_eq.symm, (h.alike c).audience.symm, (h.alike c).view_eq.symm⟩
  kinds_eq := h.kinds_eq.symm

/-- A mapper that is asked in one build is asked in the other, perhaps for another
parent. -/
theorem exists_asks (h : b.Same b') (ho : b'.closed = false) (hl : b'.live.get? op.id = none)
    (ht : b'.start registry policy hub op = some t') {m : Mapper} {p : Option OperationId}
    (ha : Asks registry policy hub b op m p) : ∃ q, Asks registry policy hub b' op m q := by
  obtain ⟨hm, slot, slots, htargets, -⟩ := ha
  have hw : b.targets hub m ≠ [] := by simp [htargets]
  exact Build.exists_asks ht ho hl hm ((h.targets_ne_nil_iff m).mpr hw)

/-- The same mappers are asked. -/
theorem consulted_eq (h : b.Same b') (ho : b.closed = false) (ho' : b'.closed = false)
    (hl : b.live.get? op.id = none) (hl' : b'.live.get? op.id = none)
    (ht : b.start registry policy hub op = some t) (ht' : b'.start registry policy hub op = some t') :
    t'.consulted = t.consulted := by
  have hfirst := firstStart_of_start ho hl ht
  have hfirst' := firstStart_of_start ho' hl' ht'
  by_cases hasks : ∃ m p, Asks registry policy hub b op m p
  · obtain ⟨m, p, ha⟩ := hasks
    obtain ⟨q, hq⟩ := h.exists_asks ho' hl' ht' ha
    rw [hfirst.consulted_of_asks ha, hfirst'.consulted_of_asks hq, m.consult_snd op q p]
  · have hnone : ∀ m p, ¬ Asks registry policy hub b op m p := fun m p ha => hasks ⟨m, p, ha⟩
    have hnone' : ∀ m p, ¬ Asks registry policy hub b' op m p := by
      intro m p ha
      obtain ⟨q, hq⟩ := h.symm.exists_asks ho hl ht ha
      exact hnone m q hq
    rw [hfirst.consulted_of_not_asks hnone, hfirst'.consulted_of_not_asks hnone']

/-- The start of an operation. -/
theorem start (h : b.Same b') (hu : ∀ m ∈ registry.mappers, m.Uniform) (hs : b.Sound)
    (hs' : b'.Sound) (ht : b.start registry policy hub op = some t) :
    ∃ t', b'.start registry policy hub op = some t' ∧ t.Same t' := by
  cases hclosed : b.closed with
  | true =>
    rw [start_of_closed _ _ _ _ hclosed, Option.some.injEq] at ht
    exact ⟨_, start_of_closed _ _ _ _ (h.closed_eq.trans hclosed), ht ▸ h.quiet _⟩
  | false =>
    have hclosed' := h.closed_eq.trans hclosed
    have hview := (h.alike 0).view_eq
    cases hl : b.live.get? op.id with
    | some e =>
      obtain ⟨e', hl', -⟩ := LiveTable.get?_eq_some_congr hview hl
      rw [start_of_live _ _ _ hclosed hl, Option.some.injEq] at ht
      refine ⟨_, start_of_live _ _ _ hclosed' hl', ht ▸ ?_⟩
      rw [startedTwice_congr h.id_eq]
      exact h.quiet _
    | none =>
      have hl' := (LiveTable.get?_eq_none_congr hview).mpr hl
      obtain ⟨t', ht'⟩ : ∃ t', b'.start registry policy hub op = some t' := by
        refine exists_start registry hub fun m hm slot hslot => ?_
        obtain ⟨c, rfl, -⟩ := exists_slotOf_of_mem_targets hs'.audience hslot
        rw [resolve_congr (h.alike c).view_eq]
        exact exists_resolve_of_start ht hclosed hl hm (((h.alike c).mem_targets_iff rfl m).mp hslot)
      have hconsulted := h.consulted_eq hclosed hclosed' hl hl' ht ht'
      refine ⟨t', ht', ?_⟩
      rcases start_outcomes hu hs hs' hclosed hclosed' hl hl' ht ht' h.targets_ne_nil_iff with
        ⟨e, href, href'⟩ | ⟨e, e', hr, hr', hpublished⟩
      · refine ⟨?_, by rw [href.result, href'.result], fun c => ?_, hconsulted⟩
        · rw [href.unchanged, href'.unchanged]
          exact h
        · rw [href.offers, href'.offers]
      · have halike : ∀ c, t.Alike c c t' := fun c => (h.alike c).records rfl hu hr hr'
        refine ⟨⟨fun c => (halike c).build, ?_⟩, (halike 0).result_eq, fun c => (halike c).messages_eq,
          hconsulted⟩
        rw [hr.build, hr'.build, LiveTable.kinds_insert, LiveTable.kinds_insert, hpublished, h.kinds_eq]

end Start

/-! ### Finishing and ending -/

/-- The finish of an operation. -/
theorem finish (h : b.Same b') (hs : b.Sound) (hs' : b'.Sound) (f : FinishSignal) :
    (b.finish hub f).Same (b'.finish hub f) := by
  have halike : ∀ c, (b.finish hub f).Alike c c (b'.finish hub f) := fun c =>
    (h.alike c).finish rfl hs hs' f
  refine ⟨⟨fun c => (halike c).build, ?_⟩, (halike 0).result_eq, fun c => (halike c).messages_eq, ?_⟩
  · cases hc : b.closed with
    | true =>
      rw [finish_of_closed hc, finish_of_closed (h.closed_eq.trans hc)]
      exact h.kinds_eq
    | false =>
      rw [live_finish_of_open hub f hs hc, live_finish_of_open hub f hs' (h.closed_eq.trans hc),
        LiveTable.kinds_erase, LiveTable.kinds_erase, h.kinds_eq]
  · rw [consulted_finish, consulted_finish]

/-- The end of a build. -/
theorem close (h : b.Same b') (hs : b.Sound) (hs' : b'.Sound) (reason : EndReason) :
    (b.close hub reason).Same (b'.close hub reason) := by
  have halike : ∀ c, (b.close hub reason).Alike c c (b'.close hub reason) := fun c =>
    (h.alike c).close rfl hs hs' reason
  refine ⟨⟨fun c => (halike c).build, ?_⟩, (halike 0).result_eq, fun c => (halike c).messages_eq, ?_⟩
  · unfold Build.close
    rw [h.closed_eq]
    cases b.closed with
    | true => exact h.kinds_eq
    | false => rfl
  · unfold Build.close
    rw [h.closed_eq]
    split <;> rfl

end Build.Same

end BuildFeed
