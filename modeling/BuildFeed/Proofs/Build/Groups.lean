/-
# Slots grouped by the parents they see

When an operation starts, the slots that want it are grouped by the parents
that they see, and each group has a descriptor of its own. Grouping loses and
repeats no slot (`Build.perm_group`) and puts each under the parent it sees
(`Build.mem_group`), so the descriptor that a slot gets can be told from its
parent alone (`Build.descriptorFor_deliveries`), and with it the messages that
its connection gets (`Build.messagesTo_fanOut`). No parent has two groups, and
no group is empty (`Build.grouped_group`).

Key definitions: `Build.Grouped`, `descriptorFor`, `Build.fanOut`.
Key theorems: `Build.resolveAll_eq_some`, `Build.perm_group`, `Build.mem_group`,
`Build.grouped_group`, `Build.descriptorFor_deliveries`, `Build.messagesTo_fanOut`.
-/
import BuildFeed.Proofs.Build.Slots
import BuildFeed.Proofs.Delivery
import Mathlib.Data.List.Perm.Basic

namespace BuildFeed
namespace Build

/-! ### Searching for several slots -/

theorem resolveAll_cons {policy : ParentPolicy} {t : LiveTable} {parent : Option OperationId}
    {slot : Nat} {slots : List Nat} {ps : List (Option OperationId × Nat)} :
    resolveAll policy t parent (slot :: slots) = some ps ↔
      ∃ p qs, resolve policy t slot parent = some p ∧ resolveAll policy t parent slots = some qs ∧
        ps = (p, slot) :: qs := by
  rw [resolveAll]
  constructor
  · intro h
    split at h
    · rename_i p qs hp hqs
      exact ⟨p, qs, hp, hqs, (Option.some.inj h).symm⟩
    · simp at h
  · rintro ⟨p, qs, hp, hqs, rfl⟩
    rw [hp, hqs]

/-- Every slot is listed, with the parent it sees. -/
theorem resolveAll_eq_some {policy : ParentPolicy} {t : LiveTable} {parent : Option OperationId} :
    ∀ {slots : List Nat} {ps : List (Option OperationId × Nat)},
      resolveAll policy t parent slots = some ps →
      ps.map (·.2) = slots ∧ ∀ x ∈ ps, resolve policy t x.2 parent = some x.1
  | [], ps, h => by
    obtain rfl : [] = ps := Option.some.inj h
    exact ⟨rfl, by simp⟩
  | slot :: slots, ps, h => by
    obtain ⟨p, qs, hp, hqs, rfl⟩ := resolveAll_cons.mp h
    obtain ⟨hm, hr⟩ := resolveAll_eq_some hqs
    refine ⟨by rw [List.map_cons, hm], fun x hx => ?_⟩
    rcases List.mem_cons.mp hx with rfl | hx
    · exact hp
    · exact hr x hx

/-- The search for all ends if the search for each ends. -/
theorem exists_resolveAll {policy : ParentPolicy} {t : LiveTable} {parent : Option OperationId} :
    ∀ {slots : List Nat}, (∀ slot ∈ slots, ∃ p, resolve policy t slot parent = some p) →
      ∃ ps, resolveAll policy t parent slots = some ps
  | [], _ => ⟨[], rfl⟩
  | slot :: slots, h => by
    obtain ⟨p, hp⟩ := h slot List.mem_cons_self
    obtain ⟨ps, hps⟩ := exists_resolveAll fun d hd => h d (List.mem_cons_of_mem _ hd)
    exact ⟨(p, slot) :: ps, resolveAll_cons.mpr ⟨p, ps, hp, hps, rfl⟩⟩

/-! ### Grouping -/

theorem perm_addToGroup (p : Option OperationId) (slot : Nat) : ∀ gs : List Group,
    ((addToGroup p slot gs).flatMap (·.2)).Perm (gs.flatMap (·.2) ++ [slot])
  | [] => .refl _
  | (q, slots) :: rest => by
    rw [addToGroup]
    by_cases h : q = p
    · rw [if_pos h, List.flatMap_cons, List.flatMap_cons, List.append_assoc, List.append_assoc]
      exact List.perm_append_comm.append_left _
    · rw [if_neg h, List.flatMap_cons, List.flatMap_cons, List.append_assoc]
      exact (perm_addToGroup p slot rest).append_left _

theorem mem_addToGroup {p q : Option OperationId} {slot x : Nat} {slots : List Nat} :
    ∀ {gs : List Group}, (q, slots) ∈ addToGroup p slot gs → x ∈ slots →
      (q = p ∧ x = slot) ∨ ∃ slots', (q, slots') ∈ gs ∧ x ∈ slots'
  | [], h, hx => by
    obtain ⟨rfl, rfl⟩ := Prod.mk.inj (List.mem_singleton.mp h)
    exact Or.inl ⟨rfl, List.mem_singleton.mp hx⟩
  | (r, ds) :: rest, h, hx => by
    rw [addToGroup] at h
    by_cases hr : r = p
    · rw [if_pos hr] at h
      rcases List.mem_cons.mp h with he | h
      · obtain ⟨rfl, rfl⟩ := Prod.mk.inj he
        rcases List.mem_append.mp hx with hx | hx
        · exact Or.inr ⟨ds, List.mem_cons_self, hx⟩
        · exact Or.inl ⟨hr, List.mem_singleton.mp hx⟩
      · exact Or.inr ⟨slots, List.mem_cons_of_mem _ h, hx⟩
    · rw [if_neg hr] at h
      rcases List.mem_cons.mp h with he | h
      · obtain ⟨rfl, rfl⟩ := Prod.mk.inj he
        exact Or.inr ⟨slots, List.mem_cons_self, hx⟩
      · rcases mem_addToGroup h hx with hn | ⟨slots', hm, hx'⟩
        · exact Or.inl hn
        · exact Or.inr ⟨slots', List.mem_cons_of_mem _ hm, hx'⟩

/-- Grouping onto groups that are there already. -/
theorem perm_foldl_addToGroup : ∀ (ps : List (Option OperationId × Nat)) (gs : List Group),
    ((ps.foldl (fun groups x => addToGroup x.1 x.2 groups) gs).flatMap (·.2)).Perm
      (gs.flatMap (·.2) ++ ps.map (·.2))
  | [], gs => by simp
  | x :: ps, gs => by
    rw [List.foldl_cons, List.map_cons, ← List.singleton_append, ← List.append_assoc]
    exact (perm_foldl_addToGroup ps _).trans ((perm_addToGroup x.1 x.2 gs).append_right _)

theorem mem_foldl_addToGroup {p : Option OperationId} {slot : Nat} {slots : List Nat} :
    ∀ {ps : List (Option OperationId × Nat)} {gs : List Group},
      (p, slots) ∈ ps.foldl (fun groups x => addToGroup x.1 x.2 groups) gs → slot ∈ slots →
      (p, slot) ∈ ps ∨ ∃ slots', (p, slots') ∈ gs ∧ slot ∈ slots'
  | [], _, h, hc => Or.inr ⟨slots, h, hc⟩
  | x :: ps, gs, h, hc => by
    rw [List.foldl_cons] at h
    rcases mem_foldl_addToGroup h hc with hm | ⟨slots', hm, hc'⟩
    · exact Or.inl (List.mem_cons_of_mem _ hm)
    · rcases mem_addToGroup hm hc' with ⟨rfl, rfl⟩ | hg
      · exact Or.inl List.mem_cons_self
      · exact Or.inr hg

/-- Grouping loses and repeats no slot. -/
theorem perm_group (ps : List (Option OperationId × Nat)) :
    ((group ps).flatMap (·.2)).Perm (ps.map (·.2)) := by
  simpa [group] using perm_foldl_addToGroup ps []

/-- A slot is in the group of its parent. -/
theorem mem_group {ps : List (Option OperationId × Nat)} {p : Option OperationId} {slot : Nat}
    {slots : List Nat} (h : (p, slots) ∈ group ps) (hslot : slot ∈ slots) : (p, slot) ∈ ps := by
  rcases mem_foldl_addToGroup h hslot with hm | ⟨_, hm, -⟩
  · exact hm
  · simp at hm

/-- Groups of different parents, none of which is empty. -/
structure Grouped (gs : List Group) : Prop where
  apart : (gs.map (·.1)).Nodup
  inhabited : ∀ g ∈ gs, g.2 ≠ []

/-- A slot that is added makes a new group only if there is none of its parent. -/
theorem parents_addToGroup (p : Option OperationId) (slot : Nat) : ∀ gs : List Group,
    (addToGroup p slot gs).map (·.1) =
      if p ∈ gs.map (·.1) then gs.map (·.1) else gs.map (·.1) ++ [p]
  | [] => rfl
  | (q, slots) :: rest => by
    rw [addToGroup]
    by_cases h : q = p
    · simp [h]
    · rw [if_neg h, List.map_cons, parents_addToGroup p slot rest]
      by_cases hp : p ∈ rest.map (·.1)
      · rw [if_pos hp, if_pos (by simp [hp]), List.map_cons]
      · rw [if_neg hp, if_neg (by simpa [Ne.symm h] using hp), List.map_cons, List.cons_append]

theorem ne_nil_of_mem_addToGroup {p : Option OperationId} {slot : Nat} {g : Group} :
    ∀ {gs : List Group}, (∀ g ∈ gs, g.2 ≠ []) → g ∈ addToGroup p slot gs → g.2 ≠ []
  | [], _, h => by
    obtain rfl := List.mem_singleton.mp h
    exact List.cons_ne_nil slot []
  | (q, slots) :: rest, hgs, h => by
    rw [addToGroup] at h
    by_cases hq : q = p
    · rw [if_pos hq] at h
      rcases List.mem_cons.mp h with rfl | h
      · simp
      · exact hgs g (List.mem_cons_of_mem _ h)
    · rw [if_neg hq] at h
      rcases List.mem_cons.mp h with rfl | h
      · exact hgs _ List.mem_cons_self
      · exact ne_nil_of_mem_addToGroup (fun g hg => hgs g (List.mem_cons_of_mem _ hg)) h

theorem Grouped.add {gs : List Group} (h : Grouped gs) (p : Option OperationId) (slot : Nat) :
    Grouped (addToGroup p slot gs) := by
  refine ⟨?_, fun g hg => ne_nil_of_mem_addToGroup h.inhabited hg⟩
  rw [parents_addToGroup]
  split
  case isTrue => exact h.apart
  case isFalse hp =>
    rw [List.nodup_append]
    refine ⟨h.apart, List.nodup_singleton p, fun q hq q' hq' => ?_⟩
    rw [List.mem_singleton.mp hq']
    exact fun heq => hp (heq ▸ hq)

/-- Every parent has one group, and every group has a slot. -/
theorem grouped_group (ps : List (Option OperationId × Nat)) : Grouped (group ps) := by
  suffices h : ∀ gs, Grouped gs →
      Grouped (ps.foldl (fun groups x => addToGroup x.1 x.2 groups) gs) from
    h [] ⟨List.nodup_nil, by simp⟩
  induction ps with
  | nil => exact fun gs h => h
  | cons x ps ih => exact fun gs h => ih _ (h.add x.1 x.2)

/-- The first slot is in the first group. -/
theorem exists_group_cons (p : Option OperationId) (slot : Nat) (ps : List (Option OperationId × Nat)) :
    ∃ slots rest, group ((p, slot) :: ps) = (p, slots) :: rest := by
  suffices h : ∀ (ps : List (Option OperationId × Nat)) (slots : List Nat) (gs : List Group),
      ∃ slots' gs', ps.foldl (fun groups x => addToGroup x.1 x.2 groups) ((p, slots) :: gs) =
        (p, slots') :: gs' from h ps [slot] []
  intro ps
  induction ps with
  | nil => exact fun slots gs => ⟨slots, gs, rfl⟩
  | cons x ps ih =>
    intro slots gs
    rw [List.foldl_cons, addToGroup]
    split
    · exact ih _ _
    · exact ih _ _

/-- There are groups if there are slots. -/
theorem group_eq_nil {ps : List (Option OperationId × Nat)} : group ps = [] ↔ ps = [] := by
  cases ps with
  | nil => simp [group]
  | cons x ps =>
    obtain ⟨slots, rest, hg⟩ := exists_group_cons x.1 x.2 ps
    simp [hg]

end Build

/-! ### Deliveries -/

/-- The descriptor that deliveries hold for a slot. -/
def descriptorFor (slot : Nat) (ds : List Delivery) : Option Descriptor :=
  (ds.find? fun d => d.slots.contains slot).map (·.descriptor)

theorem descriptorFor_isSome {slot : Nat} {ds : List Delivery} :
    (descriptorFor slot ds).isSome = ds.any fun d => d.slots.contains slot := by
  rw [descriptorFor, Option.isSome_map, Bool.eq_iff_iff, List.find?_isSome, List.any_eq_true]

theorem descriptorFor_cons (slot : Nat) (d : Delivery) (ds : List Delivery) :
    descriptorFor slot (d :: ds) =
      if slot ∈ d.slots then some d.descriptor else descriptorFor slot ds := by
  by_cases h : slot ∈ d.slots
  · simp [descriptorFor, h]
  · simp [descriptorFor, h]

theorem descriptorFor_eq_none {slot : Nat} {ds : List Delivery} :
    descriptorFor slot ds = none ↔ slot ∉ ds.flatMap (·.slots) := by
  simp [descriptorFor]

namespace Build

/-- The offers of one message for each delivery to those of its connections
that are kept; a delivery may have no message. -/
def fanOut (b : Build) (keep : Nat → Bool) (message : Descriptor → Option Message)
    (ds : List Delivery) : List Offer :=
  ds.flatMap fun d =>
    match message d.descriptor with
    | none => []
    | some m => ((b.connections d).filter keep).map (⟨·, m⟩)

section FanOut

variable (b : Build) (keep : Nat → Bool) (message : Descriptor → Option Message)

theorem fanOut_cons (d : Delivery) (ds : List Delivery) :
    b.fanOut keep message (d :: ds) =
      (match message d.descriptor with
        | none => []
        | some m => ((b.connections d).filter keep).map (⟨·, m⟩)) ++ b.fanOut keep message ds :=
  List.flatMap_cons ..

/-- The connections that are served are among those of the deliveries. -/
theorem fanOut_sublist : ∀ ds : List Delivery,
    ((b.fanOut keep message ds).map (·.connection)).Sublist ((ds.flatMap b.connections).filter keep)
  | [] => List.Sublist.slnil
  | d :: ds => by
    rw [fanOut_cons, List.map_append, List.flatMap_cons, List.filter_append]
    refine List.Sublist.append ?_ (fanOut_sublist ds)
    split
    · exact List.nil_sublist _
    · rw [List.map_map, Function.comp_def, List.map_id']

/-- A connection gets the message made of the descriptor for its slot. -/
theorem messagesTo_fanOut (c : Nat) (hn : b.audience.Nodup) : ∀ ds : List Delivery,
    (ds.flatMap (·.slots)).Nodup → (∀ slot ∈ ds.flatMap (·.slots), slot < b.audience.length) →
      messagesTo c (b.fanOut keep message ds) =
        if keep c then ((descriptorFor (b.slotOf c) ds).bind message).toList else []
  | [], _, _ => by simp [fanOut, descriptorFor]
  | d :: ds, h, hslots => by
    rw [List.flatMap_cons] at h hslots
    obtain ⟨hd, hds, hdisj⟩ := List.nodup_append.mp h
    have ih := messagesTo_fanOut c hn ds hds fun slot hs => hslots slot (List.mem_append_right _ hs)
    have hconnections := nodup_connections hn hd
    -- a connection whose slot is in the delivery is in the audience
    have hmem : c ∈ b.connections d ↔ b.slotOf c ∈ d.slots := by
      rw [mem_connections hn]
      exact and_iff_right_of_imp fun hs => slotOf_lt_iff.mp (hslots _ (List.mem_append_left _ hs))
    rw [fanOut_cons, messagesTo_append, ih, descriptorFor_cons]
    by_cases hslot : b.slotOf c ∈ d.slots
    · have hnone : descriptorFor (b.slotOf c) ds = none :=
        descriptorFor_eq_none.mpr fun hm => hdisj _ hslot _ hm rfl
      rw [if_pos hslot, hnone]
      cases hm : message d.descriptor with
      | none => simp [hm]
      | some m =>
        simp only [messagesTo_map c m _ (hconnections.filter keep), List.mem_filter, hmem, hslot, true_and]
        by_cases hk : keep c <;> simp [hk, hm]
    · rw [if_neg hslot]
      cases hm : message d.descriptor with
      | none => rfl
      | some m =>
        simp only [messagesTo_map c m _ (hconnections.filter keep), List.mem_filter, hmem, hslot,
          false_and, if_false, List.nil_append]

end FanOut

theorem flatMap_deliveries (d : Descriptor) (first : Option OperationId) (gs : List Group) :
    (deliveries d first gs).flatMap (·.slots) = gs.flatMap (·.2) := by
  rw [deliveries, List.flatMap_map]

/-- The descriptor for a slot is the one for its parent. -/
theorem descriptorFor_deliveries (d : Descriptor) (first : Option OperationId)
    {ps : List (Option OperationId × Nat)} {p : Option OperationId} {slot : Nat}
    (hslot : slot ∈ ps.map (·.2)) (hp : ∀ q, (q, slot) ∈ ps → q = p) :
    descriptorFor slot (deliveries d first (group ps)) =
      some (if p = first then d else d.withParent p) := by
  have hmem : slot ∈ (group ps).flatMap (·.2) := (perm_group ps).mem_iff.mpr hslot
  have hgroups : ∀ q slots, (q, slots) ∈ group ps → slot ∈ slots → q = p := fun q slots hg hx =>
    hp q (mem_group hg hx)
  generalize group ps = gs at hmem hgroups
  induction gs with
  | nil => simp at hmem
  | cons g gs ih =>
    obtain ⟨q, slots⟩ := g
    rw [deliveries, List.map_cons, descriptorFor_cons]
    by_cases hx : slot ∈ slots
    · rw [if_pos hx, hgroups q slots List.mem_cons_self hx]
    · rw [if_neg hx]
      refine ih ?_ fun r ds hr => hgroups r ds (List.mem_cons_of_mem _ hr)
      rw [List.flatMap_cons, List.mem_append] at hmem
      exact hmem.resolve_left hx

theorem descriptorFor_deliveries_of_not_mem (d : Descriptor) (first : Option OperationId)
    {ps : List (Option OperationId × Nat)} {slot : Nat} (hc : slot ∉ ps.map (·.2)) :
    descriptorFor slot (deliveries d first (group ps)) = none := by
  rw [descriptorFor_eq_none, flatMap_deliveries]
  exact fun h => hc ((perm_group ps).mem_iff.mp h)

end Build

end BuildFeed
