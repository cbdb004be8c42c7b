/-
# Lineages

The operations of a build form a tree by the parents that the scheduler
gives, if no operation is started twice and every parent is started before
its children (`Ordered`). The lineage of an operation lists its ancestors, the
nearest first; it exists, there is one only, and no ancestor is in it twice.

The walk of `Build.nearest` goes along the lineage as far as the ancestors are
live (`Build.nearest_eq_walk`). As these are distinct, there are not more of
them than live operations, so the walk ends.

Key definitions: `Ordered`, `Lineage`, `LiveTable.walk`, `LiveTable.Knows`.
Key theorems: `Ordered.exists_lineage`, `Ordered.lineage_unique`,
`Build.nearest_eq_walk`, `LiveTable.walk_eq_some`.
-/
import BuildFeed.Build
import Mathlib.Data.List.Nodup
import Mathlib.Data.List.Perm.Subperm
import Mathlib.Data.List.TakeWhile

namespace BuildFeed

/-- No operation is started twice, and each is started after its parent. -/
inductive Ordered : List StartSignal → Prop
  | nil : Ordered []
  | snoc {ops : List StartSignal} {op : StartSignal} (h : Ordered ops)
      (hid : ∀ o ∈ ops, o.id ≠ op.id) (hp : ∀ p, op.parent = some p → ∃ o ∈ ops, o.id = p) :
    Ordered (ops ++ [op])

/-- The ancestors of an operation by the parents given, beginning with its
parent. -/
inductive Lineage (ops : List StartSignal) : Option OperationId → List OperationId → Prop
  | root : Lineage ops none []
  | step {op : StartSignal} {l : List OperationId} (hop : op ∈ ops) (hl : Lineage ops op.parent l) :
    Lineage ops (some op.id) (op.id :: l)

namespace Lineage

variable {ops ops' : List StartSignal} {p : Option OperationId} {l : List OperationId}

theorem mono (hl : Lineage ops p l) (hsub : ops ⊆ ops') : Lineage ops' p l := by
  induction hl with
  | root => exact .root
  | step hop _ ih => exact .step (hsub hop) ih

/-- Every ancestor was started. -/
theorem started (hl : Lineage ops p l) : ∀ x ∈ l, ∃ op ∈ ops, op.id = x := by
  induction hl with
  | root => simp
  | @step op l hop _ ih =>
    intro x hx
    rcases List.mem_cons.mp hx with rfl | hx
    · exact ⟨op, hop, rfl⟩
    · exact ih x hx

theorem nil_iff (hl : Lineage ops p l) : p = none ↔ l = [] := by
  cases hl <;> simp

theorem of_some {x : OperationId} (hl : Lineage ops (some x) l) :
    ∃ op ∈ ops, ∃ l', op.id = x ∧ l = x :: l' ∧ Lineage ops op.parent l' := by
  cases hl with
  | step hop hl => exact ⟨_, hop, _, rfl, rfl, hl⟩

end Lineage

namespace Ordered

variable {ops : List StartSignal} {op op' : StartSignal}

theorem of_snoc (h : Ordered (ops ++ [op])) : Ordered ops ∧ (∀ o ∈ ops, o.id ≠ op.id) ∧
    ∀ p, op.parent = some p → ∃ o ∈ ops, o.id = p := by
  generalize hs : ops ++ [op] = l at h
  cases h with
  | nil => simp at hs
  | snoc h hid hp =>
    obtain ⟨rfl, hop⟩ := List.append_inj' hs rfl
    obtain rfl := List.singleton_inj.mp hop
    exact ⟨h, hid, hp⟩

theorem of_initial {ops' : List StartSignal} (h : Ordered ops') (hops : ops <+: ops') :
    Ordered ops := by
  induction h with
  | nil =>
    obtain rfl := List.prefix_nil.mp hops
    exact .nil
  | snoc h hid hp ih =>
    rcases List.prefix_concat_iff.mp hops with rfl | hops
    · exact h.snoc hid hp
    · exact ih hops

/-- Whether operations keep the order, when those of some ids were started before. -/
def check : List OperationId → List StartSignal → Bool
  | _, [] => true
  | ids, op :: ops => decide (op.id ∉ ids) && op.parent.all (decide <| · ∈ ids) &&
      check (ids ++ [op.id]) ops

theorem check_iff : ∀ (rest : List StartSignal) {ops : List StartSignal}, Ordered ops →
    (Ordered (ops ++ rest) ↔ check (ops.map (·.id)) rest = true)
  | [], ops, h => by simp [check, h]
  | op :: rest, ops, h => by
    have hstep : Ordered (ops ++ [op]) ↔
        op.id ∉ ops.map (·.id) ∧ ∀ p, op.parent = some p → p ∈ ops.map (·.id) := by
      constructor
      · intro h'
        obtain ⟨-, hid, hp⟩ := h'.of_snoc
        exact ⟨by simpa using hid, by simpa using hp⟩
      · rintro ⟨hid, hp⟩
        exact h.snoc (by simpa using hid) (by simpa using hp)
    rw [check, Bool.and_eq_true, Bool.and_eq_true, decide_eq_true_eq, Option.all_eq_true]
    simp only [decide_eq_true_eq]
    rw [← hstep, ← List.singleton_append, ← List.append_assoc]
    constructor
    · intro h'
      have hop := h'.of_initial (List.prefix_append ..)
      refine ⟨hop, ?_⟩
      rwa [check_iff rest hop, List.map_append] at h'
    · rintro ⟨hop, hrest⟩
      rwa [check_iff rest hop, List.map_append]

instance (ops : List StartSignal) : Decidable (Ordered ops) :=
  decidable_of_iff (check [] ops = true) ((check_iff ops .nil).symm)

theorem nodup (h : Ordered ops) : (ops.map (·.id)).Nodup := by
  induction h with
  | nil => exact List.nodup_nil
  | @snoc ops op _ hid _ ih =>
    rw [List.map_append, List.nodup_append]
    refine ⟨ih, List.nodup_singleton _, ?_⟩
    intro x hx y hy
    obtain ⟨o, ho, rfl⟩ := List.mem_map.mp hx
    rw [List.mem_singleton.mp hy]
    exact hid o ho

/-- An operation is told by its id. -/
theorem eq_of_id (h : Ordered ops) (hop : op ∈ ops) (hop' : op' ∈ ops) (hid : op.id = op'.id) :
    op = op' :=
  List.inj_on_of_nodup_map h.nodup hop hop' hid

/-- An operation that was started has a lineage, in which no ancestor is
repeated. -/
theorem exists_lineage (h : Ordered ops) (p : Option OperationId)
    (hp : ∀ x, p = some x → ∃ o ∈ ops, o.id = x) : ∃ l, Lineage ops p l ∧ l.Nodup := by
  induction h generalizing p with
  | nil =>
    cases p with
    | none => exact ⟨[], .root, List.nodup_nil⟩
    | some x =>
      obtain ⟨o, ho, -⟩ := hp x rfl
      simp at ho
  | @snoc ops op _ hid hpar ih =>
    have hsub : ops ⊆ ops ++ [op] := List.subset_append_left ..
    cases p with
    | none => exact ⟨[], .root, List.nodup_nil⟩
    | some x =>
      obtain ⟨o, ho, rfl⟩ := hp x rfl
      rcases List.mem_append.mp ho with ho | ho
      · obtain ⟨l, hl, hn⟩ := ih (some o.id) fun y hy => ⟨o, ho, Option.some.inj hy⟩
        exact ⟨l, hl.mono hsub, hn⟩
      · rw [List.mem_singleton] at ho
        subst ho
        obtain ⟨l, hl, hn⟩ := ih o.parent hpar
        refine ⟨o.id :: l, .step (by simp) (hl.mono hsub), List.nodup_cons.mpr ⟨fun hm => ?_, hn⟩⟩
        obtain ⟨o', ho', he⟩ := hl.started _ hm
        exact hid o' ho' he

/-- There is one lineage only. -/
theorem lineage_unique (h : Ordered ops) {p : Option OperationId} {l l' : List OperationId}
    (hl : Lineage ops p l) (hl' : Lineage ops p l') : l = l' := by
  induction hl generalizing l' with
  | root => exact (hl'.nil_iff.mp rfl).symm
  | step hop _ ih =>
    obtain ⟨op', hop', l'', hid, rfl, hl''⟩ := hl'.of_some
    obtain rfl := h.eq_of_id hop hop' hid.symm
    rw [ih hl'']

end Ordered

/-! ### Walking along a lineage -/

namespace LiveTable

/-- A table knows the parents that were given. -/
def Knows (ops : List StartSignal) (t : LiveTable) : Prop :=
  ∀ x e, t.get? x = some e → ∃ op ∈ ops, op.id = x ∧ e.parent = op.parent

/-- The first operation of a list that was published to a slot, if it and those
before it are live. -/
def walk (t : LiveTable) (slot : Nat) : List OperationId → Option OperationId
  | [] => none
  | x :: l =>
    match t.get? x with
    | none => none
    | some e => if e.reached slot then some x else walk t slot l

theorem walk_eq_some {t : LiveTable} {slot : Nat} {p : OperationId} : ∀ {l : List OperationId},
    t.walk slot l = some p ↔ ∃ l₁ l₂, l = l₁ ++ p :: l₂ ∧
      (∀ x ∈ l₁, ∃ e, t.get? x = some e ∧ e.reached slot = false) ∧
      ∃ e, t.get? p = some e ∧ e.reached slot = true
  | [] => by simp [walk]
  | x :: l => by
    rw [walk]
    cases hx : t.get? x with
    | none =>
      simp only [reduceCtorEq, false_iff]
      rintro ⟨l₁, l₂, hl, hbefore, e, he, -⟩
      cases l₁ with
      | nil =>
        obtain ⟨rfl, -⟩ := List.cons.inj hl
        simp [hx] at he
      | cons y l₁ =>
        obtain ⟨rfl, -⟩ := List.cons.inj hl
        obtain ⟨e', he', -⟩ := hbefore x List.mem_cons_self
        simp [hx] at he'
    | some e =>
      by_cases hr : e.reached slot = true
      · simp only [hr, if_true, Option.some.injEq]
        constructor
        · rintro rfl
          exact ⟨[], l, rfl, by simp, e, hx, hr⟩
        · rintro ⟨l₁, l₂, hl, hbefore, -⟩
          cases l₁ with
          | nil => exact (List.cons.inj hl).1
          | cons y l₁ =>
            obtain ⟨rfl, -⟩ := List.cons.inj hl
            obtain ⟨e', he', hr'⟩ := hbefore x List.mem_cons_self
            rw [hx, Option.some.injEq] at he'
            rw [← he', hr] at hr'
            exact absurd hr' (by simp)
      · simp only [hr, Bool.false_eq_true, if_false]
        rw [walk_eq_some]
        constructor
        · rintro ⟨l₁, l₂, rfl, hbefore, hp⟩
          refine ⟨x :: l₁, l₂, rfl, fun y hy => ?_, hp⟩
          rcases List.mem_cons.mp hy with rfl | hy
          · exact ⟨e, hx, Bool.eq_false_iff.mpr hr⟩
          · exact hbefore y hy
        · rintro ⟨l₁, l₂, hl, hbefore, e', he', hr'⟩
          cases l₁ with
          | nil =>
            obtain ⟨rfl, -⟩ := List.cons.inj hl
            rw [hx, Option.some.injEq] at he'
            exact absurd (he' ▸ hr') hr
          | cons y l₁ =>
            obtain ⟨rfl, rfl⟩ := List.cons.inj hl
            exact ⟨l₁, l₂, rfl, fun y hy => hbefore y (List.mem_cons_of_mem _ hy), e', he', hr'⟩

/-- Distinct live operations are not more than there are. -/
theorem length_takeWhile_le {t : LiveTable} {l : List OperationId} (h : l.Nodup) :
    (l.takeWhile t.contains).length ≤ t.length := by
  have hsub : l.takeWhile t.contains ⊆ t.map (·.1) := by
    intro x hx
    have hlive : t.contains x = true := List.mem_takeWhile_imp hx
    obtain ⟨e, he⟩ := Option.isSome_iff_exists.mp hlive
    obtain ⟨t₁, t₂, ht, -⟩ := List.lookup_eq_some_iff.mp he
    rw [ht]
    simp
  have hn : (l.takeWhile t.contains).Nodup := h.sublist (List.takeWhile_sublist _)
  calc (l.takeWhile t.contains).length ≤ (t.map (·.1)).length := (hn.subperm hsub).length_le
    _ = t.length := List.length_map ..

end LiveTable

namespace Build

variable {ops : List StartSignal} {t : LiveTable} {p : Option OperationId} {l : List OperationId}

/-- With a step for each live ancestor the walk ends, and it goes along the
lineage. -/
theorem nearest_eq_walk_of_le (h : Ordered ops) (hk : t.Knows ops) (slot : Nat)
    (hl : Lineage ops p l) : ∀ n, (l.takeWhile t.contains).length ≤ n →
      nearest t slot n p = some (t.walk slot l) := by
  induction hl with
  | root => exact fun n _ => by cases n <;> rfl
  | @step op l hop _ ih =>
    intro n hn
    unfold nearest
    rw [LiveTable.walk]
    cases hx : t.get? op.id with
    | none => rfl
    | some e =>
      by_cases hr : e.reached slot = true
      · simp [hr]
      · have hlive : t.contains op.id = true := by rw [LiveTable.contains, hx]; rfl
        rw [List.takeWhile_cons_of_pos hlive, List.length_cons] at hn
        obtain ⟨op', hop', hid, hpar⟩ := hk _ _ hx
        obtain rfl := h.eq_of_id hop' hop hid
        cases n with
        | zero => omega
        | succ n =>
          simp only [hr, Bool.false_eq_true, if_false, hpar]
          exact ih n (by omega)

/-- The search for the nearest ancestor ends, and it goes along the lineage. -/
theorem nearest_eq_walk (h : Ordered ops) (hk : t.Knows ops) (slot : Nat) (hl : Lineage ops p l)
    (hn : l.Nodup) : nearest t slot t.length p = some (t.walk slot l) :=
  nearest_eq_walk_of_le h hk slot hl t.length (LiveTable.length_takeWhile_le hn)

end Build

end BuildFeed
