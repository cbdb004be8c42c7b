/-
# Walks that go in circles

The walk to the nearest ancestor passes over an operation that is live and
was not published to the slot, to the parent that the scheduler gave. It
never ends if it comes to an operation twice. Otherwise the operations passed
are different live ones, and there are not more of these than the table has
entries. So the walk ends within as many steps as operations are live, or not
at all, and then it goes in circles (`Build.nearest_eq_none_iff`).

There are no circles as long as no operation is recorded under itself, or
while a live one names it as its parent (`LiveTable.Acyclic.insert`).

Key definitions: `LiveTable.PassesTo`, `LiveTable.Circles`,
`LiveTable.Acyclic`.
Key theorems: `Build.nearest_eq_none_iff`, `Build.start_eq_none_iff`,
`LiveTable.Acyclic.insert`.
-/
import BuildFeed.Proofs.Build.Lineage
import BuildFeed.Proofs.Build.Turns
import Mathlib.Data.List.Duplicate
import Mathlib.Logic.Relation

namespace BuildFeed

open Relation

namespace LiveTable

variable {t : LiveTable} {slot : Nat} {x y z : OperationId} {e : Entry}

/-! ### Circles -/

/-- The walk passes over an operation to the parent that the scheduler gave. -/
def PassesTo (t : LiveTable) (slot : Nat) (x y : OperationId) : Prop :=
  ∃ e, t.get? x = some e ∧ e.reached slot = false ∧ e.parent = some y

/-- From a candidate the walk comes to an operation from which it comes back to it. -/
def Circles (t : LiveTable) (slot : Nat) (p : Option OperationId) : Prop :=
  ∃ x ∈ p, ∃ y, ReflTransGen (t.PassesTo slot) x y ∧ TransGen (t.PassesTo slot) y y

theorem not_circles_none : ¬ t.Circles slot none := by
  rintro ⟨x, hx, -⟩
  exact absurd hx (by simp)

/-- A walk in circles passes over its first operation, and goes in circles after
that. -/
theorem Circles.passes (h : t.Circles slot (some x)) :
    ∃ y, t.PassesTo slot x y ∧ t.Circles slot (some y) := by
  obtain ⟨x', hx', y, hxy, hyy⟩ := h
  obtain rfl : x = x' := Option.some.inj hx'
  rcases ReflTransGen.cases_head hxy with rfl | ⟨z, hxz, hzy⟩
  · obtain ⟨z, hxz, hzx⟩ := TransGen.head'_iff.mp hyy
    exact ⟨z, hxz, z, rfl, x, hzx, hyy⟩
  · exact ⟨z, hxz, z, rfl, y, hzy, hyy⟩

/-- A chain of passages that comes to an operation twice is a circle. -/
theorem circles_of_chain {l : List OperationId} (h : (x :: l).IsChain (t.PassesTo slot))
    (hdup : ¬ (x :: l).Nodup) : t.Circles slot (some x) := by
  have hchain : (x :: l).IsChain (TransGen (t.PassesTo slot)) := h.imp fun _ _ => TransGen.single
  have hpairwise : (x :: l).Pairwise (TransGen (t.PassesTo slot)) := hchain.pairwise
  obtain ⟨y, hy⟩ := List.exists_duplicate_iff_not_nodup.mpr hdup
  have hyy : TransGen (t.PassesTo slot) y y := by
    have hsub := hpairwise.sublist (List.duplicate_iff_sublist.mp hy)
    exact List.rel_of_pairwise_cons hsub List.mem_cons_self
  have hxy : ReflTransGen (t.PassesTo slot) x y := by
    rcases List.mem_cons.mp hy.mem with rfl | hmem
    · exact .refl
    · exact (List.rel_of_pairwise_cons hpairwise hmem).to_reflTransGen
  exact ⟨x, rfl, y, hxy, hyy⟩

end LiveTable

namespace Build

variable {t : LiveTable} {slot : Nat} {p : Option OperationId}

/-- A walk in circles does not end. -/
theorem nearest_of_circles (h : t.Circles slot p) (n : Nat) : nearest t slot n p = none := by
  induction n generalizing p with
  | zero =>
    cases p with
    | none => exact absurd h LiveTable.not_circles_none
    | some x =>
      obtain ⟨y, ⟨e, he, hr, -⟩, -⟩ := h.passes
      simp [nearest, he, hr]
  | succ n ih =>
    cases p with
    | none => exact absurd h LiveTable.not_circles_none
    | some x =>
      obtain ⟨y, ⟨e, he, hr, hp⟩, hy⟩ := h.passes
      have hrest : nearest t slot n e.parent = none := by
        rw [hp]
        exact ih hy
      simp [nearest, he, hr, hrest]

/-- A walk that has not ended has passed an operation with every step. -/
theorem exists_chain_of_nearest {n : Nat} {x : OperationId} (h : nearest t slot n (some x) = none) :
    ∃ l : List OperationId, l.length = n ∧ (x :: l).IsChain (t.PassesTo slot) ∧
      ∀ y ∈ x :: l, t.contains y = true := by
  induction n generalizing x with
  | zero =>
    refine ⟨[], rfl, List.IsChain.singleton x, fun y hy => ?_⟩
    rw [List.mem_singleton.mp hy, LiveTable.contains]
    cases he : t.get? x with
    | none => simp [nearest, he] at h
    | some e => rfl
  | succ n ih =>
    cases he : t.get? x with
    | none => simp [nearest, he] at h
    | some e =>
      have hlive : t.contains x = true := by rw [LiveTable.contains, he]; rfl
      by_cases hr : e.reached slot = true
      · simp [nearest, he, hr] at h
      · have hr : e.reached slot = false := Bool.eq_false_iff.mpr hr
        have hrest : nearest t slot n e.parent = none := by simpa [nearest, he, hr] using h
        cases hp : e.parent with
        | none =>
          rw [hp] at hrest
          cases n <;> simp [nearest] at hrest
        | some y =>
          rw [hp] at hrest
          obtain ⟨l, hlen, hchain, hmem⟩ := ih hrest
          refine ⟨y :: l, by rw [List.length_cons, hlen], hchain.cons_cons ⟨e, he, hr, hp⟩, ?_⟩
          intro z hz
          rcases List.mem_cons.mp hz with rfl | hz
          · exact hlive
          · exact hmem z hz

/-- The walk ends with as many steps as operations are live, unless it goes in circles. -/
theorem nearest_eq_none_iff : nearest t slot t.length p = none ↔ t.Circles slot p := by
  constructor
  · intro h
    cases p with
    | none => cases hn : t.length <;> simp [nearest, hn] at h
    | some x =>
      obtain ⟨l, hlen, hchain, hlive⟩ := exists_chain_of_nearest h
      apply LiveTable.circles_of_chain hchain
      -- there are not as many live operations as the chain is long
      intro hnodup
      have hall : (x :: l).takeWhile t.contains = x :: l := List.takeWhile_eq_self_iff.mpr hlive
      have hle := LiveTable.length_takeWhile_le (t := t) hnodup
      rw [hall, List.length_cons, hlen] at hle
      omega
  · exact fun h => nearest_of_circles h t.length

/-- The search for a parent ends for a slot unless the walk goes in circles. -/
theorem exists_resolve_iff :
    (∃ q, resolve .nearestEnabledAncestor t slot p = some q) ↔ ¬ t.Circles slot p := by
  rw [← nearest_eq_none_iff, ← Option.isSome_iff_exists, ← ne_eq, ← Option.isSome_iff_ne_none]
  rfl

/-- A start does not return exactly if it is the first of its id in an open build,
and the walk for a slot that wants the operation goes in circles. -/
theorem start_eq_none_iff {registry : Registry} {policy : ParentPolicy} {hub : Hub} {b : Build}
    {op : StartSignal} : b.start registry policy hub op = none ↔
      b.closed = false ∧ b.live.get? op.id = none ∧ policy = .nearestEnabledAncestor ∧
        ∃ m, registry.lookup op.details.kind = some m ∧
          ∃ slot ∈ b.targets hub m, b.live.Circles slot op.parent := by
  constructor
  · intro h
    have hc : b.closed = false := by
      by_contra hne
      rw [start_of_closed _ _ _ _ (Bool.not_eq_false _ ▸ hne)] at h
      exact absurd h (by simp)
    have hl : b.live.get? op.id = none := by
      cases hl : b.live.get? op.id with
      | none => rfl
      | some e =>
        rw [start_of_live _ _ _ hc hl] at h
        exact absurd h (by simp)
    refine ⟨hc, hl, ?_⟩
    by_contra hno
    obtain ⟨t, ht⟩ : ∃ t, b.start registry policy hub op = some t := by
      refine exists_start registry hub fun m hm slot hmem => ?_
      cases hres : resolve policy b.live slot op.parent with
      | some p => exact ⟨p, rfl⟩
      | none =>
        cases policy with
        | ownParentOnly => exact absurd hres (by simp [resolve])
        | nearestEnabledAncestor =>
          have hcircles : b.live.Circles slot op.parent := nearest_eq_none_iff.mp hres
          exact absurd ⟨rfl, m, hm, slot, hmem, hcircles⟩ hno
    rw [h] at ht
    exact absurd ht (by simp)
  · rintro ⟨hc, hl, rfl, m, hm, slot, hmem, hcircles⟩
    cases ht : b.start registry .nearestEnabledAncestor hub op with
    | none => rfl
    | some t =>
      have hends := exists_resolve_of_start ht hc hl hm hmem
      exact absurd hcircles (exists_resolve_iff.mp hends)

end Build

/-! ### Tables without circles -/

namespace LiveTable

variable {t : LiveTable} {slot : Nat} {x y z : OperationId} {e : Entry}

/-- A live operation names another as its parent. -/
def Names (t : LiveTable) (x y : OperationId) : Prop := ∃ e, t.get? x = some e ∧ e.parent = some y

/-- No operation is among its own ancestors. -/
def Acyclic (t : LiveTable) : Prop := ∀ x, ¬ TransGen t.Names x x

theorem PassesTo.names (h : t.PassesTo slot x y) : t.Names x y := by
  obtain ⟨e, he, -, hp⟩ := h
  exact ⟨e, he, hp⟩

theorem Acyclic.not_circles (h : t.Acyclic) (slot : Nat) (p : Option OperationId) :
    ¬ t.Circles slot p := by
  rintro ⟨x, -, y, -, hyy⟩
  exact h y (TransGen.mono (fun _ _ => PassesTo.names) y y hyy)

theorem acyclic_nil : Acyclic [] := by
  intro x hxx
  obtain ⟨y, ⟨e, he, -⟩, -⟩ := TransGen.head'_iff.mp hxx
  exact absurd he (by simp)

/-- Nothing is named in a table that is not named in a larger one. -/
theorem Acyclic.of_names {t' : LiveTable} (h : t.Acyclic) (hsub : ∀ x y, t'.Names x y → t.Names x y) :
    t'.Acyclic := fun x hxx => h x (TransGen.mono hsub x x hxx)

theorem Acyclic.erase (h : t.Acyclic) (x : OperationId) : (t.erase x).Acyclic := by
  apply h.of_names
  rintro y z ⟨e, he, hp⟩
  rw [get?_erase] at he
  by_cases hy : y = x
  · rw [if_pos hy] at he
    exact absurd he (by simp)
  · rw [if_neg hy] at he
    exact ⟨e, he, hp⟩

/-- A new operation closes no circle if no live one names it, and it does not
name itself. -/
theorem Acyclic.insert (h : t.Acyclic) (hself : e.parent ≠ some x) (hnamed : ∀ y, ¬ t.Names y x) :
    (t.insert x e).Acyclic := by
  have hold : ∀ {y z}, (t.insert x e).Names y z → y ≠ x → t.Names y z := by
    rintro y z ⟨e', he', hp⟩ hy
    rw [get?_insert, if_neg hy] at he'
    exact ⟨e', he', hp⟩
  -- no operation of the new table names the new operation
  have hnew : ∀ {y z}, (t.insert x e).Names y z → z ≠ x := by
    rintro y z hyz rfl
    by_cases hy : y = z
    · obtain ⟨e', he', hp⟩ := hyz
      rw [get?_insert, if_pos hy, Option.some.injEq] at he'
      exact hself (he' ▸ hp)
    · exact hnamed y (hold hyz hy)
  have hpath : ∀ {y z}, TransGen (t.insert x e).Names y z → y ≠ x → TransGen t.Names y z := by
    intro y z hyz hy
    induction hyz with
    | single hyz => exact .single (hold hyz hy)
    | tail hyw hwz ih =>
      obtain ⟨v, -, hvw⟩ := TransGen.tail'_iff.mp hyw
      exact ih.tail (hold hwz (hnew hvw))
  intro y hyy
  have hy : y ≠ x := by
    obtain ⟨v, -, hvy⟩ := TransGen.tail'_iff.mp hyy
    exact hnew hvy
  exact h y (hpath hyy hy)

end LiveTable

end BuildFeed
