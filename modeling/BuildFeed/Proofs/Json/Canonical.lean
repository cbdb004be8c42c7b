/-
# Canonical values

The canonical form of a value is canonical itself (`Value.canonical_canonical`):
the fields of an object that is put together with `putField` are sorted
(`Value.sorted_canonicalFields`), and fields that are sorted are left as they
are (`Value.canonicalFields_of_sorted`). The canonical form is no deeper than
the value, and its integers are among those of the value.

Key definitions: `Value.Sorted`.
Key theorems: `Value.canonical_canonical`, `Value.depth_canonical_le`,
`Value.inRange_canonical`.
-/
import BuildFeed.Proofs.Json.Reading
import Mathlib.Data.String.Basic

namespace BuildFeed
namespace Json
namespace Value

/-- What holds of an array if it holds of its items, and of an object if it
holds of the values of its fields, holds of every value. -/
theorem induction {P : Value → Prop} (null : P .null) (bool : ∀ b, P (.bool b))
    (int : ∀ n, P (.int n))
    (text : ∀ s, P (.text s)) (array : ∀ items, (∀ v ∈ items, P v) → P (.array items))
    (object : ∀ fields, (∀ e ∈ fields, P e.2) → P (.object fields)) (v : Value) : P v := by
  cases v with
  | null => exact null
  | bool b => exact bool b
  | int n => exact int n
  | text s => exact text s
  | array items => exact array items fun v _ => induction null bool int text array object v
  | object fields => exact object fields fun e _ => induction null bool int text array object e.2
termination_by sizeOf v
decreasing_by
  · have := List.sizeOf_lt_of_mem ‹_ ∈ items›
    simp
    omega
  · have := List.sizeOf_lt_of_mem ‹_ ∈ fields›
    obtain ⟨n, v⟩ := e
    simp at this ⊢
    omega

/-! ### Fields sorted by name -/

/-- The names of fields come one after the other, each once. -/
def Sorted (fields : List (String × Value)) : Prop := fields.Pairwise (·.1 < ·.1)

variable {name : String} {v : Value} {e : String × Value} {done fields : List (String × Value)}

theorem mem_putField (h : e ∈ putField name v fields) : e = (name, v) ∨ e ∈ fields := by
  induction fields with
  | nil => exact Or.inl (List.mem_singleton.mp h)
  | cons f rest ih =>
    obtain ⟨n, w⟩ := f
    unfold putField at h
    split_ifs at h with hlt heq
    · exact List.mem_cons.mp h
    · rcases List.mem_cons.mp h with rfl | h
      · exact Or.inl rfl
      · exact Or.inr (List.mem_cons_of_mem _ h)
    · rcases List.mem_cons.mp h with rfl | h
      · exact Or.inr List.mem_cons_self
      · exact (ih h).imp_right (List.mem_cons_of_mem _)

theorem Sorted.putField (h : Sorted fields) : Sorted (putField name v fields) := by
  induction fields with
  | nil => exact List.pairwise_singleton _ _
  | cons f rest ih =>
    obtain ⟨n, w⟩ := f
    obtain ⟨hn, hrest⟩ := List.pairwise_cons.mp h
    unfold Value.putField
    split_ifs with hlt heq
    · refine List.pairwise_cons.mpr ⟨?_, h⟩
      rintro e he
      rcases List.mem_cons.mp he with rfl | he
      · exact hlt
      · exact lt_trans hlt (hn e he)
    · subst heq
      exact List.pairwise_cons.mpr ⟨hn, hrest⟩
    · refine List.pairwise_cons.mpr ⟨?_, ih hrest⟩
      intro e he
      rcases mem_putField he with rfl | he
      · exact lt_of_le_of_ne (not_lt.mp hlt) (Ne.symm heq)
      · exact hn e he

theorem sorted_canonicalFields (h : Sorted done) : Sorted (canonicalFields done fields) := by
  induction fields generalizing done with
  | nil => exact h
  | cons f rest ih => exact ih h.putField

/-- A field whose name comes after all others is put behind them. -/
theorem putField_of_gt (h : ∀ e ∈ fields, e.1 < name) :
    putField name v fields = fields ++ [(name, v)] := by
  induction fields with
  | nil => rfl
  | cons f rest ih =>
    have hlt : f.1 < name := h f List.mem_cons_self
    rw [putField, if_neg (lt_asymm hlt), if_neg (ne_of_gt hlt),
      ih fun e he => h e (List.mem_cons_of_mem _ he), List.cons_append]

/-- Fields that are sorted and canonical are put together as they are. -/
theorem canonicalFields_of_sorted (h : Sorted (done ++ fields))
    (hcanon : ∀ e ∈ fields, e.2.canonical = e.2) :
    canonicalFields done fields = done ++ fields := by
  induction fields generalizing done with
  | nil => rw [canonicalFields, List.append_nil]
  | cons f rest ih =>
    have hbefore : ∀ e ∈ done, e.1 < f.1 := fun e he =>
      (List.pairwise_append.mp h).2.2 e he f List.mem_cons_self
    rw [canonicalFields, hcanon f List.mem_cons_self, putField_of_gt hbefore]
    rw [List.append_cons done f rest] at h ⊢
    exact ih h fun e he => hcanon e (List.mem_cons_of_mem _ he)

/-! ### What canonical forms keep -/

/-- What holds of the canonical form of every field holds of all that is put
together of them. -/
theorem canonicalFields_forall {P : Value → Prop} (hdone : ∀ e ∈ done, P e.2)
    (hfields : ∀ e ∈ fields, P e.2.canonical) : ∀ e ∈ canonicalFields done fields, P e.2 := by
  induction fields generalizing done with
  | nil => exact hdone
  | cons f rest ih =>
    refine ih (fun e he => ?_) fun e he => hfields e (List.mem_cons_of_mem _ he)
    rcases mem_putField he with rfl | he
    · exact hfields f List.mem_cons_self
    · exact hdone e he

theorem canonicalItems_eq (items : List Value) : canonicalItems items = items.map canonical := by
  induction items with
  | nil => rfl
  | cons v rest ih => rw [canonicalItems, ih, List.map_cons]

/-- The canonical form of a value is canonical. -/
theorem canonical_canonical (v : Value) : v.canonical.canonical = v.canonical := by
  induction v using induction with
  | null | bool _ | int _ | text _ => rfl
  | array items ih =>
    rw [canonical, canonical, canonicalItems_eq, canonicalItems_eq, List.map_map]
    exact congrArg _ (List.map_congr_left ih)
  | object fields ih =>
    have hcanon : ∀ e ∈ canonicalFields [] fields, e.2.canonical = e.2 :=
      canonicalFields_forall (P := fun v => v.canonical = v) (by simp) ih
    have hsorted : Sorted (canonicalFields [] fields) := sorted_canonicalFields List.Pairwise.nil
    rw [canonical, canonical, canonicalFields_of_sorted hsorted hcanon, List.nil_append]

/-- The canonical form of a value is no deeper than the value. -/
theorem depth_canonical_le (v : Value) : v.canonical.depth ≤ v.depth := by
  induction v using induction with
  | null | bool _ | int _ | text _ => exact Nat.le_refl _
  | array items ih =>
    rw [canonical, depth, depth, canonicalItems_eq, Nat.add_le_add_iff_right, itemsDepth_le]
    intro w hw
    obtain ⟨v, hv, rfl⟩ := List.mem_map.mp hw
    exact (ih v hv).trans (itemsDepth_le.mp (Nat.le_refl _) v hv)
  | object fields ih =>
    have hle : ∀ e ∈ fields, e.2.canonical.depth ≤ fieldsDepth fields := fun e he =>
      (ih e he).trans (fieldsDepth_le.mp (Nat.le_refl _) e he)
    rw [canonical, depth, depth, Nat.add_le_add_iff_right, fieldsDepth_le]
    exact canonicalFields_forall (P := fun v => v.depth ≤ fieldsDepth fields) (by simp) hle

theorem itemsInRange_iff {items : List Value} : ItemsInRange items ↔ ∀ v ∈ items, v.InRange := by
  induction items with
  | nil => simp [ItemsInRange]
  | cons v rest ih => simp [ItemsInRange, ih]

theorem fieldsInRange_iff : FieldsInRange fields ↔ ∀ e ∈ fields, e.2.InRange := by
  induction fields with
  | nil => simp [FieldsInRange]
  | cons f rest ih => simp [FieldsInRange, ih]

/-- The integers of the canonical form are among those of the value. -/
theorem inRange_canonical {v : Value} (h : v.InRange) : v.canonical.InRange := by
  induction v using induction with
  | null | bool _ | int _ | text _ => exact h
  | array items ih =>
    rw [canonical, canonicalItems_eq]
    refine itemsInRange_iff.mpr fun w hw => ?_
    obtain ⟨v, hv, rfl⟩ := List.mem_map.mp hw
    exact ih v hv (itemsInRange_iff.mp h v hv)
  | object fields ih =>
    have hin : ∀ e ∈ fields, e.2.canonical.InRange := fun e he =>
      ih e he (fieldsInRange_iff.mp h e he)
    rw [canonical]
    exact fieldsInRange_iff.mpr (canonicalFields_forall (by simp) hin)

end Value
end Json
end BuildFeed
