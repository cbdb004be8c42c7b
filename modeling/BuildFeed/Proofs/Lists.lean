/-
# Lists

Where a list is split, lists whose elements are related in pairs, and the
positions of a list that have a property.

Key theorems: `split_of_snoc`, `split_of_flatMap`, `eq_of_first`,
`exists_of_mem_left`, `forall₂_insert`, `length_filter_range`.
-/
import Mathlib.Data.List.Forall2
import Mathlib.Data.List.Induction
import Mathlib.Data.List.Nodup
import Mathlib.Tactic.Tauto

namespace BuildFeed

open List (Forall₂)

/-! ### Where a list is split -/

/-- An element of a list that was made longer by one is in the list or is the
new one. -/
theorem split_of_snoc {α : Type} {l pre post : List α} {a b : α} (h : l ++ [a] = pre ++ b :: post) :
    (pre = l ∧ b = a ∧ post = []) ∨ ∃ post', post = post' ++ [a] ∧ l = pre ++ b :: post' := by
  rcases List.eq_nil_or_concat post with rfl | ⟨post', a', rfl⟩
  · obtain ⟨rfl, hab⟩ := List.append_inj' h rfl
    exact Or.inl ⟨rfl, (List.singleton_inj.mp hab).symm, rfl⟩
  · rw [List.concat_eq_append] at h ⊢
    rw [← List.cons_append, ← List.append_assoc] at h
    obtain ⟨rfl, ha⟩ := List.append_inj' h rfl
    exact Or.inr ⟨post', by rw [List.singleton_inj.mp ha], rfl⟩

/-- An element among what is brought piece by piece, one element or none at a
time, is the whole of a piece. -/
theorem split_of_flatMap {α β : Type} {f : α → List β} {m : β} {as bs : List β} : ∀ {l : List α},
    (∀ a ∈ l, (f a).length ≤ 1) → l.flatMap f = as ++ m :: bs →
      ∃ pre a post, l = pre ++ a :: post ∧ pre.flatMap f = as ∧ f a = [m]
  | [], _, h => absurd h (by simp)
  | a :: l, hone, h => by
    have hl : ∀ a' ∈ l, (f a').length ≤ 1 := fun a' ha' => hone a' (List.mem_cons_of_mem _ ha')
    have ha : (f a).length ≤ 1 := hone a List.mem_cons_self
    rw [List.flatMap_cons] at h
    cases hfa : f a with
    | nil =>
      rw [hfa, List.nil_append] at h
      obtain ⟨pre, a', post, rfl, hpre, ha'⟩ := split_of_flatMap hl h
      exact ⟨a :: pre, a', post, rfl, by rw [List.flatMap_cons, hfa, hpre, List.nil_append], ha'⟩
    | cons m' ms =>
      obtain rfl : ms = [] := by simpa [hfa] using ha
      rw [hfa, List.singleton_append] at h
      cases as with
      | nil =>
        obtain ⟨rfl, -⟩ := List.cons.inj h
        exact ⟨[], a, l, rfl, rfl, hfa⟩
      | cons m'' as =>
        rw [List.cons_append] at h
        obtain ⟨rfl, htail⟩ := List.cons.inj h
        obtain ⟨pre, a', post, rfl, hpre, ha'⟩ := split_of_flatMap hl htail
        exact ⟨a :: pre, a', post, rfl, by rw [List.flatMap_cons, hfa, hpre]; rfl, ha'⟩

/-- Where a list is cut at the first element with a property is determined. -/
theorem eq_of_first {α : Type} {P : α → Prop} {l₁ l₂ m₁ m₂ : List α} {x y : α}
    (h : l₁ ++ x :: l₂ = m₁ ++ y :: m₂) (hx : P x) (hy : P y) (hl : ∀ z ∈ l₁, ¬ P z)
    (hm : ∀ z ∈ m₁, ¬ P z) : l₁ = m₁ := by
  rcases List.append_eq_append_iff.mp h with ⟨as, rfl, has⟩ | ⟨as, rfl, has⟩
  · cases as with
    | nil => simp
    | cons a as =>
      obtain ⟨rfl, -⟩ := List.cons.inj has
      exact absurd hx (hm x (by simp))
  · cases as with
    | nil => simp
    | cons a as =>
      obtain ⟨rfl, -⟩ := List.cons.inj has
      exact absurd hy (hl y (by simp))

theorem eq_of_nodup_filterMap {α β : Type} {f : α → Option β} {a a' : α} {y : β} : ∀ {l : List α},
    (l.filterMap f).Nodup → a ∈ l → a' ∈ l → f a = some y → f a' = some y → a = a'
  | [], _, ha, _, _, _ => absurd ha (by simp)
  | x :: l, hn, ha, ha', hf, hf' => by
    rw [List.filterMap_cons] at hn
    have hrest : (l.filterMap f).Nodup := by
      split at hn
      · exact hn
      · exact (List.nodup_cons.mp hn).2
    have hx : f x = some y → y ∉ l.filterMap f := fun hfx => by
      simp only [hfx] at hn
      exact (List.nodup_cons.mp hn).1
    rcases List.mem_cons.mp ha with rfl | hl <;> rcases List.mem_cons.mp ha' with rfl | hl'
    · rfl
    · exact absurd (List.mem_filterMap.mpr ⟨a', hl', hf'⟩) (hx hf)
    · exact absurd (List.mem_filterMap.mpr ⟨a, hl, hf⟩) (hx hf')
    · exact eq_of_nodup_filterMap hrest hl hl' hf hf'

theorem forall_mem_insert {α : Type} {P : α → Prop} {before after : List α} {x : α} :
    (∀ y ∈ before ++ x :: after, P y) ↔ (∀ y ∈ before ++ after, P y) ∧ P x := by
  simp only [List.forall_mem_append, List.forall_mem_cons]
  tauto

/-- The places of what has a property are as many as there are such elements. -/
theorem length_filter_range {α : Type} (l : List α) (p : α → Bool) :
    ((List.range l.length).filter fun i => l[i]?.any p).length = l.countP p := by
  induction l using List.reverseRecOn with
  | nil => rfl
  | append_singleton l a ih =>
    have hold : ∀ i ∈ List.range l.length, (l ++ [a])[i]?.any p = l[i]?.any p := fun i hi => by
      rw [List.getElem?_append_left (List.mem_range.mp hi)]
    rw [List.length_append, List.length_singleton, List.range_succ, List.filter_append,
      List.length_append, List.filter_congr hold, ih, List.countP_append]
    cases hp : p a <;> simp [hp]

/-- Of a list in which no name stands twice, what is found under a name is what
stands there. -/
theorem lookup_iff_mem {α : Type} {l : List (String × α)} {a : α} {name : String}
    (hnodup : (l.map Prod.fst).Nodup) : l.lookup name = some a ↔ (name, a) ∈ l := by
  induction l with
  | nil => simp
  | cons v l ih =>
    obtain ⟨n, b⟩ := v
    obtain ⟨hnotin, hnodup⟩ := List.nodup_cons.mp hnodup
    by_cases h : name = n
    · subst h
      have hnot : (name, a) ∉ l := fun hmem => hnotin (List.mem_map.mpr ⟨(name, a), hmem, rfl⟩)
      simp [hnot, eq_comm]
    · have hne : (name == n) = false := beq_false_of_ne h
      simp [List.lookup_cons, hne, h, ih hnodup]

/-! ### Related lists -/

section Related

variable {α β : Type} {R : α → β → Prop} {l : List α} {l' : List β}

theorem forall₂_set (h : Forall₂ R l l') {x : α} {y : β} (hxy : R x y) (i : Nat) :
    Forall₂ R (l.set i x) (l'.set i y) := by
  induction h generalizing i with
  | nil => exact .nil
  | cons hab _ ih =>
    cases i with
    | zero => exact .cons hxy ‹_›
    | succ i => exact .cons hab (ih i)

theorem forall₂_getElem? (h : Forall₂ R l l') (i : Nat) : Option.Rel R l[i]? l'[i]? := by
  induction h generalizing i with
  | nil => exact .none
  | cons hab _ ih =>
    cases i with
    | zero => exact .some hab
    | succ i => exact ih i

/-- Of related lists the second has something where the first has. -/
theorem any_isSome_eq {l : List (Option α)} {l' : List (Option β)} (h : Forall₂ (Option.Rel R) l l') :
    l'.any Option.isSome = l.any Option.isSome := by
  induction h with
  | nil => rfl
  | cons hab _ ih => cases hab <;> simp [ih]

theorem map_eq_of_forall₂ {γ : Type} {f : α → γ} {f' : β → γ} (h : Forall₂ R l l')
    (hf : ∀ {x y}, R x y → f' y = f x) : l'.map f' = l.map f := by
  induction h with
  | nil => rfl
  | cons hab _ ih => rw [List.map_cons, List.map_cons, hf hab, ih]

theorem flatMap_eq_of_forall₂ {γ : Type} {f : α → List γ} {f' : β → List γ} (h : Forall₂ R l l')
    (hf : ∀ {x y}, R x y → f' y = f x) : l'.flatMap f' = l.flatMap f := by
  rw [List.flatMap_def, List.flatMap_def, map_eq_of_forall₂ h hf]

/-- What is in one of two related lists is related to something in the other. -/
theorem exists_of_mem_left (h : Forall₂ R l l') {x : α} (hx : x ∈ l) : ∃ y ∈ l', R x y := by
  induction h with
  | nil => exact absurd hx (by simp)
  | cons hab _ ih =>
    rcases List.mem_cons.mp hx with rfl | hx
    · exact ⟨_, List.mem_cons_self, hab⟩
    · obtain ⟨y, hy, hxy⟩ := ih hx
      exact ⟨y, List.mem_cons_of_mem _ hy, hxy⟩

theorem exists_of_mem_right (h : Forall₂ R l l') {y : β} (hy : y ∈ l') : ∃ x ∈ l, R x y :=
  exists_of_mem_left (R := flip R) h.flip hy

/-- Lists that are related by way of a third. -/
theorem forall₂_comp {γ : Type} {S : β → γ → Prop} {T : α → γ → Prop} {l'' : List γ}
    (ht : ∀ x y z, R x y → S y z → T x z) (h : Forall₂ R l l') (h' : Forall₂ S l' l'') :
    Forall₂ T l l'' := by
  induction h generalizing l'' with
  | nil =>
    cases h'
    exact .nil
  | cons hxy _ ih =>
    cases h' with
    | cons hyz h' => exact .cons (ht _ _ _ hxy hyz) (ih h')

theorem forall₂_toList {o : Option α} {o' : Option β} (h : Option.Rel R o o') :
    Forall₂ R o.toList o'.toList := by
  cases h with
  | none => exact .nil
  | some hxy => exact .cons hxy .nil

/-- Pairs are related that stand in one place of related lists. -/
theorem forall₂_insert {xs xs' : List α} {ys ys' : List β} {x : α} {y : β} (hlen : xs.length = ys.length) :
    Forall₂ R (xs ++ x :: xs') (ys ++ y :: ys') ↔ Forall₂ R (xs ++ xs') (ys ++ ys') ∧ R x y := by
  induction xs generalizing ys with
  | nil =>
    obtain rfl := List.length_eq_zero_iff.mp hlen.symm
    simp [and_comm]
  | cons u xs ih =>
    cases ys with
    | nil => exact absurd hlen (by simp)
    | cons v ys =>
      have hlen : xs.length = ys.length := Nat.succ.inj hlen
      simp [ih hlen, and_assoc]

theorem forall₂_imp_of_mem {S : α → β → Prop} (h : Forall₂ R l l')
    (hs : ∀ x ∈ l, ∀ y ∈ l', R x y → S x y) : Forall₂ S l l' := by
  rw [List.forall₂_iff_zip] at h ⊢
  exact ⟨h.1, fun hz => hs _ (List.of_mem_zip hz).1 _ (List.of_mem_zip hz).2 (h.2 hz)⟩

end Related

end BuildFeed
