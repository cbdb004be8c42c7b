/-
# What documents say

The integers of a document are such as 64 bits hold, because the lexer makes
no others (`lex_inRange`, `Document.inRange_read`). A tree that is read through
stands for a value that is no deeper than the room for its brackets
(`depth_le_of_isSound`).

Key definitions: `Scalar.InRange`, `Tree.InRange`, `State.InRange`.
Key theorems: `lex_inRange`, `Document.inRange_read`, `inRange_valueOf`,
`depth_le_of_isSound`.
-/
import BuildFeed.Proofs.Json.Canonical

namespace BuildFeed
namespace Json

/-! ### Scalars -/

/-- Whether 64 bits hold a scalar, if it is an integer. -/
def Scalar.InRange : Scalar → Prop
  | .int n => (Value.int n).InRange
  | _ => True

theorem wholeNumber_inRange (negative : Bool) (digits : List Char) :
    (wholeNumber negative digits).InRange := by
  unfold wholeNumber
  generalize Nat.ofDigitChars 10 digits 0 = n
  cases negative with
  | true =>
    by_cases h : 0 < n ∧ n ≤ 0x8000000000000000
    · have hin : -0x8000000000000000 ≤ -(n : Int) ∧ -(n : Int) < 0x10000000000000000 := by omega
      rw [if_pos rfl, if_pos (by simpa using h)]
      exact hin
    · simp [h, Scalar.InRange]
  | false =>
    by_cases h : n < UInt64.size
    · have hn : n < 0x10000000000000000 := h
      have hin : -0x8000000000000000 ≤ (n : Int) ∧ (n : Int) < 0x10000000000000000 := by omega
      rw [if_neg (by decide), if_pos h]
      exact hin
    · simp [h, Scalar.InRange]

theorem unsignedNumber_inRange {negative : Bool} {cs rest : List Char} {s : Scalar}
    (h : unsignedNumber negative cs = some (s, rest)) : s.InRange := by
  unfold unsignedNumber at h
  repeat' split at h
  all_goals simp only [Option.some.injEq, Prod.mk.injEq, reduceCtorEq] at h
  all_goals obtain ⟨rfl, -⟩ := h
  · exact wholeNumber_inRange _ _
  all_goals trivial

theorem ofPieces_inRange (ps : List Piece) : (Scalar.ofPieces ps).InRange := by
  unfold Scalar.ofPieces
  split <;> trivial

theorem token_inRange {c : Char} {cs rest : List Char} {s : Scalar}
    (h : token c cs = some (.scalar s, rest)) : s.InRange := by
  unfold token at h
  split at h
  case h_7 =>
    obtain ⟨⟨ps, r⟩, -, h⟩ := Option.map_eq_some_iff.mp h
    obtain ⟨hs, -⟩ := Prod.mk.inj h
    exact Token.scalar.inj hs ▸ ofPieces_inRange ps
  case h_11 | h_12 =>
    obtain ⟨⟨s', r⟩, hs', h⟩ := Option.map_eq_some_iff.mp h
    obtain ⟨hs, -⟩ := Prod.mk.inj h
    exact Token.scalar.inj hs ▸ unsignedNumber_inRange hs'
  case h_8 | h_9 | h_10 =>
    obtain ⟨hs, -⟩ := Prod.mk.inj (Option.some.inj h)
    obtain rfl := Token.scalar.inj hs
    trivial
  all_goals exact absurd h (by simp)

/-- The integers of a text are such as 64 bits hold. -/
theorem lex_inRange {cs : List Char} {s : Scalar} (h : .scalar s ∈ lex cs) : s.InRange := by
  fun_induction lex cs with
  | case1 => simp at h
  | case2 => simp at h
  | case3 cs c rest _ t rest' ht ih =>
    rcases List.mem_cons.mp h with rfl | h
    · exact token_inRange ht
    · exact ih h

/-! ### Trees -/

namespace Tree

mutual

/-- Whether 64 bits hold the integers of a tree. -/
def InRange : Tree → Prop
  | .scalar s => s.InRange
  | .array items _ => ItemsInRange items
  | .object fields _ => FieldsInRange fields
  | .absent => True

def ItemsInRange : List Tree → Prop
  | [] => True
  | t :: rest => InRange t ∧ ItemsInRange rest

def FieldsInRange : Fields → Prop
  | [] => True
  | (_, t) :: rest => InRange t ∧ FieldsInRange rest

end

theorem itemsInRange_iff {items : List Tree} : ItemsInRange items ↔ ∀ t ∈ items, t.InRange := by
  induction items with
  | nil => simp [ItemsInRange]
  | cons t rest ih => simp [ItemsInRange, ih]

theorem fieldsInRange_iff {fields : Fields} : FieldsInRange fields ↔ ∀ e ∈ fields, e.2.InRange := by
  induction fields with
  | nil => simp [FieldsInRange]
  | cons f rest ih => simp [FieldsInRange, ih]

end Tree

mutual

/-- The value of a tree has the integers of the tree. -/
theorem inRange_valueOf :
    ∀ {t : Tree} {v : Value}, t.InRange → Wire.Decoder.valueOf t = some v → v.InRange
  | .scalar .null, _, _, h | .scalar (.bool _), _, _, h | .scalar (.text _), _, _, h => by
    obtain rfl := Option.some.inj h
    trivial
  | .scalar (.int n), _, ht, h => by
    obtain rfl := Option.some.inj h
    exact ht
  | .array items _, _, ht, h => by
    obtain ⟨vs, hvs, rfl⟩ := Option.map_eq_some_iff.mp h
    exact inRange_itemsOf ht hvs
  | .object fields _, _, ht, h => by
    obtain ⟨vs, hvs, rfl⟩ := Option.map_eq_some_iff.mp h
    exact inRange_fieldsOf ht hvs

theorem inRange_itemsOf : ∀ {items : List Tree} {vs : List Value}, Tree.ItemsInRange items →
    Wire.Decoder.itemsOf items = some vs → Value.ItemsInRange vs
  | [], _, _, h => by
    obtain rfl := Option.some.inj h
    trivial
  | t :: rest, _, ht, h => by
    rw [Wire.Decoder.itemsOf] at h
    split at h
    · next v vs hv hvs =>
      obtain rfl := Option.some.inj h
      exact ⟨inRange_valueOf ht.1 hv, inRange_itemsOf ht.2 hvs⟩
    · exact absurd h (by simp)

theorem inRange_fieldsOf : ∀ {fields : Fields} {vs : List (String × Value)},
    Tree.FieldsInRange fields → Wire.Decoder.fieldsOf fields = some vs → Value.FieldsInRange vs
  | [], _, _, h => by
    obtain rfl := Option.some.inj h
    trivial
  | (some name, t) :: rest, _, ht, h => by
    rw [Wire.Decoder.fieldsOf] at h
    split at h
    · next v vs hv hvs =>
      obtain rfl := Option.some.inj h
      exact ⟨inRange_valueOf ht.1 hv, inRange_fieldsOf ht.2 hvs⟩
    · exact absurd h (by simp)

end

mutual

/-- What is read through is no deeper than there is room. -/
theorem depth_le_of_isSound : ∀ {t : Tree} {room : Nat} {v : Value}, t.isSound room = true →
    Wire.Decoder.valueOf t = some v → v.depth ≤ room
  | .scalar .null, _, _, _, h | .scalar (.bool _), _, _, _, h | .scalar (.int _), _, _, _, h
  | .scalar (.text _), _, _, _, h => by
    obtain rfl := Option.some.inj h
    exact Nat.zero_le _
  | .array items _, room, _, ht, h => by
    obtain ⟨vs, hvs, rfl⟩ := Option.map_eq_some_iff.mp h
    simp only [Tree.isSound, Bool.and_eq_true, decide_eq_true_eq] at ht
    have := itemsDepth_le_of_isSound ht.2 hvs
    simp only [Value.depth]
    omega
  | .object fields _, room, _, ht, h => by
    obtain ⟨vs, hvs, rfl⟩ := Option.map_eq_some_iff.mp h
    simp only [Tree.isSound, Bool.and_eq_true, decide_eq_true_eq] at ht
    have := fieldsDepth_le_of_isSound ht.2 hvs
    simp only [Value.depth]
    omega

theorem itemsDepth_le_of_isSound : ∀ {items : List Tree} {room : Nat} {vs : List Value},
    Tree.itemsSound room items = true → Wire.Decoder.itemsOf items = some vs →
      Value.itemsDepth vs ≤ room
  | [], _, _, _, h => by
    obtain rfl := Option.some.inj h
    exact Nat.zero_le _
  | t :: rest, _, _, ht, h => by
    rw [Wire.Decoder.itemsOf] at h
    rw [Tree.itemsSound, Bool.and_eq_true] at ht
    split at h
    · next v vs hv hvs =>
      obtain rfl := Option.some.inj h
      exact Nat.max_le.mpr ⟨depth_le_of_isSound ht.1 hv, itemsDepth_le_of_isSound ht.2 hvs⟩
    · exact absurd h (by simp)

theorem fieldsDepth_le_of_isSound : ∀ {fields : Fields} {room : Nat} {vs : List (String × Value)},
    Tree.fieldsSound room fields = true → Wire.Decoder.fieldsOf fields = some vs →
      Value.fieldsDepth vs ≤ room
  | [], _, _, _, h => by
    obtain rfl := Option.some.inj h
    exact Nat.zero_le _
  | (some name, t) :: rest, _, _, ht, h => by
    rw [Wire.Decoder.fieldsOf] at h
    rw [Tree.fieldsSound, Bool.and_eq_true, Bool.and_eq_true] at ht
    split at h
    · next v vs hv hvs =>
      obtain rfl := Option.some.inj h
      exact Nat.max_le.mpr ⟨depth_le_of_isSound ht.1.2 hv, fieldsDepth_le_of_isSound ht.2 hvs⟩
    · exact absurd h (by simp)

end

/-! ### Documents -/

/-- Whether 64 bits hold the integers of what is open. -/
def Frame.InRange : Frame → Prop
  | .array items => ∀ t ∈ items, t.InRange
  | .object fields _ => ∀ e ∈ fields, e.2.InRange

namespace State

/-- Whether 64 bits hold the integers that were read. -/
def InRange : State → Prop
  | .reading _ stack => ∀ f ∈ stack, f.InRange
  | .done t _ => t.InRange
  | .broken t => t.InRange

variable {stack : List Frame} {t : Tree} {tok : Token} {due : Due} {s s' : State}

theorem inRange_closeArray {items : List Tree} (h : ∀ t ∈ items, t.InRange) (closed : Bool) :
    (Tree.array items.reverse closed).InRange :=
  Tree.itemsInRange_iff.mpr fun t ht => h t (List.mem_reverse.mp ht)

theorem inRange_closeObject {fields : Fields} (h : ∀ e ∈ fields, e.2.InRange) (closed : Bool) :
    (Tree.object fields.reverse closed).InRange :=
  Tree.fieldsInRange_iff.mpr fun e he => h e (List.mem_reverse.mp he)

theorem inRange_cut {inner : Option Tree} (hinner : ∀ t ∈ inner, t.InRange)
    (h : ∀ f ∈ stack, f.InRange) : (cut inner stack).InRange := by
  induction stack generalizing inner with
  | nil =>
    cases inner with
    | none => trivial
    | some t => exact hinner t rfl
  | cons f up ih =>
    have hup : ∀ f ∈ up, f.InRange := fun f hf => h f (List.mem_cons_of_mem _ hf)
    have hf := h f List.mem_cons_self
    have hgot : (inner.getD .absent).InRange := by
      cases inner with
      | none => trivial
      | some t => exact hinner t rfl
    have hput : ∀ t : Tree, t.InRange → ∀ t' ∈ some t, t'.InRange := by
      rintro t ht t' ⟨⟩
      exact ht
    match f, hf with
    | .array items, hf =>
      refine ih (hput _ (inRange_closeArray (fun t ht => ?_) false)) hup
      rcases List.mem_append.mp ht with ht | ht
      · exact hinner t (Option.mem_toList.mp ht)
      · exact hf t ht
    | .object fields none, hf => exact ih (hput _ (inRange_closeObject hf false)) hup
    | .object fields (some name), hf =>
      refine ih (hput _ (inRange_closeObject (fun e he => ?_) false)) hup
      rcases List.mem_cons.mp he with rfl | he
      · exact hgot
      · exact hf e he

theorem inRange_put (ht : t.InRange) (h : ∀ f ∈ stack, f.InRange) : (put t stack).InRange := by
  match stack with
  | [] => exact ht
  | .array items :: up =>
    obtain ⟨hf, hup⟩ := List.forall_mem_cons.mp h
    refine List.forall_mem_cons.mpr ⟨?_, hup⟩
    exact List.forall_mem_cons.mpr ⟨ht, hf⟩
  | .object fields name :: up =>
    obtain ⟨hf, hup⟩ := List.forall_mem_cons.mp h
    refine List.forall_mem_cons.mpr ⟨?_, hup⟩
    exact List.forall_mem_cons.mpr ⟨ht, hf⟩

theorem inRange_enter (h : ∀ f ∈ stack, f.InRange) (htok : ∀ s, tok = .scalar s → s.InRange)
    (hs : enter stack tok = some s) : s.InRange := by
  unfold enter at hs
  split at hs
  · obtain rfl := Option.some.inj hs
    exact inRange_put (htok _ rfl) h
  · obtain rfl := Option.some.inj hs
    exact List.forall_mem_cons.mpr ⟨by simp [Frame.InRange], h⟩
  · obtain rfl := Option.some.inj hs
    exact List.forall_mem_cons.mpr ⟨by simp [Frame.InRange], h⟩
  · exact absurd hs (by simp)

/-- The name of the field under way is no value. -/
theorem inRange_rename {fields : Fields} {name name' : Option (Option String)} {up : List Frame}
    (h : ∀ f ∈ Frame.object fields name :: up, f.InRange) :
    ∀ f ∈ Frame.object fields name' :: up, f.InRange := by
  obtain ⟨hf, hup⟩ := List.forall_mem_cons.mp h
  exact List.forall_mem_cons.mpr ⟨hf, hup⟩

/-- A token that is accepted adds nothing but itself. -/
theorem inRange_accept (h : ∀ f ∈ stack, f.InRange) (htok : ∀ s, tok = .scalar s → s.InRange)
    (hs : accept due stack tok = some s) : s.InRange := by
  unfold accept at hs
  split at hs
  · exact inRange_enter h htok hs
  · obtain ⟨hf, hup⟩ := List.forall_mem_cons.mp h
    exact Option.some.inj hs ▸ inRange_put (inRange_closeArray hf true) hup
  · exact inRange_enter h htok hs
  · obtain ⟨hf, hup⟩ := List.forall_mem_cons.mp h
    exact Option.some.inj hs ▸ inRange_put (inRange_closeArray hf true) hup
  · exact Option.some.inj hs ▸ h
  · obtain ⟨hf, hup⟩ := List.forall_mem_cons.mp h
    exact Option.some.inj hs ▸ inRange_put (inRange_closeObject hf true) hup
  · exact Option.some.inj hs ▸ inRange_rename h
  · obtain ⟨hf, hup⟩ := List.forall_mem_cons.mp h
    exact Option.some.inj hs ▸ inRange_put (inRange_closeObject hf true) hup
  · obtain ⟨name, -, rfl⟩ := Option.map_eq_some_iff.mp hs
    exact inRange_rename h
  · obtain ⟨name, -, rfl⟩ := Option.map_eq_some_iff.mp hs
    exact inRange_rename h
  · exact Option.some.inj hs ▸ h
  · exact absurd hs (by simp)

theorem inRange_next (h : s.InRange) (htok : ∀ s, tok = .scalar s → s.InRange) :
    (s.next tok).InRange := by
  match s with
  | .reading due stack =>
    rw [next]
    cases hs : accept due stack tok with
    | none => exact inRange_cut (by simp) h
    | some s' => exact inRange_accept h htok hs
  | .done t _ => exact h
  | .broken t => exact h

theorem inRange_after {ts : List Token} (h : s.InRange) (hts : ∀ s, .scalar s ∈ ts → s.InRange) :
    (s.after ts).InRange := by
  induction ts generalizing s with
  | nil => exact h
  | cons tok ts ih =>
    refine ih (inRange_next h ?_) fun s hs => hts s (List.mem_cons_of_mem _ hs)
    rintro s rfl
    exact hts s List.mem_cons_self

end State

/-- The integers of a document are such as 64 bits hold. -/
theorem Document.inRange_read (text : String) : (Document.read text).tree.InRange := by
  have h : (State.start.after (lex text.toList)).InRange :=
    State.inRange_after (by simp [State.start, State.InRange]) fun s hs => lex_inRange hs
  show (State.start.after (lex text.toList)).document.tree.InRange
  generalize State.start.after (lex text.toList) = s at h
  match s with
  | .reading _ stack => exact State.inRange_cut (by simp) h
  | .done t _ => exact h
  | .broken t => exact h

end Json
end BuildFeed
