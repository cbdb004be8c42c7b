/-
# The tree of a printed value

The machine that reads tokens puts the tree of a value where the value is due
(`State.read_tokens`), so that a printed value is read as the document of its
tree (`Document.read_render`). A reader that may open as many brackets as the
value is deep reads it through (`Value.isSound_tree`).

Key definitions: `Value.tree`, `Value.depth`.
Key theorems: `State.read_tokens`, `Document.read_render`, `Value.isSound_tree`,
`valueOf_tree`.
-/
import BuildFeed.Proofs.Json.Lexing
import BuildFeed.Wire.Decoder

namespace BuildFeed
namespace Json

namespace Value

mutual

/-- The tree of a value. -/
def tree : Value → Tree
  | .null => .scalar .null
  | .bool b => .scalar (.bool b)
  | .int n => .scalar (.int n)
  | .text s => .scalar (.text s)
  | .array items => .array (itemTrees items) true
  | .object fields => .object (fieldTrees fields) true

def itemTrees : List Value → List Tree
  | [] => []
  | v :: rest => tree v :: itemTrees rest

def fieldTrees : List (String × Value) → Fields
  | [] => []
  | (name, v) :: rest => (some name, tree v) :: fieldTrees rest

end

mutual

/-- The number of brackets that are open at once in the text of a value. -/
def depth : Value → Nat
  | .array items => itemsDepth items + 1
  | .object fields => fieldsDepth fields + 1
  | _ => 0

def itemsDepth : List Value → Nat
  | [] => 0
  | v :: rest => max (depth v) (itemsDepth rest)

def fieldsDepth : List (String × Value) → Nat
  | [] => 0
  | (_, v) :: rest => max (depth v) (fieldsDepth rest)

end

theorem itemTrees_eq (items : List Value) : itemTrees items = items.map tree := by
  induction items with
  | nil => rfl
  | cons v rest ih => rw [itemTrees, ih, List.map_cons]

theorem fieldTrees_eq (fields : List (String × Value)) :
    fieldTrees fields = fields.map fun (name, v) => (some name, v.tree) := by
  induction fields with
  | nil => rfl
  | cons f rest ih => rw [fieldTrees, ih, List.map_cons]

theorem isWhole_tree (v : Value) : v.tree.isWhole = true := by cases v <;> rfl

theorem itemsDepth_le {items : List Value} {n : Nat} :
    itemsDepth items ≤ n ↔ ∀ v ∈ items, v.depth ≤ n := by
  induction items with
  | nil => simp [itemsDepth]
  | cons v rest ih => rw [itemsDepth, Nat.max_le, ih, List.forall_mem_cons]

theorem fieldsDepth_le {fields : List (String × Value)} {n : Nat} :
    fieldsDepth fields ≤ n ↔ ∀ e ∈ fields, e.2.depth ≤ n := by
  induction fields with
  | nil => simp [fieldsDepth]
  | cons f rest ih => rw [fieldsDepth, Nat.max_le, ih, List.forall_mem_cons]

mutual

/-- A value can be read through with as many brackets as it is deep. -/
theorem isSound_tree : ∀ (v : Value) (room : Nat), v.tree.isSound room = true ↔ v.depth ≤ room
  | .null, _ | .bool _, _ | .int _, _ | .text _, _ => by simp [tree, depth, Tree.isSound, Scalar.isSound]
  | .array items, room => by
    have ih := itemsSound_itemTrees items (room - 1)
    simp only [tree, depth, Tree.isSound, Bool.true_and, Bool.and_eq_true, decide_eq_true_eq, ih]
    omega
  | .object fields, room => by
    have ih := fieldsSound_fieldTrees fields (room - 1)
    simp only [tree, depth, Tree.isSound, Bool.true_and, Bool.and_eq_true, decide_eq_true_eq, ih]
    omega

theorem itemsSound_itemTrees : ∀ (items : List Value) (room : Nat),
    Tree.itemsSound room (itemTrees items) = true ↔ itemsDepth items ≤ room
  | [], _ => by simp [itemTrees, itemsDepth, Tree.itemsSound]
  | v :: rest, room => by
    rw [itemTrees, Tree.itemsSound, Bool.and_eq_true, isSound_tree v room,
      itemsSound_itemTrees rest room, itemsDepth]
    omega

theorem fieldsSound_fieldTrees : ∀ (fields : List (String × Value)) (room : Nat),
    Tree.fieldsSound room (fieldTrees fields) = true ↔ fieldsDepth fields ≤ room
  | [], _ => by simp [fieldTrees, fieldsDepth, Tree.fieldsSound]
  | (name, v) :: rest, room => by
    rw [fieldTrees, Tree.fieldsSound, Bool.and_eq_true, Bool.and_eq_true, isSound_tree v room,
      fieldsSound_fieldTrees rest room, fieldsDepth, Option.isSome_some, eq_self, true_and]
    omega

end

end Value

namespace State

/-- The state once some tokens are read. -/
def after (s : State) (ts : List Token) : State := ts.foldl next s

theorem after_cons (s : State) (t : Token) (ts : List Token) :
    s.after (t :: ts) = (s.next t).after ts :=
  rfl

/-- Where a value is due, the next token begins it. -/
theorem next_of_due {due : Due} (hdue : due = .value ∨ due = .firstItem) (stack : List Frame)
    {t : Token} (ht : t ≠ .closeArray) {s : State} (h : enter stack t = some s) :
    (reading due stack).next t = s := by
  have haccept : accept due stack t = enter stack t := by
    rcases hdue with rfl | rfl
    · rfl
    · unfold accept
      split <;> simp_all
  rw [next, haccept, h, Option.getD_some]

mutual

/-- Where a value is due, its tokens put its tree. -/
theorem read_tokens : ∀ (v : Value) {due : Due} (stack : List Frame) (ts : List Token),
    due = .value ∨ due = .firstItem →
      (reading due stack).after (v.tokens ++ ts) = (put v.tree stack).after ts
  | .null, _, stack, ts, hdue | .bool _, _, stack, ts, hdue | .int _, _, stack, ts, hdue
  | .text _, _, stack, ts, hdue => by
    exact congrArg (after · ts) (next_of_due hdue stack (by simp) rfl)
  | .array [], _, stack, ts, hdue => by
    exact congrArg (after · (.closeArray :: ts))
      (next_of_due (t := .openArray) hdue stack (by simp) rfl)
  | .object [], _, stack, ts, hdue => by
    exact congrArg (after · (.closeObject :: ts))
      (next_of_due (t := .openObject) hdue stack (by simp) rfl)
  | .array (v :: items), due, stack, ts, hdue => by
    rw [Value.tokens, List.cons_append, after_cons, next_of_due hdue stack (by simp) rfl,
      List.append_assoc, read_tokens v _ _ (Or.inr rfl)]
    exact read_itemTokens items [v.tree] stack ts
  | .object ((name, v) :: fields), due, stack, ts, hdue => by
    rw [Value.tokens, List.cons_append, after_cons, next_of_due hdue stack (by simp) rfl,
      List.cons_append, List.cons_append, after_cons, after_cons, List.append_assoc]
    show (reading .value (.object [] (some (some name)) :: stack)).after _ = _
    rw [read_tokens v _ _ (Or.inl rfl)]
    exact read_fieldTokens fields [(some name, v.tree)] stack ts

/-- The tokens of items are put behind the items before. -/
theorem read_itemTokens : ∀ (items : List Value) (before : List Tree) (stack : List Frame)
    (ts : List Token),
      (reading .separator (.array before :: stack)).after (Value.itemTokens items ++ ts) =
      (put (.array (before.reverse ++ Value.itemTrees items) true) stack).after ts
  | [], before, stack, ts => by
    rw [Value.itemTrees, List.append_nil]
    rfl
  | v :: items, before, stack, ts => by
    rw [Value.itemTokens, List.cons_append, after_cons, List.append_assoc]
    show (reading .value (.array before :: stack)).after _ = _
    rw [read_tokens v _ _ (Or.inl rfl)]
    show (reading .separator (.array (v.tree :: before) :: stack)).after _ = _
    rw [read_itemTokens items (v.tree :: before) stack ts, List.reverse_cons, List.append_assoc,
      List.singleton_append, Value.itemTrees]

/-- The tokens of fields are put behind the fields before. -/
theorem read_fieldTokens : ∀ (fields : List (String × Value)) (before : Fields) (stack : List Frame)
    (ts : List Token),
      (reading .separator (.object before none :: stack)).after (Value.fieldTokens fields ++ ts) =
        (put (.object (before.reverse ++ Value.fieldTrees fields) true) stack).after ts
  | [], before, stack, ts => by
    rw [Value.fieldTrees, List.append_nil]
    rfl
  | (name, v) :: fields, before, stack, ts => by
    rw [Value.fieldTokens, List.cons_append, List.cons_append, List.cons_append,
      after_cons, after_cons,
      after_cons, List.append_assoc]
    show (reading .value (.object before (some (some name)) :: stack)).after _ = _
    rw [read_tokens v _ _ (Or.inl rfl)]
    show (reading .separator (.object ((some name, v.tree) :: before) none :: stack)).after _ = _
    rw [read_fieldTokens fields ((some name, v.tree) :: before) stack ts, List.reverse_cons,
      List.append_assoc, List.singleton_append, Value.fieldTrees]

end

end State

/-- A printed value is read as its tree. -/
theorem Document.read_render {v : Value} (h : v.InRange) :
    Document.read v.render = ⟨v.tree, true⟩ := by
  have hlex : lex v.print = v.tokens ++ [] := by
    rw [← lex_nil, ← lex_print h (by simp [Delimited]), List.append_nil]
  rw [Document.read, Value.render, String.toList_ofList, hlex]
  show (State.after (.reading .value []) (v.tokens ++ [])).document = _
  rw [State.read_tokens v _ _ (Or.inl rfl)]
  rfl

mutual

/-- The tree of a value stands for the value. -/
theorem valueOf_tree : ∀ v : Value, Wire.Decoder.valueOf v.tree = some v
  | .null | .bool _ | .int _ | .text _ => rfl
  | .array items => by
    rw [Value.tree, Wire.Decoder.valueOf, itemsOf_itemTrees items, Option.map_some]
  | .object fields => by
    rw [Value.tree, Wire.Decoder.valueOf, fieldsOf_fieldTrees fields, Option.map_some]

theorem itemsOf_itemTrees : ∀ items : List Value,
    Wire.Decoder.itemsOf (Value.itemTrees items) = some items
  | [] => rfl
  | v :: rest => by
    rw [Value.itemTrees, Wire.Decoder.itemsOf, valueOf_tree v, itemsOf_itemTrees rest]

theorem fieldsOf_fieldTrees : ∀ fields : List (String × Value),
    Wire.Decoder.fieldsOf (Value.fieldTrees fields) = some fields
  | [] => rfl
  | (name, v) :: rest => by
    rw [Value.fieldTrees, Wire.Decoder.fieldsOf, valueOf_tree v, fieldsOf_fieldTrees rest]

end

end Json
end BuildFeed
