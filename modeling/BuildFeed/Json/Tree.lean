/-
# The tree of a JSON text, also of a faulty one

Whoever decodes a document meets its parts in the order of the text, so a
fault of syntax counts only if nothing before it was at fault. A `Tree`
therefore keeps all that stands before the first fault of syntax: the arrays
and objects that were open there are marked as not closed, and the value of
a field whose name was the last thing read is `absent`. `Tree.ofTokens` is a
machine with the stack of the containers that are open.

Two kinds of scalar are in the tree though they stand for no value, a text
with an unpaired surrogate and a number out of range, because they can be
passed over; the name of a field is `none` if it is a text of the first kind.

Key definitions: `Tree`, `Frame`, `State.next`, `Tree.ofTokens`, `Document.read`.
-/
import BuildFeed.Json.Token

namespace BuildFeed
namespace Json

/-- What a JSON text says up to its first fault of syntax. -/
inductive Tree
  | scalar (s : Scalar)
  | array (items : List Tree) (closed : Bool)
  | object (fields : List (Option String × Tree)) (closed : Bool)
  /-- The place of a value that the text ends or breaks before. -/
  | absent
  deriving Repr, BEq, Inhabited

/-- The fields of an object in the order of the text. -/
abbrev Fields := List (Option String × Tree)

/-- A container that is still open: what it holds so far, newest first. -/
inductive Frame
  | array (items : List Tree)
  /-- An object and, once it is read, the name of the field under way. -/
  | object (fields : Fields) (name : Option (Option String))
  deriving Inhabited

/-- What may follow at a point of the text. -/
inductive Due
  | value
  /-- Right after an opening bracket: a value, or the end of the array. -/
  | firstItem
  | name
  /-- Right after an opening brace: a name, or the end of the object. -/
  | firstName
  | colon
  /-- A comma, or the end of the container. -/
  | separator
  deriving Repr, DecidableEq, Inhabited

/-- Where the reader of a text stands. -/
inductive State
  | reading (due : Due) (stack : List Frame)
  /-- The document is a whole value; `clean` tells that nothing follows it. -/
  | done (t : Tree) (clean : Bool)
  | broken (t : Tree)
  deriving Inhabited

namespace State

/-- The tree of a document that breaks off inside the containers of a stack,
`inner` being what the innermost value came to. -/
def cut (inner : Option Tree) : List Frame → Tree
  | [] => inner.getD .absent
  | .array items :: up => cut (some (.array (inner.toList ++ items).reverse false)) up
  | .object fields none :: up => cut (some (.object fields.reverse false)) up
  | .object fields (some name) :: up =>
    cut (some (.object ((name, inner.getD .absent) :: fields).reverse false)) up

/-- The state after a whole value. -/
def put (t : Tree) : List Frame → State
  | [] => .done t true
  | .array items :: up => .reading .separator (.array (t :: items) :: up)
  | .object fields name :: up =>
    .reading .separator (.object ((name.getD none, t) :: fields) none :: up)

/-- The name of a field that a text scalar gives; only texts are names. -/
def fieldName : Scalar → Option (Option String)
  | .text s => some (some s)
  | .unpairedText => some none
  | _ => none

/-- The state after a value begins with the given token, if one can. -/
def enter (stack : List Frame) : Token → Option State
  | .scalar s => some (put (.scalar s) stack)
  | .openArray => some (.reading .firstItem (.array [] :: stack))
  | .openObject => some (.reading .firstName (.object [] none :: stack))
  | _ => none

/-- The state after a token that may follow, if it may. -/
def accept : Due → List Frame → Token → Option State
  | .value, stack, t => enter stack t
  | .firstItem, .array items :: up, .closeArray => some (put (.array items.reverse true) up)
  | .firstItem, stack, t => enter stack t
  | .separator, .array items :: up, .closeArray => some (put (.array items.reverse true) up)
  | .separator, .array items :: up, .comma => some (.reading .value (.array items :: up))
  | .separator, .object fields _ :: up, .closeObject => some (put (.object fields.reverse true) up)
  | .separator, .object fields _ :: up, .comma => some (.reading .name (.object fields none :: up))
  | .firstName, .object fields _ :: up, .closeObject => some (put (.object fields.reverse true) up)
  | .firstName, .object fields _ :: up, .scalar s =>
    (fieldName s).map fun name => .reading .colon (.object fields (some name) :: up)
  | .name, .object fields _ :: up, .scalar s =>
    (fieldName s).map fun name => .reading .colon (.object fields (some name) :: up)
  | .colon, stack, .colon => some (.reading .value stack)
  | _, _, _ => none

/-- The state after one more token. What follows a fault changes nothing, and
anything behind the whole value makes the document unclean. -/
def next : State → Token → State
  | .reading due stack, t => (accept due stack t).getD (.broken (cut none stack))
  | .done t _, _ => .done t false
  | .broken t, _ => .broken t

/-- The state at the start of a text. -/
def start : State := .reading .value []

end State

/-- A document: its tree, and whether nothing but blanks follows the value. -/
structure Document where
  tree : Tree
  clean : Bool
  deriving Repr, Inhabited

/-- The document at the end of the text. -/
def State.document : State → Document
  | .reading _ stack => ⟨cut none stack, false⟩
  | .done t clean => ⟨t, clean⟩
  | .broken t => ⟨t, false⟩

/-- The document that a list of tokens makes. -/
def Document.ofTokens (ts : List Token) : Document :=
  (ts.foldl State.next State.start).document

/-- Reads a text. -/
def Document.read (text : String) : Document :=
  .ofTokens (lex text.toList)

/-- Whether a scalar stands for a value. -/
def Scalar.isSound : Scalar → Bool
  | .fraction inRange => inRange
  | .unpairedText => false
  | _ => true

namespace Tree

/-- Whether the text of the value ends where the value does. -/
def isWhole : Tree → Bool
  | .scalar _ => true
  | .array _ closed => closed
  | .object _ closed => closed
  | .absent => false

mutual

/-- Whether a value can be read through: its syntax is whole, its scalars
stand for values, and at most `room` brackets are open at once in it. -/
def isSound (room : Nat) : Tree → Bool
  | .scalar s => s.isSound
  | .array items closed => closed && 0 < room && itemsSound (room - 1) items
  | .object fields closed => closed && 0 < room && fieldsSound (room - 1) fields
  | .absent => false

/-- Whether all items can be read through. -/
def itemsSound (room : Nat) : List Tree → Bool
  | [] => true
  | t :: rest => isSound room t && itemsSound room rest

/-- Whether all fields can be read through, their names too. -/
def fieldsSound (room : Nat) : Fields → Bool
  | [] => true
  | (name, t) :: rest => name.isSome && isSound room t && fieldsSound room rest

end

end Tree

end Json
end BuildFeed
