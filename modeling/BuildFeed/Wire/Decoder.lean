/-
# Decoders

A decoder reads a tree as a value of some type and reports the fault that
comes first in the document. Values are read at two moments. Most are read
straight off the text. The parts of a tagged value are held back until its
tag is known: they have then been read through once, which limits how deep
they nest, and are read with two liberties (see `choice` here and `identify`
in the module on tagged values). `Reading` says at which moment a decoder
runs and how many brackets may still open.

Key definitions: `Decoder`, `decode`, `list`, `optional`, `choice`, `opaqueValue`.
-/
import BuildFeed.Json.Tree
import BuildFeed.Json.Value
import BuildFeed.Wire.Fault

namespace BuildFeed
namespace Wire

open Json

/-- How a value is read. -/
structure Reading where
  /-- The number of brackets that may be opened. -/
  room : Nat
  /-- Whether the value was held back while the tag around it was looked for. -/
  held : Bool
  deriving Repr, DecidableEq, Inhabited

namespace Reading

/-- How a document is read: at most 127 brackets are open at once. -/
def ofText : Reading := ⟨127, false⟩

/-- How the parts of a container are read. -/
def inside (r : Reading) : Reading := { r with room := r.room - 1 }

/-- How the parts of a tagged container are read. -/
def holding (r : Reading) : Reading := ⟨r.room - 1, true⟩

end Reading

/-- A reader of trees. -/
abbrev Decoder (α : Type) := Reading → Tree → Except Fault α

/-- Decodes a text; it holds one value and nothing behind it. -/
def decode (d : Decoder α) (text : String) : Except Fault α :=
  let doc := Document.read text
  match d .ofText doc.tree with
  | .error f => .error f
  | .ok a => if doc.clean then .ok a else .error .malformed

namespace Decoder

/-- Decodes what `d` does and then asks for more of the value. -/
def narrow (d : Decoder α) (f : α → Option β) : Decoder β := fun r t =>
  match d r t with
  | .error e => .error e
  | .ok a =>
    match f a with
    | some b => .ok b
    | none => .error .malformed

/-- Decodes what `d` does, seen through `f`. -/
def map (f : α → β) (d : Decoder α) : Decoder β := fun r t => (d r t).map f

/-! ### Scalars -/

def text : Decoder String
  | _, .scalar (.text s) => .ok s
  | _, _ => .error .malformed

def bool : Decoder Bool
  | _, .scalar (.bool b) => .ok b
  | _, _ => .error .malformed

/-- An unsigned integer below a bound. -/
def below (bound : Nat) : Decoder Nat
  | _, .scalar (.int n) => if 0 ≤ n ∧ n < bound then .ok n.toNat else .error .malformed
  | _, _ => .error .malformed

def uint32 : Decoder UInt32 := map UInt32.ofNat (below UInt32.size)

def uint64 : Decoder UInt64 := map UInt64.ofNat (below UInt64.size)

/-- A value that `null` leaves out. -/
def optional (d : Decoder α) : Decoder (Option α)
  | _, .scalar .null => .ok none
  | r, t => (d r t).map some

/-! ### Lists and choices -/

/-- A list, item by item. -/
def list (d : Decoder α) : Decoder (List α)
  | r, .array items closed =>
    match items.mapM (d r.inside) with
    | .error f => .error f
    | .ok as => if closed then .ok as else .error .malformed
  | _, _ => .error .malformed

/-- One of the values to choose from: it stands alone, or carries a part. -/
inductive Alternative (α : Type)
  | alone (a : α)
  | carrying (d : Decoder α)

/-- The alternative of a name. -/
def pick (alternatives : List (String × α)) (name : String) : Except Fault α :=
  match alternatives.lookup name with
  | some a => .ok a
  | none => .error (.unknownVariant name (alternatives.map Prod.fst))

/-- Whether a tree stands for the missing part of an alternative that carries
none: `null` does, and a value held back may also be an empty object. -/
def isNothing (held : Bool) : Tree → Bool
  | .scalar .null => true
  | .object [] _ => held
  | _ => false

/-- The alternative with the part that it is given. -/
def Alternative.decode (r : Reading) (t : Tree) : Alternative α → Except Fault α
  | .alone a => if isNothing r.held t then .ok a else .error .malformed
  | .carrying d => d r.inside t

/-- One of several named alternatives: the name of one that stands alone, or
an object whose only field has the name and the part. Of a value held back
the number of fields is known before the name is looked at. -/
def choice (alternatives : List (String × Alternative α)) : Decoder α
  | _, .scalar (.text name) =>
    match pick alternatives name with
    | .error f => .error f
    | .ok (.alone a) => .ok a
    | .ok (.carrying _) => .error .malformed
  | r, .object ((some name, t) :: more) closed =>
    if r.held && !more.isEmpty then .error .malformed
    else
      match pick alternatives name with
      | .error f => .error f
      | .ok alternative =>
        match alternative.decode r t with
        | .error f => .error f
        | .ok a => if more.isEmpty && closed then .ok a else .error .malformed
  | _, _ => .error .malformed

/-- One of several names. -/
def oneOf (names : List (String × α)) : Decoder α :=
  choice (names.map fun (name, a) => (name, .alone a))

/-! ### Values of any kind -/

mutual

/-- The value of a tree without faults, if all its numbers are integers. -/
def valueOf : Tree → Option Value
  | .scalar .null => some .null
  | .scalar (.bool b) => some (.bool b)
  | .scalar (.int n) => some (.int n)
  | .scalar (.text s) => some (.text s)
  | .scalar (.fraction _) => none
  | .scalar .unpairedText => none
  | .array items _ => (itemsOf items).map .array
  | .object fields _ => (fieldsOf fields).map .object
  | .absent => none

/-- The values of the items of an array. -/
def itemsOf : List Tree → Option (List Value)
  | [] => some []
  | t :: rest =>
    match valueOf t, itemsOf rest with
    | some v, some vs => some (v :: vs)
    | _, _ => none

/-- The names and values of the fields of an object. -/
def fieldsOf : Fields → Option (List (String × Value))
  | [] => some []
  | (some name, t) :: rest =>
    match valueOf t, fieldsOf rest with
    | some v, some vs => some ((name, v) :: vs)
    | _, _ => none
  | (none, _) :: _ => none

end

/-- Any value, in canonical form. -/
def opaqueValue : Decoder Value := fun r t =>
  if t.isSound r.room then
    match valueOf t with
    | some v => .ok v.canonical
    | none => .error .malformed
  else .error .malformed

end Decoder

end Wire
end BuildFeed
