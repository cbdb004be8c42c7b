/-
# Records

A record is written as an object or, shorter, as the array of its fields in
their declared order. `Record` is applicative: a record is put together from
its fields, each of which looks only at the entries of its own name. Several
fields may be at fault in one document; the fault whose place comes first in
the text wins, and a missing field has its place behind the closing brace.
Fields of other names are passed over without being read.

Key definitions: `Record`, `Record.required`, `Record.defaulting`, `Record.decoder`.
-/
import BuildFeed.Wire.Decoder

namespace BuildFeed
namespace Wire

open Json

/-- A fault and the number of the field where it is met. -/
structure Placed where
  place : Nat
  fault : Fault
  deriving Repr, DecidableEq, Inhabited

/-- The one of two faults that is met first; of two at one place, the left. -/
def Placed.first (a b : Placed) : Placed := if b.place < a.place then b else a

/-- The entries of a name, each with its place. -/
def entries (name : String) (fields : Fields) : List (Nat × Tree) :=
  fields.zipIdx.filterMap fun ((n, t), i) => if n = some name then some (i, t) else none

/-- A reader of records: from the fields of an object, and from the items of
an array, of which it leaves those it has no use for. -/
structure Record (α : Type) where
  ofFields : Reading → Fields → Except Placed α
  ofItems : Reading → List Tree → Except Fault (α × List Tree)

namespace Record

/-- The record without fields. -/
def pure (a : α) : Record α where
  ofFields _ _ := .ok a
  ofItems _ items := .ok (a, items)

/-- Two records side by side: the fields of both are looked for. -/
def app (f : Record (α → β)) (x : Record α) : Record β where
  ofFields r fields :=
    match f.ofFields r fields, x.ofFields r fields with
    | .ok g, .ok a => .ok (g a)
    | .error e, .ok _ => .error e
    | .ok _, .error e => .error e
    | .error e, .error e' => .error (e.first e')
  ofItems r items :=
    match f.ofItems r items with
    | .error e => .error e
    | .ok (g, rest) =>
      match x.ofItems r rest with
      | .error e => .error e
      | .ok (a, rest) => .ok (g a, rest)

instance : Applicative Record where
  pure := Record.pure
  seq f x := Record.app f (x ())

/-- The one value among the entries of a field: a second entry is a fault,
and so is the lack of one unless `absent` stands in for it. -/
def single (name : String) (absent : Option α) (d : Decoder α) (r : Reading) (fields : Fields) :
    Except Placed α :=
  match entries name fields with
  | [] =>
    match absent with
    | some a => .ok a
    | none => .error ⟨fields.length + 1, .missingField name⟩
  | (i, t) :: more =>
    match d r t with
    | .error f => .error ⟨i, f⟩
    | .ok a =>
      match more with
      | [] => .ok a
      | (j, _) :: _ => .error ⟨j, .duplicateField name⟩

/-- A field that has to be there. -/
def required (name : String) (d : Decoder α) : Record α where
  ofFields := single name none d
  ofItems
    | _, [] => .error .malformed
    | r, t :: rest => (d r t).map (·, rest)

/-- A field that has a default. -/
def defaulting (name : String) (a : α) (d : Decoder α) : Record α where
  ofFields := single name (some a) d
  ofItems
    | _, [] => .ok (a, [])
    | r, t :: rest => (d r t).map (·, rest)

/-- A field that may be left out or `null`. -/
def optional (name : String) (d : Decoder α) : Record (Option α) :=
  defaulting name none d.optional

/-- The place of the first entry that a test fails, or behind the last entry
if the object is not closed. -/
def flaw (passes : Option String × Tree → Bool) (fields : Fields) (closed : Bool) : Option Nat :=
  match fields.findIdx? fun entry => !passes entry with
  | some i => some i
  | none => if closed then none else some fields.length

/-- The outcome of reading the fields of an object that has a flaw at some
place or none: the flaw counts unless another fault is met before or at it. -/
def settle (flaw : Option Nat) : Except Placed α → Except Fault α
  | .ok a => if flaw.isNone then .ok a else .error .malformed
  | .error e => if flaw.any (· < e.place) then .error .malformed else .error e.fault

/-- Decodes a record from an object or an array. -/
def decoder (record : Record α) : Decoder α
  | r, .object fields closed =>
    if r.room = 0 then .error .malformed
    else
      settle (flaw (fun (name, t) => name.isSome && t.isWhole) fields closed)
        (record.ofFields r.inside fields)
  | r, .array items closed =>
    if r.room = 0 then .error .malformed
    else
      match record.ofItems r.inside items with
      | .error f => .error f
      | .ok (a, rest) => if rest.isEmpty && closed then .ok a else .error .malformed
  | _, _ => .error .malformed

end Record

end Wire
end BuildFeed
