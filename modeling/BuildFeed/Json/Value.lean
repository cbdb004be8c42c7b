/-
# JSON values

A `Value` is what a JSON document means to this library: numbers are
integers, and an object is the list of its fields in the order in which they
are written. A payload that travels through unread has no order of its own,
so it is kept in canonical form: `Value.canonical` sorts the fields of every
object by name and lets the last of several fields of one name stand.

Key definitions: `Value`, `Value.putField`, `Value.canonical`.
-/

namespace BuildFeed
namespace Json

/-- A JSON value whose numbers are integers. -/
inductive Value
  | null
  | bool (b : Bool)
  | int (n : Int)
  | text (s : String)
  | array (items : List Value)
  | object (fields : List (String × Value))
  deriving Repr, BEq, Inhabited

namespace Value

/-- A natural number as a JSON number. -/
def nat (n : Nat) : Value := .int n

/-- A 32-bit number as a JSON number. -/
def uint32 (n : UInt32) : Value := .nat n.toNat

/-- The value of an optional part: an absent one is `null`. -/
def ofOption (f : α → Value) : Option α → Value
  | none => .null
  | some a => f a

/-- Sets a field in a list sorted by name. -/
def putField (name : String) (v : Value) : List (String × Value) → List (String × Value)
  | [] => [(name, v)]
  | (n, w) :: rest =>
    if name < n then (name, v) :: (n, w) :: rest
    else if name = n then (name, v) :: rest
    else (n, w) :: putField name v rest

mutual

/-- The value with the fields of every object sorted by name, the last of
several fields of one name standing for all of them. -/
def canonical : Value → Value
  | .array items => .array (canonicalItems items)
  | .object fields => .object (canonicalFields [] fields)
  | v => v

/-- The canonical forms of the items of an array. -/
def canonicalItems : List Value → List Value
  | [] => []
  | v :: rest => canonical v :: canonicalItems rest

/-- Sets the fields one after the other in a list sorted by name. -/
def canonicalFields (done : List (String × Value)) : List (String × Value) → List (String × Value)
  | [] => done
  | (name, v) :: rest => canonicalFields (putField name (canonical v) done) rest

end

end Value

end Json
end BuildFeed
