/-
# Identifiers

Operations are numbered by the scheduler. Builds, connections and listeners
have textual ids: those made here are random UUIDs of version 4, and an id
handed in by a caller may be any text but the empty one. Decoding takes the
empty text too.

Key definitions: `OperationId`, `BuildId`, `ConnectionId`, `ListenerId`, `uuidText`.
-/
import BuildFeed.Error
import BuildFeed.Json.Value
import BuildFeed.Wire.Decoder

namespace BuildFeed

open Json Wire

/-- The scheduler's number of an operation. -/
structure OperationId where
  number : UInt64
  deriving Repr, DecidableEq, Inhabited

structure BuildId where
  text : String
  deriving Repr, DecidableEq, Inhabited

structure ConnectionId where
  text : String
  deriving Repr, DecidableEq, Inhabited

structure ListenerId where
  text : String
  deriving Repr, DecidableEq, Inhabited

namespace OperationId

/-- The decimal digits of the number. -/
def render (id : OperationId) : String := String.ofList (Nat.toDigits 10 id.number.toNat)

def toValue (id : OperationId) : Value := .nat id.number.toNat

def decoder : Decoder OperationId := Decoder.uint64.map OperationId.mk

end OperationId

/-- A text that names something, and so is not empty. -/
def nonemptyText (typeName text : String) : Except Error String :=
  if text.isEmpty then .error (.emptyId typeName) else .ok text

namespace BuildId

/-- An id from a caller. -/
def parse (text : String) : Except Error BuildId := (nonemptyText "BuildId" text).map BuildId.mk

def toValue (id : BuildId) : Value := .text id.text

def decoder : Decoder BuildId := Decoder.text.map BuildId.mk

end BuildId

namespace ConnectionId

/-- An id from a caller. -/
def parse (text : String) : Except Error ConnectionId :=
  (nonemptyText "ConnectionId" text).map ConnectionId.mk

def toValue (id : ConnectionId) : Value := .text id.text

end ConnectionId

namespace ListenerId

/-- An id from a caller. -/
def parse (text : String) : Except Error ListenerId :=
  (nonemptyText "ListenerId" text).map ListenerId.mk

def toValue (id : ListenerId) : Value := .text id.text

def decoder : Decoder ListenerId := Decoder.text.map ListenerId.mk

end ListenerId

/-! ### Fresh ids -/

/-- The `count` lowest hexadecimal digits of a number, the highest first. -/
def hexDigits : Nat → Nat → List Char
  | 0, _ => []
  | count + 1, n => hexDigits count (n / 16) ++ [(n % 16).digitChar]

/-- The UUID of version 4 made of 122 random bits: 32 hexadecimal digits in
groups of 8, 4, 4, 4 and 12, the 13th digit being the version 4 and the two
highest bits of the 17th being the variant 10. -/
def uuidText (bits : Nat) : String :=
  let node := hexDigits 12 bits
  let clock := hexDigits 3 (bits / 0x1000000000000)
  let variant := (8 + bits / 0x1000000000000000 % 4).digitChar
  let high := hexDigits 3 (bits / 0x4000000000000000)
  let mid := hexDigits 4 (bits / 0x4000000000000000000)
  let low := hexDigits 8 (bits / 0x40000000000000000000000)
  String.ofList (low ++ '-' :: mid ++ '-' :: '4' :: high ++ '-' :: variant :: clock ++ '-' :: node)

end BuildFeed
