/-
# Tagged values

A tagged value is an object one field of which, its tag, names the variant;
the tag may stand anywhere among the fields. The object is therefore read
through once, in the order of the text, before any of its other fields is
decoded: a fault of syntax, too many open brackets, an unknown or a second
tag are met in this pass, at its end the lack of a tag, and all other faults
after it. The array that begins with the tag and goes on with the fields of
the variant in their declared order is read likewise.

Key definitions: `Variant`, `Variant.sharing`, `tagged`.
-/
import BuildFeed.Wire.Record

namespace BuildFeed
namespace Wire

open Json

/-- A reader of the fields of one variant, the tag taken out. -/
structure Variant (α : Type) where
  ofFields : Reading → Fields → Except Fault α
  ofItems : Reading → List Tree → Except Fault α

namespace Variant

/-- A variant whose fields make a record. -/
def ofRecord (record : Record α) : Variant α where
  ofFields r fields := (record.ofFields r fields).mapError Placed.fault
  ofItems r items :=
    match record.ofItems r items with
    | .error f => .error f
    | .ok (a, rest) => if rest.isEmpty then .ok a else .error .malformed

/-- A variant with fields of its own beside those it shares with others. Its
own fields are read before the shared ones, and it has no array form. -/
def sharing (shared : Record α) (own : Record β) (combine : α → β → γ) : Variant γ where
  ofFields r fields :=
    match own.ofFields r fields with
    | .error e => .error e.fault
    | .ok b =>
      match shared.ofFields r fields with
      | .error e => .error e.fault
      | .ok a => .ok (combine a b)
  ofItems _ _ := .error .malformed

end Variant

/-- The variant that a tag names; a tag held back may also be the number of
the variant, counted from zero. -/
def identify (variants : List (String × α)) : Decoder α
  | _, .scalar (.text name) => Decoder.pick variants name
  | r, .scalar (.int n) =>
    if r.held && 0 ≤ n then
      match variants[n.toNat]? with
      | some (_, a) => .ok a
      | none => .error .malformed
    else .error .malformed
  | _, _ => .error .malformed

/-- Decodes a tagged value. -/
def tagged (tag : String) (variants : List (String × Variant α)) : Decoder α
  | r, .object fields closed =>
    if r.room = 0 then .error .malformed
    else
      let flaw := Record.flaw
        (fun (name, t) => name = some tag || (name.isSome && t.isSound (r.room - 1))) fields closed
      match Record.settle flaw ((Record.required tag (identify variants)).ofFields r.inside fields) with
      | .error f => .error f
      | .ok variant => variant.ofFields r.holding (fields.filter fun (name, _) => name ≠ some tag)
  | r, .array items closed =>
    if r.room = 0 then .error .malformed
    else
      match items with
      | [] => .error (if closed then .missingField tag else .malformed)
      | t :: rest =>
        match identify variants r.inside t with
        | .error f => .error f
        | .ok variant =>
          if closed && Tree.itemsSound (r.room - 1) rest then variant.ofItems r.holding rest
          else .error .malformed
  | _, _ => .error .malformed

end Wire
end BuildFeed
