/-
# What can be wrong with a document

A `Fault` is the reason why a document does not decode. Three of them are
worded for whoever wrote the document; a document with any other fault is
just `malformed`, and what is said of it is not fixed here.

Key definitions: `Fault`, `Fault.message`.
-/

namespace BuildFeed
namespace Wire

/-- Why a document does not decode. -/
inductive Fault
  | missingField (name : String)
  | duplicateField (name : String)
  | unknownVariant (name : String) (expected : List String)
  | malformed
  deriving Repr, DecidableEq, Inhabited

namespace Fault

/-- A name between backquotes. -/
def quoteName (name : String) : String := "`" ++ name ++ "`"

/-- The names to choose from: two are joined by "or", more are a list. -/
def expectation : List String → String
  | [a] => quoteName a
  | [a, b] => quoteName a ++ " or " ++ quoteName b
  | names => "one of " ++ String.intercalate ", " (names.map quoteName)

/-- The wording of a fault, if it is fixed. -/
def message : Fault → Option String
  | .missingField name => some ("missing field " ++ quoteName name)
  | .duplicateField name => some ("duplicate field " ++ quoteName name)
  | .unknownVariant name expected =>
    some ("unknown variant " ++ quoteName name ++ ", expected " ++ expectation expected)
  | .malformed => none

end Fault

end Wire
end BuildFeed
