/-
# Errors

The errors that the calls of this library answer with. Filtering is never an
error: a mapper that is not enabled or declines an operation is an ordinary
outcome. An error is fatal if it shows a defect of the program around this
library, one that must not be passed over at run time.

Key definitions: `Error`, `Error.message`, `Error.isFatal`.
-/
import BuildFeed.Wire.Fault

namespace BuildFeed

/-- Why a call fails. -/
inductive Error
  /-- The set-up is at fault, before any signal is handled. -/
  | configuration (message : String)
  /-- A mapper was given an operation of a category that it has no entry for. -/
  | unsupportedCategory (category mapper : String)
  | stateTransition (message : String)
  /-- A value handed in by a caller is not acceptable. -/
  | validation (message : String)
  | internal (message : String)
  /-- A document cannot be read or written; the detail is its wording, if fixed. -/
  | serialization (detail : Option String)
  deriving Repr, DecidableEq, Inhabited

namespace Error

/-- The wording of an error, if it is fixed. -/
def message : Error → Option String
  | .configuration m => some ("configuration error: " ++ m)
  | .unsupportedCategory category mapper =>
    some ("build operation category " ++ category ++ " is not supported by " ++ mapper)
  | .stateTransition m => some ("state transition error: " ++ m)
  | .validation m => some ("validation error: " ++ m)
  | .internal m => some ("internal error: " ++ m)
  | .serialization detail => detail.map ("serialization error: " ++ ·)

/-- Whether the error shows a defect that has to surface at once. -/
def isFatal : Error → Bool
  | .configuration _ => true
  | .unsupportedCategory _ _ => true
  | .internal _ => true
  | _ => false

/-- The error of a document that does not decode. -/
def ofFault (f : Wire.Fault) : Error := .serialization f.message

/-- An id was given as the empty text. -/
def emptyId (typeName : String) : Error := .validation (typeName ++ " cannot be empty")

/-- A queue was asked for that holds nothing. -/
def zeroCapacity : Error := .validation "dispatch.listener_queue_capacity must be positive"

/-- An operation was started while an operation of its id was live. -/
def startedTwice (operation build : String) : Error :=
  .stateTransition ("operation " ++ operation ++ " started twice in build " ++ build)

/-- A mapper was handed details that it cannot read. -/
def misrouted (mapper kind operation : String) : Error :=
  .internal (mapper ++ " was routed " ++ kind ++ " details for operation " ++ operation)

end Error

end BuildFeed
