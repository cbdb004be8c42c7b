/-
# Problem reports

A problem that a build came upon: what it is, how serious it is, and the
places in the sources that it is about, in the order in which they were
added.

Key definitions: `Severity`, `ProblemReport`.
-/
import BuildFeed.Location

namespace BuildFeed

open Json Wire

/-- How serious a problem is. -/
inductive Severity
  | advice
  | warning
  | error
  deriving Repr, DecidableEq

namespace Severity

/-- A problem is a warning unless something else is said. -/
instance : Inhabited Severity := ⟨warning⟩

def wireName : Severity → String
  | advice => "advice"
  | warning => "warning"
  | error => "error"

def toValue (s : Severity) : Value := .text s.wireName

def decoder : Decoder Severity :=
  Decoder.oneOf ([advice, warning, error].map fun s => (s.wireName, s))

end Severity

/-- A problem of a build. -/
structure ProblemReport where
  label : String
  details : Option String
  severity : Severity
  locations : List Location
  deriving Repr, DecidableEq, Inhabited

namespace ProblemReport

/-- A report without details and locations. -/
def new (label : String) (severity : Severity) : ProblemReport := ⟨label, none, severity, []⟩

/-- Sets the details. -/
def withDetails (p : ProblemReport) (details : String) : ProblemReport :=
  { p with details := some details }

/-- Adds a location behind the others. -/
def addLocation (p : ProblemReport) (l : Location) : ProblemReport :=
  { p with locations := p.locations ++ [l] }

/-! ### Wire form -/

/-- The fields of a report, which a descriptor of a problem has too. -/
def fields (p : ProblemReport) : List (String × Value) :=
  [("label", .text p.label), ("details", .ofOption .text p.details),
    ("severity", p.severity.toValue), ("locations", .array (p.locations.map Location.toValue))]

def toValue (p : ProblemReport) : Value := .object p.fields

def record : Record ProblemReport :=
  ProblemReport.mk <$> .required "label" Decoder.text <*> .optional "details" Decoder.text
    <*> .defaulting "severity" default Severity.decoder
    <*> .defaulting "locations" [] (Decoder.list Location.decoder)

def decoder : Decoder ProblemReport := record.decoder

end ProblemReport

end BuildFeed
