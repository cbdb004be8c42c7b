/-
# The scheduler's signals

A build scheduler says when an operation starts and when it finishes. A
start signal carries details of one of five kinds; `Details` keeps the kind
beside data of the type that belongs to it, so that whoever has looked at
the kind has the data. A shape is what details may be read as: data of some
type, of all details of a kind or of some of them.

Key definitions: `Category`, `DetailsKind`, `Details`, `Details.as?`, `Shape`,
`StartSignal`, `Outcome`, `FinishSignal`.
-/
import BuildFeed.Ident
import BuildFeed.Problem
import BuildFeed.Time.Instant

namespace BuildFeed

open Json Wire Time

/-! ### Categories -/

/-- The scheduler's coarse classification of operations. -/
inductive Category
  | configureRootBuild
  | configureBuild
  | configureProject
  | runMainTasks
  | runWork
  | task
  | transform
  | uncategorized
  deriving Repr, DecidableEq, Inhabited

namespace Category

def all : List Category :=
  [configureRootBuild, configureBuild, configureProject, runMainTasks, runWork, task, transform,
    uncategorized]

def wireName : Category → String
  | configureRootBuild => "CONFIGURE_ROOT_BUILD"
  | configureBuild => "CONFIGURE_BUILD"
  | configureProject => "CONFIGURE_PROJECT"
  | runMainTasks => "RUN_MAIN_TASKS"
  | runWork => "RUN_WORK"
  | task => "TASK"
  | transform => "TRANSFORM"
  | uncategorized => "UNCATEGORIZED"

def toValue (c : Category) : Value := .text c.wireName

def decoder : Decoder Category := Decoder.oneOf (all.map fun c => (c.wireName, c))

/-- The wire form of the category of an operation, which may have none. -/
def metadataValue : Option Category → Value
  | none => .text "None"
  | some c => .object [("Category", c.toValue)]

def metadataDecoder : Decoder (Option Category) :=
  Decoder.choice [("None", .alone none), ("Category", .carrying (decoder.map some))]

end Category

/-! ### Details -/

/-- The kinds of details. -/
inductive DetailsKind
  | runBuildWork
  | executeTask
  | configureProject
  | executeWorkItem
  | reportProblem
  deriving Repr, DecidableEq, Inhabited

namespace DetailsKind

def all : List DetailsKind :=
  [runBuildWork, executeTask, configureProject, executeWorkItem, reportProblem]

def wireName : DetailsKind → String
  | runBuildWork => "run_build_work"
  | executeTask => "execute_task"
  | configureProject => "configure_project"
  | executeWorkItem => "execute_work_item"
  | reportProblem => "report_problem"

/-- The name in diagnostics. -/
def name : DetailsKind → String
  | runBuildWork => "RunBuildWork"
  | executeTask => "ExecuteTask"
  | configureProject => "ConfigureProject"
  | executeWorkItem => "ExecuteWorkItem"
  | reportProblem => "ReportProblem"

def toValue (k : DetailsKind) : Value := .text k.wireName

def decoder : Decoder DetailsKind := Decoder.oneOf (all.map fun k => (k.wireName, k))

end DetailsKind

structure RunBuildWork where
  buildPath : String
  deriving Repr, DecidableEq, Inhabited

structure ExecuteTask where
  taskPath : String
  buildPath : String
  taskClass : String
  deriving Repr, DecidableEq, Inhabited

structure ConfigureProject where
  projectPath : String
  buildPath : String
  rootDir : String
  deriving Repr, DecidableEq, Inhabited

structure ExecuteWorkItem where
  className : String
  deriving Repr, DecidableEq, Inhabited

structure ReportProblem where
  problem : ProblemReport
  deriving Repr, DecidableEq, Inhabited

/-- The data of details of a kind. -/
def DetailsKind.Data : DetailsKind → Type
  | runBuildWork => RunBuildWork
  | executeTask => ExecuteTask
  | configureProject => ConfigureProject
  | executeWorkItem => ExecuteWorkItem
  | reportProblem => ReportProblem

/-- What an operation is about. -/
structure Details where
  kind : DetailsKind
  data : kind.Data

namespace Details

/-- The data of the details if they are of a given kind. -/
def as? (k : DetailsKind) (d : Details) : Option k.Data :=
  if h : d.kind = k then some (h ▸ d.data) else none

def ofRunBuildWork (d : RunBuildWork) : Details := ⟨.runBuildWork, d⟩
def ofExecuteTask (d : ExecuteTask) : Details := ⟨.executeTask, d⟩
def ofConfigureProject (d : ConfigureProject) : Details := ⟨.configureProject, d⟩
def ofExecuteWorkItem (d : ExecuteWorkItem) : Details := ⟨.executeWorkItem, d⟩
def ofReportProblem (d : ReportProblem) : Details := ⟨.reportProblem, d⟩

instance : Inhabited Details := ⟨ofRunBuildWork default⟩

/-- What an operation is called that was given no name. -/
def defaultName : Details → String
  | ⟨.runBuildWork, d⟩ => "Run build " ++ RunBuildWork.buildPath d
  | ⟨.executeTask, d⟩ => ExecuteTask.taskPath d
  | ⟨.configureProject, d⟩ => "Configure project " ++ ConfigureProject.projectPath d
  | ⟨.executeWorkItem, d⟩ => ExecuteWorkItem.className d
  | ⟨.reportProblem, d⟩ => (ReportProblem.problem d).label

@[simp] theorem as?_self (d : Details) : d.as? d.kind = some d.data := by
  simp [as?]

end Details

/-! ### Shapes -/

/-- What details are read as. Nothing keeps a shape from matching fewer details
than those of its kind, or others. -/
structure Shape (δ : Type) where
  /-- The kind of details that the shape is meant for. -/
  kind : DetailsKind
  /-- The data of the details that it matches. -/
  read : Details → Option δ

/-- All details of a kind. -/
def Shape.ofKind (k : DetailsKind) : Shape k.Data := ⟨k, Details.as? k⟩

@[simp] theorem Shape.kind_ofKind (k : DetailsKind) : (ofKind k).kind = k := rfl

@[simp] theorem Shape.read_ofKind (k : DetailsKind) : (ofKind k).read = Details.as? k := rfl

/-! ### Signals -/

/-- An operation starts. -/
structure StartSignal where
  id : OperationId
  parent : Option OperationId
  name : String
  displayName : String
  category : Option Category
  /-- The number of items that the operation expects to work through. -/
  totalProgress : UInt32
  details : Details
  startTime : Instant
  deriving Inhabited

namespace StartSignal

/-- A signal with the name that its details give, and no items to work through. -/
def new (id : OperationId) (parent : Option OperationId) (category : Option Category)
    (details : Details) (startTime : Instant) : StartSignal :=
  ⟨id, parent, details.defaultName, details.defaultName, category, 0, details, startTime⟩

def named (s : StartSignal) (name displayName : String) : StartSignal :=
  { s with name := name, displayName := displayName }

def withTotalProgress (s : StartSignal) (n : UInt32) : StartSignal := { s with totalProgress := n }

end StartSignal

/-- How an operation went. -/
inductive Outcome
  | success
  | upToDate
  | fromCache
  | skipped (reason : String)
  | failed (message : String)
  deriving Repr, DecidableEq, Inhabited

/-- An operation finishes. -/
structure FinishSignal where
  id : OperationId
  endTime : Instant
  outcome : Outcome
  deriving Inhabited

end BuildFeed
