/-
# The built-in mappers

One mapper for each kind of details, each reading all details of its kind and
serving the clients that ask for
one operation type. Three of them look at the category of an operation: each
has a table of the categories that it knows, and an operation of a known
kind but of another category is an error, since then the table is out of
step with the scheduler.

Key definitions: `Mapper.buildPhase`, `Mapper.task`, `Mapper.projectConfiguration`,
`Mapper.workItem`, `Mapper.problem`, `Mapper.builtIn`.
-/
import BuildFeed.Mapper.Basic

namespace BuildFeed
namespace Mapper

/-- The phase that work of a category belongs to, named like the category. -/
def phaseOf : Category → Option String
  | .task | .transform | .uncategorized => none
  | c => some c.wireName

/-- Whether an operation without a category, or of the one given, is meant. -/
def checkCategory (mapper : String) (known : Category) : Option Category → Except Error Unit
  | none => .ok ()
  | some c => if c = known then .ok () else .error (.unsupportedCategory c.wireName mapper)

/-- Work of a build phase. Work without a category is not reported. -/
def buildPhase : Mapper := TypedMapper.erase {
  name := "BuildPhaseOperationMapper"
  shape := .ofKind .runBuildWork
  isEnabled s := s.requests .buildPhase
  describe _ op parent :=
    match op.category with
    | none => .ok none
    | some c =>
      match phaseOf c with
      | none => .error (.unsupportedCategory c.wireName "BuildPhaseOperationMapper")
      | some phase => .ok (some ⟨op.identity parent, .buildPhase phase op.totalProgress⟩) }

/-- Tasks. Their finished events tell how they came by their results. -/
def task : Mapper := TypedMapper.erase {
  name := "TaskOperationMapper"
  shape := .ofKind .executeTask
  isEnabled s := s.requests .task
  describe data op parent :=
    (checkCategory "TaskOperationMapper" .task op.category).map fun _ =>
      some ⟨op.identity parent, .task (ExecuteTask.taskPath data)⟩
  finished d _ op f :=
    some (.finished f.endTime d (.ofOutcome op.startTime f.endTime f.outcome)
      (some (.ofOutcome f.outcome))) }

/-- The configuration of projects. -/
def projectConfiguration : Mapper := TypedMapper.erase {
  name := "ProjectConfigurationOperationMapper"
  shape := .ofKind .configureProject
  isEnabled s := s.requests .projectConfiguration
  describe data op parent :=
    (checkCategory "ProjectConfigurationOperationMapper" .configureProject op.category).map fun _ =>
      some ⟨op.identity parent,
        .projectConfiguration (ConfigureProject.projectPath data) (ConfigureProject.buildPath data)
          (some (ConfigureProject.rootDir data))⟩ }

/-- Work items, of whatever category. -/
def workItem : Mapper := TypedMapper.erase {
  name := "WorkItemOperationMapper"
  shape := .ofKind .executeWorkItem
  isEnabled s := s.requests .workItem
  describe data op parent :=
    .ok (some ⟨op.identity parent, .workItem (ExecuteWorkItem.className data)⟩) }

/-- Problems. They happen at a point in time, so only their start is reported. -/
def problem : Mapper := TypedMapper.erase {
  name := "ProblemOperationMapper"
  shape := .ofKind .reportProblem
  isEnabled s := s.requests .problems
  describe data op parent :=
    .ok (some ⟨op.identity parent, .problem (ReportProblem.problem data)⟩)
  finished _ _ _ _ := none }

/-- All built-in mappers. -/
def builtIn : List Mapper := [buildPhase, task, projectConfiguration, workItem, problem]

end Mapper
end BuildFeed
