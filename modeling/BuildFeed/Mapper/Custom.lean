/-
# Mappers of other makes

Mappers as a user of the library may write them: one that takes tasks of any
category, one that declares another kind than its shape has, one that picks
among the operations of its kind, one whose shape matches only some details of
its kind, and one that answers with the error of a second start.

Key definitions: `Mapper.countingTask`, `Mapper.misroutedTask`,
`Mapper.pickyWorkItem`, `Mapper.compileTask`, `Mapper.nestedTask`.
-/
import BuildFeed.Mapper.Basic

namespace BuildFeed
namespace Mapper

/-- Tasks of any category. How often the mapper is asked for a descriptor can
be told from the record of the mappers consulted. -/
def countingTask : Mapper := TypedMapper.erase {
  name := "CountingTaskMapper"
  shape := .ofKind .executeTask
  isEnabled s := s.requests .task
  describe data op parent :=
    .ok (some ⟨op.identity parent, .task (ExecuteTask.taskPath data)⟩) }

/-- A mapper of tasks that declares build work, and serves every client. -/
def misroutedTask : Mapper := TypedMapper.erase {
  name := "MisroutedTaskMapper"
  shape := .ofKind .executeTask
  declares := .runBuildWork
  isEnabled _ := true
  describe data op parent :=
    .ok (some ⟨op.identity parent, .task (ExecuteTask.taskPath data)⟩) }

/-- Work items for clients that ask for anything at all. Items without a class
name are not reported, a class name that begins with an exclamation mark is
refused, and items whose class name begins with a tilde have no end. -/
def pickyWorkItem : Mapper := TypedMapper.erase {
  name := "PickyWorkItemMapper"
  shape := .ofKind .executeWorkItem
  isEnabled s := !s.isEmpty
  describe data op parent :=
    let name := ExecuteWorkItem.className data
    match name.toList with
    | [] => .ok none
    | '!' :: _ => .error (.validation ("rejected " ++ name))
    | _ => .ok (some ⟨op.identity parent, .workItem name⟩)
  finished d data op f :=
    match (ExecuteWorkItem.className data).toList with
    | '~' :: _ => none
    | _ => some (plainFinished d op f) }

/-- The tasks of one class. -/
def tasksOfClass (taskClass : String) : Shape ExecuteTask where
  kind := .executeTask
  read d := (d.as? .executeTask).filter fun data => ExecuteTask.taskClass data = taskClass

/-- A mapper of compile tasks. It declares the kind of tasks, so other tasks are
routed to it too, and it cannot read them. -/
def compileTask : Mapper := TypedMapper.erase {
  name := "CompileTaskMapper"
  shape := tasksOfClass "JavaCompile"
  isEnabled s := s.requests .task
  describe data op parent := .ok (some ⟨op.identity parent, .task data.taskPath⟩) }

/-- Tasks below other operations. A task without a parent is refused with the
error of a second start. -/
def nestedTask : Mapper := TypedMapper.erase {
  name := "NestedTaskMapper"
  shape := .ofKind .executeTask
  isEnabled s := s.requests .task
  describe data op parent :=
    match op.parent with
    | none => .error (.stateTransition ("task " ++ ExecuteTask.taskPath data ++ " without a parent"))
    | some _ => .ok (some ⟨op.identity parent, .task (ExecuteTask.taskPath data)⟩) }

end Mapper
end BuildFeed
