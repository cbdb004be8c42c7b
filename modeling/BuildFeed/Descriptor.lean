/-
# Descriptors

What clients are told an operation is. All descriptors have an identity, the
operation's id and names and the parent that the client sees, and a subject
of one of five kinds, each for one operation type.

The wire form can grow: fields may be added to it later, so a reader passes
over fields that it does not know, and a field that was not there from the
start may be left out.

Key definitions: `Identity`, `Subject`, `Descriptor`, `Descriptor.withParent`,
`Descriptor.operationType`.
-/
import BuildFeed.Ident
import BuildFeed.Problem
import BuildFeed.Subscription

namespace BuildFeed

open Json Wire

/-- What descriptors of all kinds say of an operation. -/
structure Identity where
  id : OperationId
  name : String
  displayName : String
  parent : Option OperationId
  deriving Repr, DecidableEq, Inhabited

/-- What a descriptor says of an operation of its kind. -/
inductive Subject
  | task (taskPath : String)
  | buildPhase (phase : String) (itemCount : UInt32)
  | projectConfiguration (projectPath buildPath : String) (rootDir : Option String)
  | workItem (className : String)
  | problem (report : ProblemReport)
  deriving Repr, DecidableEq, Inhabited

/-- A client's view of an operation. -/
structure Descriptor where
  identity : Identity
  subject : Subject
  deriving Repr, DecidableEq, Inhabited

namespace Subject

/-- The type that a client has to ask for to be told of the subject. -/
def operationType : Subject → OperationType
  | task _ => .task
  | buildPhase _ _ => .buildPhase
  | projectConfiguration _ _ _ => .projectConfiguration
  | workItem _ => .workItem
  | problem _ => .problems

/-- The tag on the wire. -/
def tag : Subject → String
  | task _ => "task"
  | buildPhase _ _ => "build_phase"
  | projectConfiguration _ _ _ => "project_configuration"
  | workItem _ => "work_item"
  | problem _ => "problem"

/-- The fields of the subject on the wire. -/
def fields : Subject → List (String × Value)
  | task taskPath => [("task_path", .text taskPath)]
  | buildPhase phase itemCount =>
    [("build_phase", .text phase), ("build_item_count", .uint32 itemCount)]
  | projectConfiguration projectPath buildPath rootDir =>
    [("project_path", .text projectPath), ("build_path", .text buildPath),
      ("root_dir", .ofOption .text rootDir)]
  | workItem className => [("class_name", .text className)]
  | problem report => report.fields

def taskRecord : Record Subject := task <$> .required "task_path" Decoder.text

def buildPhaseRecord : Record Subject :=
  buildPhase <$> .required "build_phase" Decoder.text
    <*> .defaulting "build_item_count" 0 Decoder.uint32

def projectConfigurationRecord : Record Subject :=
  projectConfiguration <$> .required "project_path" Decoder.text
    <*> .required "build_path" Decoder.text <*> .optional "root_dir" Decoder.text

def workItemRecord : Record Subject := workItem <$> .required "class_name" Decoder.text

def problemRecord : Record Subject := problem <$> ProblemReport.record

end Subject

namespace Identity

/-- The fields of the identity on the wire. -/
def fields (i : Identity) : List (String × Value) :=
  [("id", i.id.toValue), ("name", .text i.name), ("display_name", .text i.displayName),
    ("parent_id", .ofOption OperationId.toValue i.parent)]

def record : Record Identity :=
  Identity.mk <$> .required "id" OperationId.decoder <*> .required "name" Decoder.text
    <*> .required "display_name" Decoder.text <*> .optional "parent_id" OperationId.decoder

def toValue (i : Identity) : Value := .object i.fields

end Identity

namespace Descriptor

def id (d : Descriptor) : OperationId := d.identity.id

def parent (d : Descriptor) : Option OperationId := d.identity.parent

/-- The descriptor of the same operation under another parent. -/
def withParent (d : Descriptor) (parent : Option OperationId) : Descriptor :=
  { d with identity := { d.identity with parent := parent } }

/-- The type that a client has to ask for to be sent the operation. -/
def operationType (d : Descriptor) : OperationType := d.subject.operationType

def toValue (d : Descriptor) : Value :=
  .object (("kind", .text d.subject.tag) :: (d.identity.fields ++ d.subject.fields))

/-- The variant of descriptors whose subject is read by a record. -/
def variant (subject : Record Subject) : Variant Descriptor :=
  .sharing Identity.record subject Descriptor.mk

def decoder : Decoder Descriptor :=
  tagged "kind" [
    ("task", variant Subject.taskRecord),
    ("build_phase", variant Subject.buildPhaseRecord),
    ("project_configuration", variant Subject.projectConfigurationRecord),
    ("work_item", variant Subject.workItemRecord),
    ("problem", variant Subject.problemRecord)]

@[simp] theorem withParent_withParent (d : Descriptor) (p q : Option OperationId) :
    (d.withParent p).withParent q = d.withParent q := rfl

@[simp] theorem withParent_parent (d : Descriptor) : d.withParent d.parent = d := rfl

@[simp] theorem parent_withParent (d : Descriptor) (p : Option OperationId) :
    (d.withParent p).parent = p := rfl

@[simp] theorem id_withParent (d : Descriptor) (p : Option OperationId) :
    (d.withParent p).id = d.id := rfl

@[simp] theorem operationType_withParent (d : Descriptor) (p : Option OperationId) :
    (d.withParent p).operationType = d.operationType := rfl

end Descriptor

end BuildFeed
