/-
# Mappers

A mapper turns operations of one shape of details into descriptors and
events, and says which subscriptions it serves. It declares the kind under
which operations are routed to it; that should be the kind of its shape, and
the shape should match all details of the kind. An operation that is routed to
a mapper whose shape does not match its details is refused.

Mappers are written against data of any type (`TypedMapper`). A build takes
them all alike and keeps of a shape its kind and which details it matches
(`TypedMapper.erase`): a mapper is handed the details themselves, with the
proof that it can read them, and reads its data out of them.

What a mapper makes of an operation is one of three things: a descriptor,
which is published; nothing, which suppresses the operation; or an error.

Key definitions: `TypedMapper`, `Mapper`, `TypedMapper.erase`, `Consultation`,
`Mapper.dataOf`, `Mapper.consult`, `Mapper.startedEvent`, `Mapper.finishedEvent`.
-/
import BuildFeed.Event

namespace BuildFeed

open Time

/-- The identity that a descriptor of an operation has. -/
def StartSignal.identity (op : StartSignal) (parent : Option OperationId) : Identity :=
  ⟨op.id, op.name, op.displayName, parent⟩

/-- The finished event of an operation that has nothing to add to its result. -/
def plainFinished (d : Descriptor) (op : StartSignal) (f : FinishSignal) : Event :=
  .finished f.endTime d (.ofOutcome op.startTime f.endTime f.outcome) none

/-- What makes descriptors and events of operations of one shape. -/
structure TypedMapper (δ : Type) where
  name : String
  shape : Shape δ
  /-- The kind of details that the mapper says it is written for. -/
  declares : DetailsKind := shape.kind
  /-- Whether a client with these subscriptions is served. -/
  isEnabled : SubscriptionSet → Bool
  /-- The descriptor of an operation under a parent. -/
  describe : δ → StartSignal → Option OperationId → Except Error (Option Descriptor)
  /-- The event that the operation of a descriptor started. -/
  started : Descriptor → δ → StartSignal → Event := fun d _ op => .started op.startTime d
  /-- The event that it finished, if there is one. -/
  finished : Descriptor → δ → StartSignal → FinishSignal → Option Event :=
    fun d _ op f => some (plainFinished d op f)

/-- A mapper whose type of data is forgotten. -/
structure Mapper where
  name : String
  /-- The kind of the shape that the mapper is written for. -/
  handles : DetailsKind
  /-- Whether the shape matches details. -/
  reads : Details → Bool
  declares : DetailsKind
  isEnabled : SubscriptionSet → Bool
  describe : {d : Details // reads d = true} → StartSignal → Option OperationId →
    Except Error (Option Descriptor)
  started : Descriptor → {d : Details // reads d = true} → StartSignal → Event
  finished : Descriptor → {d : Details // reads d = true} → StartSignal → FinishSignal → Option Event

namespace TypedMapper

variable {δ : Type}

/-- The data of details that the shape of a mapper matches. -/
def dataIn (m : TypedMapper δ) (d : {d : Details // (m.shape.read d).isSome = true}) : δ :=
  (m.shape.read d.1).get d.2

/-- The mapper as a build takes it. -/
def erase (m : TypedMapper δ) : Mapper where
  name := m.name
  handles := m.shape.kind
  reads d := (m.shape.read d).isSome
  declares := m.declares
  isEnabled := m.isEnabled
  describe d op parent := m.describe (m.dataIn d) op parent
  started descriptor d op := m.started descriptor (m.dataIn d) op
  finished descriptor d op f := m.finished descriptor (m.dataIn d) op f

@[simp] theorem handles_erase (m : TypedMapper δ) : m.erase.handles = m.shape.kind := rfl

@[simp] theorem declares_erase (m : TypedMapper δ) : m.erase.declares = m.declares := rfl

@[simp] theorem reads_erase (m : TypedMapper δ) (d : Details) :
    m.erase.reads d = (m.shape.read d).isSome := rfl

end TypedMapper

/-- That a mapper was asked for a descriptor: its name, and the kind under
which operations are routed to it. -/
structure Consultation where
  kind : DetailsKind
  mapper : String
  deriving Repr, DecidableEq, Inhabited

namespace Mapper

/-- That the mapper was asked. -/
def consultation (m : Mapper) : Consultation := ⟨m.declares, m.name⟩

/-- The details that the mapper can read. -/
abbrev Data (m : Mapper) : Type := {d : Details // m.reads d = true}

/-- The details of an operation, if the mapper can read them. -/
def dataOf (m : Mapper) (op : StartSignal) : Except Error m.Data :=
  if h : m.reads op.details = true then .ok ⟨op.details, h⟩
  else .error (.misrouted m.name op.details.kind.name op.id.render)

/-- What the mapper makes of an operation under a parent, and which mappers
were asked: this one, unless it cannot read the details. -/
def consult (m : Mapper) (op : StartSignal) (parent : Option OperationId) :
    Except Error (Option Descriptor) × List Consultation :=
  match m.dataOf op with
  | .error e => (.error e, [])
  | .ok d => (m.describe d op parent, [m.consultation])

/-- The event that an operation started. -/
def startedEvent (m : Mapper) (d : Descriptor) (op : StartSignal) : Except Error Event :=
  (m.dataOf op).map fun data => m.started d data op

/-- The event that an operation finished, if there is one. -/
def finishedEvent (m : Mapper) (d : Descriptor) (op : StartSignal) (f : FinishSignal) :
    Except Error (Option Event) :=
  (m.dataOf op).map fun data => m.finished d data op f

end Mapper

end BuildFeed
