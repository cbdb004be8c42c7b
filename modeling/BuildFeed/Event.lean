/-
# Events and messages

A client is sent messages: an event of a build, or the end of the build's
stream. An event says that an operation started or finished and carries the
descriptor of the operation; a finished event has the operation's result as
well, and that of a task may say how the task came by it.

Key definitions: `Conclusion`, `OperationResult`, `OperationResult.ofOutcome`,
`Event`, `Message`.
-/
import BuildFeed.Descriptor
import BuildFeed.Signal
import BuildFeed.Time.Rfc3339

namespace BuildFeed

open Json Wire Time

/-! ### Times on the wire -/

def timeValue (t : Instant) : Value := .text t.render

def timeDecoder : Decoder Instant := Decoder.text.narrow fun s => Instant.parse s.toList

/-! ### Results -/

/-- Whether and why an operation did its work. -/
inductive Conclusion
  | success
  | skipped (reason : String)
  | failure (message : String)
  deriving Repr, DecidableEq, Inhabited

/-- The result of an operation. -/
structure OperationResult where
  startTime : Instant
  endTime : Instant
  conclusion : Conclusion
  deriving DecidableEq, Inhabited

/-- Work that was up to date or came from the cache was done. -/
def Conclusion.ofOutcome : Outcome → Conclusion
  | .success => .success
  | .upToDate => .success
  | .fromCache => .success
  | .skipped reason => .skipped reason
  | .failed message => .failure message

namespace OperationResult

/-- The result of an operation with the given outcome. -/
def ofOutcome (startTime endTime : Instant) (o : Outcome) : OperationResult :=
  ⟨startTime, endTime, .ofOutcome o⟩

def isSuccess (r : OperationResult) : Bool := r.conclusion = .success

/-- The fields that results of all kinds have. -/
def timeFields (r : OperationResult) : List (String × Value) :=
  [("start_time", timeValue r.startTime), ("end_time", timeValue r.endTime)]

def toValue (r : OperationResult) : Value :=
  match r.conclusion with
  | .success => .object (("status", .text "success") :: r.timeFields)
  | .skipped reason =>
    .object (("status", .text "skipped") :: (r.timeFields ++ [("reason", .text reason)]))
  | .failure message =>
    .object (("status", .text "failure") :: (r.timeFields ++ [("message", .text message)]))

/-- The times of a result, and the conclusion that a further record gives. -/
def record (conclusion : Record Conclusion) : Record OperationResult :=
  OperationResult.mk <$> .required "start_time" timeDecoder <*> .required "end_time" timeDecoder
    <*> conclusion

def decoder : Decoder OperationResult :=
  tagged "status" [
    ("success", .ofRecord (record (.pure .success))),
    ("skipped", .ofRecord (record (.skipped <$> .required "reason" Decoder.text))),
    ("failure", .ofRecord (record (.failure <$> .required "message" Decoder.text)))]

end OperationResult

/-- How a task came by its result. -/
structure TaskExecution where
  upToDate : Bool
  fromCache : Bool
  deriving Repr, DecidableEq, Inhabited

namespace TaskExecution

/-- What comes from the cache is up to date too. -/
def ofOutcome (o : Outcome) : TaskExecution :=
  ⟨o = .upToDate || o = .fromCache, o = .fromCache⟩

def toValue (t : TaskExecution) : Value :=
  .object [("up_to_date", .bool t.upToDate), ("from_cache", .bool t.fromCache)]

def record : Record TaskExecution :=
  TaskExecution.mk <$> .defaulting "up_to_date" false Decoder.bool
    <*> .defaulting "from_cache" false Decoder.bool

def decoder : Decoder TaskExecution := record.decoder

end TaskExecution

/-! ### Events -/

/-- News of an operation. -/
inductive Event
  | started (time : Instant) (descriptor : Descriptor)
  | finished (time : Instant) (descriptor : Descriptor) (result : OperationResult)
      (task : Option TaskExecution)
  deriving DecidableEq, Inhabited

namespace Event

def descriptor : Event → Descriptor
  | started _ d => d
  | finished _ d _ _ => d

def time : Event → Instant
  | started t _ => t
  | finished t _ _ _ => t

def isStarted : Event → Bool
  | started _ _ => true
  | finished _ _ _ _ => false

def toValue : Event → Value
  | started t d =>
    .object [("type", .text "started"), ("event_time", timeValue t), ("descriptor", d.toValue)]
  | finished t d r task =>
    .object ([("type", .text "finished"), ("event_time", timeValue t), ("descriptor", d.toValue),
      ("result", r.toValue)] ++ task.toList.map fun x => ("task", x.toValue))

def decoder : Decoder Event :=
  tagged "type" [
    ("started", .ofRecord (started <$> .required "event_time" timeDecoder
      <*> .required "descriptor" Descriptor.decoder)),
    ("finished", .ofRecord (finished <$> .required "event_time" timeDecoder
      <*> .required "descriptor" Descriptor.decoder
      <*> .required "result" OperationResult.decoder
      <*> .optional "task" TaskExecution.decoder))]

end Event

/-! ### Messages -/

/-- Why the stream of a build ended. -/
inductive EndReason
  | completed
  | cancelled
  deriving Repr, DecidableEq, Inhabited

namespace EndReason

def wireName : EndReason → String
  | completed => "completed"
  | cancelled => "cancelled"

def toValue (r : EndReason) : Value := .text r.wireName

def decoder : Decoder EndReason :=
  Decoder.oneOf ([completed, cancelled].map fun r => (r.wireName, r))

end EndReason

/-- What a client is sent about a build. -/
inductive Message
  | event (build : BuildId) (event : Event)
  | endOfStream (build : BuildId) (reason : EndReason)
  deriving DecidableEq, Inhabited

namespace Message

def build : Message → BuildId
  | event b _ => b
  | endOfStream b _ => b

def toValue : Message → Value
  | event b e =>
    .object [("message", .text "event"), ("build_id", b.toValue), ("event", e.toValue)]
  | endOfStream b r =>
    .object [("message", .text "end_of_stream"), ("build_id", b.toValue), ("reason", r.toValue)]

def decoder : Decoder Message :=
  tagged "message" [
    ("event", .ofRecord (event <$> .required "build_id" BuildId.decoder
      <*> .required "event" Event.decoder)),
    ("end_of_stream", .ofRecord (endOfStream <$> .required "build_id" BuildId.decoder
      <*> .required "reason" EndReason.decoder))]

end Message

end BuildFeed
