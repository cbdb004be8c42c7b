/-
# The channel of intermediate models

While a build runs, its actions may push models, values of any kind, to
listeners. A listener has at most one registration at a time, and every
registration has a receiver of its own, from which the models pushed during
it are read in order. They are numbered from zero in each registration. A
push to a listener without a registration is dropped; a push that finds the
receiver gone ends the registration.

A registration ends too when the listener is registered anew or torn down,
and when the last handle on the channel is dropped. What was pushed before
can still be read.

A receiver may be used up by a consumer, which is called with one model after
the other until the registration has ended and nothing is unread; then the
number of its calls is returned.

Key definitions: `IntermediateModel`, `ModelReceiver`, `Forwarding`,
`ModelReceiver.forward`, `ModelChannel`, `ModelChannel.register`,
`ModelChannel.push`, `ModelChannel.step`.
-/
import BuildFeed.Connection

namespace BuildFeed

open Json Wire

/-- A model pushed to a listener, with its place in the sequence. -/
structure IntermediateModel where
  listener : ListenerId
  sequence : UInt64
  /-- A value in canonical form. -/
  payload : Value
  deriving BEq, Inhabited

namespace IntermediateModel

def toValue (m : IntermediateModel) : Value :=
  .object [("listener", m.listener.toValue), ("sequence", .nat m.sequence.toNat),
    ("payload", m.payload)]

def record : Record IntermediateModel :=
  IntermediateModel.mk <$> .required "listener" ListenerId.decoder
    <*> .required "sequence" Decoder.uint64 <*> .required "payload" Decoder.opaqueValue

def decoder : Decoder IntermediateModel := record.decoder

end IntermediateModel

/-- The receiver of a registration. -/
structure ModelReceiver where
  listener : ListenerId
  /-- The models that were not read, the oldest first. -/
  queue : List IntermediateModel
  /-- The number of models pushed during the registration. -/
  pushed : Nat
  /-- Whether the registration lasts. -/
  registered : Bool
  /-- Whether the receiver was neither dropped nor used up. -/
  held : Bool
  deriving Inhabited

namespace ModelReceiver

/-- The receiver of a new registration. -/
def fresh (listener : ListenerId) : ModelReceiver := ⟨listener, [], 0, true, true⟩

/-- The registration ends. -/
def unregister (r : ModelReceiver) : ModelReceiver := { r with registered := false }

/-- The receiver is dropped, and what is unread with it. -/
def drop (r : ModelReceiver) : ModelReceiver := { r with held := false, queue := [] }

/-- Queues a model behind the others, under the next number. -/
def enqueue (payload : Value) (r : ModelReceiver) : ModelReceiver :=
  { r with
    queue := r.queue ++ [⟨r.listener, UInt64.ofNat r.pushed, payload⟩]
    pushed := r.pushed + 1 }

/-- The oldest unread model, or why there is none, and the rest. -/
def receive (r : ModelReceiver) : Receipt IntermediateModel × ModelReceiver :=
  match r.queue with
  | m :: rest => (.item m, { r with queue := rest })
  | [] => (if r.registered then .pending else .ended, r)

end ModelReceiver

/-- A loop that calls a consumer with what a receiver gives, and counts. -/
structure Forwarding where
  /-- What the consumer was called with, in order. -/
  payloads : List Value
  /-- The number of calls. -/
  delivered : Nat
  /-- What the loop has returned, once it has. -/
  returned : Option Nat
  deriving Inhabited

namespace Forwarding

/-- The loop begins. -/
def fresh : Forwarding := ⟨[], 0, none⟩

/-- The loop goes on: a model is for the consumer, and if nothing more will come
the number of calls is returned. -/
def next (f : Forwarding) (receipt : Receipt IntermediateModel) : Forwarding :=
  match f.returned, receipt with
  | none, .item m => { f with payloads := f.payloads ++ [m.payload], delivered := f.delivered + 1 }
  | none, .ended => { f with returned := some f.delivered }
  | _, _ => f

end Forwarding

namespace ModelReceiver

/-- A model that was read is no longer unread. -/
theorem length_lt_of_receive {r rest : ModelReceiver} {m : IntermediateModel}
    (h : r.receive = (.item m, rest)) : rest.queue.length < r.queue.length := by
  unfold receive at h
  split at h
  case h_1 hq =>
    obtain ⟨-, rfl⟩ := Prod.mk.inj h
    rw [hq, List.length_cons]
    exact Nat.lt_succ_self _
  case h_2 => split at h <;> simp at h

/-- The loop goes on until it returns or has to wait. -/
def forward (f : Forwarding) (r : ModelReceiver) : Forwarding × ModelReceiver :=
  match _h : r.receive with
  | (.item m, rest) => rest.forward (f.next (.item m))
  | (receipt, rest) => (f.next receipt, rest)
termination_by r.queue.length
decreasing_by exact length_lt_of_receive ‹_›

end ModelReceiver

/-- The channel: the receivers of all registrations, in the order of
registering. -/
structure ModelChannel where
  receivers : List ModelReceiver
  deriving Inhabited

/-- A handle for pushing to one listener. -/
structure ModelSender where
  listener : ListenerId
  deriving Repr, DecidableEq, Inhabited

namespace ModelChannel

/-- The channel without registrations. -/
def empty : ModelChannel := ⟨[]⟩

/-- Changes one receiver. -/
def modify (ch : ModelChannel) (i : Nat) (f : ModelReceiver → ModelReceiver) : ModelChannel :=
  ⟨ch.receivers.modify i f⟩

/-- The number of the receiver that a listener is registered with. -/
def find? (ch : ModelChannel) (listener : ListenerId) : Option Nat :=
  ch.receivers.findIdx? fun r => r.registered && r.listener = listener

def isRegistered (ch : ModelChannel) (listener : ListenerId) : Bool := (ch.find? listener).isSome

/-- The number of listeners that are registered. -/
def listenerCount (ch : ModelChannel) : Nat := ch.receivers.countP (·.registered)

/-- Ends the registration of a listener, and tells whether there was one. -/
def tearDown (ch : ModelChannel) (listener : ListenerId) : Bool × ModelChannel :=
  match ch.find? listener with
  | some i => (true, ch.modify i ModelReceiver.unregister)
  | none => (false, ch)

/-- Registers a listener, in place of its registration if there is one. The
number of the new receiver is the number of those before it. -/
def register (ch : ModelChannel) (listener : ListenerId) : ModelChannel :=
  ⟨(ch.tearDown listener).2.receivers ++ [.fresh listener]⟩

/-- Pushes a model to a listener, and tells whether it was queued. -/
def push (ch : ModelChannel) (listener : ListenerId) (payload : Value) : Bool × ModelChannel :=
  match ch.find? listener with
  | none => (false, ch)
  | some i =>
    match ch.receivers[i]? with
    | none => (false, ch)
    | some r =>
      if r.held then (true, ch.modify i (·.enqueue payload.canonical))
      else (false, ch.modify i ModelReceiver.unregister)

/-- Pushes a model that may have no JSON form. -/
def pushModel (ch : ModelChannel) (listener : ListenerId) :
    Option Value → Except Error Bool × ModelChannel
  | none => (.error (.serialization none), ch)
  | some payload =>
    let (delivered, ch) := ch.push listener payload
    (.ok delivered, ch)

/-- A receiver that was neither dropped nor used up. -/
def receiver? (ch : ModelChannel) (i : Nat) : Option ModelReceiver :=
  ch.receivers[i]?.filter (·.held)

/-- The last handle on the channel is dropped: all registrations end. -/
def release (ch : ModelChannel) : ModelChannel := ⟨ch.receivers.map ModelReceiver.unregister⟩

/-- A call on the channel. Receivers are given by their numbers. -/
inductive Step
  | register (listener : ListenerId)
  /-- A push of a model, which may have no JSON form. -/
  | push (listener : ListenerId) (payload : Option Value)
  | tearDown (listener : ListenerId)
  | receive (receiver : Nat)
  | dropReceiver (receiver : Nat)
  /-- Feeds what a receiver gives to a consumer, until the registration ends or
  the caller does not want to wait. The receiver is used up. -/
  | forward (receiver : Nat)
  | release

/-- What a call on the channel answers. -/
inductive Reply
  | done
  /-- The number of a new receiver. -/
  | registered (receiver : Nat)
  | pushed (delivered : Except Error Bool)
  | tornDown (was : Bool)
  | received (receipt : Receipt IntermediateModel)
  /-- How far the loop came that fed the consumer. -/
  | forwarded (f : Forwarding)

/-- What a call on the channel does, unless it is made on a receiver that is
not there. -/
def step (ch : ModelChannel) : Step → Option (Reply × ModelChannel)
  | .register listener => some (.registered ch.receivers.length, ch.register listener)
  | .push listener payload =>
    let (delivered, ch) := ch.pushModel listener payload
    some (.pushed delivered, ch)
  | .tearDown listener =>
    let (was, ch) := ch.tearDown listener
    some (.tornDown was, ch)
  | .receive i => (ch.receiver? i).map fun r => (.received r.receive.1, ch.modify i fun _ => r.receive.2)
  | .dropReceiver i => (ch.receiver? i).map fun _ => (.done, ch.modify i ModelReceiver.drop)
  | .forward i =>
    (ch.receiver? i).map fun r =>
      (.forwarded (r.forward .fresh).1, ch.modify i fun _ => (r.forward .fresh).2.drop)
  | .release => some (.done, ch.release)

end ModelChannel

end BuildFeed
