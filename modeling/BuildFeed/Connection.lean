/-
# Connections

A connection is attached until it is torn down, and a client holds the
stream of its messages until it drops it. What is handed to an attached
connection is queued if the client holds the stream and fewer messages than
the capacity are unread; otherwise the connection is torn down, so that the
client's stream ends instead of having a gap. The messages in the queue stay
readable.

Key definitions: `CloseReason`, `Connection`, `Connection.offer`,
`Connection.tearDown`, `Connection.receive`.
-/
import BuildFeed.Event

namespace BuildFeed

open Json Wire

/-- Why a connection was torn down. -/
inductive CloseReason
  | disconnected
  | overflowed
  deriving Repr, DecidableEq, Inhabited

namespace CloseReason

def wireName : CloseReason → String
  | disconnected => "disconnected"
  | overflowed => "overflowed"

def toValue (r : CloseReason) : Value := .text r.wireName

def decoder : Decoder CloseReason :=
  Decoder.oneOf ([disconnected, overflowed].map fun r => (r.wireName, r))

end CloseReason

/-- A client's connection and the stream of its messages. -/
structure Connection where
  id : ConnectionId
  subscriptions : SubscriptionSet
  /-- The messages that the client has not read, the oldest first. -/
  queue : List Message
  /-- Whether messages can still be handed to the connection. -/
  attached : Bool
  /-- Whether the client still holds the stream. -/
  held : Bool
  /-- Why the connection was torn down, once it was. -/
  closeReason : Option CloseReason
  deriving DecidableEq, Inhabited

/-- What a client that asks for a message is told. -/
inductive Receipt (α : Type)
  | item (a : α)
  /-- Nothing is unread, and nothing more will come. -/
  | ended
  /-- Nothing is unread yet. -/
  | pending
  deriving Repr, DecidableEq, Inhabited

/-- The item of a receipt. -/
def Receipt.item? : Receipt α → Option α
  | .item a => some a
  | _ => none

namespace Connection

/-- A connection that was just made. -/
def fresh (id : ConnectionId) (subscriptions : SubscriptionSet) : Connection :=
  ⟨id, subscriptions, [], true, true, none⟩

/-- Detaches a connection for a reason, if it is attached. -/
def tearDown (reason : CloseReason) (c : Connection) : Connection :=
  if c.attached then { c with attached := false, closeReason := some reason } else c

/-- Hands a message to a connection, if it is attached. -/
def offer (capacity : Nat) (m : Message) (c : Connection) : Connection :=
  if !c.attached then c
  else if !c.held then c.tearDown .disconnected
  else if c.queue.length < capacity then { c with queue := c.queue ++ [m] }
  else c.tearDown .overflowed

/-- Detaches a connection without a reason. -/
def abandon (c : Connection) : Connection := { c with attached := false }

/-- The client drops the stream, and what is unread with it. -/
def dropStream (c : Connection) : Connection := { c with held := false, queue := [] }

/-- The oldest unread message, or why there is none, and the rest. -/
def receive (c : Connection) : Receipt Message × Connection :=
  match c.queue with
  | m :: rest => (.item m, { c with queue := rest })
  | [] => (if c.attached then .pending else .ended, c)

/-- All unread messages. -/
def drain (c : Connection) : List Message × Connection := (c.queue, { c with queue := [] })

end Connection

end BuildFeed
