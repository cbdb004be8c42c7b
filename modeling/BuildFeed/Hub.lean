/-
# The hub of connections

The hub knows every connection that was ever made, by its number in the
order of making; a connection stays in the list after it was torn down,
because its stream can still be read.

Key definitions: `Hub`, `Hub.connect`, `Hub.disconnect`, `Hub.deliver`,
`Hub.attachedNumbers`.
-/
import BuildFeed.Connection

namespace BuildFeed

/-- A message for the connection of a number. -/
structure Offer where
  connection : Nat
  message : Message
  deriving DecidableEq, Inhabited

/-- All connections. -/
structure Hub where
  /-- The number of unread messages that a connection may have. -/
  capacity : Nat
  connections : List Connection
  deriving DecidableEq, Inhabited

namespace Hub

/-- The hub without connections; a queue holds at least one message. -/
def empty (capacity : Nat) : Hub := ⟨max capacity 1, []⟩

/-- The largest capacity that a queue can be made with. -/
def maxCapacity : Nat := 2305843009213693951

/-- Changes one connection. -/
def modify (hub : Hub) (i : Nat) (f : Connection → Connection) : Hub :=
  { hub with connections := hub.connections.modify i f }

/-- Whether a connection is attached. -/
def isAttached (hub : Hub) (i : Nat) : Bool :=
  hub.connections[i]?.any (·.attached)

/-- The subscriptions of an attached connection. -/
def subscriptions? (hub : Hub) (i : Nat) : Option SubscriptionSet :=
  hub.connections[i]?.bind fun c => if c.attached then some c.subscriptions else none

/-- The numbers of the attached connections. -/
def attachedNumbers (hub : Hub) : List Nat :=
  (List.range hub.connections.length).filter hub.isAttached

/-- The number of attached connections. -/
def attachedCount (hub : Hub) : Nat := hub.connections.countP (·.attached)

/-- Makes a connection. Its number is the number of those before it. -/
def connect (hub : Hub) (id : ConnectionId) (subscriptions : SubscriptionSet) : Hub :=
  { hub with connections := hub.connections ++ [.fresh id subscriptions] }

/-- The number of the attached connection with an id. -/
def find? (hub : Hub) (id : ConnectionId) : Option Nat :=
  hub.connections.findIdx? fun c => c.attached && c.id = id

/-- Tears the connection with an id down, and tells whether it was attached. -/
def disconnect (hub : Hub) (id : ConnectionId) : Bool × Hub :=
  match hub.find? id with
  | some i => (true, hub.modify i (·.tearDown .disconnected))
  | none => (false, hub)

/-- Hands a message to a connection. -/
def offer (hub : Hub) (o : Offer) : Hub :=
  hub.modify o.connection (·.offer hub.capacity o.message)

/-- Hands messages to connections, one after the other. -/
def deliver (hub : Hub) (offers : List Offer) : Hub := offers.foldl offer hub

/-- Detaches all connections, when nobody is left who could hand them anything. -/
def dissolve (hub : Hub) : Hub :=
  { hub with connections := hub.connections.map Connection.abandon }

end Hub

end BuildFeed
