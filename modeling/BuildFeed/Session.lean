/-
# Sessions

A session is one bridge between a scheduler and its clients: a registry, the
hub of the connections and any number of builds. `Session.step` is what one
call does: it gives the new session, the reply to the caller, and the
messages that were handed to connections.

The ids of connections and builds are random; they come with the step that
makes the connection or the build. The order in which the hub lists the
attached connections when a build begins is not fixed either: it is the
parameter `Listing`.

Three things can keep a call from returning: a walk to an ancestor may not
end, a queue may be too large to be made, and a call may be made through a
handle that is not there.

Connections are kept by the bridge and by the builds; when all of these are
gone, every connection is detached.

Key definitions: `Session`, `Step`, `Reply`, `Advance`, `Session.step`,
`Session.run`.
-/
import BuildFeed.Build

namespace BuildFeed

/-- The order in which the attached connections are listed for the build of a
number. -/
structure Listing where
  order : Nat → List Nat → List Nat
  /-- Every connection is listed once. -/
  perm : ∀ n cs, (order n cs).Perm cs

/-- The connections are listed in the order in which they were made. -/
def Listing.inOrder : Listing := ⟨fun _ cs => cs, fun _ _ => .refl _⟩

/-- A bridge with its connections and builds. -/
structure Session where
  registry : Registry
  policy : ParentPolicy
  hub : Hub
  /-- Whether the bridge is still there. -/
  bridge : Bool
  /-- The builds in the order in which they began; a dropped build is `none`. -/
  builds : List (Option Build)
  /-- The mappers that were asked for descriptors, in order. -/
  consulted : List Consultation

/-- A call. Connections and builds are given by their numbers. -/
inductive Step
  | connect (id : ConnectionId) (subscriptions : SubscriptionSet)
  | disconnect (id : ConnectionId)
  | dropStream (connection : Nat)
  | drain (connection : Nat)
  | receive (connection : Nat)
  | dropBridge
  | begin (id : BuildId)
  | start (build : Nat) (op : StartSignal)
  | finish (build : Nat) (f : FinishSignal)
  | close (build : Nat) (reason : EndReason)
  | dropBuild (build : Nat)

/-- What a call answers. -/
inductive Reply
  | done
  /-- The number of a new connection. -/
  | connected (connection : Nat)
  /-- Whether there was such a connection. -/
  | disconnected (was : Bool)
  | drained (messages : List Message)
  | received (receipt : Receipt Message)
  /-- The number of a new build. -/
  | begun (build : Nat)
  | signalled (result : Except Error Unit)
  /-- The number of operations left without an end. -/
  | closed (orphans : Nat)

/-- Why a call does not return. -/
inductive Stop
  | endlessWalk
  | queueTooLarge
  | noSuchHandle
  deriving Repr, DecidableEq, Inhabited

/-- What a call does. -/
structure Advance where
  session : Session
  reply : Reply
  offers : List Offer

namespace Session

/-- The session of a valid configuration and a registry. -/
def new (config : Config) (registry : Registry) : Except Error Session :=
  config.validate.map fun _ =>
    ⟨registry, config.dispatch.parentPolicy, .empty config.dispatch.queueCapacity.toNat, true, [], []⟩

/-- The session with the default configuration and the built-in mappers. -/
def withDefaults : Except Error Session := new default .builtIn

/-- A build that was not dropped. -/
def build? (s : Session) (i : Nat) : Option Build := (s.builds[i]?).join

/-- A connection whose stream was not dropped. -/
def stream? (s : Session) (i : Nat) : Option Connection :=
  s.hub.connections[i]?.filter (·.held)

/-- The number of attached connections, as the bridge tells it. -/
def connectionCount (s : Session) : Option Nat :=
  if s.bridge then some s.hub.attachedCount else none

/-- Whether somebody is left who can hand messages to connections. -/
def isAlive (s : Session) : Bool := s.bridge || s.builds.any Option.isSome

/-- Detaches the connections if nobody is left. -/
def settle (s : Session) : Session :=
  if s.isAlive then s else { s with hub := s.hub.dissolve }

/-- Takes over the outcome of a call on a build. -/
def takeTurn (s : Session) (i : Nat) (t : Turn) : Session :=
  { s with
    hub := s.hub.deliver t.offers
    builds := s.builds.set i (some t.build)
    consulted := s.consulted ++ t.consulted }

/-- A call on a stream that is held. -/
def onStream (s : Session) (i : Nat) (f : Connection → Reply × Connection) :
    Except Stop Advance :=
  match s.stream? i with
  | none => .error .noSuchHandle
  | some c => .ok ⟨{ s with hub := s.hub.modify i fun _ => (f c).2 }, (f c).1, []⟩

/-- A call on a build that was not dropped. -/
def onBuild (s : Session) (i : Nat) (f : Build → Except Stop Advance) : Except Stop Advance :=
  match s.build? i with
  | none => .error .noSuchHandle
  | some b => f b

/-- A call on the bridge. -/
def onBridge (s : Session) (f : Unit → Except Stop Advance) : Except Stop Advance :=
  if s.bridge then f () else .error .noSuchHandle

/-- What a call does. -/
def step (listing : Listing) (s : Session) : Step → Except Stop Advance
  | .connect id subscriptions => s.onBridge fun _ =>
    if Hub.maxCapacity < s.hub.capacity then .error .queueTooLarge
    else
      .ok ⟨{ s with hub := s.hub.connect id subscriptions },
        .connected s.hub.connections.length, []⟩
  | .disconnect id => s.onBridge fun _ =>
    let (was, hub) := s.hub.disconnect id
    .ok ⟨{ s with hub := hub }, .disconnected was, []⟩
  | .dropStream i => s.onStream i fun c => (.done, c.dropStream)
  | .drain i => s.onStream i fun c => (.drained c.drain.1, c.drain.2)
  | .receive i => s.onStream i fun c => (.received c.receive.1, c.receive.2)
  | .dropBridge => s.onBridge fun _ => .ok ⟨{ s with bridge := false }.settle, .done, []⟩
  | .begin id => s.onBridge fun _ =>
    let n := s.builds.length
    .ok ⟨{ s with builds := s.builds ++ [some (.begin id (listing.order n s.hub.attachedNumbers))] },
      .begun n, []⟩
  | .start i op => s.onBuild i fun b =>
    match b.start s.registry s.policy s.hub op with
    | none => .error .endlessWalk
    | some t => .ok ⟨s.takeTurn i t, .signalled t.result, t.offers⟩
  | .finish i f => s.onBuild i fun b =>
    let t := b.finish s.hub f
    .ok ⟨s.takeTurn i t, .signalled t.result, t.offers⟩
  | .close i reason => s.onBuild i fun b =>
    let t := b.close s.hub reason
    .ok ⟨s.takeTurn i t, .closed b.orphans, t.offers⟩
  | .dropBuild i => s.onBuild i fun b =>
    let t := b.close s.hub .cancelled
    let s := s.takeTurn i t
    .ok ⟨{ s with builds := s.builds.set i none }.settle, .done, t.offers⟩

/-- A run of calls, all of which return: what each of them does, in order. -/
def run (listing : Listing) (s : Session) : List Step → Except Stop (List Advance)
  | [] => .ok []
  | st :: rest =>
    match s.step listing st with
    | .error e => .error e
    | .ok a =>
      match run listing a.session rest with
      | .error e => .error e
      | .ok as => .ok (a :: as)

end Session

end BuildFeed
