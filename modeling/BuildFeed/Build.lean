/-
# One build

A build takes the scheduler's signals and says which messages they make for
which connections. An operation that was started and not finished is live,
in one of two ways: it was published to some of the connections, or it is
suppressed, because no connection wants it or its mapper declined it. A
start that fails leaves no trace.

The audience of a build are the connections attached when it began, and a
build knows a connection by its slot, its place in the audience. For each that
is still attached the parent of a new operation is looked for among the live
operations (`Build.resolve`); slots that see the same parent share one
descriptor, and the mapper is asked for it once.

A call does not touch the connections: `Turn.offers` are the messages to be
handed to them, in order. The walk to the nearest visible ancestor passes
over suppressed operations by the parents that the scheduler gave, and these
may form a cycle if a parent was not started before its child; then the call
does not end, and its outcome is `none`.

Key definitions: `Entry`, `Build`, `Build.resolve`, `Build.start`,
`Build.finish`, `Build.close`, `Build.state`.
-/
import BuildFeed.Config
import BuildFeed.Hub
import BuildFeed.Registry

namespace BuildFeed

/-! ### Live operations -/

/-- A descriptor and the slots that it was published to. -/
structure Delivery where
  descriptor : Descriptor
  slots : List Nat

/-- A live operation. -/
inductive Entry
  | published (mapper : Mapper) (op : StartSignal) (deliveries : List Delivery)
  | suppressed (parent : Option OperationId)

namespace Entry

/-- The parent that the scheduler gave. -/
def parent : Entry → Option OperationId
  | published _ op _ => op.parent
  | suppressed parent => parent

/-- Whether the operation was published to a slot. -/
def reached (slot : Nat) : Entry → Bool
  | published _ _ deliveries => deliveries.any fun d => d.slots.contains slot
  | suppressed _ => false

def isPublished : Entry → Bool
  | published _ _ _ => true
  | suppressed _ => false

end Entry

/-- Live operations by their ids. -/
abbrev LiveTable := List (OperationId × Entry)

namespace LiveTable

def get? (t : LiveTable) (id : OperationId) : Option Entry := t.lookup id

def contains (t : LiveTable) (id : OperationId) : Bool := (t.get? id).isSome

def insert (t : LiveTable) (id : OperationId) (e : Entry) : LiveTable := (id, e) :: t

def erase (t : LiveTable) (id : OperationId) : LiveTable := t.filter fun x => x.1 ≠ id

@[simp] theorem get?_nil (id : OperationId) : get? [] id = none := rfl

theorem get?_insert (t : LiveTable) (id x : OperationId) (e : Entry) :
    (t.insert id e).get? x = if x = id then some e else t.get? x := by
  by_cases h : x = id
  · simp [get?, insert, h]
  · simp [get?, insert, List.lookup_cons, beq_eq_false_iff_ne.mpr h, h]

theorem get?_erase (t : LiveTable) (id x : OperationId) :
    (t.erase id).get? x = if x = id then none else t.get? x := by
  induction t with
  | nil => simp [erase]
  | cons entry t ih =>
    obtain ⟨y, e⟩ := entry
    have hcons : get? ((y, e) :: t) x = if x = y then some e else get? t x :=
      get?_insert t y x e
    by_cases hy : y = id
    · have herase : erase ((y, e) :: t) id = erase t id := by simp [erase, hy]
      rw [herase, ih, hcons]
      by_cases hx : x = id <;> simp [hx, hy]
    · have herase : erase ((y, e) :: t) id = insert (erase t id) y e := by simp [erase, insert, hy]
      rw [herase, get?_insert, ih, hcons]
      by_cases hx : x = y <;> simp [hx, hy]

end LiveTable

/-- How an operation stands in a build. -/
inductive OperationState
  | none
  | started
  | suppressed
  deriving Repr, DecidableEq, Inhabited

/-- A build. -/
structure Build where
  id : BuildId
  /-- The numbers of the connections that were attached when the build began,
  slot by slot. -/
  audience : List Nat
  live : LiveTable
  closed : Bool

/-- The outcome of a call on a build. -/
structure Turn where
  build : Build
  result : Except Error Unit
  /-- The messages for the connections, in the order of handing over. -/
  offers : List Offer
  /-- The mappers that were asked for a descriptor. -/
  consulted : List Consultation

namespace Build

/-- A build that has just begun. -/
def begin (id : BuildId) (audience : List Nat) : Build := ⟨id, audience, [], false⟩

/-- How an operation stands. -/
def state (b : Build) (id : OperationId) : OperationState :=
  match b.live.get? id with
  | some (.published _ _ _) => .started
  | some (.suppressed _) => .suppressed
  | none => .none

/-- Whether a descriptor is kept for an operation. -/
def isTracked (b : Build) (id : OperationId) : Bool := b.state id = .started

/-- The number of published operations that are live. -/
def inFlight (b : Build) : Nat := b.live.countP fun x => x.2.isPublished

/-- The number of suppressed operations that are live. -/
def suppressedCount (b : Build) : Nat := b.live.countP fun x => !x.2.isPublished

/-- The connection of a slot. -/
def connection? (b : Build) (slot : Nat) : Option Nat := b.audience[slot]?

/-- The connections of the slots of a delivery. -/
def connections (b : Build) (d : Delivery) : List Nat := d.slots.filterMap b.connection?

/-- The audience that is still attached. -/
def present (b : Build) (hub : Hub) : List Nat := b.audience.filter hub.isAttached

/-- The state of the build in one line, for diagnostics. -/
def describe (b : Build) : String :=
  "BuildEventDispatcher \x7b build_id: BuildId(\"" ++ b.id.text ++ "\"), audience: "
    ++ Nat.repr b.audience.length ++ ", in_flight: " ++ Nat.repr b.inFlight
    ++ ", suppressed: " ++ Nat.repr b.suppressedCount ++ " \x7d"

/-! ### Calls that change nothing -/

/-- A call that makes no messages. -/
def quiet (b : Build) (result : Except Error Unit) : Turn := ⟨b, result, [], []⟩

/-- A call that only records an operation as suppressed. -/
def suppress (b : Build) (op : StartSignal) : Build :=
  { b with live := b.live.insert op.id (.suppressed op.parent) }

/-! ### Parents -/

/-- The nearest live ancestor that was published to a slot, beginning with a
candidate and going on for `steps` steps at most; `none` if the walk is still
going on then. It ends where an ancestor is not live. -/
def nearest (t : LiveTable) (slot : Nat) : Nat → Option OperationId → Option (Option OperationId)
  | _, none => some none
  | steps, some id =>
    match t.get? id with
    | none => some none
    | some e =>
      if e.reached slot then some (some id)
      else
        match steps with
        | 0 => none
        | steps + 1 => nearest t slot steps e.parent

/-- The operation's own parent, if it is live and was published to a slot. -/
def ownParent (t : LiveTable) (slot : Nat) : Option OperationId → Option OperationId
  | none => none
  | some id => if (t.get? id).any (·.reached slot) then some id else none

/-- The parent that a slot sees of an operation, or `none` if the search does
not end. A walk with more steps than operations are live goes in circles. -/
def resolve (policy : ParentPolicy) (t : LiveTable) (slot : Nat) (parent : Option OperationId) :
    Option (Option OperationId) :=
  match policy with
  | .nearestEnabledAncestor => nearest t slot t.length parent
  | .ownParentOnly => some (ownParent t slot parent)

/-- The parents that several slots see, or `none` if a search does not end. -/
def resolveAll (policy : ParentPolicy) (t : LiveTable) (parent : Option OperationId) :
    List Nat → Option (List (Option OperationId × Nat))
  | [] => some []
  | slot :: rest =>
    match resolve policy t slot parent, resolveAll policy t parent rest with
    | some p, some ps => some ((p, slot) :: ps)
    | _, _ => none

/-- Slots that see one parent. -/
abbrev Group := Option OperationId × List Nat

/-- Puts a slot into the group of its parent, or into a new one at the end. -/
def addToGroup (p : Option OperationId) (slot : Nat) : List Group → List Group
  | [] => [(p, [slot])]
  | (q, slots) :: rest =>
    if q = p then (q, slots ++ [slot]) :: rest else (q, slots) :: addToGroup p slot rest

/-- The slots grouped by the parents they see, in the order in which the
parents come up. -/
def group (ps : List (Option OperationId × Nat)) : List Group :=
  ps.foldl (fun groups x => addToGroup x.1 x.2 groups) []

/-! ### Starting -/

/-- The slots of the audience whose connection is attached and served by a mapper. -/
def targets (b : Build) (hub : Hub) (m : Mapper) : List Nat :=
  (b.audience.zipIdx.filter fun (c, _) => (hub.subscriptions? c).any m.isEnabled).map (·.2)

/-- The descriptor for each group; the one made is for the first parent. -/
def deliveries (d : Descriptor) (first : Option OperationId) (groups : List Group) : List Delivery :=
  groups.map fun (p, slots) => ⟨if p = first then d else d.withParent p, slots⟩

/-- The messages that say of each delivery that its operation started. -/
def startedOffers (b : Build) (m : Mapper) (op : StartSignal) :
    List Delivery → Except Error (List Offer)
  | [] => .ok []
  | d :: rest =>
    match m.startedEvent d.descriptor op with
    | .error e => .error e
    | .ok event =>
      match startedOffers b m op rest with
      | .error e => .error e
      | .ok offers => .ok ((b.connections d).map (⟨·, .event b.id event⟩) ++ offers)

/-- The error of a second start. -/
def startedTwice (b : Build) (id : OperationId) : Error := .startedTwice id.render b.id.text

/-- Publishes an operation to groups of slots, of which the first sees the
parent `first`. -/
def publish (b : Build) (m : Mapper) (op : StartSignal) (first : Option OperationId)
    (groups : List Group) : Turn :=
  match m.consult op first with
  | (.error e, consulted) => ⟨b, .error e, [], consulted⟩
  | (.ok none, consulted) => ⟨b.suppress op, .ok (), [], consulted⟩
  | (.ok (some d), consulted) =>
    let ds := deliveries d first groups
    match b.startedOffers m op ds with
    | .error e => ⟨b, .error e, [], consulted⟩
    | .ok offers =>
      if b.live.contains op.id then ⟨b, .error (b.startedTwice op.id), [], consulted⟩
      else ⟨{ b with live := b.live.insert op.id (.published m op ds) }, .ok (), offers, consulted⟩

/-- An operation starts. It is an error if an operation of its id is live, or
if its mapper finds one; that it is suppressed is none. -/
def start (registry : Registry) (policy : ParentPolicy) (hub : Hub) (op : StartSignal)
    (b : Build) : Option Turn :=
  if b.closed then some (b.quiet (.ok ()))
  else if b.live.contains op.id then some (b.quiet (.error (b.startedTwice op.id)))
  else
    match registry.lookup op.details.kind with
    | none => some ((b.suppress op).quiet (.ok ()))
    | some m =>
      match resolveAll policy b.live op.parent (b.targets hub m) with
      | none => none
      | some ps =>
        match group ps with
        | [] => some ((b.suppress op).quiet (.ok ()))
        | (first, slots) :: rest => some (b.publish m op first ((first, slots) :: rest))

/-! ### Finishing -/

/-- The messages that say of each delivery that its operation finished, up to
the first error, and that error. -/
def finishedOffers (b : Build) (hub : Hub) (m : Mapper) (op : StartSignal) (f : FinishSignal) :
    List Delivery → List Offer × Except Error Unit
  | [] => ([], .ok ())
  | d :: rest =>
    match m.finishedEvent d.descriptor op f with
    | .error e => ([], .error e)
    | .ok none => finishedOffers b hub m op f rest
    | .ok (some event) =>
      let (offers, result) := finishedOffers b hub m op f rest
      (((b.connections d).filter hub.isAttached).map (⟨·, .event b.id event⟩) ++ offers, result)

/-- An operation finishes. Those that are not live are passed over. -/
def finish (hub : Hub) (f : FinishSignal) (b : Build) : Turn :=
  if b.closed then b.quiet (.ok ())
  else
    let rest := { b with live := b.live.erase f.id }
    match b.live.get? f.id with
    | none => b.quiet (.ok ())
    | some (.suppressed _) => rest.quiet (.ok ())
    | some (.published m op ds) =>
      let (offers, result) := b.finishedOffers hub m op f ds
      ⟨rest, result, offers, []⟩

/-! ### Ending -/

/-- The build ends: live operations are forgotten, and every attached
connection of the audience is told. A build ends only once. -/
def close (hub : Hub) (reason : EndReason) (b : Build) : Turn :=
  if b.closed then b.quiet (.ok ())
  else
    ⟨{ b with live := [], closed := true }, .ok (),
      (b.present hub).map (⟨·, .endOfStream b.id reason⟩), []⟩

/-- The number of operations that would be left without an end if the build
ended now. -/
def orphans (b : Build) : Nat := if b.closed then 0 else b.inFlight

end Build

end BuildFeed
