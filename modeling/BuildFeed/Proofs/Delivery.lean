/-
# Handing messages to connections

A call makes a list of offers, which the hub hands over one after the other.
What becomes of one connection depends on the messages for it alone
(`Hub.getElem?_deliver`): each message is queued if the connection has room
(`Connection.offer_of_hasRoom`), and otherwise the connection is detached
with the reason (`Connection.offer_of_dropped`, `Connection.offer_of_full`).

Key definitions: `messagesTo`, `Connection.hasRoom`, `Connection.offerAll`,
`Connection.accepted`.
Key theorems: `messagesTo_length_le_one`, `Hub.getElem?_deliver`,
`Connection.queue_offerAll`.
-/
import BuildFeed.Hub
import Mathlib.Data.List.Nodup

namespace BuildFeed

/-! ### The messages for one connection -/

/-- The messages for a connection among offers, in order. -/
def messagesTo (c : Nat) (offers : List Offer) : List Message :=
  offers.filterMap fun o => if o.connection = c then some o.message else none

@[simp] theorem messagesTo_nil (c : Nat) : messagesTo c [] = [] := rfl

theorem messagesTo_cons (c : Nat) (o : Offer) (offers : List Offer) :
    messagesTo c (o :: offers) =
      if o.connection = c then o.message :: messagesTo c offers else messagesTo c offers := by
  by_cases h : o.connection = c <;> simp [messagesTo, h]

@[simp] theorem messagesTo_append (c : Nat) (os os' : List Offer) :
    messagesTo c (os ++ os') = messagesTo c os ++ messagesTo c os' := List.filterMap_append

theorem mem_messagesTo {c : Nat} {m : Message} {offers : List Offer} :
    m ∈ messagesTo c offers ↔ ⟨c, m⟩ ∈ offers := by
  constructor
  · intro h
    obtain ⟨⟨d, m'⟩, ho, he⟩ := List.mem_filterMap.mp h
    by_cases hd : d = c
    · simp only [hd, if_true, Option.some.injEq] at he
      exact hd ▸ he ▸ ho
    · simp [hd] at he
  · intro h
    exact List.mem_filterMap.mpr ⟨⟨c, m⟩, h, if_pos rfl⟩

theorem messagesTo_eq_nil {c : Nat} {offers : List Offer} :
    messagesTo c offers = [] ↔ c ∉ offers.map (·.connection) := by
  induction offers with
  | nil => simp
  | cons o offers ih =>
    rw [messagesTo_cons, List.map_cons, List.mem_cons, not_or]
    by_cases h : o.connection = c
    · simp [h]
    · rw [if_neg h, ih]
      exact ⟨fun hn => ⟨fun he => h he.symm, hn⟩, fun hn => hn.2⟩

/-- One message for each of some connections. -/
theorem messagesTo_map (c : Nat) (m : Message) : ∀ cs : List Nat, cs.Nodup →
    messagesTo c (cs.map (⟨·, m⟩)) = if c ∈ cs then [m] else []
  | [], _ => rfl
  | d :: cs, h => by
    obtain ⟨hd, hcs⟩ := List.nodup_cons.mp h
    rw [List.map_cons, messagesTo_cons, messagesTo_map c m cs hcs]
    by_cases he : d = c
    · rw [← he]
      simp [hd]
    · have hc : c ≠ d := fun h => he h.symm
      simp [he, hc]

/-- If no connection is offered two messages, each is offered at most one. -/
theorem messagesTo_length_le_one (c : Nat) : ∀ offers : List Offer,
    (offers.map (·.connection)).Nodup → (messagesTo c offers).length ≤ 1
  | [], _ => Nat.zero_le 1
  | o :: offers, h => by
    rw [List.map_cons, List.nodup_cons] at h
    rw [messagesTo_cons]
    by_cases he : o.connection = c
    · rw [if_pos he, messagesTo_eq_nil.mpr (he ▸ h.1)]
      exact Nat.le_refl 1
    · rw [if_neg he]
      exact messagesTo_length_le_one c offers h.2

/-! ### One connection -/

namespace Connection

/-- Whether a message that is handed to the connection will be queued. -/
def hasRoom (capacity : Nat) (x : Connection) : Bool :=
  x.attached && x.held && decide (x.queue.length < capacity)

theorem hasRoom_iff {capacity : Nat} {x : Connection} :
    x.hasRoom capacity ↔ x.attached ∧ x.held ∧ x.queue.length < capacity := by
  simp [hasRoom, and_assoc]

theorem offer_of_detached {x : Connection} (h : x.attached = false) (capacity : Nat) (m : Message) :
    x.offer capacity m = x := by
  simp [offer, h]

theorem offer_of_hasRoom {capacity : Nat} {x : Connection} (h : x.hasRoom capacity) (m : Message) :
    x.offer capacity m = { x with queue := x.queue ++ [m] } := by
  obtain ⟨ha, hh, hl⟩ := hasRoom_iff.mp h
  simp [offer, ha, hh, hl]

theorem offer_of_dropped {x : Connection} (ha : x.attached = true) (hh : x.held = false)
    (capacity : Nat) (m : Message) :
    x.offer capacity m = { x with attached := false, closeReason := some .disconnected } := by
  simp [offer, tearDown, ha, hh]

theorem offer_of_full {capacity : Nat} {x : Connection} (ha : x.attached = true)
    (hh : x.held = true) (hl : capacity ≤ x.queue.length) (m : Message) :
    x.offer capacity m = { x with attached := false, closeReason := some .overflowed } := by
  simp [offer, tearDown, ha, hh, Nat.not_lt.mpr hl]

/-- A message is queued, or else nothing will be queued any more. -/
theorem offer_cases (capacity : Nat) (m : Message) (x : Connection) :
    (x.hasRoom capacity = true ∧ x.offer capacity m = { x with queue := x.queue ++ [m] }) ∨
    (x.hasRoom capacity = false ∧
      ∃ r, x.offer capacity m = { x with attached := false, closeReason := r }) := by
  cases hr : x.hasRoom capacity with
  | true => exact Or.inl ⟨rfl, offer_of_hasRoom hr m⟩
  | false =>
    refine Or.inr ⟨rfl, ?_⟩
    cases ha : x.attached with
    | false => exact ⟨x.closeReason, by rw [offer_of_detached ha, ← ha]⟩
    | true =>
      cases hh : x.held with
      | false => exact ⟨_, by rw [offer_of_dropped ha hh, hh]⟩
      | true =>
        have hl : capacity ≤ x.queue.length := by
          by_contra hlt
          simp [hasRoom, ha, hh, Nat.not_le.mp hlt] at hr
        exact ⟨_, by rw [offer_of_full ha hh hl, hh]⟩

/-- Hands messages to the connection, one after the other. -/
def offerAll (capacity : Nat) (x : Connection) (ms : List Message) : Connection :=
  ms.foldl (fun x m => x.offer capacity m) x

/-- The messages among those handed to the connection that are queued. -/
def accepted (capacity : Nat) : Connection → List Message → List Message
  | _, [] => []
  | x, m :: ms => (if x.hasRoom capacity then [m] else []) ++ accepted capacity (x.offer capacity m) ms

@[simp] theorem offerAll_nil (capacity : Nat) (x : Connection) : x.offerAll capacity [] = x := rfl

theorem offerAll_cons (capacity : Nat) (x : Connection) (m : Message) (ms : List Message) :
    x.offerAll capacity (m :: ms) = (x.offer capacity m).offerAll capacity ms := rfl

/-- What is accepted is what comes into the queue. -/
theorem queue_offerAll (capacity : Nat) : ∀ (ms : List Message) (x : Connection),
    (x.offerAll capacity ms).queue = x.queue ++ x.accepted capacity ms
  | [], x => by simp [accepted]
  | m :: ms, x => by
    rw [offerAll_cons, queue_offerAll capacity ms, accepted]
    rcases offer_cases capacity m x with ⟨hr, ho⟩ | ⟨hr, r, ho⟩
    · simp [hr, ho]
    · simp [hr, ho]

theorem held_offer (capacity : Nat) (m : Message) (x : Connection) :
    (x.offer capacity m).held = x.held := by
  rcases offer_cases capacity m x with ⟨-, ho⟩ | ⟨-, r, ho⟩ <;> rw [ho]

theorem subscriptions_offer (capacity : Nat) (m : Message) (x : Connection) :
    (x.offer capacity m).subscriptions = x.subscriptions := by
  rcases offer_cases capacity m x with ⟨-, ho⟩ | ⟨-, r, ho⟩ <;> rw [ho]

theorem id_offer (capacity : Nat) (m : Message) (x : Connection) :
    (x.offer capacity m).id = x.id := by
  rcases offer_cases capacity m x with ⟨-, ho⟩ | ⟨-, r, ho⟩ <;> rw [ho]

theorem attached_of_offer {capacity : Nat} {m : Message} {x : Connection}
    (h : (x.offer capacity m).attached = true) : x.attached = true := by
  rcases offer_cases capacity m x with ⟨-, ho⟩ | ⟨-, r, ho⟩
  · rwa [ho] at h
  · rw [ho] at h
    exact absurd h (by simp)

end Connection

/-! ### All connections -/

namespace Hub

theorem getElem?_modify (hub : Hub) (i c : Nat) (f : Connection → Connection) :
    (hub.modify i f).connections[c]? =
      hub.connections[c]?.map fun x => if i = c then f x else x := by
  simp only [modify, List.getElem?_modify]
  by_cases h : i = c <;> simp [h]

@[simp] theorem capacity_modify (hub : Hub) (i : Nat) (f : Connection → Connection) :
    (hub.modify i f).capacity = hub.capacity := rfl

@[simp] theorem capacity_deliver (hub : Hub) (offers : List Offer) :
    (hub.deliver offers).capacity = hub.capacity := by
  induction offers generalizing hub with
  | nil => rfl
  | cons o offers ih => exact ih (hub.offer o)

/-- A connection is changed by the messages for it alone. -/
theorem getElem?_deliver (c : Nat) : ∀ (offers : List Offer) (hub : Hub),
    (hub.deliver offers).connections[c]? =
      hub.connections[c]?.map (·.offerAll hub.capacity (messagesTo c offers))
  | [], hub => by simp [deliver]
  | o :: offers, hub => by
    have hstep : hub.deliver (o :: offers) = (hub.offer o).deliver offers := rfl
    rw [hstep, getElem?_deliver c offers, offer, getElem?_modify, messagesTo_cons, Option.map_map]
    congr 1
    funext x
    by_cases h : o.connection = c
    · simp [h, Connection.offerAll_cons]
    · simp [h]

theorem length_deliver (hub : Hub) (offers : List Offer) :
    (hub.deliver offers).connections.length = hub.connections.length := by
  induction offers generalizing hub with
  | nil => rfl
  | cons o offers ih =>
    refine (ih (hub.offer o)).trans ?_
    simp [offer, modify]

end Hub

end BuildFeed
