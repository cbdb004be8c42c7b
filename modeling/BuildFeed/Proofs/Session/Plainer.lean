/-
# Streams with fewer parents

Of two messages the second is plainer if it is the first, or the first without
the parent that it names (`Message.Plainer`): then it says nothing that the
first does not say. Two connections of which the second has plainer messages to
be read are told apart by the parents in these messages alone. They take the
same number of messages, so each overflows when the other does; what is read of
them is plainer in the second, and all else is the same
(`Connection.Plainer`, `Hub.Related.deliver_plainer`).

Key definitions: `Message.Plainer`, `Connection.Plainer`, `Reply.Plainer`.
Key theorems: `Message.Plainer.eq_of_parent`, `Connection.Plainer.offerAll`,
`Hub.Related.deliver_plainer`.
-/
import BuildFeed.Proofs.Session.Narrowing
import BuildFeed.Proofs.Session.Queues

namespace BuildFeed

open List (Forall₂)

/-! ### Messages -/

namespace Message

/-- The second message is the first, or the first without the parent in it. -/
def Plainer (m m' : Message) : Prop := m' = m ∨ m' = m.withParent none

theorem Plainer.refl (m : Message) : m.Plainer m := Or.inl rfl

/-- If the second message names a parent, it is the first. -/
theorem Plainer.eq_of_parent {m : Message} {build : BuildId} {e : Event} {p : OperationId}
    (h : m.Plainer (.event build e)) (hp : e.descriptor.parent = some p) : m = .event build e := by
  rcases h with h | h
  · exact h.symm
  · cases m with
    | endOfStream => exact absurd h (by simp [withParent])
    | event build' e' =>
      obtain ⟨-, rfl⟩ := Message.event.inj h
      exact absurd hp (by simp)

end Message

/-! ### Connections -/

/-- Two connections differ in the parents in their unread messages alone, and the
messages of the second are plainer. -/
structure Connection.Plainer (x x' : Connection) : Prop where
  id_eq : x'.id = x.id
  subscriptions_eq : x'.subscriptions = x.subscriptions
  queue : Forall₂ Message.Plainer x.queue x'.queue
  attached_eq : x'.attached = x.attached
  held_eq : x'.held = x.held
  closeReason_eq : x'.closeReason = x.closeReason

/-- The second answer is the first, or has plainer messages in it. -/
inductive Reply.Plainer : Reply → Reply → Prop
  | same (r : Reply) : Plainer r r
  | drained {ms ms' : List Message} (h : Forall₂ Message.Plainer ms ms') :
    Plainer (.drained ms) (.drained ms')
  | received {m m' : Message} (h : m.Plainer m') :
    Plainer (.received (.item m)) (.received (.item m'))

namespace Connection.Plainer

variable {x x' : Connection}

theorem fresh (id : ConnectionId) (subs : SubscriptionSet) :
    (Connection.fresh id subs).Plainer (.fresh id subs) := ⟨rfl, rfl, .nil, rfl, rfl, rfl⟩

theorem sameToOthers (h : x.Plainer x') : x.SameToOthers x' :=
  ⟨h.id_eq, h.subscriptions_eq, h.attached_eq⟩

theorem tearDown (r : CloseReason) (h : x.Plainer x') : (x.tearDown r).Plainer (x'.tearDown r) := by
  rw [tearDown_eq, tearDown_eq, h.attached_eq, h.closeReason_eq]
  exact ⟨h.id_eq, h.subscriptions_eq, h.queue, rfl, h.held_eq, rfl⟩

theorem abandon (h : x.Plainer x') : x.abandon.Plainer x'.abandon :=
  ⟨h.id_eq, h.subscriptions_eq, h.queue, rfl, h.held_eq, h.closeReason_eq⟩

theorem dropStream (h : x.Plainer x') : x.dropStream.Plainer x'.dropStream :=
  ⟨h.id_eq, h.subscriptions_eq, .nil, h.attached_eq, rfl, h.closeReason_eq⟩

theorem drain (h : x.Plainer x') : x.drain.2.Plainer x'.drain.2 :=
  ⟨h.id_eq, h.subscriptions_eq, .nil, h.attached_eq, h.held_eq, h.closeReason_eq⟩

/-- What is received is plainer, and what is left to be read. -/
theorem receive (h : x.Plainer x') : Reply.Plainer (.received x.receive.1) (.received x'.receive.1) ∧
    x.receive.2.Plainer x'.receive.2 := by
  obtain ⟨id, subs, queue, attached, held, reason⟩ := x
  obtain ⟨id', subs', queue', attached', held', reason'⟩ := x'
  obtain ⟨rfl, rfl, hqueue, rfl, rfl, rfl⟩ := h
  cases hqueue with
  | nil => exact ⟨.same _, rfl, rfl, .nil, rfl, rfl, rfl⟩
  | cons hm hqueue => exact ⟨.received hm, rfl, rfl, hqueue, rfl, rfl, rfl⟩

/-- Both connections take a message, or neither does. -/
theorem offer (capacity : Nat) {m m' : Message} (h : x.Plainer x') (hm : m.Plainer m') :
    (x.offer capacity m).Plainer (x'.offer capacity m') := by
  unfold Connection.offer
  rw [h.attached_eq, h.held_eq, h.queue.length_eq]
  split
  · exact h
  · split
    · exact h.tearDown _
    · split
      · have hqueue := List.rel_append h.queue (Forall₂.cons hm .nil)
        exact ⟨h.id_eq, h.subscriptions_eq, hqueue, rfl, rfl, h.closeReason_eq⟩
      · exact h.tearDown _

theorem offerAll (capacity : Nat) {ms ms' : List Message} (h : x.Plainer x')
    (hms : Forall₂ Message.Plainer ms ms') :
    (x.offerAll capacity ms).Plainer (x'.offerAll capacity ms') := by
  induction hms generalizing x x' with
  | nil => exact h
  | cons hm _ ih => exact ih (h.offer capacity hm)

end Connection.Plainer

/-! ### Hubs -/

/-- Every connection of two hubs is handed messages, which are plainer in the second. -/
theorem Hub.Related.deliver_plainer {hub hub' : Hub} (h : hub.Related Connection.Plainer hub')
    {os os' : List Offer} (hos : ∀ c, Forall₂ Message.Plainer (messagesTo c os) (messagesTo c os')) :
    (hub.deliver os).Related Connection.Plainer (hub'.deliver os') :=
  h.map (capacity_deliver hub os) (capacity_deliver hub' os') (fun c => getElem?_deliver c os hub)
    (fun c => getElem?_deliver c os' hub') fun {c x x'} _ _ hx => by
      rw [h.capacity_eq]
      exact hx.offerAll hub.capacity (hos c)

end BuildFeed
