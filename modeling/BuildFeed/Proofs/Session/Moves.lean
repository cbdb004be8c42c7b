/-
# What becomes of one connection

A call does one of a few things to a connection (`Connection.Move`), which
`Session.Effect.move` reads off the effect of the call: it is handed at most
one message, it is detached, or its client reads from its stream or drops it.
A connection that was detached stays so, and nothing is offered to it
(`Connection.Move.detached_of_detached`, `Connection.Move.offered_detached`).

Key definitions: `Connection.Move`.
Key theorems: `Session.Effect.move`, `Session.Effect.made`,
`Connection.Move.subscriptions_eq`, `History.quiet_of_detached`.
-/
import BuildFeed.Proofs.Session.History

namespace BuildFeed

namespace Connection

/-- What a call does to a connection: the messages that it is offered, those
that its client reads, and what becomes of it. -/
inductive Move (capacity : Nat) (x : Connection) : List Message → List Message → Connection → Prop
  | offered {ms : List Message} (ho : ms.length ≤ 1) (ha : ms ≠ [] → x.attached = true) :
    Move capacity x ms [] (x.offerAll capacity ms)
  /-- After the offer nobody is left who could offer anything. -/
  | abandoned {ms : List Message} (ho : ms.length ≤ 1) (ha : ms ≠ [] → x.attached = true) :
    Move capacity x ms [] (x.offerAll capacity ms).abandon
  | disconnected : Move capacity x [] [] (x.tearDown .disconnected)
  | dropped (hh : x.held = true) : Move capacity x [] [] x.dropStream
  | drained (hh : x.held = true) : Move capacity x [] x.drain.1 x.drain.2
  | received (hh : x.held = true) : Move capacity x [] x.receive.1.item?.toList x.receive.2

variable {capacity : Nat} {x y : Connection} {ms rs : List Message}

theorem Move.still : Move capacity x [] [] x := .offered (Nat.zero_le 1) fun h => absurd rfl h

/-- At most one message is offered. -/
theorem Move.offered_le_one (h : Move capacity x ms rs y) : ms.length ≤ 1 := by
  cases h with
  | offered ho _ => exact ho
  | abandoned ho _ => exact ho
  | _ => exact Nat.zero_le 1

/-- Only an attached connection is offered anything. -/
theorem Move.attached_of_offered (h : Move capacity x ms rs y) (hne : ms ≠ []) : x.attached = true := by
  cases h with
  | offered _ ha => exact ha hne
  | abandoned _ ha => exact ha hne
  | _ => exact absurd rfl hne

theorem Move.offered_detached (h : Move capacity x ms rs y) (hx : x.attached = false) : ms = [] := by
  by_contra hne
  have hattached := h.attached_of_offered hne
  rw [hx] at hattached
  exact absurd hattached (by simp)

/-- Of messages that are offered at once there is none or one. -/
theorem offerAll_of_length_le_one (capacity : Nat) (x : Connection) (h : ms.length ≤ 1) :
    (ms = [] ∧ x.offerAll capacity ms = x) ∨
      ∃ m, ms = [m] ∧ x.offerAll capacity ms = x.offer capacity m := by
  cases ms with
  | nil => exact Or.inl ⟨rfl, rfl⟩
  | cons m ms =>
    obtain rfl : ms = [] := by simpa using h
    exact Or.inr ⟨m, rfl, rfl⟩

theorem subscriptions_offerAll (capacity : Nat) : ∀ (ms : List Message) (x : Connection),
    (x.offerAll capacity ms).subscriptions = x.subscriptions
  | [], _ => rfl
  | m :: ms, x => by
    rw [offerAll_cons, subscriptions_offerAll capacity ms, subscriptions_offer]

theorem id_offerAll (capacity : Nat) : ∀ (ms : List Message) (x : Connection),
    (x.offerAll capacity ms).id = x.id
  | [], _ => rfl
  | m :: ms, x => by rw [offerAll_cons, id_offerAll capacity ms, id_offer]

theorem attached_of_offerAll : ∀ {ms : List Message} {x : Connection},
    (x.offerAll capacity ms).attached = true → x.attached = true
  | [], _, h => h
  | _ :: _, _, h => attached_of_offer (attached_of_offerAll h)

theorem attached_of_tearDown {r : CloseReason} (h : (x.tearDown r).attached = true) :
    x.attached = true := by
  unfold tearDown at h
  split at h
  · simp at h
  · exact h

/-- Nothing attaches a connection. -/
theorem Move.attached_of_attached (h : Move capacity x ms rs y) (hy : y.attached = true) :
    x.attached = true := by
  cases h with
  | offered => exact attached_of_offerAll hy
  | abandoned => simp [abandon] at hy
  | disconnected => exact attached_of_tearDown hy
  | dropped => exact hy
  | drained => exact hy
  | received =>
    unfold receive at hy
    split at hy <;> exact hy

theorem Move.detached_of_detached (h : Move capacity x ms rs y) (hx : x.attached = false) :
    y.attached = false := by
  cases hy : y.attached with
  | false => rfl
  | true =>
    rw [h.attached_of_attached hy] at hx
    exact absurd hx (by simp)

/-- A connection keeps its subscriptions. -/
theorem Move.subscriptions_eq (h : Move capacity x ms rs y) : y.subscriptions = x.subscriptions := by
  cases h with
  | offered => exact subscriptions_offerAll capacity ms x
  | abandoned => exact subscriptions_offerAll capacity ms x
  | disconnected =>
    unfold tearDown
    split <;> rfl
  | dropped => rfl
  | drained => rfl
  | received =>
    unfold receive
    split <;> rfl

/-- A connection keeps its id. -/
theorem Move.id_eq (h : Move capacity x ms rs y) : y.id = x.id := by
  cases h with
  | offered => exact id_offerAll capacity ms x
  | abandoned => exact id_offerAll capacity ms x
  | disconnected =>
    unfold tearDown
    split <;> rfl
  | dropped => rfl
  | drained => rfl
  | received =>
    unfold receive
    split <;> rfl

end Connection

namespace Session

variable {listing : Listing} {s : Session} {st : Step} {a : Advance} {c : Nat} {x y : Connection}

/-- A call on a stream changes the connection of the stream alone. -/
theorem getElem?_onStream {i : Nat} (hc : s.hub.connections[c]? = some x) (y : Connection) :
    (s.hub.modify i fun _ => y).connections[c]? = some (if i = c then y else x) := by
  rw [Hub.getElem?_modify, hc, Option.map_some]

/-- A call on a build hands the connection the messages that are for it. -/
theorem getElem?_takeTurn (i : Nat) (t : Turn) (hc : s.hub.connections[c]? = some x) :
    (s.takeTurn i t).hub.connections[c]? =
      some (x.offerAll s.hub.capacity (messagesTo c t.offers)) := by
  show (s.hub.deliver t.offers).connections[c]? = _
  rw [Hub.getElem?_deliver, hc, Option.map_some]

theorem isAttached_eq {hub : Hub} (hc : hub.connections[c]? = some x) :
    hub.isAttached c = x.attached := by
  rw [Hub.isAttached, hc, Option.any_some]

/-- The messages for a connection are few, and none if it is detached. -/
theorem Effect.few (h : Effect listing s st a) (hs : s.Sound) (hc : s.hub.connections[c]? = some x) :
    (messagesTo c a.offers).length ≤ 1 ∧ (messagesTo c a.offers ≠ [] → x.attached = true) := by
  obtain ⟨hn, ha⟩ := h.proper hs
  refine ⟨messagesTo_length_le_one c a.offers hn, fun hne => ?_⟩
  obtain ⟨m, hm⟩ := List.exists_mem_of_ne_nil _ hne
  rw [← isAttached_eq hc]
  exact ha _ (mem_messagesTo.mp hm)

/-- A call makes a move with every connection. -/
theorem Effect.move (h : Effect listing s st a) (hs : s.Sound) (hc : s.hub.connections[c]? = some x) :
    ∃ y, a.session.hub.connections[c]? = some y ∧
      x.Move s.hub.capacity (messagesTo c a.offers) (Call.read c ⟨s, st, a⟩) y := by
  obtain ⟨hone, hatt⟩ := h.few hs hc
  have hstream : ∀ {i x'}, s.stream? i = some x' → i = c → x' = x ∧ x.held = true := by
    rintro i x' hx rfl
    obtain ⟨hx, hheld⟩ := stream?_eq_some.mp hx
    obtain rfl := Option.some.inj (hc.symm.trans hx)
    exact ⟨rfl, hheld⟩
  cases h with
  | connect => exact ⟨x, by rw [Hub.connect, List.getElem?_append_left
      (List.getElem?_eq_some_iff.mp hc).1, hc], .still⟩
  | @disconnect id _ =>
    refine ⟨_, by rw [getElem?_disconnect, hc, Option.map_some], ?_⟩
    by_cases hf : s.hub.find? id = some c
    · rw [if_pos hf]
      exact .disconnected
    · rw [if_neg hf]
      exact .still
  | @dropStream i x' hx =>
    refine ⟨_, getElem?_onStream hc _, ?_⟩
    by_cases hi : i = c
    · obtain ⟨rfl, hheld⟩ := hstream hx hi
      rw [if_pos hi]
      exact .dropped hheld
    · rw [if_neg hi]
      exact .still
  | @drain i x' hx =>
    refine ⟨_, getElem?_onStream hc _, ?_⟩
    by_cases hi : i = c
    · obtain ⟨rfl, hheld⟩ := hstream hx hi
      simp only [Call.read, if_pos hi]
      exact .drained hheld
    · simp only [Call.read, if_neg hi]
      exact .still
  | @receive i x' hx =>
    refine ⟨_, getElem?_onStream hc _, ?_⟩
    by_cases hi : i = c
    · obtain ⟨rfl, hheld⟩ := hstream hx hi
      simp only [Call.read, if_pos hi]
      exact .received hheld
    · simp only [Call.read, if_neg hi]
      exact .still
  | dropBridge =>
    refine ⟨_, by rw [getElem?_settle, hc, Option.map_some], ?_⟩
    split
    · exact .still
    · exact .abandoned hone hatt
  | begin => exact ⟨x, hc, .still⟩
  | start _ _ => exact ⟨_, getElem?_takeTurn _ _ hc, .offered hone hatt⟩
  | finish _ => exact ⟨_, getElem?_takeTurn _ _ hc, .offered hone hatt⟩
  | close _ => exact ⟨_, getElem?_takeTurn _ _ hc, .offered hone hatt⟩
  | @dropBuild i b hi =>
    have hturn := getElem?_takeTurn i (b.close s.hub .cancelled) hc
    refine ⟨_, by rw [getElem?_settle]; exact (congrArg _ hturn).trans (Option.map_some ..), ?_⟩
    split
    · exact .offered hone hatt
    · exact .abandoned hone hatt

/-- A connection that is not there is offered nothing, and its stream is not read. -/
theorem Effect.nothing (h : Effect listing s st a) (hs : s.Sound) (hc : s.hub.connections[c]? = none) :
    messagesTo c a.offers = [] ∧ Call.read c ⟨s, st, a⟩ = [] := by
  constructor
  · by_contra hne
    obtain ⟨m, hm⟩ := List.exists_mem_of_ne_nil _ hne
    have hatt := (h.proper hs).2 _ (mem_messagesTo.mp hm)
    rw [Hub.isAttached, hc] at hatt
    simp at hatt
  · have hstream : ∀ {i x}, s.stream? i = some x → i ≠ c := by
      rintro i x hx rfl
      rw [(stream?_eq_some.mp hx).1] at hc
      simp at hc
    cases h with
    | drain hx => exact if_neg (hstream hx)
    | receive hx => exact if_neg (hstream hx)
    | _ => rfl

/-- A connection that was not there before has just been made. -/
theorem Effect.made (h : Effect listing s st a) (hc : s.hub.connections[c]? = none)
    (hy : a.session.hub.connections[c]? = some y) :
    c = s.hub.connections.length ∧
      ∃ id subs, st = .connect id subs ∧ y = .fresh id subs ∧ a.offers = [] := by
  have hlen : s.hub.connections.length ≤ c := List.getElem?_eq_none_iff.mp hc
  have hlt : c < a.session.hub.connections.length := (List.getElem?_eq_some_iff.mp hy).1
  have hmod : ∀ (i : Nat) (z : Connection),
      ¬ c < (s.hub.modify i fun _ => z).connections.length := fun i z h => by
    rw [Hub.modify, List.length_modify] at h
    omega
  have hturn : ∀ (i : Nat) (t : Turn), ¬ c < (s.takeTurn i t).hub.connections.length := fun i t h => by
    rw [takeTurn, Hub.length_deliver] at h
    omega
  cases h with
  | @connect id subs _ _ =>
    have hceq : c = s.hub.connections.length := by
      simp only [Hub.connect, List.length_append, List.length_singleton] at hlt
      omega
    refine ⟨hceq, id, subs, rfl, ?_, rfl⟩
    simp only [Hub.connect, hceq, List.getElem?_concat_length, Option.some.injEq] at hy
    exact hy.symm
  | disconnect =>
    rw [getElem?_disconnect, hc] at hy
    simp at hy
  | dropStream => exact absurd hlt (hmod _ _)
  | drain => exact absurd hlt (hmod _ _)
  | receive => exact absurd hlt (hmod _ _)
  | dropBridge =>
    rw [length_settle] at hlt
    exact absurd hlt (Nat.not_lt.mpr hlen)
  | begin => exact absurd hlt (by simpa using hlen)
  | start => exact absurd hlt (hturn _ _)
  | finish => exact absurd hlt (hturn _ _)
  | close => exact absurd hlt (hturn _ _)
  | @dropBuild i b _ =>
    rw [length_settle] at hlt
    exact absurd hlt (hturn i (b.close s.hub .cancelled))

end Session

namespace History

variable {listing : Listing} {s₀ s : Session} {h : List Call} {c : Nat} {x : Connection}

/-- Connections are not lost. -/
theorem keeps_connection (h₀ : s₀.Sound) (hc : s₀.hub.connections[c]? = some x)
    (hist : History listing s₀ h s) :
    ∃ y, s.hub.connections[c]? = some y ∧ y.subscriptions = x.subscriptions := by
  induction hist with
  | nil => exact ⟨x, hc, rfl⟩
  | snoc hist hs ih =>
    obtain ⟨y, hy, hsubs⟩ := ih
    obtain ⟨z, hz, hm⟩ := (Session.step_eq_ok.mp hs).move (hist.sound h₀) hy
    exact ⟨z, hz, hm.subscriptions_eq.trans hsubs⟩

/-- A detached connection stays detached, and nothing is offered to it. -/
theorem quiet_of_detached (h₀ : s₀.Sound) (hc : s₀.hub.connections[c]? = some x)
    (ha : x.attached = false) (hist : History listing s₀ h s) :
    offeredTo c h = [] ∧ ∃ y, s.hub.connections[c]? = some y ∧ y.attached = false := by
  induction hist with
  | nil => exact ⟨rfl, x, hc, ha⟩
  | @snoc h s st a hist hs ih =>
    obtain ⟨hoff, y, hy, hya⟩ := ih
    obtain ⟨z, hz, hm⟩ := (Session.step_eq_ok.mp hs).move (hist.sound h₀) hy
    refine ⟨?_, z, hz, hm.detached_of_detached hya⟩
    rw [offeredTo_append, offeredTo_singleton, hoff, Call.offered, hm.offered_detached hya]
    rfl

end History

end BuildFeed
