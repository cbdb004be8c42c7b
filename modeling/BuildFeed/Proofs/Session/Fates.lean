/-
# What a call makes of a connection

A connection is open, attached and without a close reason, until a call closes
it. A call gives one of three causes (`Call.TearsDown`): it disconnects the
connection, or it hands it a message that is not queued, because the stream
was dropped or because the queue is full. There is one other way to be
detached: the call was made by the last who could hand messages to
connections, and then no reason is set (`Call.Abandons`). So every connection
has one of three fates in a call (`Connection.Fate`), which
`Session.Effect.fate` reads off the effect of the call.

A connection is known by its number. By its id it is known only if no two
connections were made with one id (`Session.find?_of_attached`).

Key definitions: `connectedIn`, `closedIn`, `Call.TearsDown`, `Call.Closes`,
`Call.Abandons`, `Connection.Fate`.
Key theorems: `Session.Effect.fate`, `Session.Effect.isAlive`,
`Session.Effect.reason_of_abandoned`, `Session.Effect.ids`,
`Session.find?_of_attached`.
-/
import BuildFeed.Proofs.Session.Queues

namespace BuildFeed

/-! ### Calls that close a connection -/

/-- The id that a step gives to a new connection. -/
def Step.connected? : Step → Option ConnectionId
  | .connect id _ => some id
  | _ => none

/-- The ids of the connections that were made, in order. -/
def connectedIn (h : List Call) : List ConnectionId := h.filterMap (·.step.connected?)

namespace Call

/-- The reason for which a call tears a connection down. -/
inductive TearsDown (k : Call) (c : Nat) (x : Connection) : CloseReason → Prop
  | disconnected (hst : k.step = .disconnect x.id) : TearsDown k c x .disconnected
  | dropped (ho : k.offered c ≠ []) (hh : x.held = false) : TearsDown k c x .disconnected
  | overflowed (ho : k.offered c ≠ []) (hh : x.held = true)
      (hl : k.before.hub.capacity ≤ x.queue.length) : TearsDown k c x .overflowed

/-- The call finds a connection open and leaves it closed. -/
def Closes (c : Nat) (r : CloseReason) (k : Call) : Prop :=
  ∃ x, k.before.hub.connections[c]? = some x ∧ x.attached = true ∧ x.closeReason = none ∧
    k.TearsDown c x r ∧ k.outcome.session.hub.connections[c]? =
      some { x with attached := false, closeReason := some r }

/-- The call queues what it offers an open connection, and leaves nobody who could
offer it anything more. -/
def Abandons (c : Nat) (k : Call) : Prop :=
  ∃ x, k.before.hub.connections[c]? = some x ∧ x.attached = true ∧ k.accepted c = k.offered c ∧
    k.before.isAlive = true ∧ k.outcome.session.isAlive = false

theorem accepted_of_room {k : Call} {c : Nat} {x : Connection}
    (hc : k.before.hub.connections[c]? = some x) (hone : (k.offered c).length ≤ 1)
    (hroom : k.offered c ≠ [] → x.hasRoom k.before.hub.capacity = true) :
    k.accepted c = k.offered c := by
  rw [accepted, hc]
  exact (Connection.accepted_eq_self_iff hone).mpr hroom

/-- The connections that the call detaches. -/
def closed (k : Call) : List Nat :=
  k.before.hub.attachedNumbers.filter fun c => !k.outcome.session.hub.isAttached c

theorem mem_closed {k : Call} {c : Nat} : c ∈ k.closed ↔
    k.before.hub.isAttached c = true ∧ k.outcome.session.hub.isAttached c = false := by
  rw [closed, List.mem_filter, Session.mem_attachedNumbers, Bool.not_eq_true']

end Call

/-- The connections that were detached, in the order of the calls. -/
def closedIn (h : List Call) : List Nat := h.flatMap (·.closed)

@[simp] theorem connectedIn_append (h h' : List Call) :
    connectedIn (h ++ h') = connectedIn h ++ connectedIn h' := List.filterMap_append

@[simp] theorem closedIn_append (h h' : List Call) :
    closedIn (h ++ h') = closedIn h ++ closedIn h' := List.flatMap_append

@[simp] theorem closedIn_singleton (k : Call) : closedIn [k] = k.closed := by
  simp [closedIn]

/-! ### What a call makes of a connection -/

/-- What a call makes of a connection, as far as it matters whether and why it
is closed. -/
inductive Connection.Fate (k : Call) (c : Nat) (x : Connection) : Connection → Prop
  | stays {y : Connection} (ha : y.attached = x.attached) (hr : y.closeReason = x.closeReason)
      (hq : k.accepted c = k.offered c) : Fate k c x y
  | closed {r : CloseReason} (ha : x.attached = true) (ht : k.TearsDown c x r) :
    Fate k c x { x with attached := false, closeReason := some r }
  | abandoned {y : Connection} (ha : x.attached = true) (hy : y.attached = false)
      (hr : y.closeReason = x.closeReason) (hq : k.accepted c = k.offered c)
      (hs : k.before.isAlive = true) (hs' : k.outcome.session.isAlive = false) : Fate k c x y

namespace Connection

variable {k : Call} {c : Nat} {x y : Connection}

/-- The messages that a call offers are queued, or they close the connection. -/
theorem fate_offerAll (hc : k.before.hub.connections[c]? = some x)
    (hone : (k.offered c).length ≤ 1) (hatt : k.offered c ≠ [] → x.attached = true) :
    Fate k c x (x.offerAll k.before.hub.capacity (k.offered c)) := by
  rcases offerAll_of_length_le_one k.before.hub.capacity x hone with ⟨hnil, hoff⟩ | ⟨m, hm, hoff⟩
  · rw [hoff]
    exact .stays rfl rfl (Call.accepted_of_room hc hone fun hne => absurd hnil hne)
  · have hne : k.offered c ≠ [] := by simp [hm]
    have ha : x.attached = true := hatt hne
    rw [hoff]
    cases hh : x.held with
    | false =>
      rw [offer_of_dropped ha hh]
      exact .closed ha (.dropped hne hh)
    | true =>
      by_cases hl : x.queue.length < k.before.hub.capacity
      · have hroom : x.hasRoom k.before.hub.capacity = true := hasRoom_iff.mpr ⟨ha, hh, hl⟩
        rw [offer_of_hasRoom hroom]
        exact .stays rfl rfl (Call.accepted_of_room hc hone fun _ => hroom)
      · have hfull : k.before.hub.capacity ≤ x.queue.length := Nat.not_lt.mp hl
        rw [offer_of_full ha hh hfull]
        exact .closed ha (.overflowed hne hh hfull)

/-- After the last who could hand it anything is gone, a connection that is
still open is abandoned. -/
theorem Fate.abandon (h : Fate k c x y) (hs : k.before.isAlive = true)
    (hs' : k.outcome.session.isAlive = false) : Fate k c x y.abandon := by
  cases h with
  | stays ha hr hq =>
    cases hx : x.attached with
    | false => exact .stays hx.symm hr hq
    | true => exact .abandoned hx rfl hr hq hs hs'
  | closed ha ht => exact .closed ha ht
  | abandoned ha _ hr hq _ _ => exact .abandoned ha rfl hr hq hs hs'

end Connection

namespace Session

variable {listing : Listing} {s : Session} {st : Step} {a : Advance} {c : Nat} {x y : Connection}

/-- An id is found where an attached connection has it. -/
theorem find?_eq_some {hub : Hub} {id : ConnectionId} (hf : hub.find? id = some c) :
    ∃ x, hub.connections[c]? = some x ∧ x.attached = true ∧ x.id = id := by
  obtain ⟨hlt, hp, -⟩ := List.findIdx?_eq_some_iff_getElem.mp hf
  simp only [Bool.and_eq_true, decide_eq_true_eq] at hp
  exact ⟨_, List.getElem?_eq_getElem hlt, hp⟩

/-- If no two connections have one id, a connection is known by its id. -/
theorem eq_of_id_eq {hub : Hub} (hids : (hub.connections.map (·.id)).Nodup) {c' : Nat}
    (hc : hub.connections[c]? = some x) (hc' : hub.connections[c']? = some y) (hid : x.id = y.id) :
    c = c' := by
  have hlt : c < (hub.connections.map (·.id)).length := by
    rw [List.length_map]
    exact (List.getElem?_eq_some_iff.mp hc).1
  refine (List.getElem?_inj hlt hids).mp ?_
  rw [List.getElem?_map, List.getElem?_map, hc, hc', Option.map_some, Option.map_some, hid]

theorem find?_of_attached {hub : Hub} (hids : (hub.connections.map (·.id)).Nodup)
    (hc : hub.connections[c]? = some x) (ha : x.attached = true) : hub.find? x.id = some c := by
  cases hf : hub.find? x.id with
  | none =>
    have hno := List.findIdx?_eq_none_iff.mp hf x (List.mem_of_getElem? hc)
    simp [ha] at hno
  | some n =>
    obtain ⟨y, hy, -, hid⟩ := find?_eq_some hf
    rw [eq_of_id_eq hids hc hy hid.symm]

theorem isAlive_of_takeTurn {i : Nat} {b : Build} (hi : s.build? i = some b) (t : Turn) :
    (s.takeTurn i t).isAlive = true :=
  isAlive_of_build? ((build?_takeTurn hi t i).trans (if_pos rfl))

/-- Detaching the connections if nobody is left closes none of them. -/
theorem fate_settle {t : Session} (ha : a.session = t.settle) (hs : s.isAlive = true)
    (hy : t.hub.connections[c]? = some y) (h : x.Fate ⟨s, st, a⟩ c y) :
    ∃ y', a.session.hub.connections[c]? = some y' ∧ x.Fate ⟨s, st, a⟩ c y' := by
  rw [ha, getElem?_settle, hy, Option.map_some]
  cases ht : t.isAlive with
  | true => exact ⟨y, rfl, h⟩
  | false =>
    have hs' : a.session.isAlive = false := by rw [ha, isAlive_settle, ht]
    exact ⟨y.abandon, rfl, h.abandon hs hs'⟩

/-- Every call has one of three outcomes for a connection. -/
theorem Effect.fate (h : Effect listing s st a) (hs : s.Sound)
    (hc : s.hub.connections[c]? = some x) :
    ∃ y, a.session.hub.connections[c]? = some y ∧ x.Fate ⟨s, st, a⟩ c y := by
  obtain ⟨hone, hatt⟩ := h.few hs hc
  -- a call that offers nothing leaves nothing in doubt but who is attached
  have hstays : ∀ {y}, messagesTo c a.offers = [] → y.attached = x.attached →
      y.closeReason = x.closeReason → x.Fate ⟨s, st, a⟩ c y := fun hnil ha hr =>
    .stays ha hr (Call.accepted_of_room hc hone fun hne => absurd hnil hne)
  have hstream : ∀ {i x'} (f : Connection → Connection), messagesTo c a.offers = [] →
      s.stream? i = some x' → (f x').attached = x'.attached →
      (f x').closeReason = x'.closeReason →
      ∃ y, (s.hub.modify i fun _ => f x').connections[c]? = some y ∧ x.Fate ⟨s, st, a⟩ c y := by
    intro i x' f hnil hx' ha hr
    refine ⟨_, getElem?_onStream hc _, ?_⟩
    by_cases hi : i = c
    · obtain rfl := Option.some.inj ((hi ▸ (stream?_eq_some.mp hx').1).symm.trans hc)
      rw [if_pos hi]
      exact hstays hnil ha hr
    · rw [if_neg hi]
      exact hstays hnil rfl rfl
  cases h with
  | connect =>
    refine ⟨x, ?_, hstays rfl rfl rfl⟩
    rw [Hub.connect, List.getElem?_append_left (List.getElem?_eq_some_iff.mp hc).1, hc]
  | @disconnect id =>
    refine ⟨_, by rw [getElem?_disconnect, hc, Option.map_some], ?_⟩
    by_cases hf : s.hub.find? id = some c
    · obtain ⟨x', hx', hxa, rfl⟩ := find?_eq_some hf
      obtain rfl := Option.some.inj (hc.symm.trans hx')
      rw [if_pos hf, Connection.tearDown, if_pos hxa]
      exact .closed hxa (.disconnected rfl)
    · rw [if_neg hf]
      exact hstays rfl rfl rfl
  | dropStream hx' => exact hstream Connection.dropStream rfl hx' rfl rfl
  | drain hx' => exact hstream (fun x => x.drain.2) rfl hx' rfl rfl
  | receive hx' =>
    refine hstream (fun x => x.receive.2) rfl hx' ?_ ?_ <;> simp only [Connection.receive_snd]
  | dropBridge hb => exact fate_settle rfl (isAlive_of_bridge hb) hc (hstays rfl rfl rfl)
  | begin => exact ⟨x, hc, hstays rfl rfl rfl⟩
  | start => exact ⟨_, getElem?_takeTurn _ _ hc, Connection.fate_offerAll hc hone hatt⟩
  | finish => exact ⟨_, getElem?_takeTurn _ _ hc, Connection.fate_offerAll hc hone hatt⟩
  | close => exact ⟨_, getElem?_takeTurn _ _ hc, Connection.fate_offerAll hc hone hatt⟩
  | @dropBuild i b hi =>
    have hturn := getElem?_takeTurn i (b.close s.hub .cancelled) hc
    exact fate_settle rfl (isAlive_of_build? hi) hturn (Connection.fate_offerAll hc hone hatt)

/-- A connection that is open when the last is gone who could hand it anything is
detached without a reason. -/
theorem Effect.reason_of_abandoned (h : Effect listing s st a)
    (hc : s.hub.connections[c]? = some x)
    (hone : (messagesTo c a.offers).length ≤ 1)
    (hq : x.accepted s.hub.capacity (messagesTo c a.offers) = messagesTo c a.offers)
    (hs : s.isAlive = true) (hs' : a.session.isAlive = false) :
    ∃ y, a.session.hub.connections[c]? = some y ∧ y.attached = false ∧
      y.closeReason = x.closeReason := by
  have hsettle : ∀ {t : Session} {y : Connection}, a.session = t.settle →
      t.hub.connections[c]? = some y → y.closeReason = x.closeReason →
      ∃ y, a.session.hub.connections[c]? = some y ∧ y.attached = false ∧
        y.closeReason = x.closeReason := by
    intro t y ht hy hr
    rw [ht, isAlive_settle] at hs'
    refine ⟨y.abandon, ?_, rfl, hr⟩
    rw [ht, getElem?_settle, hy, hs']
    rfl
  have hleft : ¬ a.session.isAlive = true := by simp [hs']
  cases h with
  | connect hb => exact (hleft (isAlive_of_bridge hb)).elim
  | disconnect hb => exact (hleft (isAlive_of_bridge hb)).elim
  | dropStream => exact (hleft hs).elim
  | drain => exact (hleft hs).elim
  | receive => exact (hleft hs).elim
  | dropBridge => exact hsettle rfl hc rfl
  | begin hb => exact (hleft (isAlive_of_bridge hb)).elim
  | start hi => exact (hleft (isAlive_of_takeTurn hi _)).elim
  | finish hi => exact (hleft (isAlive_of_takeTurn hi _)).elim
  | close hi => exact (hleft (isAlive_of_takeTurn hi _)).elim
  | @dropBuild i b hi =>
    refine hsettle rfl (getElem?_takeTurn i (b.close s.hub .cancelled) hc) ?_
    rw [Connection.offerAll_of_accepted hone hq]

/-- Nobody comes back to hand messages to connections. -/
theorem Effect.isAlive (h : Effect listing s st a) (ha : a.session.isAlive = true) :
    s.isAlive = true := by
  cases h with
  | connect hb => exact isAlive_of_bridge hb
  | disconnect hb => exact isAlive_of_bridge hb
  | dropStream => exact ha
  | drain => exact ha
  | receive => exact ha
  | dropBridge hb => exact isAlive_of_bridge hb
  | begin hb => exact isAlive_of_bridge hb
  | start hi => exact isAlive_of_build? hi
  | finish hi => exact isAlive_of_build? hi
  | close hi => exact isAlive_of_build? hi
  | dropBuild hi => exact isAlive_of_build? hi

theorem Effect.length_connections (h : Effect listing s st a) :
    a.session.hub.connections.length =
      s.hub.connections.length + st.connected?.toList.length := by
  cases h <;>
    simp [Step.connected?, takeTurn, Hub.connect, Hub.disconnect, Hub.modify, Hub.length_deliver]
  split <;> simp

/-- A connection is made with the id of its call, and all connections keep theirs. -/
theorem Effect.ids (h : Effect listing s st a) (hs : s.Sound) :
    a.session.hub.connections.map (·.id) =
      s.hub.connections.map (·.id) ++ st.connected?.toList := by
  refine List.ext_getElem? fun c => ?_
  rw [List.getElem?_map]
  cases hc : s.hub.connections[c]? with
  | some x =>
    obtain ⟨y, hy, hm⟩ := h.move hs hc
    have hlt : c < (s.hub.connections.map (·.id)).length := by
      rw [List.length_map]
      exact (List.getElem?_eq_some_iff.mp hc).1
    rw [List.getElem?_append_left hlt, List.getElem?_map, hy, hc, Option.map_some, Option.map_some,
      hm.id_eq]
  | none =>
    cases hy : a.session.hub.connections[c]? with
    | some y =>
      obtain ⟨rfl, id, subs, rfl, rfl, -⟩ := h.made hc hy
      simp [Step.connected?, Connection.fresh]
    | none =>
      have hlen := List.getElem?_eq_none_iff.mp hy
      rw [h.length_connections] at hlen
      rw [List.getElem?_eq_none (by simpa using hlen), Option.map_none]

end Session

end BuildFeed
