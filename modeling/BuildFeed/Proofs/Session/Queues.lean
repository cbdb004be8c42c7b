/-
# Hubs with shorter queues

Hubs are compared connection by connection: if connections are related in pairs,
whatever keeps the relation of two connections keeps it for all of them
(`Hub.Related.map`).

Of two hubs with the same connections the second has less to be read
(`Hub.Thinner`). What the first accepts the second accepts too, because there
is room in a shorter queue if there is room in a longer one
(`Connection.Thinner.hasRoom`, `Hub.Accepts.thinner`). While the same
connections are attached, a build does the same on both
(`Build.start_congr`).

When nobody is left who can hand messages to connections, it does not matter
which are attached: `alive` tells whether somebody is.

Key definitions: `Call.Delivers`, `Hub.Related`, `Connection.Thinner`,
`Hub.Thinner`, `Hub.Accepts`.
Key theorems: `Hub.Related.map`, `Hub.Accepts.thinner`, `Hub.Accepts.deliver`,
`Session.Effect.accepts`.
-/
import BuildFeed.Proofs.Session.Moves

namespace BuildFeed

/-! ### Deliveries that succeed -/

/-- No delivery of the call fails. -/
def Call.Delivers (k : Call) : Prop := ∀ c, k.accepted c = k.offered c

namespace Connection

variable {capacity : Nat} {x : Connection} {ms : List Message}

/-- A message is accepted if there is room for it. -/
theorem accepted_eq_self_iff (h : ms.length ≤ 1) :
    x.accepted capacity ms = ms ↔ (ms ≠ [] → x.hasRoom capacity = true) := by
  rcases offerAll_of_length_le_one capacity x h with ⟨rfl, -⟩ | ⟨m, rfl, -⟩
  · simp [accepted]
  · cases hr : x.hasRoom capacity <;> simp [accepted, hr]

/-- What is accepted comes to the end of the queue, and nothing else changes. -/
theorem offerAll_of_accepted (h : ms.length ≤ 1) (ha : x.accepted capacity ms = ms) :
    x.offerAll capacity ms = { x with queue := x.queue ++ ms } := by
  rcases offerAll_of_length_le_one capacity x h with ⟨rfl, he⟩ | ⟨m, rfl, he⟩
  · rw [he, List.append_nil]
  · rw [he, offer_of_hasRoom ((accepted_eq_self_iff h).mp ha (by simp))]

theorem tearDown_eq (r : CloseReason) (x : Connection) : x.tearDown r =
    { x with attached := false, closeReason := if x.attached then some r else x.closeReason } := by
  obtain ⟨id, subs, queue, attached, held, reason⟩ := x
  cases attached <;> rfl

theorem receive_snd (x : Connection) : x.receive.2 = { x with queue := x.queue.tail } := by
  obtain ⟨id, subs, queue, attached, held, reason⟩ := x
  cases queue <;> rfl

end Connection

/-! ### Hubs whose connections are related -/

namespace Hub

theorem isAttached_eq_isSome (hub : Hub) (c : Nat) :
    hub.isAttached c = (hub.subscriptions? c).isSome := by
  unfold isAttached subscriptions?
  cases hub.connections[c]? with
  | none => rfl
  | some x => cases ha : x.attached <;> simp [ha]

theorem isAttached_congr {hub hub' : Hub}
    (h : ∀ c, hub'.subscriptions? c = hub.subscriptions? c) : hub'.isAttached = hub.isAttached := by
  funext c
  rw [isAttached_eq_isSome, isAttached_eq_isSome, h]

end Hub

/-- Hubs of one capacity, whose connections are related in pairs. -/
structure Hub.Related (R : Connection → Connection → Prop) (hub hub' : Hub) : Prop where
  capacity_eq : hub'.capacity = hub.capacity
  connections : ∀ c : Nat, Option.Rel R hub.connections[c]? hub'.connections[c]?

/-- Two connections are the same to whoever hands messages to connections. -/
structure Connection.SameToOthers (x x' : Connection) : Prop where
  id_eq : x'.id = x.id
  subscriptions_eq : x'.subscriptions = x.subscriptions
  attached_eq : x'.attached = x.attached

namespace Hub.Related

variable {R S : Connection → Connection → Prop} {hub hub' : Hub}

/-- Every connection stays as it is, or both change. -/
theorem map (h : Related R hub hub') {hub₁ hub₁' : Hub} {f g : Nat → Connection → Connection}
    (hcap : hub₁.capacity = hub.capacity) (hcap' : hub₁'.capacity = hub'.capacity)
    (hget : ∀ c : Nat, hub₁.connections[c]? = hub.connections[c]?.map (f c))
    (hget' : ∀ c : Nat, hub₁'.connections[c]? = hub'.connections[c]?.map (g c))
    (hf : ∀ {c x x'}, hub.connections[c]? = some x → hub'.connections[c]? = some x' →
      R x x' → S (f c x) (g c x')) : Related S hub₁ hub₁' := by
  refine ⟨by rw [hcap, hcap', h.capacity_eq], fun c => ?_⟩
  have hrel := h.connections c
  rw [hget, hget']
  cases hx : hub.connections[c]? with
  | none =>
    rw [hx] at hrel
    cases hx' : hub'.connections[c]? with
    | none => exact .none
    | some x' => rw [hx'] at hrel; cases hrel
  | some x =>
    rw [hx] at hrel
    cases hx' : hub'.connections[c]? with
    | none => rw [hx'] at hrel; cases hrel
    | some x' =>
      rw [hx'] at hrel
      obtain ⟨hxx'⟩ := hrel
      exact .some (hf hx hx' hxx')

theorem length_eq (h : Related R hub hub') :
    hub'.connections.length = hub.connections.length := by
  have hnone : ∀ c : Nat, hub'.connections[c]? = none ↔ hub.connections[c]? = none := by
    intro c
    have hrel := h.connections c
    generalize hub.connections[c]? = o at hrel
    generalize hub'.connections[c]? = o' at hrel
    cases hrel <;> simp
  simp only [List.getElem?_eq_none_iff] at hnone
  exact Nat.le_antisymm ((hnone _).mpr (Nat.le_refl _)) ((hnone _).mp (Nat.le_refl _))

theorem exists_connection (h : Related R hub hub') {c : Nat} {x : Connection}
    (hx : hub.connections[c]? = some x) : ∃ x', hub'.connections[c]? = some x' ∧ R x x' := by
  have hrel := h.connections c
  rw [hx] at hrel
  generalize hub'.connections[c]? = o at hrel
  obtain ⟨hxx'⟩ := hrel
  exact ⟨_, rfl, hxx'⟩

theorem connect (h : Related R hub hub') {id : ConnectionId} {subs : SubscriptionSet}
    (hfresh : R (.fresh id subs) (.fresh id subs)) :
    Related R (hub.connect id subs) (hub'.connect id subs) := by
  refine ⟨h.capacity_eq, fun c => ?_⟩
  rw [Hub.connect, Hub.connect]
  by_cases hc : c < hub.connections.length
  · rw [List.getElem?_append_left hc, List.getElem?_append_left (h.length_eq ▸ hc)]
    exact h.connections c
  · have hle := Nat.not_lt.mp hc
    rw [List.getElem?_append_right hle, List.getElem?_append_right (h.length_eq ▸ hle), h.length_eq]
    cases c - hub.connections.length with
    | zero => exact .some hfresh
    | succ n => exact .none

/-- A call on the stream of a connection. -/
theorem onStream (h : Related R hub hub') {i : Nat} {y y' : Connection} (hy : R y y') :
    Related R (hub.modify i fun _ => y) (hub'.modify i fun _ => y') := by
  refine h.map (f := fun c x => if i = c then y else x) (g := fun c x => if i = c then y' else x)
    rfl rfl (getElem?_modify hub i · _) (getElem?_modify hub' i · _) fun {c x x'} _ _ hxx' => ?_
  by_cases hc : i = c
  · rw [if_pos hc, if_pos hc]
    exact hy
  · rw [if_neg hc, if_neg hc]
    exact hxx'

section SameToOthers

variable (hsame : ∀ {x x'}, R x x' → x.SameToOthers x')

include hsame

theorem subscriptions?_eq (h : Related R hub hub') (c : Nat) :
    hub'.subscriptions? c = hub.subscriptions? c := by
  have hrel := h.connections c
  unfold subscriptions?
  generalize hub.connections[c]? = o at hrel
  generalize hub'.connections[c]? = o' at hrel
  cases hrel with
  | none => rfl
  | some hx =>
    rw [Option.bind_some, Option.bind_some, (hsame hx).attached_eq, (hsame hx).subscriptions_eq]

theorem attachedNumbers_eq (h : Related R hub hub') : hub'.attachedNumbers = hub.attachedNumbers := by
  rw [attachedNumbers, attachedNumbers, h.length_eq, isAttached_congr (h.subscriptions?_eq hsame)]

/-- The connections have the same ids and are attached in the same places. -/
theorem keys_eq (h : Related R hub hub') : hub'.connections.map (fun x => (x.attached, x.id)) =
    hub.connections.map fun x => (x.attached, x.id) := by
  refine List.ext_getElem? fun c => ?_
  have hrel := h.connections c
  rw [List.getElem?_map, List.getElem?_map]
  generalize hub.connections[c]? = o at hrel
  generalize hub'.connections[c]? = o' at hrel
  cases hrel with
  | none => rfl
  | some hx => rw [Option.map_some, Option.map_some, (hsame hx).attached_eq, (hsame hx).id_eq]

theorem find?_eq (h : Related R hub hub') (id : ConnectionId) : hub'.find? id = hub.find? id := by
  have hfind := congrArg (List.findIdx? fun y : Bool × ConnectionId => y.1 && y.2 = id)
    (h.keys_eq hsame)
  rwa [List.findIdx?_map, List.findIdx?_map] at hfind

theorem attachedCount_eq (h : Related R hub hub') : hub'.attachedCount = hub.attachedCount := by
  have hcount := congrArg (List.countP fun y : Bool × ConnectionId => y.1) (h.keys_eq hsame)
  rwa [List.countP_map, List.countP_map] at hcount

theorem disconnect (htear : ∀ {x x'}, R x x' → R (x.tearDown .disconnected) (x'.tearDown .disconnected))
    (h : Related R hub hub') (id : ConnectionId) :
    (hub'.disconnect id).1 = (hub.disconnect id).1 ∧
      Related R (hub.disconnect id).2 (hub'.disconnect id).2 := by
  constructor
  · unfold Hub.disconnect
    rw [h.find?_eq hsame]
    split <;> rfl
  · refine h.map (by simp) (by simp) (Session.getElem?_disconnect hub id)
      (Session.getElem?_disconnect hub' id) fun {c x x'} _ _ hxx' => ?_
    rw [h.find?_eq hsame]
    split
    · exact htear hxx'
    · exact hxx'

end SameToOthers

end Hub.Related

/-! ### Connections with shorter queues -/

/-- A connection that has no more to read than another, and is attached like the
other as long as somebody is left who can hand them messages. -/
structure Connection.Thinner (alive : Bool) (x x' : Connection) : Prop where
  id_eq : x'.id = x.id
  subscriptions_eq : x'.subscriptions = x.subscriptions
  held_eq : x'.held = x.held
  queue_le : x'.queue.length ≤ x.queue.length
  attached_eq : alive = true → x'.attached = x.attached

namespace Connection.Thinner

variable {alive alive' : Bool} {capacity : Nat} {x x' : Connection} {ms : List Message}

theorem refl (alive : Bool) (x : Connection) : Thinner alive x x :=
  ⟨rfl, rfl, rfl, Nat.le_refl _, fun _ => rfl⟩

theorem mono (h : Thinner alive x x') (ha : alive' = true → alive = true) : Thinner alive' x x' :=
  ⟨h.id_eq, h.subscriptions_eq, h.held_eq, h.queue_le, fun h' => h.attached_eq (ha h')⟩

/-- There is room in the shorter queue too. -/
theorem hasRoom (h : Thinner true x x') (hr : x.hasRoom capacity = true) :
    x'.hasRoom capacity = true := by
  rw [hasRoom_iff] at hr ⊢
  rw [h.attached_eq rfl, h.held_eq]
  exact ⟨hr.1, hr.2.1, Nat.lt_of_le_of_lt h.queue_le hr.2.2⟩

/-- Both queues grow by the same messages. -/
theorem enqueue (h : Thinner alive x x') (ms : List Message) :
    Thinner alive { x with queue := x.queue ++ ms } { x' with queue := x'.queue ++ ms } := by
  refine ⟨h.id_eq, h.subscriptions_eq, h.held_eq, ?_, h.attached_eq⟩
  simpa using h.queue_le

/-- The longer queue grows. -/
theorem enqueue_left (h : Thinner alive x x') (ms : List Message) :
    Thinner alive { x with queue := x.queue ++ ms } x' := by
  refine ⟨h.id_eq, h.subscriptions_eq, h.held_eq, Nat.le_trans h.queue_le ?_, h.attached_eq⟩
  simp

theorem tearDown (h : Thinner alive x x') (r : CloseReason) :
    Thinner alive (x.tearDown r) (x'.tearDown r) := by
  rw [tearDown_eq, tearDown_eq]
  exact ⟨h.id_eq, h.subscriptions_eq, h.held_eq, h.queue_le, fun _ => rfl⟩

theorem dropStream (h : Thinner alive x x') : Thinner alive x.dropStream x'.dropStream :=
  ⟨h.id_eq, h.subscriptions_eq, rfl, Nat.le_refl _, h.attached_eq⟩

theorem drain (h : Thinner alive x x') : Thinner alive x.drain.2 x'.drain.2 :=
  ⟨h.id_eq, h.subscriptions_eq, h.held_eq, Nat.le_refl _, h.attached_eq⟩

theorem receive (h : Thinner alive x x') : Thinner alive x.receive.2 x'.receive.2 := by
  rw [receive_snd, receive_snd]
  refine ⟨h.id_eq, h.subscriptions_eq, h.held_eq, ?_, h.attached_eq⟩
  rw [List.length_tail, List.length_tail]
  exact Nat.sub_le_sub_right h.queue_le 1

theorem sameToOthers (h : Thinner true x x') : x.SameToOthers x' :=
  ⟨h.id_eq, h.subscriptions_eq, h.attached_eq rfl⟩

/-- When nobody is left, it does not matter whether a connection is abandoned. -/
theorem abandon_left (h : Thinner false x x') : Thinner false x.abandon x' :=
  ⟨h.id_eq, h.subscriptions_eq, h.held_eq, h.queue_le, fun h' => absurd h' (by simp)⟩

theorem abandon_right (h : Thinner false x x') : Thinner false x x'.abandon :=
  ⟨h.id_eq, h.subscriptions_eq, h.held_eq, h.queue_le, fun h' => absurd h' (by simp)⟩

end Connection.Thinner

/-! ### Hubs with shorter queues -/

/-- In the second hub every connection has no more to read than in the first. -/
structure Hub.Thinner (alive : Bool) (hub hub' : Hub) : Prop where
  capacity_eq : hub'.capacity = hub.capacity
  connections : ∀ c : Nat,
    Option.Rel (Connection.Thinner alive) hub.connections[c]? hub'.connections[c]?

namespace Hub.Thinner

variable {alive alive' : Bool} {hub hub' : Hub}

theorem related (h : Thinner alive hub hub') : Related (Connection.Thinner alive) hub hub' :=
  ⟨h.capacity_eq, h.connections⟩

theorem of_related (h : Related (Connection.Thinner alive) hub hub') : Thinner alive hub hub' :=
  ⟨h.capacity_eq, h.connections⟩

theorem refl (alive : Bool) (hub : Hub) : Thinner alive hub hub := by
  refine ⟨rfl, fun c => ?_⟩
  cases hub.connections[c]? with
  | none => exact .none
  | some x => exact .some (.refl alive x)

/-- Every connection stays as it is, or both change. -/
theorem map (h : Thinner alive hub hub') {hub₁ hub₁' : Hub} {f g : Nat → Connection → Connection}
    (hcap : hub₁.capacity = hub.capacity) (hcap' : hub₁'.capacity = hub'.capacity)
    (hget : ∀ c : Nat, hub₁.connections[c]? = hub.connections[c]?.map (f c))
    (hget' : ∀ c : Nat, hub₁'.connections[c]? = hub'.connections[c]?.map (g c))
    (hf : ∀ {c x x'}, hub.connections[c]? = some x → hub'.connections[c]? = some x' →
      x.Thinner alive x' → (f c x).Thinner alive' (g c x')) : Thinner alive' hub₁ hub₁' :=
  of_related (h.related.map hcap hcap' hget hget' hf)

theorem mono (h : Thinner alive hub hub') (ha : alive' = true → alive = true) :
    Thinner alive' hub hub' :=
  h.map (f := fun _ x => x) (g := fun _ x => x) rfl rfl (by simp) (by simp) fun _ _ hx => hx.mono ha

theorem length_eq (h : Thinner alive hub hub') :
    hub'.connections.length = hub.connections.length := h.related.length_eq

theorem exists_connection (h : Thinner alive hub hub') {c : Nat} {x : Connection}
    (hx : hub.connections[c]? = some x) :
    ∃ x', hub'.connections[c]? = some x' ∧ x.Thinner alive x' := h.related.exists_connection hx

theorem connect (h : Thinner alive hub hub') (id : ConnectionId) (subs : SubscriptionSet) :
    Thinner alive (hub.connect id subs) (hub'.connect id subs) :=
  of_related (h.related.connect (.refl alive _))

/-- A call on the stream of a connection. -/
theorem onStream (h : Thinner alive hub hub') {i : Nat} {y y' : Connection}
    (hy : y.Thinner alive y') :
    Thinner alive (hub.modify i fun _ => y) (hub'.modify i fun _ => y') :=
  of_related (h.related.onStream hy)

/-! ### While somebody is left -/

theorem subscriptions?_eq (h : Thinner true hub hub') (c : Nat) :
    hub'.subscriptions? c = hub.subscriptions? c := h.related.subscriptions?_eq Connection.Thinner.sameToOthers c

theorem attachedNumbers_eq (h : Thinner true hub hub') :
    hub'.attachedNumbers = hub.attachedNumbers := h.related.attachedNumbers_eq Connection.Thinner.sameToOthers

theorem disconnect (h : Thinner true hub hub') (id : ConnectionId) :
    (hub'.disconnect id).1 = (hub.disconnect id).1 ∧
      Thinner true (hub.disconnect id).2 (hub'.disconnect id).2 := by
  obtain ⟨hwas, hrel⟩ := h.related.disconnect Connection.Thinner.sameToOthers (fun hx => hx.tearDown _) id
  exact ⟨hwas, of_related hrel⟩

end Hub.Thinner

/-! ### Messages that are accepted -/

/-- The hub accepts what is offered at once. -/
structure Hub.Accepts (hub : Hub) (os : List Offer) : Prop where
  few : ∀ c, (messagesTo c os).length ≤ 1
  accepted_eq : ∀ {c x}, hub.connections[c]? = some x →
    x.accepted hub.capacity (messagesTo c os) = messagesTo c os
  nothing : ∀ {c : Nat}, hub.connections[c]? = none → messagesTo c os = []

namespace Hub.Accepts

variable {hub hub' : Hub} {os : List Offer}

theorem nil (hub : Hub) : hub.Accepts [] := ⟨fun _ => Nat.zero_le 1, fun _ => rfl, fun _ => rfl⟩

theorem getElem?_deliver (h : hub.Accepts os) (c : Nat) : (hub.deliver os).connections[c]? =
    hub.connections[c]?.map fun x => { x with queue := x.queue ++ messagesTo c os } := by
  rw [Hub.getElem?_deliver]
  cases hx : hub.connections[c]? with
  | none => rfl
  | some x =>
    rw [Option.map_some, Option.map_some, Connection.offerAll_of_accepted (h.few c) (h.accepted_eq hx)]

/-- What was accepted is accepted when the queues are shorter. -/
theorem thinner (h : hub.Accepts os) (ht : hub.Thinner true hub') : hub'.Accepts os := by
  refine ⟨h.few, fun {c x'} hx' => ?_, fun {c} hc => ?_⟩
  · have hrel := ht.connections c
    rw [hx'] at hrel
    cases hx : hub.connections[c]? with
    | none => rw [hx] at hrel; cases hrel
    | some x =>
      rw [hx] at hrel
      obtain ⟨hthin⟩ := hrel
      rw [Connection.accepted_eq_self_iff (h.few c), ht.capacity_eq]
      intro hne
      exact hthin.hasRoom ((Connection.accepted_eq_self_iff (h.few c)).mp (h.accepted_eq hx) hne)
  · apply h.nothing
    rw [List.getElem?_eq_none_iff] at hc ⊢
    rwa [ht.length_eq] at hc

/-- Both hubs are handed the same. -/
theorem deliver (h : hub.Accepts os) (ht : hub.Thinner true hub') :
    Thinner true (hub.deliver os) (hub'.deliver os) :=
  ht.map (capacity_deliver hub os) (capacity_deliver hub' os) h.getElem?_deliver
    (h.thinner ht).getElem?_deliver fun _ _ hthin => hthin.enqueue _

/-- The first hub alone is handed something. -/
theorem deliver_left {alive : Bool} (h : hub.Accepts os) (ht : hub.Thinner alive hub') :
    Thinner alive (hub.deliver os) hub' :=
  ht.map (g := fun _ x => x) (capacity_deliver hub os) rfl h.getElem?_deliver (by simp)
    fun _ _ hthin => hthin.enqueue_left _

/-- What a call offers is accepted. -/
theorem delivers {k : Call} (h : k.before.hub.Accepts k.outcome.offers) : k.Delivers := by
  intro c
  unfold Call.accepted Call.offered
  cases hc : k.before.hub.connections[c]? with
  | none => exact (h.nothing hc).symm
  | some x => exact h.accepted_eq hc

end Hub.Accepts

theorem Session.Effect.accepts {listing : Listing} {s : Session} {st : Step} {a : Advance}
    (h : s.Effect listing st a) (hs : s.Sound) (hdel : Call.Delivers ⟨s, st, a⟩) :
    s.hub.Accepts a.offers := by
  refine ⟨fun c => messagesTo_length_le_one c a.offers (h.proper hs).1, fun {c x} hx => ?_,
    fun hc => (h.nothing hs hc).1⟩
  have hc := hdel c
  simp only [Call.accepted, Call.offered, hx] at hc
  exact hc

/-! ### Builds on such hubs -/

namespace Build

variable {hub hub' : Hub}

theorem targets_congr (h : ∀ c, hub'.subscriptions? c = hub.subscriptions? c) (b : Build)
    (m : Mapper) : b.targets hub' m = b.targets hub m := by
  simp only [targets, h]

/-- A build starts an operation alike on hubs with the same connections attached. -/
theorem start_congr (h : ∀ c, hub'.subscriptions? c = hub.subscriptions? c) (b : Build)
    (registry : Registry) (policy : ParentPolicy) (op : StartSignal) :
    b.start registry policy hub' op = b.start registry policy hub op := by
  simp only [start, targets_congr h]

theorem finish_congr (h : ∀ c, hub'.subscriptions? c = hub.subscriptions? c) (b : Build)
    (f : FinishSignal) : b.finish hub' f = b.finish hub f := by
  have hoffers : ∀ m op ds, b.finishedOffers hub' m op f ds = b.finishedOffers hub m op f ds := by
    intro m op ds
    induction ds with
    | nil => rfl
    | cons d ds ih => rw [finishedOffers, finishedOffers, ih, Hub.isAttached_congr h]
  simp only [finish, hoffers]

theorem close_congr (h : ∀ c, hub'.subscriptions? c = hub.subscriptions? c) (b : Build)
    (reason : EndReason) : b.close hub' reason = b.close hub reason := by
  simp only [close, present, Hub.isAttached_congr h]

end Build

end BuildFeed
