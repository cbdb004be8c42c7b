/-
# Streams have no gaps

The client of a connection reads what was offered to the connection, in the
order of the offers and without a gap. A connection rejects an offer if its
stream was dropped or its queue is full, and then it is detached, so that
nothing comes after the gap (`Offering.Answered`). As long as the stream is
held, what was read and what is queued is therefore all that was offered, or
all but the last offer (`Connection.Gapless`).

What the queue has is told call by call: what is offered goes in at its end
and what is read goes out at its front, or the offer is rejected
(`Connection.Move.flow`). What is accepted is what comes into the queue, in
each call (`Session.Effect.accepted_queued`), and over a history it is what
was read and what is queued (`History.acceptedBy_eq`).

Key definitions: `Hub.Takes`, `Offering`, `Offering.Rejected`,
`Connection.Gapless`, `Offering.Answered`.
Key theorems: `Connection.Move.flow`, `History.gapless`, `History.answered`,
`History.acceptedBy_first`, `History.acceptedBy_eq`, `streams_without_gaps`.
-/
import BuildFeed.Proofs.Session.Moves

namespace BuildFeed

/-! ### Single offers -/

/-- The hub takes an offer: its message comes into the queue of its connection. -/
def Hub.Takes (hub : Hub) (o : Offer) : Prop :=
  (hub.offer o).connections[o.connection]?.map (·.queue) =
    hub.connections[o.connection]?.map (·.queue ++ [o.message])

/-- An offer that is made in a history: the call that makes it, with the calls
before and after that one, and the offers of the call before and after it. -/
structure Offering where
  earlier : List Call
  call : Call
  later : List Call
  before : List Offer
  offer : Offer
  after : List Offer

namespace Offering

/-- The offer is made in a history. -/
structure In (g : Offering) (h : List Call) : Prop where
  calls : h = g.earlier ++ g.call :: g.later
  offers : g.call.outcome.offers = g.before ++ g.offer :: g.after

/-- The hub that the offer is made to. -/
def hub (g : Offering) : Hub := g.call.before.hub.deliver g.before

/-- The connection does not queue the message. -/
def Rejected (g : Offering) : Prop := ¬ g.hub.Takes g.offer

/-- What becomes of an offer: it is rejected exactly if the stream was dropped
or the queue is full, and then the connection is detached for that reason,
keeps its queue, and is offered nothing more. -/
def Answered (capacity : Nat) (g : Offering) : Prop :=
  ∃ x, g.hub.connections[g.offer.connection]? = some x ∧ x.attached = true ∧
    (g.Rejected ↔ x.held = false ∨ x.queue.length = capacity) ∧
    (g.Rejected →
      (g.hub.offer g.offer).connections[g.offer.connection]? =
        some { x with
          attached := false
          closeReason := some (if x.held then .overflowed else .disconnected) } ∧
      messagesTo g.offer.connection g.after = [] ∧ offeredTo g.offer.connection g.later = [])

end Offering

/-- The stream of a connection after a history: its queue is not longer than
the capacity, and while it is held, what was read and what is queued is what
was offered, up to a rejected message at the end. -/
structure Connection.Gapless (capacity c : Nat) (h : List Call) (x : Connection) : Prop where
  bounded : x.queue.length ≤ capacity
  whole : x.held = true →
    ((∀ g : Offering, g.In h → g.offer.connection = c → ¬ g.Rejected) ∧
      readBy c h ++ x.queue = offeredTo c h) ∨
    (x.attached = false ∧ ∃ g : Offering, g.In h ∧ g.offer.connection = c ∧ g.Rejected ∧
      readBy c h ++ x.queue ++ [g.offer.message] = offeredTo c h)

/-! ### One call -/

namespace Connection

variable {capacity : Nat} {x y : Connection} {ms rs : List Message}

theorem held_offerAll (capacity : Nat) : ∀ (ms : List Message) (x : Connection),
    (x.offerAll capacity ms).held = x.held
  | [], _ => rfl
  | m :: ms, x => by rw [offerAll_cons, held_offerAll capacity ms, held_offer]

theorem held_tearDown (r : CloseReason) (x : Connection) : (x.tearDown r).held = x.held := by
  unfold tearDown
  split <;> rfl

theorem queue_tearDown (r : CloseReason) (x : Connection) : (x.tearDown r).queue = x.queue := by
  unfold tearDown
  split <;> rfl

/-- What is offered goes into the queue and what is read comes out of it, in
order, unless there is no room and the connection is detached. -/
def Flows (capacity : Nat) (x : Connection) (ms rs : List Message) (y : Connection) : Prop :=
  (rs ++ y.queue = x.queue ++ ms ∧ (ms ≠ [] → x.hasRoom capacity = true)) ∨
    ∃ m, ms = [m] ∧ rs = [] ∧ x.hasRoom capacity = false ∧ y.queue = x.queue ∧ y.attached = false

theorem flows_offerAll (h : ms.length ≤ 1) : Flows capacity x ms [] (x.offerAll capacity ms) := by
  rcases offerAll_of_length_le_one capacity x h with ⟨rfl, ho⟩ | ⟨m, rfl, ho⟩
  · exact Or.inl ⟨by simp [ho], fun hn => absurd rfl hn⟩
  · rw [ho]
    rcases offer_cases capacity m x with ⟨hr, he⟩ | ⟨hr, r, he⟩
    · exact Or.inl ⟨by rw [he, List.nil_append], fun _ => hr⟩
    · exact Or.inr ⟨m, rfl, rfl, hr, by rw [he], by rw [he]⟩

/-- What is received goes out at the front of the queue. -/
theorem item?_receive (x : Connection) : x.receive.1.item?.toList ++ x.receive.2.queue = x.queue := by
  cases hq : x.queue with
  | nil => cases ha : x.attached <;> simp [receive, hq, ha, Receipt.item?]
  | cons m rest => simp [receive, hq, Receipt.item?]

/-- What is accepted goes into the queue and what is read comes out of it, in order, as
long as the stream is held. -/
theorem Move.accepts (h : Move capacity x ms rs y) (hy : y.held = true) :
    rs ++ y.queue = x.queue ++ x.accepted capacity ms := by
  cases h with
  | offered => exact queue_offerAll capacity ms x
  | abandoned => exact queue_offerAll capacity ms x
  | disconnected => simp [queue_tearDown, accepted]
  | dropped => simp [dropStream] at hy
  | drained => simp [drain, accepted]
  | received => simp [item?_receive, accepted]

/-- A stream that is held after a call was held before, and the queue flows. -/
theorem Move.flow (h : Move capacity x ms rs y) (hy : y.held = true) :
    x.held = true ∧ Flows capacity x ms rs y := by
  cases h with
  | offered ho _ => exact ⟨held_offerAll capacity ms x ▸ hy, flows_offerAll ho⟩
  | abandoned ho _ =>
    refine ⟨held_offerAll capacity ms x ▸ hy, ?_⟩
    have hflows : Flows capacity x ms [] (x.offerAll capacity ms) := flows_offerAll ho
    rcases hflows with h | ⟨m, h1, h2, h3, h4, -⟩
    · exact Or.inl h
    · exact Or.inr ⟨m, h1, h2, h3, h4, rfl⟩
  | disconnected =>
    exact ⟨held_tearDown .disconnected x ▸ hy,
      Or.inl ⟨by simp [queue_tearDown], fun hn => absurd rfl hn⟩⟩
  | dropped => simp [dropStream] at hy
  | drained hh => exact ⟨hh, Or.inl ⟨by simp [drain], fun hn => absurd rfl hn⟩⟩
  | received hh =>
    exact ⟨hh, Or.inl ⟨by rw [item?_receive, List.append_nil], fun hn => absurd rfl hn⟩⟩

/-- A connection without room is detached by an offer. -/
theorem Move.detached_of_full (h : Move capacity x ms rs y) (hne : ms ≠ [])
    (hr : x.hasRoom capacity = false) : y.attached = false := by
  cases h with
  | offered ho _ =>
    rcases offerAll_of_length_le_one capacity x ho with ⟨hnil, -⟩ | ⟨m, -, he⟩
    · exact absurd hnil hne
    · rw [he]
      rcases offer_cases capacity m x with ⟨hr', -⟩ | ⟨-, r, hoff⟩
      · rw [hr] at hr'
        exact absurd hr' (by simp)
      · rw [hoff]
  | abandoned => rfl
  | _ => exact absurd rfl hne

/-- A client that reads holds the stream. -/
theorem Move.held_of_read (h : Move capacity x ms rs y) (hne : rs ≠ []) : y.held = true := by
  cases h with
  | drained hh => exact hh
  | received hh =>
    unfold receive
    split <;> exact hh
  | _ => exact absurd rfl hne

/-- The reason of a rejection is that the stream was dropped, or else that the
queue is full. -/
theorem offer_of_rejected (ha : x.attached = true) (hr : x.hasRoom capacity = false) (m : Message) :
    x.offer capacity m =
      { x with
        attached := false
        closeReason := some (if x.held then .overflowed else .disconnected) } := by
  cases hh : x.held with
  | false => exact (offer_of_dropped ha hh capacity m).trans (by rw [hh]; rfl)
  | true =>
    have hl : capacity ≤ x.queue.length := by
      by_contra hlt
      rw [hasRoom_iff.mpr ⟨ha, hh, Nat.not_le.mp hlt⟩] at hr
      exact absurd hr (by simp)
    exact (offer_of_full ha hh hl m).trans (by rw [hh]; rfl)

theorem length_offerAll_le (hx : x.queue.length ≤ capacity) (h : ms.length ≤ 1) :
    (x.offerAll capacity ms).queue.length ≤ capacity := by
  rcases offerAll_of_length_le_one capacity x h with ⟨-, ho⟩ | ⟨m, -, ho⟩
  · rw [ho]
    exact hx
  · rw [ho]
    rcases offer_cases capacity m x with ⟨hr, he⟩ | ⟨-, r, he⟩
    · rw [he]
      have hlt := (hasRoom_iff.mp hr).2.2
      simp only [List.length_append, List.length_singleton]
      omega
    · rw [he]
      exact hx

/-- The queue stays within the capacity. -/
theorem Move.bounded (h : Move capacity x ms rs y) (hx : x.queue.length ≤ capacity) :
    y.queue.length ≤ capacity := by
  cases h with
  | offered ho _ => exact length_offerAll_le hx ho
  | abandoned ho _ => exact length_offerAll_le hx ho
  | disconnected => rwa [queue_tearDown]
  | dropped => exact Nat.zero_le _
  | drained => exact Nat.zero_le _
  | received =>
    cases hq : x.queue with
    | nil => simp [receive, hq]
    | cons m rest =>
      rw [hq, List.length_cons] at hx
      simp only [receive, hq]
      omega

end Connection

/-- The hub takes an offer exactly if its connection has room. -/
theorem Hub.takes_iff {hub : Hub} {o : Offer} {x : Connection}
    (hc : hub.connections[o.connection]? = some x) :
    hub.Takes o ↔ x.hasRoom hub.capacity = true := by
  have hoff : (hub.offer o).connections[o.connection]? = some (x.offer hub.capacity o.message) := by
    rw [offer, getElem?_modify, hc, Option.map_some, if_pos rfl]
  rw [Takes, hoff, hc, Option.map_some, Option.map_some, Option.some.injEq]
  rcases Connection.offer_cases hub.capacity o.message x with ⟨hr, he⟩ | ⟨hr, r, he⟩
  · rw [he, hr]
    simp
  · rw [he, hr]
    simp

namespace Session

variable {listing : Listing} {s : Session} {st : Step} {a : Advance}

/-- An offer reaches its connection as it was before the call, and no other
offer of the call is for that connection. -/
theorem Effect.at_offer (h : Effect listing s st a) (hs : s.Sound) {os os' : List Offer} {o : Offer}
    (ho : a.offers = os ++ o :: os') :
    messagesTo o.connection os = [] ∧ messagesTo o.connection os' = [] ∧
      ∃ x, s.hub.connections[o.connection]? = some x ∧ x.attached = true ∧
        (s.hub.deliver os).connections[o.connection]? = some x := by
  obtain ⟨hn, ha⟩ := h.proper hs
  have hatt : s.hub.isAttached o.connection = true := ha o (by rw [ho]; simp)
  rw [ho, List.map_append, List.map_cons, List.nodup_append] at hn
  obtain ⟨-, hcons, hdisj⟩ := hn
  have hos : messagesTo o.connection os = [] := messagesTo_eq_nil.mpr fun hm =>
    hdisj _ hm _ List.mem_cons_self rfl
  have hos' : messagesTo o.connection os' = [] := messagesTo_eq_nil.mpr (List.nodup_cons.mp hcons).1
  obtain ⟨x, hx, hxa⟩ := (Option.any_eq_true _ _).mp hatt
  refine ⟨hos, hos', x, hx, hxa, ?_⟩
  rw [Hub.getElem?_deliver, hx, hos]
  rfl

end Session

/-! ### Offerings -/

namespace Offering

variable {g : Offering} {h : List Call} {k : Call}

/-- An offer is rejected exactly if its connection had no room before the call. -/
theorem rejected_iff {listing : Listing} {x : Connection}
    (he : g.call.before.Effect listing g.call.step g.call.outcome) (hs : g.call.before.Sound)
    (ho : g.call.outcome.offers = g.before ++ g.offer :: g.after)
    (hx : g.call.before.hub.connections[g.offer.connection]? = some x) :
    g.Rejected ↔ x.hasRoom g.call.before.hub.capacity = false := by
  obtain ⟨-, -, x', hx', -, hdel⟩ := he.at_offer hs ho
  obtain rfl := Option.some.inj (hx.symm.trans hx')
  rw [Rejected, hub, Hub.takes_iff hdel, Hub.capacity_deliver, Bool.not_eq_true]

/-- An offer of a longer history was made before its last call or in it. -/
theorem in_snoc (hg : g.In (h ++ [k])) :
    (∃ later, g.later = later ++ [k] ∧ ({ g with later := later } : Offering).In h) ∨
      (g.earlier = h ∧ g.call = k ∧ g.later = []) := by
  rcases split_of_snoc hg.calls with hlast | ⟨later, hl, hh⟩
  · exact Or.inr hlast
  · exact Or.inl ⟨later, hl, hh, hg.offers⟩

/-- What was offered in a history was offered in every longer one. -/
theorem In.snoc (hg : g.In h) (k : Call) :
    ({ g with later := g.later ++ [k] } : Offering).In (h ++ [k]) :=
  ⟨by rw [hg.calls, List.append_assoc]; rfl, hg.offers⟩

theorem In.mem (hg : g.In h) : g.offer.message ∈ offeredTo g.offer.connection h := by
  rw [hg.calls, offeredTo, List.mem_flatMap]
  refine ⟨g.call, by simp, ?_⟩
  rw [Call.offered, mem_messagesTo, hg.offers]
  simp

end Offering

namespace Connection

variable {listing : Listing} {s₀ s : Session} {st : Step} {a : Advance} {c : Nat}
  {h : List Call} {x y : Connection}

/-- A call keeps the stream of a connection without a gap. -/
theorem Gapless.step (hx : Gapless s.hub.capacity c h x) (he : s.Effect listing st a) (hs : s.Sound)
    (hc : s.hub.connections[c]? = some x)
    (hm : x.Move s.hub.capacity (messagesTo c a.offers) (Call.read c ⟨s, st, a⟩) y) :
    Gapless s.hub.capacity c (h ++ [⟨s, st, a⟩]) y := by
  refine ⟨hm.bounded hx.bounded, fun hy => ?_⟩
  obtain ⟨hheld, hflow⟩ := hm.flow hy
  rw [readBy_append, offeredTo_append, readBy_singleton, offeredTo_singleton, Call.offered,
    List.append_assoc]
  rcases hx.whole hheld with ⟨hnone, hwhole⟩ | ⟨hdet, g, hg, hgc, hgr, hwhole⟩
  · rcases hflow with ⟨hq, hroom⟩ | ⟨m, hm1, hr, hfull, hq, hdet⟩
    · -- the call offers nothing, or there is room for what it offers
      refine Or.inl ⟨fun g hg hgc hgr => ?_, by rw [hq, ← List.append_assoc, hwhole]⟩
      rcases Offering.in_snoc hg with ⟨later, -, hg'⟩ | ⟨-, hcall, -⟩
      · exact hnone { g with later := later } hg' hgc hgr
      · obtain ⟨-, ho⟩ := hg
        obtain ⟨earlier, call, later, before, offer, after⟩ := g
        obtain rfl : call = ⟨s, st, a⟩ := hcall
        have hne : messagesTo c a.offers ≠ [] := by
          show messagesTo c (Call.mk s st a).outcome.offers ≠ []
          rw [ho, messagesTo_append, messagesTo_cons, if_pos hgc]
          simp
        have hfull := (Offering.rejected_iff he hs ho (hgc ▸ hc)).mp hgr
        exact absurd ((hroom hne).symm.trans hfull) (by simp)
    · -- the call offers the message that is rejected
      have hmem : ⟨c, m⟩ ∈ a.offers := mem_messagesTo.mp (hm1 ▸ List.mem_singleton_self m)
      obtain ⟨os, os', ho⟩ := List.append_of_mem hmem
      let g : Offering := ⟨h, ⟨s, st, a⟩, [], os, ⟨c, m⟩, os'⟩
      have hgr : g.Rejected := (Offering.rejected_iff he hs ho hc).mpr hfull
      refine Or.inr ⟨hdet, g, ⟨rfl, ho⟩, rfl, hgr, ?_⟩
      rw [hr, hq, hm1, List.nil_append, hwhole]
  · -- a message was rejected before, so that the call offers nothing
    have hms := hm.offered_detached hdet
    rcases hflow with ⟨hq, -⟩ | ⟨m, hm1, -⟩
    · refine Or.inr ⟨hm.detached_of_detached hdet, { g with later := g.later ++ [⟨s, st, a⟩] },
        hg.snoc _, hgc, hgr, ?_⟩
      rw [← List.append_assoc, List.append_assoc _ _ y.queue, hq, hms, List.append_nil, List.append_nil]
      exact hwhole
    · rw [hms] at hm1
      exact absurd hm1 (by simp)

end Connection

namespace History

variable {listing : Listing} {config : Config} {registry : Registry} {s₀ s : Session}
  {h : List Call}

/-- No stream has a gap, and what is not a connection yet has no past. -/
theorem gapless (h₀ : s₀.Fresh config registry) (hist : History listing s₀ h s) (c : Nat) :
    (∀ x, s.hub.connections[c]? = some x → x.Gapless s.hub.capacity c h) ∧
      (s.hub.connections[c]? = none → offeredTo c h = [] ∧ readBy c h = []) := by
  induction hist with
  | nil => exact ⟨fun x hx => by simp [h₀.connections_eq] at hx, fun _ => ⟨rfl, rfl⟩⟩
  | @snoc h s st a hist hs ih =>
    obtain ⟨hsome, hnone⟩ := ih
    have he := Session.step_eq_ok.mp hs
    have hsound := hist.sound h₀.sound
    rw [he.frame.2.2]
    cases hc : s.hub.connections[c]? with
    | some x =>
      obtain ⟨y, hy, hm⟩ := he.move hsound hc
      rw [hy]
      refine ⟨fun z hz => ?_, fun hn => by simp at hn⟩
      obtain rfl := Option.some.inj hz
      exact (hsome x hc).step he hsound hc hm
    | none =>
      obtain ⟨hoff, hread⟩ := hnone hc
      obtain ⟨hoff', hread'⟩ := he.nothing hsound hc
      have hoffered : offeredTo c (h ++ [⟨s, st, a⟩]) = [] := by
        rw [offeredTo_append, offeredTo_singleton, hoff, Call.offered, hoff']
        rfl
      have hreads : readBy c (h ++ [⟨s, st, a⟩]) = [] := by
        rw [readBy_append, readBy_singleton, hread, hread']
        rfl
      refine ⟨fun y hy => ?_, fun _ => ⟨hoffered, hreads⟩⟩
      obtain ⟨-, id, subs, -, rfl, -⟩ := he.made hc hy
      refine ⟨Nat.zero_le _, fun _ => Or.inl ⟨fun g hg hgc => ?_, by rw [hoffered, hreads]; rfl⟩⟩
      have hmem := hg.mem
      rw [hgc, hoffered] at hmem
      exact absurd hmem (by simp)

/-- Every offer of a session is answered. -/
theorem answered (h₀ : s₀.Fresh config registry) (hist : History listing s₀ h s) {g : Offering}
    (hg : g.In h) : g.Answered s.hub.capacity := by
  obtain ⟨hcalls, hoffers⟩ := hg
  rw [hcalls] at hist
  obtain ⟨hpre, hstep, hpost⟩ := hist.split
  have he := Session.step_eq_ok.mp hstep
  have hsound := hpre.sound h₀.sound
  obtain ⟨hos, hos', x, hx, hatt, hdel⟩ := he.at_offer hsound hoffers
  have hcap : g.call.before.hub.capacity = s.hub.capacity :=
    (hpre.settings h₀).2.2.trans (hist.settings h₀).2.2.symm
  have hbound : x.queue.length ≤ s.hub.capacity := hcap ▸ ((hpre.gapless h₀ _).1 x hx).bounded
  have hroom : g.Rejected ↔ x.hasRoom s.hub.capacity = false :=
    hcap ▸ Offering.rejected_iff he hsound hoffers hx
  have hrej : g.Rejected ↔ x.held = false ∨ x.queue.length = s.hub.capacity := by
    rw [hroom, ← Bool.not_eq_true, Connection.hasRoom_iff]
    cases x.held with
    | false => simp
    | true =>
      simp only [hatt, true_and, reduceCtorEq, false_or]
      omega
  refine ⟨x, hdel, hatt, hrej, fun hr => ?_⟩
  have hfull := hroom.mp hr
  have hafter : (g.hub.offer g.offer).connections[g.offer.connection]? =
      some (x.offer s.hub.capacity g.offer.message) := by
    rw [Hub.offer, Hub.getElem?_modify, Offering.hub, hdel, Option.map_some, if_pos rfl,
      Hub.capacity_deliver, hcap]
  refine ⟨by rw [hafter, Connection.offer_of_rejected hatt hfull], hos', ?_⟩
  -- nothing is offered later since the connection is detached after the call
  obtain ⟨y, hy, hm⟩ := he.move hsound hx
  have hne : messagesTo g.offer.connection g.call.outcome.offers ≠ [] := by
    rw [hoffers, messagesTo_append, messagesTo_cons, if_pos rfl]
    simp
  rw [hcap] at hm
  exact (quiet_of_detached (he.sound hsound) hy (hm.detached_of_full hne hfull) hpost).1

end History

/-! ### What is accepted -/

namespace Session

variable {listing : Listing} {s : Session} {st : Step} {a : Advance} {c : Nat}

/-- What a call offers is accepted, or else the connection is detached after it. -/
theorem Effect.accepted_cases (h : Effect listing s st a) (hs : s.Sound) :
    Call.accepted c ⟨s, st, a⟩ = Call.offered c ⟨s, st, a⟩ ∨
      (Call.accepted c ⟨s, st, a⟩ = [] ∧
        ∃ y, a.session.hub.connections[c]? = some y ∧ y.attached = false) := by
  unfold Call.accepted Call.offered
  cases hc : s.hub.connections[c]? with
  | none => exact Or.inl (h.nothing hs hc).1.symm
  | some x =>
    obtain ⟨y, hy, hm⟩ := h.move hs hc
    simp only
    rcases Connection.offerAll_of_length_le_one s.hub.capacity x hm.offered_le_one with
      ⟨hnil, -⟩ | ⟨m, hone, -⟩
    · rw [hnil]
      exact Or.inl rfl
    · cases hr : x.hasRoom s.hub.capacity with
      | true => exact Or.inl (by simp [hone, Connection.accepted, hr])
      | false =>
        refine Or.inr ⟨by simp [hone, Connection.accepted, hr], y, hy, ?_⟩
        exact hm.detached_of_full (by simp [hone]) hr

/-- What a call has a connection accept comes into its queue, after what its client
reads in the call has gone out. -/
theorem Effect.accepted_queued (h : Effect listing s st a) (hs : s.Sound) {x y : Connection}
    (hx : s.hub.connections[c]? = some x) (hy : a.session.hub.connections[c]? = some y)
    (hheld : y.held = true) :
    Call.read c ⟨s, st, a⟩ ++ y.queue = x.queue ++ Call.accepted c ⟨s, st, a⟩ := by
  obtain ⟨z, hz, hm⟩ := h.move hs hx
  obtain rfl := Option.some.inj (hz.symm.trans hy)
  have haccepted : Call.accepted c ⟨s, st, a⟩ =
      x.accepted s.hub.capacity (messagesTo c a.offers) := by
    simp only [Call.accepted, hx, Call.offered]
  rw [haccepted]
  exact hm.accepts hheld

/-- A start brings what it has a connection accept into the queue, whoever holds it. -/
theorem Effect.queue_of_start {i : Nat} {op : StartSignal} (h : Effect listing s (.start i op) a)
    {x : Connection} (hx : s.hub.connections[c]? = some x) :
    ∃ y, a.session.hub.connections[c]? = some y ∧
      y.queue = x.queue ++ Call.accepted c ⟨s, .start i op, a⟩ := by
  cases h with
  | @start _ _ b t hb ht =>
    refine ⟨_, getElem?_takeTurn i t hx, ?_⟩
    simp only [Call.accepted, hx, Call.offered]
    exact Connection.queue_offerAll _ _ x

end Session

namespace History

variable {listing : Listing} {config : Config} {registry : Registry} {s₀ s : Session}
  {h : List Call} {c : Nat}

/-- A connection accepts the first of what it is offered, and all of it unless
it is detached; and so with any part that is taken of the messages of each call. -/
theorem accepts_first {α : Type} (part : Call → List Message → List α)
    (hnone : ∀ k, part k [] = []) (h₀ : s₀.Sound) (hist : History listing s₀ h s) (c : Nat) :
    (h.flatMap fun k => part k (k.accepted c)) <+: (h.flatMap fun k => part k (k.offered c)) ∧
      ((h.flatMap fun k => part k (k.accepted c)) = (h.flatMap fun k => part k (k.offered c)) ∨
        ∃ x, s.hub.connections[c]? = some x ∧ x.attached = false) := by
  induction hist with
  | nil => exact ⟨List.prefix_rfl, Or.inl rfl⟩
  | @snoc h s st a hist hs ih =>
    obtain ⟨hpre, hcase⟩ := ih
    have he := Session.step_eq_ok.mp hs
    have hsound := hist.sound h₀
    rw [List.flatMap_append, List.flatMap_append, List.flatMap_singleton, List.flatMap_singleton]
    rcases hcase with heq | ⟨x, hx, hdet⟩
    · rcases he.accepted_cases hsound with hacc | ⟨hacc, hy⟩
      · rw [heq, hacc]
        exact ⟨List.prefix_rfl, Or.inl rfl⟩
      · rw [heq, hacc, hnone, List.append_nil]
        exact ⟨List.prefix_append .., Or.inr hy⟩
    · obtain ⟨y, hy, hm⟩ := he.move hsound hx
      have hoff : Call.offered c ⟨s, st, a⟩ = [] := hm.offered_detached hdet
      have hacc : Call.accepted c ⟨s, st, a⟩ = [] := by
        unfold Call.accepted
        simp only [hx, hoff]
        rfl
      rw [hacc, hoff, hnone, List.append_nil, List.append_nil]
      exact ⟨hpre, Or.inr ⟨y, hy, hm.detached_of_detached hdet⟩⟩

/-- The messages that come into the queue of a connection are the first of
those that it is offered, and all of them unless it is detached. -/
theorem acceptedBy_first (h₀ : s₀.Sound) (hist : History listing s₀ h s) (c : Nat) :
    acceptedBy c h <+: offeredTo c h ∧ (acceptedBy c h = offeredTo c h ∨
      ∃ x, s.hub.connections[c]? = some x ∧ x.attached = false) :=
  hist.accepts_first (fun _ ms => ms) (fun _ => rfl) h₀ c

/-- What a connection has accepted is what its client has read and what is queued, as
long as the stream is held. -/
theorem acceptedBy_eq (h₀ : s₀.Fresh config registry) (hist : History listing s₀ h s) {x : Connection}
    (hx : s.hub.connections[c]? = some x) (hheld : x.held = true) :
    acceptedBy c h = readBy c h ++ x.queue := by
  induction hist generalizing x with
  | nil => simp [h₀.connections_eq] at hx
  | @snoc h s st a hist hs ih =>
    have he := Session.step_eq_ok.mp hs
    have hsound := hist.sound h₀.sound
    rw [acceptedBy_append, readBy_append, acceptedBy_singleton, readBy_singleton, List.append_assoc]
    cases hc : s.hub.connections[c]? with
    | some y =>
      obtain ⟨z, hz, hm⟩ := he.move hsound hc
      obtain rfl := Option.some.inj (hz.symm.trans hx)
      rw [ih hc (hm.flow hheld).1, List.append_assoc, he.accepted_queued hsound hc hz hheld]
    | none =>
      -- the call makes the connection
      obtain ⟨hoff, hread⟩ := (hist.gapless h₀ c).2 hc
      have hnone : acceptedBy c h = [] :=
        List.prefix_nil.mp (hoff ▸ (hist.acceptedBy_first h₀.sound c).1)
      have hnow : Call.accepted c ⟨s, st, a⟩ = [] := by simp only [Call.accepted, hc]
      obtain ⟨-, id, subs, -, rfl, -⟩ := he.made hc hx
      rw [hnone, hread, hnow, (he.nothing hsound hc).2]
      rfl

/-- What the client of a connection reads are the first of the messages that the
connection has accepted. -/
theorem readBy_accepted (h₀ : s₀.Fresh config registry) (hist : History listing s₀ h s) (c : Nat) :
    readBy c h <+: acceptedBy c h := by
  induction hist with
  | nil => exact List.prefix_rfl
  | @snoc h s st a hist hs ih =>
    have he := Session.step_eq_ok.mp hs
    have hsound := hist.sound h₀.sound
    by_cases hread : Call.read c ⟨s, st, a⟩ = []
    · rw [readBy_append, acceptedBy_append, readBy_singleton, hread, List.append_nil]
      exact ih.trans (List.prefix_append ..)
    · -- what is read comes out of a stream that is held
      cases hc : s.hub.connections[c]? with
      | none => exact absurd (he.nothing hsound hc).2 hread
      | some x =>
        obtain ⟨y, hy, hm⟩ := he.move hsound hc
        exact ⟨y.queue, ((hist.snoc hs).acceptedBy_eq h₀ hy (hm.held_of_read hread)).symm⟩

/-- What the client of a connection reads are the first of the messages that
the connection is offered. -/
theorem readBy_first (h₀ : s₀.Fresh config registry) (hist : History listing s₀ h s) (c : Nat) :
    readBy c h <+: offeredTo c h :=
  (hist.readBy_accepted h₀ c).trans (hist.acceptedBy_first h₀.sound c).1

end History

/-! ### Whole sessions -/

/-- In every session no stream has a gap, and every offer is taken, or else is
the last one for its connection. -/
theorem streams_without_gaps {listing : Listing} {config : Config} {registry : Registry}
    {s₀ s : Session} {h : List Call} (h₀ : Session.new config registry = .ok s₀)
    (hist : History listing s₀ h s) :
    (∀ (c : Nat) (x : Connection), s.hub.connections[c]? = some x →
        x.Gapless config.dispatch.queueCapacity.toNat c h) ∧
      ∀ g : Offering, g.In h → g.Answered config.dispatch.queueCapacity.toNat := by
  have hfresh := Session.fresh_of_new h₀
  obtain ⟨-, -, hcapacity⟩ := hist.settings hfresh
  rw [← hcapacity]
  constructor
  · intro c
    exact (hist.gapless hfresh c).1
  · intro g hg
    exact hist.answered hfresh hg

/-- Two builds end, and the queue of the one connection holds one message. -/
theorem streams_without_gaps_overflow :
    ∃ (s₀ : Session) (h : List Call) (s : Session),
      Session.new ⟨⟨1, .nearestEnabledAncestor⟩, default⟩ .builtIn = .ok s₀ ∧
      History .inOrder s₀ h s ∧ (offeredTo 0 h).length = 2 ∧
      (∀ (c : Nat) (x : Connection), s.hub.connections[c]? = some x → x.Gapless 1 c h) ∧
      ∀ g : Offering, g.In h → g.Answered 1 :=
  let s₀ := sampleSession .nearestEnabledAncestor 1
  let steps : List Step := [.connect ⟨"a"⟩ .all, .begin ⟨"x"⟩, .begin ⟨"y"⟩, .close 0 .cancelled,
    .close 1 .cancelled]
  have h₀ : Session.new ⟨⟨1, .nearestEnabledAncestor⟩, default⟩ .builtIn = .ok s₀ := rfl
  have hist := Session.history_calls .inOrder steps s₀
  ⟨s₀, _, _, h₀, hist, rfl, streams_without_gaps h₀ hist⟩

end BuildFeed
