/-
# The capacity of queues

Validation refuses a capacity of nothing, but there is also a largest capacity
that a queue can be made with, and validation does not know it. A valid
configuration beyond it makes a session like any other, and only the first
client to connect finds that it cannot be run
(`valid_configuration_does_not_connect`).

Up to the limit the capacity is what a client may leave unread. A connection
whose stream is held queues a message if fewer than that are unread, and it
overflows if as many are (`Session.Effect.queued_or_overflowed`). If its
client never reads, it holds the first messages that it was offered, and it
has overflowed as soon as there was one more (`Connection.Filled`).

Key definitions: `Connection.Filled`.
Key theorems: `Session.step_connect`, `Session.Effect.queued_or_overflowed`,
`History.filled`, `accepted_configurations_run`.
-/
import BuildFeed.Proofs.Session.Closing
import BuildFeed.Proofs.Session.Streams
import BuildFeed.Proofs.Wire.RoundTrip

namespace BuildFeed

/-! ### Making sessions and connections -/

/-- What is read from a document is valid. -/
theorem Config.validate_of_ofText {text : String} {config : Config}
    (h : Config.ofText text = .ok config) : config.validate = .ok () := by
  unfold ofText at h
  split at h
  · exact absurd h (by simp)
  · rename_i c _
    cases hv : c.validate with
    | error e => simp [hv, Except.map] at h
    | ok u =>
      rw [hv] at h
      obtain rfl : c = config := Except.ok.inj h
      exact hv

/-- A configuration fits into a document. -/
theorem Config.fits_toValue (config : Config) : config.toValue.Fits 127 := by
  simp [toValue, DispatchConfig.toValue, LogConfig.toValue, ParentPolicy.toValue]

namespace Connection

variable {capacity : Nat} {x y : Connection} {ms rs : List Message}

/-- An offer does not touch the client's hold on the stream. -/
theorem Move.held_of_offered (h : Move capacity x ms rs y) (hne : ms ≠ []) : y.held = x.held := by
  cases h with
  | offered => exact held_offerAll capacity ms x
  | abandoned => exact held_offerAll capacity ms x
  | _ => exact absurd rfl hne

/-- Nothing is read in a call that makes an offer. -/
theorem Move.unread_of_offered (h : Move capacity x ms rs y) (hne : ms ≠ []) : rs = [] := by
  cases h with
  | offered => rfl
  | abandoned => rfl
  | _ => exact absurd rfl hne

end Connection

namespace Session

variable {listing : Listing} {config : Config} {registry : Registry} {s₀ s : Session} {st : Step}
  {a : Advance} {c : Nat} {x : Connection}

/-- A valid configuration makes a session with any registry. -/
theorem exists_new (hvalid : config.validate = .ok ()) (registry : Registry) :
    ∃ s₀, new config registry = .ok s₀ := by
  rw [new, hvalid]
  exact ⟨_, rfl⟩

/-- A connection is made unless its queue cannot be. -/
theorem step_connect (hb : s.bridge = true) (id : ConnectionId) (subs : SubscriptionSet) :
    s.step listing (.connect id subs) =
      if Hub.maxCapacity < s.hub.capacity then .error .queueTooLarge
      else .ok ⟨{ s with hub := s.hub.connect id subs }, .connected s.hub.connections.length, []⟩ := by
  rw [step, onBridge, if_pos hb]

/-- A held stream whose connection is offered a message: the message is queued
if fewer than the capacity are unread. Otherwise as many are; they stay readable,
and the connection has overflowed. -/
theorem Effect.queued_or_overflowed (h : Effect listing s st a) (hs : s.Sound)
    (hc : s.hub.connections[c]? = some x) (hx : x.queue.length ≤ s.hub.capacity)
    (hheld : x.held = true) (hoffered : messagesTo c a.offers ≠ []) :
    (x.queue.length < s.hub.capacity ∧ ∃ y, a.session.hub.connections[c]? = some y ∧
      y.queue = x.queue ++ messagesTo c a.offers ∧ y.closeReason = x.closeReason) ∨
    (x.queue.length = s.hub.capacity ∧ a.session.hub.connections[c]? =
      some { x with attached := false, closeReason := some .overflowed }) := by
  obtain ⟨hone, -⟩ := h.few hs hc
  obtain ⟨y, hy, hfate⟩ := h.fate hs hc
  obtain ⟨y', hy', hmove⟩ := h.move hs hc
  obtain rfl := Option.some.inj (hy.symm.trans hy')
  have hyheld : y.held = true := (hmove.held_of_offered hoffered).trans hheld
  -- what is accepted is queued, and needs room
  have hqueued : Call.accepted c ⟨s, st, a⟩ = messagesTo c a.offers →
      x.queue.length < s.hub.capacity ∧ y.queue = x.queue ++ messagesTo c a.offers := by
    intro hq
    rw [Call.accepted, hc] at hq
    have hroom := (Connection.accepted_eq_self_iff hone).mp hq hoffered
    refine ⟨(Connection.hasRoom_iff.mp hroom).2.2, ?_⟩
    obtain ⟨-, hflow⟩ := hmove.flow hyheld
    rcases hflow with ⟨hflow, -⟩ | ⟨-, -, -, hfull, -⟩
    · rwa [hmove.unread_of_offered hoffered, List.nil_append] at hflow
    · exact absurd (hroom.symm.trans hfull) (by simp)
  cases hfate with
  | stays _ hr hq => exact Or.inl ⟨(hqueued hq).1, y, hy, (hqueued hq).2, hr⟩
  | abandoned _ _ hr hq => exact Or.inl ⟨(hqueued hq).1, y, hy, (hqueued hq).2, hr⟩
  | closed _ ht =>
    cases ht with
    | disconnected hst =>
      obtain rfl : st = .disconnect x.id := hst
      cases h
      exact absurd rfl hoffered
    | dropped _ hdropped => exact absurd (hheld.symm.trans hdropped) (by simp)
    | overflowed _ _ hfull => exact Or.inr ⟨Nat.le_antisymm hx hfull, hy⟩

end Session

/-! ### Clients that never read -/

/-- A connection whose client has read nothing: it holds the first messages
that it was offered, as many as the capacity, and it has overflowed if there
were more. -/
structure Connection.Filled (capacity c : Nat) (h : List Call) (x : Connection) : Prop where
  queue_eq : x.queue = (offeredTo c h).take capacity
  overflowed_iff : x.closeReason = some .overflowed ↔ capacity < (offeredTo c h).length

namespace Connection

variable {listing : Listing} {s : Session} {st : Step} {a : Advance} {c : Nat} {h : List Call}
  {x y : Connection}

/-- A call that offers nothing overflows nothing. -/
theorem Fate.overflowed_iff_of_nothing {k : Call} (hfate : x.Fate k c y) (hnone : k.offered c = [])
    (hopen : x.attached = true → x.closeReason = none) :
    y.closeReason = some .overflowed ↔ x.closeReason = some .overflowed := by
  cases hfate with
  | stays _ hr => rw [hr]
  | abandoned _ _ hr => rw [hr]
  | closed ha ht =>
    rw [hopen ha]
    cases ht with
    | disconnected => simp
    | dropped hne => exact absurd hnone hne
    | overflowed hne => exact absurd hnone hne

/-- A call that the client does not read in keeps its connection filled. -/
theorem Filled.step (hx : x.Filled s.hub.capacity c h) (he : s.Effect listing st a) (hs : s.Sound)
    (hc : s.hub.connections[c]? = some x) (hopen : x.attached = true → x.closeReason = none)
    (hread : Call.read c ⟨s, st, a⟩ = []) (hy : a.session.hub.connections[c]? = some y)
    (hheld : y.held = true) : y.Filled s.hub.capacity c (h ++ [⟨s, st, a⟩]) := by
  obtain ⟨y', hy', hmove⟩ := he.move hs hc
  obtain rfl := Option.some.inj (hy.symm.trans hy')
  obtain ⟨hxheld, hflow⟩ := hmove.flow hheld
  obtain ⟨hqueue, hover⟩ := hx
  have hlength : x.queue.length = min s.hub.capacity (offeredTo c h).length := by
    rw [hqueue, List.length_take]
  have hoffered : offeredTo c (h ++ [⟨s, st, a⟩]) = offeredTo c h ++ messagesTo c a.offers := by
    rw [offeredTo_append, offeredTo_singleton, Call.offered]
  by_cases hnone : messagesTo c a.offers = []
  · obtain ⟨y', hy', hfate⟩ := he.fate hs hc
    obtain rfl := Option.some.inj (hy.symm.trans hy')
    rw [hnone, List.append_nil] at hoffered
    have hsame : y.queue = x.queue := by
      rcases hflow with ⟨hflow, -⟩ | ⟨m, hm, -⟩
      · rwa [hread, hnone, List.nil_append, List.append_nil] at hflow
      · exact absurd (hnone.symm.trans hm) (by simp)
    exact ⟨by rw [hsame, hqueue, hoffered],
      by rw [hoffered, hfate.overflowed_iff_of_nothing hnone hopen, hover]⟩
  · have hone : (messagesTo c a.offers).length = 1 :=
      Nat.le_antisymm (he.few hs hc).1 (List.length_pos_iff.mpr hnone)
    have hle : x.queue.length ≤ s.hub.capacity := by omega
    rcases he.queued_or_overflowed hs hc hle hxheld hnone with ⟨hlt, y', hy', hq, hr⟩ | ⟨heq, hy'⟩
    · obtain rfl := Option.some.inj (hy.symm.trans hy')
      have hshort : (offeredTo c h).length < s.hub.capacity := by omega
      refine ⟨?_, ?_⟩
      · rw [hoffered, hq, hqueue, List.take_of_length_le (Nat.le_of_lt hshort),
          List.take_of_length_le (by rw [List.length_append]; omega)]
      · rw [hr, hover, hoffered, List.length_append]
        omega
    · obtain rfl := Option.some.inj (hy.symm.trans hy')
      refine ⟨?_, ?_⟩
      · rw [hoffered, List.take_append_of_le_length (by omega)]
        exact hqueue
      · rw [hoffered, List.length_append]
        exact ⟨fun _ => by omega, fun _ => rfl⟩

end Connection

namespace History

variable {listing : Listing} {config : Config} {registry : Registry} {s₀ s : Session}
  {h : List Call} {c : Nat} {x : Connection}

/-- The queue of a connection never holds more than the capacity. -/
theorem queue_le (h₀ : s₀.Fresh config registry) (hist : History listing s₀ h s)
    (hc : s.hub.connections[c]? = some x) : x.queue.length ≤ s.hub.capacity :=
  ((hist.gapless h₀ c).1 x hc).bounded

/-- A connection whose stream is held and was never read is filled. -/
theorem filled (h₀ : s₀.Fresh config registry) (hist : History listing s₀ h s)
    (hc : s.hub.connections[c]? = some x) (hheld : x.held = true) (hread : readBy c h = []) :
    x.Filled s.hub.capacity c h := by
  induction hist generalizing x with
  | nil => simp [h₀.connections_eq] at hc
  | @snoc h s st a hist hs ih =>
    have he := Session.step_eq_ok.mp hs
    have hsound := hist.sound h₀.sound
    rw [he.frame.2.2]
    cases hw : s.hub.connections[c]? with
    | none =>
      obtain ⟨-, id, subs, -, rfl, hoffers⟩ := he.made hw hc
      have hbefore := ((hist.gapless h₀ c).2 hw).1
      have hnone : offeredTo c (h ++ [⟨s, st, a⟩]) = [] := by
        rw [offeredTo_append, offeredTo_singleton, hbefore, Call.offered, hoffers]
        rfl
      exact ⟨by rw [hnone, List.take_nil]; rfl, by rw [hnone]; simp [Connection.fresh]⟩
    | some w =>
      rw [readBy_append, readBy_singleton, List.append_eq_nil_iff] at hread
      obtain ⟨y, hy, hmove⟩ := he.move hsound hw
      obtain rfl := Option.some.inj (hc.symm.trans hy)
      have hfilled := ih hw (hmove.flow hheld).1 hread.1
      exact hfilled.step he hsound hw (hist.open_of_attached h₀ hw) hread.2 hc hheld

end History

/-! ### Whole sessions -/

/-- A configuration that is valid, or was read from a document, makes a session
with any registry. As long as its bridge is there clients can connect to it, no
matter how many have, unless the capacity is beyond the limit; then none can.
A connection whose stream is held queues what it is offered until the capacity
is unread and then overflows, and if its client has read nothing it holds the
first messages that it was offered. -/
theorem accepted_configurations_run {config : Config}
    (haccepted : config.validate = .ok () ∨ ∃ text, Config.ofText text = .ok config)
    (registry : Registry) :
    ∃ s₀, Session.new config registry = .ok s₀ ∧
      ∀ {listing : Listing} {h : List Call} {s : Session}, History listing s₀ h s →
        (s.bridge = true → ∀ id subs,
          (config.dispatch.queueCapacity.toNat ≤ Hub.maxCapacity →
            s.step listing (.connect id subs) = .ok ⟨{ s with hub := s.hub.connect id subs },
              .connected s.hub.connections.length, []⟩) ∧
          (Hub.maxCapacity < config.dispatch.queueCapacity.toNat →
            s.step listing (.connect id subs) = .error .queueTooLarge)) ∧
        (∀ k ∈ h, ∀ (c : Nat) (x : Connection), k.before.hub.connections[c]? = some x →
          x.held = true → k.offered c ≠ [] →
          (x.queue.length < config.dispatch.queueCapacity.toNat ∧
            ∃ y, k.outcome.session.hub.connections[c]? = some y ∧
              y.queue = x.queue ++ k.offered c ∧ y.closeReason = x.closeReason) ∨
          (x.queue.length = config.dispatch.queueCapacity.toNat ∧
            k.outcome.session.hub.connections[c]? =
              some { x with attached := false, closeReason := some .overflowed })) ∧
        ∀ (c : Nat) (x : Connection), s.hub.connections[c]? = some x → x.held = true →
          readBy c h = [] → x.Filled config.dispatch.queueCapacity.toNat c h := by
  have hvalid : config.validate = .ok () := haccepted.elim id fun ⟨_, h⟩ => Config.validate_of_ofText h
  obtain ⟨s₀, h₀⟩ := Session.exists_new hvalid registry
  have hfresh := Session.fresh_of_new h₀
  refine ⟨s₀, h₀, fun {listing h s} hist => ⟨fun hb id subs => ?_, fun k hk c x hc hheld hoffered => ?_,
    fun c x hc hheld hread => ?_⟩⟩
  · rw [Session.step_connect hb, (hist.settings hfresh).2.2]
    exact ⟨fun hle => if_neg (Nat.not_lt.mpr hle), fun hlt => if_pos hlt⟩
  · obtain ⟨pre, post, -, hpre, he, -⟩ := hist.exists_split hk
    have hx := hpre.queue_le hfresh hc
    rw [← (hpre.settings hfresh).2.2]
    exact he.queued_or_overflowed (hpre.sound hfresh.sound) hc hx hheld hoffered
  · rw [← (hist.settings hfresh).2.2]
    exact hist.filled hfresh hc hheld hread

/-- A client that never reads connects where one message may be unread, and two
builds are cancelled. -/
theorem accepted_configurations_run_to_overflow :
    ∃ (s₀ : Session) (h : List Call) (s : Session) (x : Connection),
      Session.new ⟨⟨1, .nearestEnabledAncestor⟩, default⟩ .builtIn = .ok s₀ ∧
      History .inOrder s₀ h s ∧ s.hub.connections[0]? = some x ∧
      x.queue.length = 1 ∧ (offeredTo 0 h).length = 2 ∧ x.closeReason = some .overflowed := by
  let s₀ := sampleSession .nearestEnabledAncestor 1
  let steps : List Step := [.connect ⟨"a"⟩ .all, .begin ⟨"x"⟩, .begin ⟨"y"⟩, .close 0 .cancelled,
    .close 1 .cancelled]
  have hvalid : Config.validate ⟨⟨1, .nearestEnabledAncestor⟩, default⟩ = .ok () := rfl
  obtain ⟨s₀', h₀, hrun⟩ := accepted_configurations_run (Or.inl hvalid) .builtIn
  obtain rfl : s₀ = s₀' := Except.ok.inj h₀
  have hist := Session.history_calls .inOrder steps s₀
  obtain ⟨-, -, hfilled⟩ := hrun hist
  have hfull := hfilled 0 _ rfl rfl rfl
  exact ⟨s₀, _, _, _, rfl, hist, rfl, by rw [hfull.queue_eq]; rfl, rfl, hfull.overflowed_iff.mpr (by decide)⟩

/-- A configuration whose capacity is one more than a queue can have. -/
def Config.beyondLimit : Config := ⟨⟨2305843009213693952, .nearestEnabledAncestor⟩, default⟩

theorem Config.ofText_beyondLimit : ofText beyondLimit.toValue.render = .ok beyondLimit := by
  have hdecoded : Wire.decode decoder beyondLimit.toValue.render = .ok beyondLimit :=
    Wire.decode_render beyondLimit.fits_toValue.1 rfl
  rw [ofText, hdecoded]
  rfl

/-- A document whose capacity is one more than a queue can have is accepted and
makes a session, but no client can connect to it. -/
theorem valid_configuration_does_not_connect :
    ∃ s₀, Config.ofText Config.beyondLimit.toValue.render = .ok .beyondLimit ∧
      Config.beyondLimit.validate = .ok () ∧ Session.new .beyondLimit .builtIn = .ok s₀ ∧
      s₀.bridge = true ∧ s₀.step .inOrder (.connect ⟨"a"⟩ .all) = .error .queueTooLarge := by
  have hlimit : Hub.maxCapacity <
      (sampleSession .nearestEnabledAncestor 2305843009213693952).hub.capacity := by decide
  refine ⟨_, Config.ofText_beyondLimit, rfl, rfl, rfl, ?_⟩
  rw [Session.step_connect rfl]
  exact if_pos hlimit

end BuildFeed
