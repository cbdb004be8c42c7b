/-
# How connections close

While the bridge or a build is there, every connection is open or was closed
by exactly one call, for the reason that is told ever since, and the
connections that are still attached are those that were made less those that
were closed (`connections_close_once`).

When nobody is left who could hand messages to connections, those that are
open are detached too, and then no reason is set. A client that reads such a
stream to its end is not told why it ended (`stream_ends_without_reason`);
it is told of every other stream (`ended_streams_tell_why_unless_abandoned`).

Key definitions: `LifeCycle`.
Key theorems: `History.cause`, `History.stays_closed`, `History.mem_closedIn`,
`History.disconnect_closes`, `connections_close_once`,
`ended_streams_tell_why_unless_abandoned`.
-/
import BuildFeed.Proofs.Session.Events
import BuildFeed.Proofs.Session.Fates
import BuildFeed.Proofs.Session.Queues

namespace BuildFeed

/-! ### Histories -/

namespace History

variable {listing : Listing} {config : Config} {registry : Registry} {s₀ s : Session}
  {h : List Call} {k : Call} {c : Nat} {x : Connection} {r : CloseReason}

theorem isAlive (hist : History listing s₀ h s) (ha : s.isAlive = true) : s₀.isAlive = true := by
  induction hist with
  | nil => exact ha
  | snoc _ hs ih => exact ih ((Session.step_eq_ok.mp hs).isAlive ha)

/-- There are the connections that were made, in this order. -/
theorem ids (h₀ : s₀.Fresh config registry) (hist : History listing s₀ h s) :
    s.hub.connections.map (·.id) = connectedIn h := by
  induction hist with
  | nil =>
    rw [h₀.connections_eq]
    rfl
  | @snoc h s st a hist hs ih =>
    have hnew : connectedIn [⟨s, st, a⟩] = st.connected?.toList := by cases st <;> rfl
    rw [(Session.step_eq_ok.mp hs).ids (hist.sound h₀.sound), ih, connectedIn_append, hnew]

/-- An attached connection has no close reason. -/
theorem open_of_attached (h₀ : s₀.Fresh config registry) (hist : History listing s₀ h s)
    (hc : s.hub.connections[c]? = some x) (ha : x.attached = true) : x.closeReason = none := by
  induction hist generalizing x with
  | nil => simp [h₀.connections_eq] at hc
  | @snoc h s st a hist hs ih =>
    have he := Session.step_eq_ok.mp hs
    cases hw : s.hub.connections[c]? with
    | none =>
      obtain ⟨-, id, subs, -, rfl, -⟩ := he.made hw hc
      rfl
    | some w =>
      obtain ⟨y, hy, hfate⟩ := he.fate (hist.sound h₀.sound) hw
      obtain rfl := Option.some.inj (hy.symm.trans hc)
      cases hfate with
      | stays hsame hr => exact hr.trans (ih hw (hsame ▸ ha))
      | closed => exact absurd ha (by simp)
      | abandoned _ hdet => exact absurd (hdet.symm.trans ha) (by simp)

/-- A detached connection was detached by a call, which closed or abandoned it. -/
theorem cause (h₀ : s₀.Fresh config registry) (hist : History listing s₀ h s)
    (hc : s.hub.connections[c]? = some x) (ha : x.attached = false) :
    ∃ pre k post, h = pre ++ k :: post ∧
      ((∃ r, x.closeReason = some r ∧ k.Closes c r) ∨ (x.closeReason = none ∧ k.Abandons c)) := by
  induction hist generalizing x with
  | nil => simp [h₀.connections_eq] at hc
  | @snoc h s st a hist hs ih =>
    have he := Session.step_eq_ok.mp hs
    cases hw : s.hub.connections[c]? with
    | none =>
      obtain ⟨-, id, subs, -, rfl, -⟩ := he.made hw hc
      exact absurd ha (by simp [Connection.fresh])
    | some w =>
      obtain ⟨y, hy, hfate⟩ := he.fate (hist.sound h₀.sound) hw
      obtain rfl := Option.some.inj (hy.symm.trans hc)
      cases hfate with
      | stays hsame hr =>
        obtain ⟨pre, k, post, rfl, hk⟩ := ih hw (hsame.symm.trans ha)
        exact ⟨pre, k, post ++ [⟨s, st, a⟩], by simp, by rwa [hr]⟩
      | closed hwa ht =>
        have hwr := hist.open_of_attached h₀ hw hwa
        exact ⟨h, _, [], rfl, Or.inl ⟨_, rfl, w, hw, hwa, hwr, ht, hc⟩⟩
      | abandoned hwa _ hr hq hs hs' =>
        have hnone := hr.trans (hist.open_of_attached h₀ hw hwa)
        exact ⟨h, _, [], rfl, Or.inr ⟨hnone, w, hw, hwa, hq, hs, hs'⟩⟩

/-- A detached connection stays as it is, but for what its client reads. -/
theorem stays_closed (h₀ : s₀.Sound) (hist : History listing s₀ h s)
    (hc : s₀.hub.connections[c]? = some x) (ha : x.attached = false) :
    ∃ y, s.hub.connections[c]? = some y ∧ y.attached = false ∧ y.closeReason = x.closeReason ∧
      (y.held = true → readBy c h ++ y.queue = x.queue) := by
  induction hist with
  | nil => exact ⟨x, hc, ha, rfl, fun _ => rfl⟩
  | @snoc h s st a hist hs ih =>
    obtain ⟨y, hy, hya, hyr, hread⟩ := ih
    have he := Session.step_eq_ok.mp hs
    obtain ⟨z, hz, hmove⟩ := he.move (hist.sound h₀) hy
    obtain ⟨z', hz', hfate⟩ := he.fate (hist.sound h₀) hy
    obtain rfl := Option.some.inj (hz.symm.trans hz')
    refine ⟨z, hz, hmove.detached_of_detached hya, ?_, fun hheld => ?_⟩
    · cases hfate with
      | stays _ hr => exact hr.trans hyr
      | closed hatt => exact absurd (hya.symm.trans hatt) (by simp)
      | abandoned hatt => exact absurd (hya.symm.trans hatt) (by simp)
    · obtain ⟨hyheld, hflow⟩ := hmove.flow hheld
      have hms := hmove.offered_detached hya
      rcases hflow with ⟨hq, -⟩ | ⟨m, hm, -⟩
      · rw [readBy_append, readBy_singleton, List.append_assoc, hq, hms, List.append_nil]
        exact hread hyheld
      · rw [hms] at hm
        exact absurd hm (by simp)

/-- A connection that a call detaches stays as the call leaves it. -/
theorem closeReason_eq (h₀ : s₀.Sound) (hist : History listing s₀ h s) (hk : k ∈ h)
    {y : Connection} (hy : k.outcome.session.hub.connections[c]? = some y)
    (ha : y.attached = false) (hc : s.hub.connections[c]? = some x) :
    x.closeReason = y.closeReason := by
  obtain ⟨pre, post, -, hpre, he, hpost⟩ := hist.exists_split hk
  obtain ⟨z, hz, -, hzr, -⟩ := hpost.stays_closed (he.sound (hpre.sound h₀)) hy ha
  obtain rfl := Option.some.inj (hc.symm.trans hz)
  exact hzr

/-- A connection that was abandoned has no close reason. -/
theorem closeReason_of_abandons (h₀ : s₀.Fresh config registry) (hist : History listing s₀ h s)
    (hk : k ∈ h) (habandon : k.Abandons c) (hc : s.hub.connections[c]? = some x) :
    x.closeReason = none := by
  obtain ⟨w, hw, hwa, hq, halive, hdead⟩ := habandon
  obtain ⟨pre, post, -, hpre, he, -⟩ := hist.exists_split hk
  have hone := (he.few (hpre.sound h₀.sound) hw).1
  rw [Call.accepted, hw] at hq
  obtain ⟨y, hy, hya, hyr⟩ := he.reason_of_abandoned hw hone hq halive hdead
  rw [hist.closeReason_eq h₀.sound hk hy hya hc, hyr]
  exact hpre.open_of_attached h₀ hw hwa

/-- The connections that were detached are those that are not attached. -/
theorem mem_closedIn (h₀ : s₀.Fresh config registry) (hist : History listing s₀ h s) :
    c ∈ closedIn h ↔ ∃ x, s.hub.connections[c]? = some x ∧ x.attached = false := by
  induction hist with
  | nil => simp [closedIn, h₀.connections_eq]
  | @snoc h s st a hist hs ih =>
    have he := Session.step_eq_ok.mp hs
    rw [closedIn_append, List.mem_append, ih, closedIn_singleton, Call.mem_closed]
    cases hw : s.hub.connections[c]? with
    | none =>
      have hfresh : ∀ y, a.session.hub.connections[c]? = some y → y.attached = true := by
        intro y hy
        obtain ⟨-, id, subs, -, rfl, -⟩ := he.made hw hy
        rfl
      constructor
      · rintro (⟨x, hx, -⟩ | ⟨hatt, -⟩)
        · exact absurd hx (by simp)
        · simp [Hub.isAttached, hw] at hatt
      · rintro ⟨y, hy, hya⟩
        exact absurd (hya.symm.trans (hfresh y hy)) (by simp)
    | some w =>
      obtain ⟨y, hy, hmove⟩ := he.move (hist.sound h₀.sound) hw
      rw [Session.isAttached_eq hw, Session.isAttached_eq hy]
      cases hwa : w.attached with
      | true => simp [hy, hwa]
      | false => simp [hy, hwa, hmove.detached_of_detached hwa]

/-- No connection is detached twice. -/
theorem nodup_closedIn (h₀ : s₀.Fresh config registry) (hist : History listing s₀ h s) :
    (closedIn h).Nodup := by
  induction hist with
  | nil => exact List.nodup_nil
  | @snoc h s st a hist hs ih =>
    rw [closedIn_append, closedIn_singleton]
    have hnew : (Call.closed ⟨s, st, a⟩).Nodup := (Session.nodup_attachedNumbers s.hub).filter _
    refine List.nodup_append.mpr ⟨ih, hnew, ?_⟩
    rintro c hold _ hlast rfl
    obtain ⟨x, hx, hxa⟩ := (hist.mem_closedIn h₀).mp hold
    have hatt := (Call.mem_closed.mp hlast).1
    rw [Session.isAttached_eq hx, hxa] at hatt
    exact absurd hatt (by simp)

/-- Attached are the connections that were made, less those that were detached. -/
theorem attachedCount_add (h₀ : s₀.Fresh config registry) (hist : History listing s₀ h s) :
    s.hub.attachedCount + (closedIn h).length = (connectedIn h).length := by
  have hdetached : (closedIn h).Perm
      ((List.range s.hub.connections.length).filter fun c => !s.hub.isAttached c) := by
    refine (List.perm_ext_iff_of_nodup (hist.nodup_closedIn h₀) (List.nodup_range.filter _)).mpr ?_
    intro c
    rw [hist.mem_closedIn h₀, List.mem_filter, List.mem_range, Bool.not_eq_true']
    constructor
    · rintro ⟨x, hx, hxa⟩
      exact ⟨(List.getElem?_eq_some_iff.mp hx).1, (Session.isAttached_eq hx).trans hxa⟩
    · rintro ⟨hlt, hdet⟩
      have hx := List.getElem?_eq_getElem hlt
      exact ⟨_, hx, (Session.isAttached_eq hx).symm.trans hdet⟩
  have hcount : s.hub.attachedCount =
      ((List.range s.hub.connections.length).filter s.hub.isAttached).length :=
    (length_filter_range _ _).symm
  rw [hcount, hdetached.length_eq, ← List.length_eq_length_filter_add, List.length_range,
    ← hist.ids h₀, List.length_map]

/-- As long as somebody is left, what a call detaches it closes. -/
theorem closes_of_detached (h₀ : s₀.Fresh config registry) (hist : History listing s₀ h s)
    (halive : s.isAlive = true) (hk : k ∈ h) : c ∈ k.closed ↔ ∃ r, k.Closes c r := by
  obtain ⟨pre, post, -, hpre, he, hpost⟩ := hist.exists_split hk
  rw [Call.mem_closed]
  constructor
  · rintro ⟨hatt, hdet⟩
    obtain ⟨x, hx, hxa⟩ := (Option.any_eq_true _ _).mp hatt
    obtain ⟨y, hy, hfate⟩ := he.fate (hpre.sound h₀.sound) hx
    rw [Session.isAttached_eq hy] at hdet
    cases hfate with
    | stays hsame => exact absurd (hdet.symm.trans (hsame.trans hxa)) (by simp)
    | @closed r _ ht => exact ⟨r, x, hx, hxa, hpre.open_of_attached h₀ hx hxa, ht, hy⟩
    | abandoned _ _ _ _ _ hdead =>
      exact absurd (hdead.symm.trans (hpost.isAlive halive)) (by simp)
  · rintro ⟨r, x, hx, hxa, -, -, hy⟩
    exact ⟨(Session.isAttached_eq hx).trans hxa, Session.isAttached_eq hy⟩

/-- As long as somebody is left, a connection that is not attached was closed by one
call, for the reason that is told. -/
theorem closed_by_one_call (h₀ : s₀.Fresh config registry) (hist : History listing s₀ h s)
    (halive : s.isAlive = true) (hx : s.hub.connections[c]? = some x) (hxa : x.attached = false) :
    ∃ pre k post r, h = pre ++ k :: post ∧ k.Closes c r ∧ c ∉ closedIn pre ∧ c ∉ closedIn post ∧
      x.closeReason = some r := by
  obtain ⟨pre, k, post, rfl, ⟨r, hr, hcloses⟩ | ⟨-, _, -, -, -, -, hdead⟩⟩ := hist.cause h₀ hx hxa
  · have hk : c ∈ k.closed := (hist.closes_of_detached h₀ halive (by simp)).mpr ⟨r, hcloses⟩
    have honce := hist.nodup_closedIn h₀
    rw [← List.singleton_append, closedIn_append, closedIn_append, closedIn_singleton] at honce
    obtain ⟨-, hlate, hpre⟩ := List.nodup_append.mp honce
    obtain ⟨-, -, hpost⟩ := List.nodup_append.mp hlate
    exact ⟨pre, k, post, r, rfl, hcloses,
      fun hmem => hpre c hmem c (List.mem_append_left _ hk) rfl,
      fun hmem => hpost c hk c hmem rfl, hr⟩
  · obtain ⟨-, -, hpost⟩ := hist.split
    exact absurd (hdead.symm.trans (hpost.isAlive halive)) (by simp)

/-- A message that does not come into the queue closes its connection. -/
theorem closes_of_failure (h₀ : s₀.Fresh config registry) (hist : History listing s₀ h s)
    (hk : k ∈ h) (hfail : k.accepted c ≠ k.offered c) : ∃ r, k.Closes c r := by
  obtain ⟨pre, post, -, hpre, he, -⟩ := hist.exists_split hk
  have hsound := hpre.sound h₀.sound
  cases hc : k.before.hub.connections[c]? with
  | none =>
    refine absurd ?_ hfail
    rw [Call.accepted, hc]
    exact (he.nothing hsound hc).1.symm
  | some x =>
    obtain ⟨y, hy, hfate⟩ := he.fate hsound hc
    cases hfate with
    | stays _ _ hq => exact absurd hq hfail
    | @closed r hxa ht => exact ⟨r, x, hc, hxa, hpre.open_of_attached h₀ hc hxa, ht, hy⟩
    | abandoned _ _ _ hq => exact absurd hq hfail

/-- If no two connections were made with one id, a disconnect tells whether it
closes the connection of its id. -/
theorem disconnect_closes (h₀ : s₀.Fresh config registry) (hist : History listing s₀ h s)
    (hids : (connectedIn h).Nodup) (hb : s.bridge = true) (id : ConnectionId) :
    ∃ a was, s.step listing (.disconnect id) = .ok a ∧ a.reply = .disconnected was ∧
      (was = true ↔ ∃ (c : Nat) (x : Connection), s.hub.connections[c]? = some x ∧ x.id = id ∧
        Call.Closes c .disconnected ⟨s, .disconnect id, a⟩) ∧
      (∀ (c : Nat) (x : Connection), s.hub.connections[c]? = some x → x.id = id → was = x.attached) ∧
      (was = false → a.session = s) := by
  have he : Session.Effect listing s (.disconnect id) _ := .disconnect hb
  refine ⟨_, _, Session.step_eq_ok.mpr he, rfl, ?_⟩
  rw [← hist.ids h₀] at hids
  cases hf : s.hub.find? id with
  | none =>
    have hno : s.hub.disconnect id = (false, s.hub) := by rw [Hub.disconnect, hf]
    have hdet : ∀ (c : Nat) (x : Connection), s.hub.connections[c]? = some x → x.id = id →
        x.attached = false := by
      rintro c x hx rfl
      cases hxa : x.attached with
      | false => rfl
      | true => simp [Session.find?_of_attached hids hx hxa] at hf
    rw [hno]
    refine ⟨⟨fun h => absurd h (by simp), ?_⟩, fun c x hx hid => (hdet c x hx hid).symm, fun _ => rfl⟩
    rintro ⟨c, x, hx, hid, x', hx', hxa, -⟩
    obtain rfl := Option.some.inj (hx.symm.trans hx')
    exact absurd ((hdet c x hx hid).symm.trans hxa) (by simp)
  | some c =>
    obtain ⟨x, hx, hxa, rfl⟩ := Session.find?_eq_some hf
    have hyes : (s.hub.disconnect x.id).1 = true := by rw [Hub.disconnect, hf]
    have hy : (s.hub.disconnect x.id).2.connections[c]? =
        some { x with attached := false, closeReason := some .disconnected } := by
      rw [Session.getElem?_disconnect, hx, Option.map_some, if_pos hf, Connection.tearDown, if_pos hxa]
    have hopen := hist.open_of_attached h₀ hx hxa
    rw [hyes]
    refine ⟨⟨fun _ => ⟨c, x, hx, rfl, x, hx, hxa, hopen, .disconnected rfl, hy⟩, fun _ => rfl⟩, ?_,
      fun h => absurd h (by simp)⟩
    intro c' x' hx' hid
    obtain rfl := Session.eq_of_id_eq hids hx hx' hid.symm
    obtain rfl := Option.some.inj (hx.symm.trans hx')
    exact hxa.symm

end History

/-! ### Whole sessions -/

/-- What is true of the connections of a session as long as the bridge or a
build is there. -/
structure LifeCycle (listing : Listing) (s₀ s : Session) (h : List Call) : Prop where
  /-- The connections are those that were made, each with its id. -/
  made : s.hub.connections.map (·.id) = connectedIn h
  /-- Each is open, or was closed by one call, for the reason that is told. -/
  stands : ∀ (c : Nat) (x : Connection), s.hub.connections[c]? = some x →
    (x.attached = true ∧ x.closeReason = none ∧ c ∉ closedIn h) ∨
    ∃ pre k post r, h = pre ++ k :: post ∧ k.Closes c r ∧ c ∉ closedIn pre ∧ c ∉ closedIn post ∧
      x.attached = false ∧ x.closeReason = some r
  /-- Once closed, a connection stays so for its reason; nothing comes into its
  queue, and the client reads on. -/
  lasts : ∀ pre post t, h = pre ++ post → History listing s₀ pre t →
    ∀ (c : Nat) (x : Connection), t.hub.connections[c]? = some x → x.attached = false →
      ∃ y, s.hub.connections[c]? = some y ∧ y.attached = false ∧ y.closeReason = x.closeReason ∧
        offeredTo c post = [] ∧ acceptedBy c post = [] ∧
        (y.held = true → readBy c post ++ y.queue = x.queue)
  readable : ∀ c y, s.stream? c = some y →
    ∃ a, s.step listing (.drain c) = .ok a ∧ a.reply = .drained y.queue
  passages : ∀ k ∈ h, ∀ c, c ∈ k.closed ↔ ∃ r, k.Closes c r
  once : (closedIn h).Nodup
  /-- A disconnect tells whether it closes a connection. -/
  disconnects : s.bridge = true → ∀ id, ∃ a was,
    s.step listing (.disconnect id) = .ok a ∧ a.reply = .disconnected was ∧
      (was = true ↔ ∃ (c : Nat) (x : Connection), s.hub.connections[c]? = some x ∧ x.id = id ∧
        Call.Closes c .disconnected ⟨s, .disconnect id, a⟩) ∧
      (∀ (c : Nat) (x : Connection), s.hub.connections[c]? = some x → x.id = id → was = x.attached) ∧
      (was = false → a.session = s)
  /-- So does a message that does not come into the queue. -/
  failures : ∀ k ∈ h, ∀ c, k.accepted c ≠ k.offered c → ∃ r, k.Closes c r
  count : s.hub.attachedCount + (closedIn h).length = (connectedIn h).length
  told : s.bridge = true → s.connectionCount = some ((connectedIn h).length - (closedIn h).length)

/-- In every session, as long as the bridge or a build is there, every connection
is open until one call closes it, and is closed from then on. -/
theorem connections_close_once {listing : Listing} {config : Config} {registry : Registry}
    {s₀ s : Session} {h : List Call} (h₀ : Session.new config registry = .ok s₀)
    (hist : History listing s₀ h s) (hids : (connectedIn h).Nodup) (halive : s.isAlive = true) :
    LifeCycle listing s₀ s h := by
  have hfresh := Session.fresh_of_new h₀
  have hcount := hist.attachedCount_add hfresh
  constructor
  case made => exact hist.ids hfresh
  case stands =>
    intro c x hx
    cases hxa : x.attached with
    | true =>
      refine Or.inl ⟨rfl, hist.open_of_attached hfresh hx hxa, ?_⟩
      simp [hist.mem_closedIn hfresh, hx, hxa]
    | false =>
      obtain ⟨pre, k, post, r, hh, hcloses, hpre, hpost, hr⟩ :=
        hist.closed_by_one_call hfresh halive hx hxa
      exact Or.inr ⟨pre, k, post, r, hh, hcloses, hpre, hpost, rfl, hr⟩
  case lasts =>
    rintro pre post t rfl hpre c x hx hxa
    obtain ⟨t', hpre', hpost⟩ := hist.exists_of_append
    obtain rfl := hpre.unique hpre'
    have hsound := hpre.sound hfresh.sound
    obtain ⟨y, hy, hya, hyr, hread⟩ := hpost.stays_closed hsound hx hxa
    have hoffered := (hpost.quiet_of_detached hsound hx hxa).1
    have haccepted := (hpost.acceptedBy_first hsound c).1
    rw [hoffered] at haccepted
    exact ⟨y, hy, hya, hyr, hoffered, List.prefix_nil.mp haccepted, hread⟩
  case readable =>
    intro c y hy
    exact ⟨_, Session.step_eq_ok.mpr (.drain hy), rfl⟩
  case passages =>
    intro k hk c
    exact hist.closes_of_detached hfresh halive hk
  case once => exact hist.nodup_closedIn hfresh
  case disconnects =>
    intro hb id
    exact hist.disconnect_closes hfresh hids hb id
  case failures =>
    intro k hk c hfail
    exact hist.closes_of_failure hfresh hk hfail
  case count => exact hcount
  case told =>
    intro hb
    rw [Session.connectionCount, if_pos hb]
    congr 1
    omega

/-- One connection is disconnected twice, one has no room for the end of the second
build, and one is open. -/
theorem connections_close_once_overflow :
    ∃ (s₀ s : Session) (h : List Call),
      Session.new ⟨⟨1, .nearestEnabledAncestor⟩, default⟩ .builtIn = .ok s₀ ∧
      History .inOrder s₀ h s ∧ (connectedIn h).Nodup ∧ s.isAlive = true ∧ closedIn h = [1, 0] ∧
      s.hub.connections.map (·.closeReason) = [some .overflowed, some .disconnected, none] ∧
      s.connectionCount = some 1 ∧ LifeCycle .inOrder s₀ s h := by
  let s₀ := sampleSession .nearestEnabledAncestor 1
  let steps : List Step := [.connect ⟨"a"⟩ .all, .connect ⟨"b"⟩ .all, .begin ⟨"x"⟩, .begin ⟨"y"⟩,
    .disconnect ⟨"b"⟩, .disconnect ⟨"b"⟩, .close 0 .completed, .close 1 .completed,
    .connect ⟨"c"⟩ .all]
  have h₀ : Session.new ⟨⟨1, .nearestEnabledAncestor⟩, default⟩ .builtIn = .ok s₀ := rfl
  have hist := Session.history_calls .inOrder steps s₀
  have hids : (connectedIn (s₀.calls .inOrder steps)).Nodup := by decide
  have halive : (s₀.after .inOrder steps).isAlive = true := by decide
  exact ⟨s₀, _, _, h₀, hist, hids, halive, by decide, by decide, by decide,
    connections_close_once h₀ hist hids halive⟩

/-! ### Streams that have ended -/

namespace Connection

variable {x : Connection}

theorem receive_eq_ended_iff : x.receive.1 = .ended ↔ x.queue = [] ∧ x.attached = false := by
  cases hq : x.queue with
  | nil => cases ha : x.attached <;> simp [receive, hq, ha]
  | cons m rest => simp [receive, hq]

end Connection

/-- The client of a stream that has ended is told why by the reason of the call
that closed it, and is not told if a call left nobody who could close it. -/
theorem ended_streams_tell_why_unless_abandoned {listing : Listing} {config : Config}
    {registry : Registry} {s₀ s : Session} {h : List Call} {c : Nat} {x : Connection}
    (h₀ : Session.new config registry = .ok s₀) (hist : History listing s₀ h s)
    (hx : s.stream? c = some x) (hend : x.receive.1 = .ended) :
    (∀ r, x.closeReason = some r ↔ ∃ k ∈ h, k.Closes c r) ∧
      (x.closeReason = none ↔ ∃ k ∈ h, k.Abandons c) ∧
      (s.isAlive = true → ∃ r, x.closeReason = some r) := by
  have hfresh := Session.fresh_of_new h₀
  have hc := (Session.stream?_eq_some.mp hx).1
  have hdet := (Connection.receive_eq_ended_iff.mp hend).2
  have hcloses : ∀ {r}, (∃ k ∈ h, k.Closes c r) → x.closeReason = some r := by
    rintro r ⟨k, hk, _, -, -, -, -, hy⟩
    exact hist.closeReason_eq hfresh.sound hk hy rfl hc
  have habandons : (∃ k ∈ h, k.Abandons c) → x.closeReason = none := by
    rintro ⟨k, hk, habandon⟩
    exact hist.closeReason_of_abandons hfresh hk habandon hc
  obtain ⟨pre, k, post, rfl, hcause⟩ := hist.cause hfresh hc hdet
  have hk : k ∈ pre ++ k :: post := by simp
  rcases hcause with ⟨r, hr, hclose⟩ | ⟨hr, habandon⟩
  · refine ⟨fun r' => ⟨fun hr' => ?_, hcloses⟩, ⟨fun hr' => ?_, habandons⟩, fun _ => ⟨r, hr⟩⟩
    · obtain rfl := Option.some.inj (hr.symm.trans hr')
      exact ⟨k, hk, hclose⟩
    · exact absurd (hr.symm.trans hr') (by simp)
  · refine ⟨fun r' => ⟨fun hr' => ?_, hcloses⟩, ⟨fun _ => ⟨k, hk, habandon⟩, habandons⟩, ?_⟩
    · exact absurd (hr.symm.trans hr') (by simp)
    · intro halive
      obtain ⟨-, -, hpost⟩ := hist.split
      obtain ⟨_, -, -, -, -, hdead⟩ := habandon
      exact absurd (hdead.symm.trans (hpost.isAlive halive)) (by simp)

/-- A stream ends by a disconnect, and is asked for its reason after the bridge is
gone. -/
theorem ended_streams_tell_why_after_disconnect :
    ∃ (s₀ s : Session) (h : List Call) (x : Connection), Session.new default .builtIn = .ok s₀ ∧
      History .inOrder s₀ h s ∧ s.stream? 0 = some x ∧ x.receive.1 = .ended ∧
      s.isAlive = false ∧ x.closeReason = some .disconnected ∧
      (∀ r, x.closeReason = some r ↔ ∃ k ∈ h, k.Closes 0 r) ∧
      (x.closeReason = none ↔ ∃ k ∈ h, k.Abandons 0) ∧
      (s.isAlive = true → ∃ r, x.closeReason = some r) := by
  let s₀ := sampleSession .nearestEnabledAncestor 1024
  let steps : List Step := [.connect ⟨"a"⟩ .all, .disconnect ⟨"a"⟩, .dropBridge]
  have h₀ : Session.new default .builtIn = .ok s₀ := rfl
  have hist := Session.history_calls .inOrder steps s₀
  let x : Connection := ⟨⟨"a"⟩, .all, [], false, true, some .disconnected⟩
  have hx : (s₀.after .inOrder steps).stream? 0 = some x := by decide
  have hend : x.receive.1 = .ended := by decide
  exact ⟨s₀, _, _, x, h₀, hist, hx, hend, by decide, rfl,
    ended_streams_tell_why_unless_abandoned h₀ hist hx hend⟩

/-- The bridge is dropped with an open connection: its stream ends without a reason. -/
theorem stream_ends_without_reason :
    ∃ (s₀ s : Session) (h : List Call) (x : Connection), Session.new default .builtIn = .ok s₀ ∧
      History .inOrder s₀ h s ∧ s.stream? 0 = some x ∧ x.receive.1 = .ended ∧
      ¬ (x.closeReason = some .disconnected ∨ x.closeReason = some .overflowed) := by
  let s₀ := sampleSession .nearestEnabledAncestor 1024
  let steps : List Step := [.connect ⟨"a"⟩ .all, .dropBridge]
  have h₀ : Session.new default .builtIn = .ok s₀ := rfl
  have hist := Session.history_calls .inOrder steps s₀
  let x : Connection := ⟨⟨"a"⟩, .all, [], false, true, none⟩
  have hx : (s₀.after .inOrder steps).stream? 0 = some x := by decide
  exact ⟨s₀, _, _, x, h₀, hist, hx, by decide, by decide⟩

end BuildFeed
