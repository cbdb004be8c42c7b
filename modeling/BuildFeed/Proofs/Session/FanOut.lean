/-
# Who is handed what

A start and a finish hand at most one message to a connection. It is queued, or
the connection is torn down, because its stream was dropped or its queue is
full (`Connection.Handed`). Which connections are handed a message can be said
for all connections at once, together with the frame: every other connection
stays as it is (`Hub.FansOut`).

A start that publishes its operation hands its news to the attached connections
of the audience that the mapper serves, each under the parent that it sees. The
finish of the operation hands its news to the connections that the start
offered its own, as far as they are still attached, unless the operation is a
problem (`signals_fan_out_once`).

Key definitions: `Connection.Handed`, `Hub.FansOut`, `SignalsFanOut`.
Key theorems: `Hub.fansOut_deliver`, `Build.start_fansOut`,
`Build.finish_fansOut`, `History.published_follows`, `signals_fan_out_once`.
-/
import BuildFeed.Proofs.Mapper.Routing
import BuildFeed.Proofs.Session.States

namespace BuildFeed

/-! ### One connection -/

namespace Connection

/-- What a message makes of the connection that it is handed to. -/
inductive Handed (capacity : Nat) (m : Message) (x : Connection) : Connection → Prop
  | queued (hh : x.held = true) (hl : x.queue.length < capacity) :
    Handed capacity m x { x with queue := x.queue ++ [m] }
  | dropped (hh : x.held = false) :
    Handed capacity m x { x with attached := false, closeReason := some .disconnected }
  | overflowed (hh : x.held = true) (hl : capacity ≤ x.queue.length) :
    Handed capacity m x { x with attached := false, closeReason := some .overflowed }

theorem handed_offer {x : Connection} (ha : x.attached = true) (capacity : Nat) (m : Message) :
    Handed capacity m x (x.offer capacity m) := by
  cases hh : x.held with
  | false =>
    rw [offer_of_dropped ha hh]
    exact .dropped hh
  | true =>
    by_cases hl : x.queue.length < capacity
    · rw [offer_of_hasRoom (hasRoom_iff.mpr ⟨ha, hh, hl⟩)]
      exact .queued hh hl
    · rw [offer_of_full ha hh (Nat.not_lt.mp hl)]
      exact .overflowed hh (Nat.not_lt.mp hl)

end Connection

/-! ### All connections -/

/-- Each connection that is to get something is handed one message, which is news
for it, and every other connection stays as it is. -/
structure Hub.FansOut (hub hub' : Hub) (Gets : Nat → Connection → Prop)
    (News : Nat → Message → Prop) : Prop where
  length_eq : hub'.connections.length = hub.connections.length
  handed : ∀ c x, hub.connections[c]? = some x → Gets c x →
    ∃ m y, News c m ∧ hub'.connections[c]? = some y ∧ x.Handed hub.capacity m y
  others : ∀ c x, hub.connections[c]? = some x → ¬ Gets c x → hub'.connections[c]? = some x

theorem Hub.fansOut_deliver {hub : Hub} {os : List Offer} {Gets : Nat → Connection → Prop}
    {News : Nat → Message → Prop}
    (hgets : ∀ c x, hub.connections[c]? = some x → Gets c x →
      x.attached = true ∧ ∃ m, News c m ∧ messagesTo c os = [m])
    (hothers : ∀ c x, hub.connections[c]? = some x → ¬ Gets c x → messagesTo c os = []) :
    FansOut hub (hub.deliver os) Gets News := by
  refine ⟨length_deliver hub os, fun c x hx hg => ?_, fun c x hx hg => ?_⟩
  · obtain ⟨ha, m, hnews, hm⟩ := hgets c x hx hg
    refine ⟨m, x.offer hub.capacity m, hnews, ?_, Connection.handed_offer ha _ m⟩
    rw [getElem?_deliver, hx, hm]
    rfl
  · rw [getElem?_deliver, hx, hothers c x hx hg]
    rfl

/-- Without messages nothing changes. -/
theorem Hub.deliver_nil (hub : Hub) : hub.deliver [] = hub := rfl

namespace Build

variable {registry : Registry} {policy : ParentPolicy} {hub : Hub} {b : Build} {op : StartSignal}
  {t : Turn} {e : Entry} {m : Mapper}

/-! ### Starts -/

theorem mem_targets_iff {c : Nat} {x : Connection} (hx : hub.connections[c]? = some x) :
    b.slotOf c ∈ b.targets hub m ↔
      x.attached = true ∧ c ∈ b.audience ∧ m.isEnabled x.subscriptions = true := by
  rw [slotOf_mem_targets, Hub.subscriptions?, hx, Option.bind_some]
  cases x.attached <;> simp

/-- What a start tells a connection of its operation: under the parent that the
connection sees it is what the mapper makes of the operation. -/
def StartNews (policy : ParentPolicy) (b : Build) (m : Mapper) (op : StartSignal) (c : Nat)
    (message : Message) : Prop :=
  ∃ p d, resolve policy b.live (b.slotOf c) op.parent = some p ∧ (m.consult op p).1 = .ok (some d) ∧
    d.id = op.id ∧ d.parent = p ∧ message = .event b.id (.started op.startTime d)

/-- A start offers something only if its operation stands as started then. -/
theorem offers_of_start (h : b.start registry policy hub op = some t) :
    t.offers = [] ∨ t.build.state op.id = .started := by
  cases startCase_of_start h with
  | @published m ps first data d =>
    have hentry := LiveTable.get?_insert b.live op.id op.id
      (.published m op (deliveries d first (group ps)))
    rw [if_pos rfl] at hentry
    exact Or.inr (state_eq_started_iff.mpr ⟨_, hentry, rfl⟩)
  | _ => exact Or.inl rfl

/-- A start that publishes its operation tells the attached connections of the
audience that the mapper serves. -/
theorem start_fansOut (hu : ∀ m ∈ registry.mappers, m.Uniform) (hs : b.Sound) (ho : b.closed = false)
    (hl : b.live.get? op.id = none) (h : b.start registry policy hub op = some t)
    (hr : t.result = .ok ()) (hst : t.build.state op.id = .started) :
    ∃ m, registry.lookup op.details.kind = some m ∧
      hub.FansOut (hub.deliver t.offers)
        (fun c x => x.attached = true ∧ c ∈ b.audience ∧ m.isEnabled x.subscriptions = true)
        (StartNews policy b m op) := by
  have hf : ∀ m ∈ registry.mappers, m.Faithful := fun m hm => (hu m hm).faithful
  rcases start_outcome hf hs ho hl h with ⟨e, href⟩ | ⟨e, hrec⟩
  · rw [href.result] at hr
    exact absurd hr (by simp)
  · have hpub : e.isPublished = true := by
      obtain ⟨e', he', hp⟩ := state_eq_started_iff.mp hst
      rw [hrec.build, LiveTable.get?_insert, if_pos rfl, Option.some.injEq] at he'
      rw [he']
      exact hp
    obtain ⟨m, p₀, d₀, hasks, hd₀⟩ := (hrec.isPublished_iff (firstStart_of_start ho hl h)).mp hpub
    have hm := hasks.routed
    have huni := hu m (lookup_mem hm)
    refine ⟨m, hm, Hub.fansOut_deliver (fun c x hx hg => ?_) fun c x hx hg => ?_⟩
    · have hc : b.slotOf c ∈ b.targets hub m := (mem_targets_iff hx).mpr hg
      obtain ⟨p, hp⟩ := exists_resolve_of_start h ho hl hm hc
      have hd : (m.consult op p).1 = .ok (some (d₀.withParent p)) := by
        rw [huni.consult_eq op p₀ p, hd₀]
        rfl
      have hshown : e.shown (b.slotOf c) = some ⟨m, op, d₀.withParent p⟩ :=
        (hrec.shows_iff hu _ _).mpr ⟨hm, hc, rfl, p, hp, hd⟩
      refine ⟨hg.1, _, ⟨p, _, hp, hd, huni.consult_id hd, huni.faithful.consult_parent hd, rfl⟩, ?_⟩
      rw [hrec.offers, hshown]
      rfl
    · have hnone : e.shown (b.slotOf c) = none := by
        rw [Option.eq_none_iff_forall_ne_some]
        intro sh hsh
        obtain ⟨hm', hc, -, -⟩ := (hrec.shows_iff hu _ sh).mp hsh
        obtain rfl := Option.some.inj (hm.symm.trans hm')
        exact hg ((mem_targets_iff hx).mp hc)
      rw [hrec.offers, hnone]
      rfl

/-! ### Finishes -/

/-- What a finish tells a connection that the start has told of the operation: the
descriptor is that of the start. -/
def FinishNews (b : Build) (op : StartSignal) (f : FinishSignal) (offered : Nat → List Message)
    (c : Nat) (message : Message) : Prop :=
  ∃ d task, offered c = [.event b.id (.started op.startTime d)] ∧
    message = .event b.id (.finished f.endTime d (.ofOutcome op.startTime f.endTime f.outcome) task)

/-- A built-in mapper is written for what is routed to it. -/
theorem handles_of_lookup {kind : DetailsKind} (hm : m ∈ Mapper.builtIn)
    (h : registry.lookup kind = some m) : m.handles = kind :=
  (Mapper.readsKind_of_mem_builtIn hm).1.symm.trans (Registry.lookup_eq_some_iff.mp h).2

section Finish

variable {f : FinishSignal} {ds : List Delivery} {offered : Nat → List Message}

/-- The finish of an operation whose end is reported tells the connections that are
still attached of those that the start has told. -/
theorem finish_fansOut (hm : m ∈ Mapper.builtIn) (hroute : registry.lookup op.details.kind = some m)
    (hs : b.Sound) (ho : b.closed = false) (hl : b.live.get? f.id = some (.published m op ds))
    (hoff : ∀ c, offered c =
      (((Entry.published m op ds).shown (b.slotOf c)).map (·.started b.id)).toList)
    (hkind : op.details.kind ≠ .reportProblem) :
    (∀ d, ∃ e, m.finishedEvent d op f = .ok (some e)) ∧
      hub.FansOut (hub.deliver (b.finish hub f).offers)
        (fun c x => x.attached = true ∧ offered c ≠ []) (FinishNews b op f offered) := by
  obtain ⟨⟨data, hd⟩, -, -⟩ := entry_sound hs hl
  obtain ⟨-, -, -, hmessages⟩ := finish_of_live hub hs ho hl
  have hhandles : m.handles = op.details.kind := handles_of_lookup hm hroute
  have hreports : ∀ d, ∃ e, m.finished d data op f = some e := by
    intro d
    rw [← Option.ne_none_iff_exists', Ne, Mapper.finished_eq_none_iff_handles hm, hhandles]
    exact hkind
  refine ⟨fun d => ?_, Hub.fansOut_deliver (fun c x hx hg => ?_) fun c x hx hg => ?_⟩
  · obtain ⟨e, he⟩ := hreports d
    exact ⟨e, by rw [finishedEvent_of_dataOf hd, he]⟩
  · obtain ⟨ha, hne⟩ := hg
    cases hdesc : descriptorFor (b.slotOf c) ds with
    | none =>
      rw [hoff, Entry.shown, hdesc] at hne
      exact absurd rfl hne
    | some d =>
      obtain ⟨e, he⟩ := hreports d
      obtain ⟨task, rfl⟩ := Mapper.finished_of_mem_builtIn hm he
      refine ⟨ha, _, ⟨d, task, ?_, rfl⟩, ?_⟩
      · rw [hoff, Entry.shown, hdesc]
        rfl
      · rw [hmessages, Session.isAttached_eq hx, if_pos ha, Entry.shown, hdesc, Option.map_some,
          Option.bind_some, Showing.finished, finishedEvent_of_dataOf hd, he]
        rfl
  · rw [hmessages, Session.isAttached_eq hx]
    cases ha : x.attached with
    | false => rfl
    | true =>
      have hnil : offered c = [] := not_not.mp fun hne => hg ⟨ha, hne⟩
      rw [hoff] at hnil
      rw [if_pos rfl]
      cases hshown : (Entry.published m op ds).shown (b.slotOf c) with
      | none => rfl
      | some sh => simp [hshown] at hnil

/-- The finish of a problem tells nobody. -/
theorem finish_of_problem (hm : m ∈ Mapper.builtIn)
    (hroute : registry.lookup op.details.kind = some m) (hs : b.Sound) (ho : b.closed = false)
    (hl : b.live.get? f.id = some (.published m op ds)) (hkind : op.details.kind = .reportProblem) :
    (∀ d, m.finishedEvent d op f = .ok none) ∧ (b.finish hub f).offers = [] := by
  obtain ⟨⟨data, hd⟩, -, -⟩ := entry_sound hs hl
  obtain ⟨-, -, -, hmessages⟩ := finish_of_live hub hs ho hl
  have hhandles : m.handles = op.details.kind := handles_of_lookup hm hroute
  have hsilent : ∀ d, m.finishedEvent d op f = .ok none := by
    intro d
    rw [finishedEvent_of_dataOf hd,
      (Mapper.finished_eq_none_iff_handles hm d data op f).mpr (hhandles.trans hkind)]
  refine ⟨hsilent, List.eq_nil_iff_forall_not_mem.mpr fun o ho => ?_⟩
  have hmem := mem_messagesTo.mpr ho
  rw [hmessages, Entry.shown] at hmem
  cases hdesc : descriptorFor (b.slotOf o.connection) ds with
  | none => simp [hdesc] at hmem
  | some d => simp [hdesc, Showing.finished, hsilent] at hmem

end Finish

/-- What is recorded as published was routed to its mapper. -/
theorem Records.published_eq (hr : Records registry policy hub b op t e)
    (h : FirstStart registry policy hub b op t) (hpub : e.isPublished = true) :
    ∃ m ds, registry.lookup op.details.kind = some m ∧ e = .published m op ds := by
  cases h with
  | unasked =>
    obtain rfl := hr.entry_eq rfl
    exact absurd hpub (by simp [Entry.isPublished])
  | refused => exact absurd hr.result (by simp)
  | declined =>
    obtain rfl := hr.entry_eq rfl
    exact absurd hpub (by simp [Entry.isPublished])
  | published ha =>
    obtain rfl := hr.entry_eq rfl
    exact ⟨_, _, ha.routed, rfl⟩

end Build

/-! ### Whole sessions -/

/-- What is live in an open build is known by the call that started it: the mapper
of what was published, and what was offered to each connection. -/
theorem History.published_follows {listing : Listing} {config : Config} {registry : Registry}
    {s₀ s : Session} {h : List Call} {i : Nat} {b : Build} (h₀ : s₀.Fresh config registry)
    (hf : ∀ m ∈ registry.mappers, m.Faithful) (hist : History listing s₀ h s)
    (hb : s.build? i = some b) (ho : b.closed = false) :
    b.live.Follows (fun k op e =>
      (∀ c, k.offered c = ((e.shown (b.slotOf c)).map (·.started b.id)).toList) ∧
      (e.isPublished = true →
        ∃ m ds, registry.lookup op.details.kind = some m ∧ e = .published m op ds)) i h := by
  refine hist.follows h₀ (Q := fun id audience k op e =>
    (∀ c, k.offered c = ((e.shown (audience.idxOf c)).map (·.started id)).toList) ∧
    (e.isPublished = true →
      ∃ m ds, registry.lookup op.details.kind = some m ∧ e = .published m op ds)) ?_ hb ho
  intro k _ op b t hk
  rcases Build.start_outcome hf hk.sound hk.opened hk.fresh hk.start_eq with ⟨e, href⟩ | ⟨e, hrec⟩
  · exact Or.inl ⟨e, href.unchanged, href.result⟩
  · have hfirst := Build.firstStart_of_start hk.opened hk.fresh hk.start_eq
    refine Or.inr ⟨e, hrec.build, hrec.result, fun c => ?_, hrec.published_eq hfirst⟩
    rw [Call.offered, hk.offers_eq]
    exact hrec.offers c

/-- What the signals of a build do to the connections. -/
structure SignalsFanOut (listing : Listing) (s : Session) (i : Nat) (h : List Call) (b : Build) :
    Prop where
  /-- A start that publishes its operation tells those of the audience who want it;
  if its operation stands as suppressed then, it tells nobody. -/
  started : ∀ op a, s.step listing (.start i op) = .ok a → ∃ b', a.session.build? i = some b' ∧
    (a.reply = .signalled (.ok ()) → b'.state op.id = .started →
      ∃ m, s.registry.lookup op.details.kind = some m ∧
        s.hub.FansOut a.session.hub
          (fun c x => x.attached = true ∧ c ∈ b.audience ∧ m.isEnabled x.subscriptions = true)
          (b.StartNews s.policy m op)) ∧
    (b'.state op.id = .suppressed → a.session.hub = s.hub)
  /-- A finish tells those who are still attached of those whom the start has told,
  unless the operation is a problem. -/
  finished : ∀ f, b.state f.id = .started → ∃ a k op m,
    s.step listing (.finish i f) = .ok a ∧ a.reply = .signalled (.ok ()) ∧
    Opened i h f.id k op ∧ s.registry.lookup op.details.kind = some m ∧
    (op.details.kind ≠ .reportProblem → (∀ d, ∃ e, m.finishedEvent d op f = .ok (some e)) ∧
      s.hub.FansOut a.session.hub (fun c x => x.attached = true ∧ k.offered c ≠ [])
        (b.FinishNews op f fun c => k.offered c)) ∧
    (op.details.kind = .reportProblem → (∀ d, m.finishedEvent d op f = .ok none) ∧
      a.session.hub = s.hub)

/-- In every session with the built-in mappers, a signal hands one message to each
connection that it is for, and leaves all others as they are. -/
theorem signals_fan_out_once {listing : Listing} {config : Config} {registry : Registry}
    {s₀ s : Session} {h : List Call} {i : Nat} {b : Build} (h₀ : Session.new config registry = .ok s₀)
    (hm : ∀ m ∈ registry.mappers, m ∈ Mapper.builtIn) (hist : History listing s₀ h s)
    (hb : s.build? i = some b) : SignalsFanOut listing s i h b := by
  have hfresh := Session.fresh_of_new h₀
  have hu : ∀ m ∈ registry.mappers, m.Uniform := fun m h => Mapper.uniform_of_mem_builtIn (hm m h)
  have hsound := hist.sound hfresh.sound i b hb
  have hreg := (hist.settings hfresh).1
  have hended : b.closed = true → ∀ x, b.state x = .none := by
    intro hc x
    rw [Build.state_eq_none_iff, hist.live_of_closed hfresh hb hc]
    rfl
  constructor
  case started =>
    intro op a hstep
    obtain ⟨t, ht, hsession, hreply, -, hb'⟩ := (Session.step_eq_ok.mp hstep).turn_of_start hb
    have hhub : a.session.hub = s.hub.deliver t.offers := by rw [hsession]; rfl
    refine ⟨t.build, hb', fun hok hst => ?_, fun hst => ?_⟩
    · rw [hreply, Reply.signalled.injEq] at hok
      rw [hhub]
      cases hc : b.closed with
      | true =>
        rw [Build.start_of_closed _ _ _ _ hc, Option.some.injEq] at ht
        rw [← ht, Build.quiet, hended hc] at hst
        exact absurd hst (by simp)
      | false =>
        cases hl : b.live.get? op.id with
        | some e =>
          rw [Build.start_of_live _ _ _ hc hl, Option.some.injEq] at ht
          rw [← ht, Build.quiet] at hok
          exact absurd hok (by simp)
        | none => exact Build.start_fansOut (hreg ▸ hu) hsound hc hl ht hok hst
    · rcases Build.offers_of_start ht with hnil | hstarted
      · rw [hhub, hnil, Hub.deliver_nil]
      · exact absurd (hst.symm.trans hstarted) (by simp)
  case finished =>
    intro f hst
    have ho : b.closed = false := by
      cases hc : b.closed with
      | false => rfl
      | true => exact absurd ((hended hc f.id).symm.trans hst) (by simp)
    obtain ⟨e, he, hpub⟩ := Build.state_eq_started_iff.mp hst
    have hfaithful : ∀ m ∈ registry.mappers, m.Faithful := fun m hmem => (hu m hmem).faithful
    obtain ⟨k, op, hopened, hoffered, hrouted⟩ :=
      (hist.published_follows hfresh hfaithful hb ho).opened he
    obtain ⟨m, ds, hroute, rfl⟩ := hrouted hpub
    have hbuiltIn : m ∈ Mapper.builtIn := hm m (Build.lookup_mem hroute)
    have hstep : s.step listing (.finish i f) = .ok _ := Session.step_eq_ok.mpr (.finish hb)
    have hresult : (b.finish s.hub f).result = .ok () := Build.finish_result hsound
    refine ⟨_, k, op, m, hstep, congrArg Reply.signalled hresult, hopened, hreg ▸ hroute, ?_, ?_⟩
    · intro hkind
      exact Build.finish_fansOut hbuiltIn hroute hsound ho he hoffered hkind
    · intro hkind
      obtain ⟨hsilent, hnil⟩ := Build.finish_of_problem hbuiltIn hroute hsound ho he hkind
      refine ⟨hsilent, ?_⟩
      show s.hub.deliver (b.finish s.hub f).offers = s.hub
      rw [hnil, Hub.deliver_nil]

/-- Of two connections that are told of an item one has not read that, and has no
room for the news of the end. -/
theorem signals_fan_out_once_overflow :
    ∃ (s₀ s : Session) (h : List Call) (b : Build),
      Session.new ⟨⟨1, .nearestEnabledAncestor⟩, default⟩ .builtIn = .ok s₀ ∧
      (∀ m ∈ Registry.builtIn.mappers, m ∈ Mapper.builtIn) ∧ History .inOrder s₀ h s ∧
      s.build? 0 = some b ∧ b.state ⟨1⟩ = .started ∧
      (s.step .inOrder (.finish 0 ⟨⟨1⟩, default, .success⟩)).toOption.map
        (fun a => a.session.hub.connections.map fun x => (x.queue.length, x.closeReason)) =
          some [(1, some .overflowed), (1, none)] ∧
      SignalsFanOut .inOrder s 0 h b := by
  let s₀ := sampleSession .nearestEnabledAncestor 1
  let steps : List Step := [.connect ⟨"a"⟩ (.ofList [.workItem]), .connect ⟨"b"⟩ .all,
    .begin ⟨"x"⟩, .start 0 (sampleItem 1 none), .drain 1]
  have h₀ : Session.new ⟨⟨1, .nearestEnabledAncestor⟩, default⟩ .builtIn = .ok s₀ := rfl
  have hm : ∀ m ∈ Registry.builtIn.mappers, m ∈ Mapper.builtIn := fun _ h => h
  have hist := Session.history_calls .inOrder steps s₀
  have hstate : ((s₀.after .inOrder steps).build? 0).map (·.state ⟨1⟩) = some .started := by decide
  obtain ⟨b, hb, hst⟩ := Option.map_eq_some_iff.mp hstate
  exact ⟨s₀, _, _, b, h₀, hm, hist, hb, hst, by decide, signals_fan_out_once h₀ hm hist hb⟩

end BuildFeed
