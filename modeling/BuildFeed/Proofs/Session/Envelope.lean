/-
# The stream of a build and its end

A build ends once. Before its first end the calls on it offer events, the
first end offers the end of the stream to whoever is attached and was so when
the build began, and after it the build is closed or gone for good
(`Session.Ended`), so that calls on it offer nothing. Of each build a
connection is therefore sent events, and after them one end of the stream at
most (`Enveloped`).

The first end answers with the number of operations that were started. No id
is live twice (`History.keyed`), so this is a number of ids.

Key definitions: `Enveloped`, `Step.endReason?`, `Session.Ended`, `FirstEnd`,
`EndsOnce`.
Key theorems: `Session.Effect.keeps_ended`, `FirstEnd.offered_eq`,
`FirstEnd.endsOnce`, `builds_enveloped`.
-/
import BuildFeed.Proofs.Session.Builds
import BuildFeed.Proofs.Session.Nesting

namespace BuildFeed

/-! ### Envelopes -/

/-- Messages of a build are events, and the end of the stream may come last. -/
inductive Enveloped (build : BuildId) : List Message → Prop
  | opened (es : List Event) : Enveloped build (es.map (Message.event build))
  | ended (es : List Event) (reason : EndReason) :
    Enveloped build (es.map (Message.event build) ++ [.endOfStream build reason])

/-- Messages that are all events of a build are made of events. -/
theorem exists_events {build : BuildId} : ∀ {ms : List Message},
    (∀ m ∈ ms, ∃ e, m = .event build e) → ∃ es : List Event, ms = es.map (Message.event build)
  | [], _ => ⟨[], rfl⟩
  | m :: ms, h => by
    obtain ⟨e, rfl⟩ := h m List.mem_cons_self
    obtain ⟨es, rfl⟩ := exists_events fun m' hm' => h m' (List.mem_cons_of_mem _ hm')
    exact ⟨e :: es, rfl⟩

/-- The beginning of an envelope is an envelope. -/
theorem Enveloped.of_initial {build : BuildId} {ms ms' : List Message} (h : Enveloped build ms')
    (hms : ms <+: ms') : Enveloped build ms := by
  have hevents : ∀ {es : List Event}, ms <+: es.map (Message.event build) → Enveloped build ms := by
    intro es hes
    obtain ⟨es', rfl⟩ : ∃ es' : List Event, ms = es'.map (Message.event build) := by
      apply exists_events
      intro m hm
      obtain ⟨e, -, rfl⟩ := List.mem_map.mp (hes.subset hm)
      exact ⟨e, rfl⟩
    exact .opened es'
  cases h with
  | opened es => exact hevents hms
  | ended es reason =>
    rcases List.prefix_concat_iff.mp hms with rfl | hms
    · exact .ended es reason
    · exact hevents hms

/-! ### Ending a build -/

/-- The reason that a step gives for ending a build. -/
def Step.endReason? (i : Nat) : Step → Option EndReason
  | .close j reason => if j = i then some reason else none
  | .dropBuild j => if j = i then some .cancelled else none
  | _ => none

theorem Step.endReason?_eq_some {i : Nat} {st : Step} {reason : EndReason} :
    st.endReason? i = some reason ↔
      st = .close i reason ∨ (st = .dropBuild i ∧ reason = .cancelled) := by
  cases st with
  | dropBuild j =>
    simp only [endReason?, Option.ite_none_right_eq_some, Option.some.injEq, reduceCtorEq, false_or,
      dropBuild.injEq]
    exact and_congr_right fun _ => eq_comm
  | _ => simp [endReason?]

theorem Step.ends_eq_false {i : Nat} {st : Step} : st.ends i = false ↔ st.endReason? i = none := by
  cases st <;> simp [ends, endReason?]

namespace Session

variable {listing : Listing} {s : Session} {st : Step} {a : Advance} {i c : Nat} {m : Message}

/-- A call on a build that does not end it offers events. -/
theorem Effect.event_of_not_ends (h : Effect listing s st a) (hs : s.Sound)
    (hi : st.build? = some i) (hends : st.ends i = false) (hm : m ∈ messagesTo c a.offers) :
    ∃ e, m = .event m.build e := by
  cases h with
  | start hb ht =>
    obtain ⟨-, -, e, rfl⟩ := Build.made_by_start (hs _ _ hb) ht hm
    exact ⟨e, rfl⟩
  | finish hb =>
    obtain ⟨-, -, e, rfl⟩ := Build.made_by_finish (hs _ _ hb) hm
    exact ⟨e, rfl⟩
  | close =>
    rw [Step.build?, Option.some.injEq] at hi
    exact absurd hends (by simp [Step.ends, hi])
  | dropBuild =>
    rw [Step.build?, Option.some.injEq] at hi
    exact absurd hends (by simp [Step.ends, hi])
  | _ => exact absurd hm (by simp)

/-- A build has ended: it is closed or gone. -/
def Ended (s : Session) (i : Nat) : Prop :=
  i < s.builds.length ∧ ∀ b, s.build? i = some b → b.closed = true

/-- A build that has ended stays so. -/
theorem Effect.keeps_ended (h : Effect listing s st a) (hs : s.Sound) (he : s.Ended i) :
    a.session.Ended i := by
  obtain ⟨hlt, hclosed⟩ := he
  refine ⟨hlt.trans_le h.length_builds_le, fun b' hb' => ?_⟩
  rcases h.begun_or_kept hs hb' with ⟨-, -, hi, -⟩ | ⟨b, hb, hkept⟩
  · omega
  · exact hkept.closed (hclosed b hb)

/-- A call on a build that has ended offers nothing, and an end counts nothing. -/
theorem Effect.quiet_of_ended (h : Effect listing s st a) (hi : st.build? = some i)
    (he : s.Ended i) : a.offers = [] ∧ ∀ reason, st = .close i reason → a.reply = .closed 0 := by
  have hclosed : ∀ {j b}, s.build? j = some b → some j = some i → b.closed = true := by
    intro j b hb hj
    obtain rfl := Option.some.inj hj
    exact he.2 b hb
  cases h with
  | start hb ht =>
    rw [Build.start_of_closed _ _ _ _ (hclosed hb hi), Option.some.injEq] at ht
    rw [← ht]
    exact ⟨rfl, fun _ h => absurd h (by simp)⟩
  | finish hb =>
    rw [Build.finish_of_closed (hclosed hb hi)]
    exact ⟨rfl, fun _ h => absurd h (by simp)⟩
  | close hb =>
    have hc := hclosed hb hi
    rw [Build.close_of_closed hc, Build.orphans, if_pos hc]
    exact ⟨rfl, fun _ _ => rfl⟩
  | dropBuild hb =>
    rw [Build.close_of_closed (hclosed hb hi)]
    exact ⟨rfl, fun _ h => absurd h (by simp)⟩
  | _ => exact absurd hi (by simp [Step.build?])

/-- What a step that ends a build does. -/
theorem Effect.of_end (h : Effect listing s st a) {reason : EndReason}
    (hst : st.endReason? i = some reason) :
    ∃ b, s.build? i = some b ∧ a.offers = (b.close s.hub reason).offers ∧ a.session.Ended i ∧
      ∀ r, st = .close i r → a.reply = .closed b.orphans := by
  have hlt : ∀ {b}, s.build? i = some b → i < a.session.builds.length := by
    intro b hb
    have hi : i < s.builds.length := (List.getElem?_eq_some_iff.mp (build?_eq_some.mp hb)).1
    exact hi.trans_le h.length_builds_le
  rcases Step.endReason?_eq_some.mp hst with rfl | ⟨rfl, rfl⟩
  · have hreply := h
    cases effect_on_build h i with
    | other hne => exact absurd rfl hne
    | @close _ b _ hi hb ho =>
      refine ⟨b, hi, ho, ⟨hlt hi, fun b' hb' => ?_⟩, fun _ _ => ?_⟩
      · rw [hb, Option.some.injEq] at hb'
        rw [← hb']
        exact Build.closed_close _ _ _
      · cases hreply with
        | close hi' =>
          obtain rfl := Option.some.inj (hi.symm.trans hi')
          rfl
  · cases effect_on_build h i with
    | other hne => exact absurd rfl hne
    | @drop b _ hi hb ho =>
      refine ⟨b, hi, ho, ⟨hlt hi, fun b' hb' => ?_⟩, fun _ h => absurd h (by simp)⟩
      rw [hb] at hb'
      exact absurd hb' (by simp)

end Session

namespace History

variable {listing : Listing} {config : Config} {registry : Registry} {s₀ s : Session}
  {pre post h : List Call} {k : Call} {i c : Nat} {build : BuildId}

/-- After a build has ended, the calls on it offer nothing. -/
theorem quiet_of_ended (hs : s₀.Sound) (he : s₀.Ended i) (hist : History listing s₀ h s) :
    s.Ended i ∧ ∀ k ∈ h, k.step.build? = some i →
      k.outcome.offers = [] ∧ ∀ reason, k.step = .close i reason → k.outcome.reply = .closed 0 := by
  induction hist with
  | nil => exact ⟨he, fun k hk => absurd hk (by simp)⟩
  | @snoc h s st a hist hstep ih =>
    obtain ⟨hended, hquiet⟩ := ih
    have heff := Session.step_eq_ok.mp hstep
    refine ⟨heff.keeps_ended (hist.sound hs) hended, fun k hk hi => ?_⟩
    rcases List.mem_append.mp hk with hk | hk
    · exact hquiet k hk hi
    · obtain rfl := List.mem_singleton.mp hk
      exact heff.quiet_of_ended hi hended

/-- The messages of a build are events, as long as no call ends it. -/
theorem events_of_no_end (h₀ : s₀.Fresh config registry) (hist : History listing s₀ h s)
    (hids : (begunIn h).Nodup) (hi : (begunIn h)[i]? = some build)
    (hends : ∀ k ∈ h, k.step.ends i = false) :
    ∃ es : List Event, messagesOf build (offeredTo c h) = es.map (Message.event build) := by
  apply exists_events
  intro m hm
  obtain ⟨hoff, rfl⟩ := mem_messagesOf.mp hm
  obtain ⟨pre, k, post, rfl, hmk⟩ := exists_call_of_offered hoff
  obtain ⟨hpre, hstep, -⟩ := hist.split
  have hbuild : k.step.build? = some i := hist.build_of_message h₀ hids hi hmk
  have hopen : k.step.ends i = false := hends k (by simp)
  exact (Session.step_eq_ok.mp hstep).event_of_not_ends (hpre.sound h₀.sound) hbuild hopen hmk

/-- A connection is in the audience of a build if it was attached when the build
began. -/
theorem mem_audience_iff (h₀ : s₀.Fresh config registry)
    (hist : History listing s₀ (pre ++ k :: post) s) (hids : (begunIn (pre ++ k :: post)).Nodup)
    {b : Build} (hb : k.before.build? i = some b) {kb : Call} (hkb : kb ∈ pre ++ k :: post)
    (hst : kb.step = .begin b.id) : c ∈ b.audience ↔ kb.before.hub.isAttached c = true := by
  obtain ⟨-, k', hk', hbegins⟩ := hist.split.1.begun h₀ hb
  have hkk : kb = k' := by
    apply eq_of_nodup_filterMap hids hkb (List.mem_append_left _ hk')
    · rw [hst]
      rfl
    · rw [hbegins.step_eq]
      rfl
  rw [hkk]
  exact hbegins.audience_iff c

/-- A connection that was not attached when a build began is offered nothing of it. -/
theorem nothing_of_begin (h₀ : s₀.Fresh config registry) (hist : History listing s₀ h s)
    (hids : (begunIn h).Nodup) {kb : Call} (hkb : kb ∈ h) (hst : kb.step = .begin build)
    (hc : kb.before.hub.isAttached c = false) : messagesOf build (offeredTo c h) = [] := by
  rw [messagesOf_eq_nil]
  intro m hoff hbuild
  obtain ⟨pre, k, post, rfl, hmk⟩ := exists_call_of_offered hoff
  obtain ⟨i, b, -, hb, -, haudience, hid, -⟩ := hist.made_by h₀ hmk
  have hst' : kb.step = .begin b.id := by rw [hst, ← hbuild, hid]
  have hattached := (hist.mem_audience_iff h₀ hids hb hkb hst').mp haudience
  rw [hc] at hattached
  exact absurd hattached (by simp)

end History

/-! ### The first end -/

/-- A call of a history is the first that ends a build, for a reason. -/
structure FirstEnd (i : Nat) (h pre : List Call) (k : Call) (post : List Call) (reason : EndReason) :
    Prop where
  calls : h = pre ++ k :: post
  before : ∀ k' ∈ pre, k'.step.ends i = false
  reason_eq : k.step.endReason? i = some reason

/-- A build is ended first by one of the calls of a history, or by none. -/
theorem exists_firstEnd (i : Nat) (h : List Call) : (∀ k ∈ h, k.step.ends i = false) ∨
    ∃ pre k post reason, FirstEnd i h pre k post reason := by
  induction h using List.reverseRecOn with
  | nil => exact Or.inl fun k hk => absurd hk (by simp)
  | append_singleton h k ih =>
    rcases ih with hnone | ⟨pre, k', post, reason, rfl, hbefore, hreason⟩
    · cases hends : k.step.endReason? i with
      | none =>
        left
        intro k' hk'
        rcases List.mem_append.mp hk' with hk' | hk'
        · exact hnone k' hk'
        · rw [List.mem_singleton.mp hk']
          exact Step.ends_eq_false.mpr hends
      | some reason => exact Or.inr ⟨h, k, [], reason, rfl, hnone, hends⟩
    · exact Or.inr ⟨pre, k', post ++ [k], reason, by simp, hbefore, hreason⟩

namespace FirstEnd

variable {listing : Listing} {config : Config} {registry : Registry} {s₀ s : Session}
  {pre post h : List Call} {k : Call} {i c : Nat} {build : BuildId} {reason : EndReason}

/-- The messages of a build that is ended: events before, then the end for those
that are attached and were so when the build began, and nothing after. -/
theorem offered_eq (hend : FirstEnd i h pre k post reason) (h₀ : s₀.Fresh config registry)
    (hist : History listing s₀ h s) (hids : (begunIn h).Nodup)
    (hi : (begunIn h)[i]? = some build) (c : Nat) :
    ∃ b, k.before.build? i = some b ∧ b.id = build ∧ b.closed = false ∧
      (∃ es : List Event, messagesOf build (offeredTo c pre) = es.map (Message.event build)) ∧
      k.offered c = (if c ∈ b.audience ∧ k.before.hub.isAttached c = true then
        [.endOfStream build reason] else []) ∧
      messagesOf build (offeredTo c post) = [] := by
  obtain ⟨rfl, hbefore, hreason⟩ := hend
  obtain ⟨hpre, hstep, hpost⟩ := hist.split
  have hsound := hpre.sound h₀.sound
  have heff := Session.step_eq_ok.mp hstep
  obtain ⟨b, hb, ho, hended, -⟩ := heff.of_end hreason
  have hplace : (begunIn pre)[i]? = some b.id := (hpre.begun h₀ hb).1
  have hid : b.id = build := by
    have hlt : i < (begunIn pre).length := (List.getElem?_eq_some_iff.mp hplace).1
    rw [begunIn_append, List.getElem?_append_left hlt, hplace] at hi
    exact Option.some.inj hi
  subst hid
  have hopen : b.closed = false := hpre.open_of_no_end h₀ hbefore hb
  have hids₀ : (begunIn pre).Nodup := begunIn_nodup_of_append hids
  refine ⟨b, hb, rfl, hopen, hpre.events_of_no_end h₀ hids₀ hplace hbefore, ?_, ?_⟩
  · rw [Call.offered, ho, Build.messagesTo_close (hsound i b hb), hopen]
    simp
  · rw [messagesOf_eq_nil]
    intro m hm hbuild
    obtain ⟨mid, k', rest, rfl, hmk⟩ := exists_call_of_offered hm
    have hquiet := (hpost.quiet_of_ended (heff.sound hsound) hended).2 k' (by simp)
    -- the call on the ended build in the whole history
    rw [← List.cons_append, ← List.append_assoc] at hist hids hi
    have hcall : k'.step.build? = some i := hist.build_of_message h₀ hids (hbuild ▸ hi) hmk
    rw [Call.offered, (hquiet hcall).1] at hmk
    exact absurd hmk (by simp)

/-- Who was attached when a build began, and is attached and has room when it
ends, accepts the end, and nothing after it. -/
theorem accepted_eq (hend : FirstEnd i h pre k post reason) (h₀ : s₀.Fresh config registry)
    (hist : History listing s₀ h s) (hids : (begunIn h).Nodup)
    (hi : (begunIn h)[i]? = some build) {kb : Call} (hkb : kb ∈ h) (hst : kb.step = .begin build)
    (hbegin : kb.before.hub.isAttached c = true) {x : Connection}
    (hx : k.before.hub.connections[c]? = some x) (hroom : x.hasRoom k.before.hub.capacity = true) :
    ∃ es : List Event, messagesOf build (acceptedBy c h) =
      es.map (Message.event build) ++ [.endOfStream build reason] := by
  obtain ⟨b, hb, rfl, -, ⟨es, hes⟩, hoffered, hnone⟩ := hend.offered_eq h₀ hist hids hi c
  obtain ⟨rfl, -, -⟩ := hend
  obtain ⟨hpre, hstep, hpost⟩ := hist.split
  have hattached : x.attached = true := (Connection.hasRoom_iff.mp hroom).1
  have hpresent : k.before.hub.isAttached c = true := (Session.isAttached_eq hx).trans hattached
  have haudience : c ∈ b.audience := (hist.mem_audience_iff h₀ hids hb hkb hst).mpr hbegin
  rw [if_pos ⟨haudience, hpresent⟩] at hoffered
  have hbefore : acceptedBy c pre = offeredTo c pre := by
    refine (hpre.acceptedBy_first h₀.sound c).2.resolve_right ?_
    rintro ⟨y, hy, hdet⟩
    obtain rfl := Option.some.inj (hx.symm.trans hy)
    rw [hattached] at hdet
    exact absurd hdet (by simp)
  have hat : k.accepted c = [.endOfStream b.id reason] := by
    simp only [Call.accepted, hx, hoffered, Connection.accepted, hroom, if_true, List.append_nil]
  have hafter : messagesOf b.id (acceptedBy c post) = [] := by
    have hsound := (Session.step_eq_ok.mp hstep).sound (hpre.sound h₀.sound)
    have hfirst := messagesOf_initial b.id (hpost.acceptedBy_first hsound c).1
    rw [hnone] at hfirst
    exact List.prefix_nil.mp hfirst
  refine ⟨es, ?_⟩
  rw [← List.singleton_append, acceptedBy_append, acceptedBy_append, acceptedBy_singleton,
    messagesOf_append, messagesOf_append, hbefore, hes, hat, hafter, List.append_nil]
  congr 1
  exact messagesOf_eq_self fun m hm => by rw [List.mem_singleton.mp hm]; rfl

end FirstEnd

/-- The messages of a build are an envelope. -/
theorem History.enveloped {listing : Listing} {config : Config} {registry : Registry}
    {s₀ s : Session} {h : List Call} (h₀ : s₀.Fresh config registry) (hist : History listing s₀ h s)
    (hids : (begunIn h).Nodup) (build : BuildId) (c : Nat) :
    Enveloped build (messagesOf build (offeredTo c h)) := by
  by_cases hbuild : build ∈ begunIn h
  · obtain ⟨i, hi⟩ := List.mem_iff_getElem?.mp hbuild
    rcases exists_firstEnd i h with hnone | ⟨pre, k, post, reason, hend⟩
    · obtain ⟨es, hes⟩ := hist.events_of_no_end (c := c) h₀ hids hi hnone
      rw [hes]
      exact .opened es
    · obtain ⟨b, -, hid, -, ⟨es, hes⟩, hoffered, hnone⟩ := hend.offered_eq h₀ hist hids hi c
      rw [hend.calls, ← List.singleton_append, offeredTo_append, offeredTo_append,
        offeredTo_singleton, messagesOf_append, messagesOf_append, hes, hnone, List.append_nil,
        hoffered]
      split
      · rw [messagesOf_eq_self fun m hm => by rw [List.mem_singleton.mp hm]; rfl]
        exact .ended es reason
      · rw [messagesOf_eq_self fun m hm => absurd hm (by simp), List.append_nil]
        exact .opened es
  · have hnone : messagesOf build (offeredTo c h) = [] := by
      rw [messagesOf_eq_nil]
      intro m hm hid
      obtain ⟨pre, k, post, rfl, hmk⟩ := exists_call_of_offered hm
      obtain ⟨i, b, -, -, -, -, -, hplace⟩ := hist.made_by h₀ hmk
      exact hbuild (hid ▸ List.mem_of_getElem? hplace)
    rw [hnone]
    exact .opened []

/-- What the first end of a build does. -/
structure EndsOnce (i : Nat) (build : BuildId) (h : List Call) (k : Call) (post : List Call)
    (reason : EndReason) : Prop where
  /-- Who was attached when the build began and has room when it ends gets the
  end, once and as the last message of the build. -/
  told : ∀ c, ∀ kb ∈ h, kb.step = .begin build → kb.before.hub.isAttached c = true →
    ∀ x, k.before.hub.connections[c]? = some x → x.hasRoom k.before.hub.capacity = true →
      ∃ es : List Event, messagesOf build (acceptedBy c h) =
        es.map (Message.event build) ++ [.endOfStream build reason]
  /-- Later calls on the build offer nothing to anybody. -/
  quiet : ∀ k' ∈ post, k'.step.build? = some i → k'.outcome.offers = []
  /-- The caller is told how many operations stood as started, -/
  counted : ∃ (b : Build) (xs : List OperationId), k.before.build? i = some b ∧ xs.Nodup ∧
    (∀ x, x ∈ xs ↔ b.state x = .started) ∧
      ∀ r, k.step = .close i r → k.outcome.reply = .closed xs.length
  /-- and at later ends, that there are none. -/
  uncounted : ∀ k' ∈ post, ∀ r, k'.step = .close i r → k'.outcome.reply = .closed 0

theorem FirstEnd.endsOnce {listing : Listing} {config : Config} {registry : Registry}
    {s₀ s : Session} {h pre post : List Call} {k : Call} {i : Nat} {build : BuildId}
    {reason : EndReason} (hend : FirstEnd i h pre k post reason) (h₀ : s₀.Fresh config registry)
    (hist : History listing s₀ h s) (hids : (begunIn h).Nodup) (hi : (begunIn h)[i]? = some build) :
    EndsOnce i build h k post reason := by
  obtain ⟨b, hb, -, hopen, -⟩ := hend.offered_eq h₀ hist hids hi 0
  obtain ⟨hpre, hstep, hpost⟩ := (hend.calls ▸ hist).split
  have hsound := hpre.sound h₀.sound
  have heff := Session.step_eq_ok.mp hstep
  obtain ⟨b', hb', -, hended, hreply⟩ := heff.of_end hend.reason_eq
  obtain rfl : b = b' := Option.some.inj (hb.symm.trans hb')
  have hlater := (hpost.quiet_of_ended (heff.sound hsound) hended).2
  obtain ⟨xs, hnodup, hstarted, hlen⟩ := b.exists_started (hpre.keyed h₀ hb)
  constructor
  case told =>
    intro c kb hkb hst hbegin x hx hroom
    exact hend.accepted_eq h₀ hist hids hi hkb hst hbegin hx hroom
  case quiet =>
    intro k' hk' hst
    exact (hlater k' hk' hst).1
  case counted =>
    refine ⟨b, xs, hb, hnodup, hstarted, fun r hst => ?_⟩
    rw [hreply r hst, Build.orphans, hopen, hlen]
    rfl
  case uncounted =>
    intro k' hk' r hst
    exact (hlater k' hk' (by rw [hst]; rfl)).2 r hst

/-! ### Whole sessions -/

/-- In every session with builds of different ids, what a connection is offered,
accepts and reads of a build are events and after them one end at most; it is
nothing if the connection was not attached when the build began; and a build
ends once. -/
theorem builds_enveloped {listing : Listing} {config : Config} {registry : Registry}
    {s₀ s : Session} {h : List Call} (h₀ : Session.new config registry = .ok s₀)
    (hist : History listing s₀ h s) (hids : (begunIn h).Nodup) :
    (∀ build c, Enveloped build (messagesOf build (offeredTo c h)) ∧
      Enveloped build (messagesOf build (acceptedBy c h)) ∧
      Enveloped build (messagesOf build (readBy c h))) ∧
    (∀ build c, ∀ kb ∈ h, kb.step = .begin build → kb.before.hub.isAttached c = false →
      messagesOf build (offeredTo c h) = [] ∧ messagesOf build (acceptedBy c h) = [] ∧
      messagesOf build (readBy c h) = []) ∧
    ∀ i build pre k post reason, (begunIn h)[i]? = some build →
      FirstEnd i h pre k post reason → EndsOnce i build h k post reason := by
  have hfresh := Session.fresh_of_new h₀
  have haccepted : ∀ build c, messagesOf build (acceptedBy c h) <+: messagesOf build (offeredTo c h) :=
    fun build c => messagesOf_initial build (hist.acceptedBy_first hfresh.sound c).1
  have hread : ∀ build c, messagesOf build (readBy c h) <+: messagesOf build (offeredTo c h) :=
    fun build c => messagesOf_initial build (hist.readBy_first hfresh c)
  refine ⟨fun build c => ?_, fun build c kb hkb hst hc => ?_, ?_⟩
  · have hoffered := hist.enveloped hfresh hids build c
    exact ⟨hoffered, hoffered.of_initial (haccepted build c), hoffered.of_initial (hread build c)⟩
  · have hoffered := hist.nothing_of_begin hfresh hids hkb hst hc
    have hnone : ∀ {ms}, ms <+: messagesOf build (offeredTo c h) → ms = [] := by
      intro ms hms
      rw [hoffered] at hms
      exact List.prefix_nil.mp hms
    exact ⟨hoffered, hnone (haccepted build c), hnone (hread build c)⟩
  · exact fun i build pre k post reason hi hend => hend.endsOnce hfresh hist hids hi

/-- A client joins when the first of two builds has begun; that build is completed
while an operation is live, and then cancelled and told of a start. The second
is dropped. -/
theorem builds_enveloped_late :
    ∃ (s₀ s : Session) (h : List Call) (pre post : List Call) (k : Call),
      Session.new default .builtIn = .ok s₀ ∧ History .inOrder s₀ h s ∧ (begunIn h).Nodup ∧
      FirstEnd 0 h pre k post .completed ∧ EndsOnce 0 ⟨"x"⟩ h k post .completed ∧
      (messagesOf ⟨"x"⟩ (readBy 0 h)).length = 2 ∧ Enveloped ⟨"x"⟩ (messagesOf ⟨"x"⟩ (readBy 0 h)) ∧
      (messagesOf ⟨"y"⟩ (acceptedBy 1 h)).length = 2 ∧
      Enveloped ⟨"y"⟩ (messagesOf ⟨"y"⟩ (acceptedBy 1 h)) := by
  let s₀ := sampleSession .nearestEnabledAncestor 1024
  let steps : List Step := [.connect ⟨"a"⟩ .all, .begin ⟨"x"⟩, .connect ⟨"b"⟩ .all, .begin ⟨"y"⟩,
    .start 0 (sampleItem 1 none), .start 1 (sampleItem 2 none), .close 0 .completed,
    .close 0 .cancelled, .start 0 (sampleItem 3 none), .dropBuild 1, .drain 0]
  let h := s₀.calls .inOrder steps
  have h₀ : Session.new default .builtIn = .ok s₀ := rfl
  have hist := Session.history_calls .inOrder steps s₀
  have hids : (begunIn h).Nodup := by decide
  have hlt : 6 < h.length := by decide
  have hreason : h[6]?.map (·.step.endReason? 0) = some (some .completed) := by decide
  rw [List.getElem?_eq_getElem hlt, Option.map_some, Option.some.injEq] at hreason
  have hend : FirstEnd 0 h (h.take 6) h[6] (h.drop 7) .completed := by
    refine ⟨?_, by decide, hreason⟩
    rw [← List.drop_eq_getElem_cons hlt, List.take_append_drop]
  obtain ⟨henvelope, -, hends⟩ := builds_enveloped h₀ hist hids
  have hplace : (begunIn h)[0]? = some ⟨"x"⟩ := by decide
  exact ⟨s₀, _, h, _, _, _, h₀, hist, hids, hend, hends 0 _ _ _ _ _ hplace hend, by decide,
    (henvelope ⟨"x"⟩ 0).2.2, by decide, (henvelope ⟨"y"⟩ 1).2.1⟩

end BuildFeed
