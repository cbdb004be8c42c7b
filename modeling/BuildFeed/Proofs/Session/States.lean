/-
# How operations stand, told by the calls

How an operation stands in a build can be told from the calls alone: it is
live if the build is open and its last start that returned without an error
was not followed by a finish, and then it stands as published exactly if its
mapper made a descriptor at that start (`StatesFollow`). A second start is the
one thing that the build itself answers with an error; a mapper may answer a
first start with the same error, and the build passes it on
(`first_start_fails_as_second`). After its end the build answers every call
and changes no more.

Key definitions: `Call.Publishes`, `StatesFollow`.
Key theorems: `History.closed_iff`, `History.follows_publishes`,
`Session.Effect.state_eq`, `states_follow_signals`.
-/
import BuildFeed.Mapper.Custom
import BuildFeed.Proofs.Session.Envelope

namespace BuildFeed

/-- A start has a mapper that serves some attached connection of the audience and
makes a descriptor. -/
def Call.Publishes (k : Call) (i : Nat) (op : StartSignal) : Prop :=
  ∃ b, k.before.build? i = some b ∧
    b.Publishes k.before.registry k.before.policy k.before.hub op

namespace Session

variable {listing : Listing} {s : Session} {st : Step} {a : Advance} {i : Nat} {b : Build}

/-! ### Calls that change nothing -/

/-- A turn that leaves its build as it is and offers nothing changes nothing but the
record of the mappers that were asked. -/
theorem takeTurn_of_unchanged (hb : s.build? i = some b) {t : Turn} (ht : t.build = b)
    (ho : t.offers = []) : s.takeTurn i t = { s with consulted := s.consulted ++ t.consulted } := by
  have hbuilds : s.builds.set i (some b) = s.builds := by
    refine List.ext_getElem? fun j => ?_
    rw [List.getElem?_set]
    by_cases hij : i = j
    · subst hij
      have hi := build?_eq_some.mp hb
      rw [if_pos rfl, if_pos (List.getElem?_eq_some_iff.mp hi).1, hi]
    · rw [if_neg hij]
  rw [takeTurn, ht, ho, hbuilds]
  rfl

theorem takeTurn_quiet (hb : s.build? i = some b) (r : Except Error Unit) :
    s.takeTurn i (b.quiet r) = s := by
  rw [takeTurn_of_unchanged hb rfl rfl]
  show { s with consulted := s.consulted ++ [] } = s
  rw [List.append_nil]

/-- A second start is answered with an error, and nothing changes. -/
theorem step_of_live (listing : Listing) (hb : s.build? i = some b) (ho : b.closed = false)
    {op : StartSignal} (hx : b.state op.id ≠ .none) :
    s.step listing (.start i op) = .ok ⟨s, .signalled (.error (b.startedTwice op.id)), []⟩ := by
  obtain ⟨e, he⟩ := Option.ne_none_iff_exists'.mp (mt Build.state_eq_none_iff.mpr hx)
  have heff : Effect listing s (.start i op) _ :=
    .start hb (Build.start_of_live s.registry s.policy s.hub ho he)
  rw [takeTurn_quiet hb] at heff
  exact step_eq_ok.mpr heff

/-- A build that has ended answers every signal, and nothing changes. -/
theorem step_of_closed (listing : Listing) (hb : s.build? i = some b) (hc : b.closed = true) :
    (∀ op, s.step listing (.start i op) = .ok ⟨s, .signalled (.ok ()), []⟩) ∧
      (∀ f, s.step listing (.finish i f) = .ok ⟨s, .signalled (.ok ()), []⟩) ∧
      ∀ reason, s.step listing (.close i reason) = .ok ⟨s, .closed 0, []⟩ := by
  have hquiet := takeTurn_quiet hb (.ok ())
  refine ⟨fun op => ?_, fun f => ?_, fun reason => ?_⟩ <;> rw [step_eq_ok]
  · have hstart := Build.start_of_closed s.registry s.policy s.hub op hc
    have heff : Effect listing s (.start i op) _ := .start hb hstart
    rwa [hquiet] at heff
  · have heff : Effect listing s (.finish i f) _ := .finish hb
    rwa [Build.finish_of_closed hc, hquiet] at heff
  · have heff : Effect listing s (.close i reason) _ := .close hb
    rwa [Build.close_of_closed hc, hquiet, Build.orphans, if_pos hc] at heff

/-! ### From one call to the next -/

/-- An operation that is live stands as it stood, until its finish or the end of the
build. -/
theorem Effect.state_eq (h : Effect listing s st a) (hs : s.Sound) (hb : s.build? i = some b)
    {b' : Build} (hb' : a.session.build? i = some b') {x : OperationId} (hx : b.state x ≠ .none) :
    b'.state x = b.state x ∨
      (b'.state x = .none ∧ ((∃ f, st = .finish i f ∧ f.id = x) ∨ st.ends i = true)) := by
  have hlt : i < s.builds.length := (List.getElem?_eq_some_iff.mp (build?_eq_some.mp hb)).1
  have hsame : ∀ {b₁ b₁' : Build}, s.build? i = some b₁ → a.session.build? i = some b₁' →
      b₁ = b ∧ b₁' = b' := fun h₁ h₁' =>
    ⟨Option.some.inj (h₁.symm.trans hb), Option.some.inj (h₁'.symm.trans hb')⟩
  cases effect_on_build h i with
  | begun hi => omega
  | other _ heq =>
    obtain rfl := Option.some.inj ((heq.trans hb).symm.trans hb')
    exact Or.inl rfl
  | start hi ht heq =>
    obtain ⟨rfl, rfl⟩ := hsame hi heq
    exact Or.inl (Build.state_start ht hx)
  | @finish f _ _ hi heq =>
    obtain ⟨rfl, rfl⟩ := hsame hi heq
    rcases Build.state_finish s.hub f (hs i _ hi) x with hkeep | ⟨hxf, hnone⟩
    · exact Or.inl hkeep
    · exact Or.inr ⟨hnone, Or.inl ⟨f, rfl, hxf.symm⟩⟩
  | @close reason b₁ _ hi heq =>
    obtain ⟨rfl, rfl⟩ := hsame hi heq
    rcases Build.state_close s.hub reason b₁ x with hkeep | hnone
    · exact Or.inl hkeep
    · exact Or.inr ⟨hnone, Or.inr (by simp [Step.ends])⟩
  | drop _ heq =>
    rw [heq] at hb'
    exact absurd hb' (by simp)

end Session

namespace History

variable {listing : Listing} {config : Config} {registry : Registry} {s₀ s : Session}
  {h : List Call} {i : Nat} {b : Build}

/-! ### Ends and what is left after them -/

/-- A build is closed exactly if a call has ended it. -/
theorem closed_iff (h₀ : s₀.Fresh config registry) (hist : History listing s₀ h s)
    (hb : s.build? i = some b) : b.closed = true ↔ ∃ k ∈ h, k.step.ends i = true := by
  constructor
  · intro hc
    by_contra hnone
    simp only [not_exists, not_and, Bool.not_eq_true] at hnone
    rw [hist.open_of_no_end h₀ hnone hb] at hc
    exact absurd hc (by simp)
  · rintro ⟨k, hk, hends⟩
    obtain ⟨pre, post, -, hpre, heff, hpost⟩ := hist.exists_split hk
    have hreason : k.step.endReason? i ≠ none := by
      rw [Ne, ← Step.ends_eq_false, hends]
      simp
    obtain ⟨reason, hreason⟩ := Option.ne_none_iff_exists'.mp hreason
    obtain ⟨-, -, -, hended, -⟩ := heff.of_end hreason
    have hlast := (hpost.quiet_of_ended (heff.sound (hpre.sound h₀.sound)) hended).1
    exact hlast.2 b hb

/-- Nothing is live in a build that has ended. -/
theorem live_of_closed (h₀ : s₀.Fresh config registry) (hist : History listing s₀ h s) :
    ∀ {b : Build}, s.build? i = some b → b.closed = true → b.live = [] := by
  apply hist.build_invariant (P := fun b => b.closed = true → b.live = []) h₀
  · intro id audience _
    rfl
  · intro k _ op b t _ _ ht hb hc
    rw [Build.closed_start ht] at hc
    rw [Build.start_of_closed _ _ _ _ hc, Option.some.injEq] at ht
    exact ht ▸ hb hc
  · intro hub f b hs hb hc
    rw [Build.closed_finish hub f hs] at hc
    rw [Build.finish_of_closed hc]
    exact hb hc
  · intro k _ reason b _ hb _
    cases hc : b.closed with
    | true =>
      rw [Build.close_of_closed hc]
      exact hb hc
    | false => rw [Build.close_of_open hc]

/-! ### Open builds -/

/-- What an open build has recorded of an operation is whether its mapper made a
descriptor when it was started. -/
theorem follows_publishes (h₀ : s₀.Fresh config registry) (hist : History listing s₀ h s)
    (hb : s.build? i = some b) (ho : b.closed = false) :
    b.live.Follows (fun k op e => e.isPublished = true ↔ k.Publishes i op) i h := by
  refine hist.follows h₀ (Q := fun _ _ k op e => e.isPublished = true ↔ k.Publishes i op) ?_ hb ho
  intro k _ op b t hk
  have hpublishes : k.Publishes i op ↔ b.Publishes registry k.before.policy k.before.hub op := by
    constructor
    · rintro ⟨b', hb', hpub⟩
      obtain rfl := Option.some.inj (hk.build_eq.symm.trans hb')
      exact hk.registry_eq ▸ hpub
    · exact fun hpub => ⟨b, hk.build_eq, hk.registry_eq.symm ▸ hpub⟩
  rcases (Build.firstStart_of_start hk.opened hk.fresh hk.start_eq).recorded with
    ⟨-, -, e, -, -, hbuild, hresult⟩ | ⟨e, hbuild, hresult, hpub⟩
  · exact Or.inl ⟨e, hbuild, hresult⟩
  · exact Or.inr ⟨e, hbuild, hresult, hpub.trans hpublishes.symm⟩

/-- How an operation stands in an open build. -/
theorem state_iff (h₀ : s₀.Fresh config registry) (hist : History listing s₀ h s)
    (hb : s.build? i = some b) (ho : b.closed = false) (x : OperationId) :
    (b.state x ≠ .none ↔ LiveAfter i h x) ∧
    (b.state x = .started ↔ ∃ k op, Opened i h x k op ∧ k.Publishes i op) ∧
    (b.state x = .suppressed ↔ ∃ k op, Opened i h x k op ∧ ¬ k.Publishes i op) := by
  have hfollows := hist.follows_publishes h₀ hb ho
  refine ⟨?_, ?_, ?_⟩
  · rw [hfollows.live_iff, ← Option.ne_none_iff_exists']
    exact not_congr Build.state_eq_none_iff
  · rw [Build.state_eq_started_iff]
    constructor
    · rintro ⟨e, he, hyes⟩
      obtain ⟨k, op, hopened, hpub⟩ := hfollows.opened he
      exact ⟨k, op, hopened, hpub.mp hyes⟩
    · rintro ⟨k, op, hopened, hyes⟩
      obtain ⟨e, he, hpub⟩ := hfollows.kept x k op hopened
      exact ⟨e, he, hpub.mpr hyes⟩
  · rw [Build.state_eq_suppressed_iff]
    constructor
    · rintro ⟨e, he, hno⟩
      obtain ⟨k, op, hopened, hpub⟩ := hfollows.opened he
      exact ⟨k, op, hopened, fun hyes => by simp [hpub.mpr hyes] at hno⟩
    · rintro ⟨k, op, hopened, hno⟩
      obtain ⟨e, he, hpub⟩ := hfollows.kept x k op hopened
      exact ⟨e, he, Bool.eq_false_iff.mpr fun hyes => hno (hpub.mp hyes)⟩

end History

/-! ### Starts that fail -/

/-- A start fails with the error of a second start if its operation is live, or if
its mapper answers so. -/
theorem Session.Effect.transition_iff {listing : Listing} {s : Session} {i : Nat} {b : Build}
    {op : StartSignal} {a : Advance} (h : s.Effect listing (.start i op) a)
    (hb : s.build? i = some b) :
    (∃ message, a.reply = .signalled (.error (.stateTransition message))) ↔
      b.closed = false ∧ (b.state op.id ≠ .none ∨ ∃ m p message,
        b.Asks s.registry s.policy s.hub op m p ∧
          (m.consult op p).1 = .error (.stateTransition message)) := by
  obtain ⟨b', t, hb', ht, hreply, -⟩ := h.of_start
  obtain rfl := Option.some.inj (hb.symm.trans hb')
  rw [hreply]
  constructor
  · rintro ⟨message, herr⟩
    obtain ⟨ho, ⟨hlive, -⟩ | ⟨-, m, p, hasks, hm⟩⟩ := Build.error_of_start ht (Reply.signalled.inj herr)
    · exact ⟨ho, Or.inl hlive⟩
    · exact ⟨ho, Or.inr ⟨m, p, message, hasks, hm⟩⟩
  · rintro ⟨ho, hcause⟩
    cases hl : b.live.get? op.id with
    | some e =>
      rw [Build.start_of_live _ _ _ ho hl, Option.some.injEq] at ht
      subst ht
      exact ⟨_, rfl⟩
    | none =>
      obtain ⟨m, p, message, hasks, hm⟩ :=
        hcause.resolve_left fun hlive => hlive (Build.state_eq_none_iff.mpr hl)
      refine ⟨message, congrArg Reply.signalled ?_⟩
      exact (Build.firstStart_of_start ho hl ht).result_of_error hasks hm

/-! ### Whole sessions -/

/-- How the operations of a build stand, and what the build does next, is what the
calls of a history say. -/
structure StatesFollow (listing : Listing) (s : Session) (i : Nat) (h : List Call) (b : Build) :
    Prop where
  closed_iff : b.closed = true ↔ ∃ k ∈ h, k.step.ends i = true
  /-- Live is what was started without an error and not finished since, -/
  live_iff : ∀ x, b.state x ≠ .none ↔ b.closed = false ∧ LiveAfter i h x
  /-- as published if a mapper made a descriptor at that start, -/
  started_iff : ∀ x, b.state x = .started ↔
    b.closed = false ∧ ∃ k op, Opened i h x k op ∧ k.Publishes i op
  /-- and as suppressed if none did. -/
  suppressed_iff : ∀ x, b.state x = .suppressed ↔
    b.closed = false ∧ ∃ k op, Opened i h x k op ∧ ¬ k.Publishes i op
  /-- The table has a part for each, and no id is in both. -/
  parts : ∀ x, (b.live.published.contains x = true ↔ b.state x = .started) ∧
    (b.live.hidden.contains x = true ↔ b.state x = .suppressed) ∧
    ¬ (b.live.published.contains x = true ∧ b.live.hidden.contains x = true)
  tracked_iff : ∀ x, b.isTracked x = true ↔ b.state x = .started
  counted : ∃ xs : List OperationId, xs.Nodup ∧ (∀ x, x ∈ xs ↔ b.state x = .started) ∧
    xs.length = b.inFlight
  /-- Between published and suppressed there is a finish, or the end. -/
  next : ∀ st a b', s.step listing st = .ok a → a.session.build? i = some b' →
    ∀ x, b.state x ≠ .none → b'.state x = b.state x ∨
      (b'.state x = .none ∧ ((∃ f, st = .finish i f ∧ f.id = x) ∨ st.ends i = true))
  /-- A start of what is live fails and changes nothing, -/
  twice : ∀ op, b.closed = false → b.state op.id ≠ .none →
    s.step listing (.start i op) = .ok ⟨s, .signalled (.error (b.startedTwice op.id)), []⟩
  /-- and no other start fails so, unless its mapper answers so itself; -/
  twice_iff : ∀ op a, s.step listing (.start i op) = .ok a →
    ((∃ message, a.reply = .signalled (.error (.stateTransition message))) ↔
      b.closed = false ∧ (b.state op.id ≠ .none ∨ ∃ m p message,
        b.Asks s.registry s.policy s.hub op m p ∧
          (m.consult op p).1 = .error (.stateTransition message)))
  /-- no other at all, if no mapper does, and the built-in ones do not. -/
  twice_only : (∀ m ∈ s.registry.mappers, m ∈ Mapper.builtIn ∨ m.NoTransitionErrors) → ∀ op a,
    s.step listing (.start i op) = .ok a →
      ((∃ message, a.reply = .signalled (.error (.stateTransition message))) ↔
        b.closed = false ∧ b.state op.id ≠ .none)
  /-- After the end nothing is live, and no signal changes anything. -/
  ended : b.closed = true → (∀ x, b.state x = .none) ∧
    (∀ op, s.step listing (.start i op) = .ok ⟨s, .signalled (.ok ()), []⟩) ∧
    (∀ f, s.step listing (.finish i f) = .ok ⟨s, .signalled (.ok ()), []⟩) ∧
    ∀ reason, s.step listing (.close i reason) = .ok ⟨s, .closed 0, []⟩

/-- In every session, whatever mappers there are and whatever becomes of the
connections, the operations of every build stand as the calls say. -/
theorem states_follow_signals {listing : Listing} {config : Config} {registry : Registry}
    {s₀ s : Session} {h : List Call} {i : Nat} {b : Build}
    (h₀ : Session.new config registry = .ok s₀) (hist : History listing s₀ h s)
    (hb : s.build? i = some b) : StatesFollow listing s i h b := by
  have hfresh := Session.fresh_of_new h₀
  have hkeyed := hist.keyed hfresh hb
  have hnone : b.closed = true → ∀ x, b.state x = .none := by
    intro hc x
    rw [Build.state_eq_none_iff, hist.live_of_closed hfresh hb hc]
    rfl
  -- a build that is not open has no live operations, and is not said to have any
  have hstands : ∀ (x : OperationId) {P Q : Prop}, (b.state x = .none → ¬ P) →
      (b.closed = false → (P ↔ Q)) → (P ↔ b.closed = false ∧ Q) := by
    intro x P Q hdead hopen
    cases hc : b.closed with
    | true => simp [hdead (hnone hc x)]
    | false => simp [hopen hc]
  constructor
  case closed_iff => exact hist.closed_iff hfresh hb
  case live_iff =>
    intro x
    exact hstands x (fun hx hne => hne hx) fun ho => (hist.state_iff hfresh hb ho x).1
  case started_iff =>
    intro x
    exact hstands x (fun hx => by simp [hx]) fun ho => (hist.state_iff hfresh hb ho x).2.1
  case suppressed_iff =>
    intro x
    exact hstands x (fun hx => by simp [hx]) fun ho => (hist.state_iff hfresh hb ho x).2.2
  case parts =>
    intro x
    exact ⟨Build.contains_published_iff hkeyed x, Build.contains_hidden_iff hkeyed x, hkeyed.apart x⟩
  case tracked_iff =>
    intro x
    exact decide_eq_true_iff
  case counted => exact b.exists_started hkeyed
  case next =>
    intro st a b' hstep hb' x hx
    exact (Session.step_eq_ok.mp hstep).state_eq (hist.sound hfresh.sound) hb hb' hx
  case twice =>
    intro op ho hx
    exact Session.step_of_live listing hb ho hx
  case twice_iff =>
    intro op a hstep
    exact (Session.step_eq_ok.mp hstep).transition_iff hb
  case twice_only =>
    intro hquiet op a hstep
    rw [(Session.step_eq_ok.mp hstep).transition_iff hb, or_iff_left]
    rintro ⟨m, p, message, hasks, hm⟩
    rcases hquiet m (Build.lookup_mem hasks.routed) with hbuiltIn | hnever
    · exact Mapper.noTransitionErrors_of_mem_builtIn hbuiltIn op p message hm
    · exact hnever op p message hm
  case ended =>
    intro hc
    exact ⟨hnone hc, Session.step_of_closed listing hb hc⟩

/-- An operation is started again after its finish, below one that no client wants;
in between the client has left and another has come. -/
theorem states_follow_signals_reuse :
    ∃ (s₀ s : Session) (h : List Call) (b : Build), Session.new default .builtIn = .ok s₀ ∧
      History .inOrder s₀ h s ∧ s.build? 0 = some b ∧
      b.state ⟨1⟩ = .suppressed ∧ b.state ⟨2⟩ = .suppressed ∧ b.state ⟨3⟩ = .started ∧
      StatesFollow .inOrder s 0 h b := by
  let s₀ := sampleSession .nearestEnabledAncestor 1024
  let steps : List Step := [.connect ⟨"a"⟩ (.ofList [.workItem]), .begin ⟨"x"⟩,
    .start 0 (sampleItem 1 none), .start 0 (samplePhase 2 (some ⟨1⟩)), .start 0 (sampleItem 3 (some ⟨2⟩)),
    .start 0 (sampleItem 1 none), .finish 0 ⟨⟨1⟩, default, .success⟩, .disconnect ⟨"a"⟩,
    .connect ⟨"b"⟩ .all, .start 0 (sampleItem 1 (some ⟨2⟩))]
  have h₀ : Session.new default .builtIn = .ok s₀ := rfl
  have hist := Session.history_calls .inOrder steps s₀
  have hstates : ((s₀.after .inOrder steps).build? 0).map
      (fun b => (b.state ⟨1⟩, b.state ⟨2⟩, b.state ⟨3⟩)) =
        some (.suppressed, .suppressed, .started) := by decide
  obtain ⟨b, hb, hstate⟩ := Option.map_eq_some_iff.mp hstates
  simp only [Prod.mk.injEq] at hstate
  obtain ⟨hone, htwo, hthree⟩ := hstate
  exact ⟨s₀, _, _, b, h₀, hist, hb, hone, htwo, hthree, states_follow_signals h₀ hist hb⟩

/-- A mapper answers the first start of a task with the error of a second start, and
nothing is live in the open build. -/
theorem first_start_fails_as_second :
    ∃ (registry : Registry) (s₀ s : Session) (h : List Call) (b : Build) (op : StartSignal)
        (a : Advance),
      Session.new default registry = .ok s₀ ∧ History .inOrder s₀ h s ∧ s.build? 0 = some b ∧
      b.closed = false ∧ b.state op.id = .none ∧ s.step .inOrder (.start 0 op) = .ok a ∧
      a.reply = .signalled (.error (.stateTransition "task :a without a parent")) := by
  let registry : Registry := ⟨[.nestedTask], by decide⟩
  let s₀ := sampleSessionWith registry
  let steps : List Step := [.connect ⟨"a"⟩ (.ofList [.task]), .begin ⟨"x"⟩]
  let s := s₀.after .inOrder steps
  let op := sampleTask "Copy" 1 none
  have h₀ : Session.new default registry = .ok s₀ := rfl
  have hist := Session.history_calls .inOrder steps s₀
  have hfacts : (s.build? 0).map (fun b => (b.closed, b.state op.id,
      (b.start s.registry s.policy s.hub op).map (·.result))) =
      some (false, .none, some (.error (.stateTransition "task :a without a parent"))) := by
    decide +kernel
  obtain ⟨b, hb, hfacts⟩ := Option.map_eq_some_iff.mp hfacts
  obtain ⟨ho, hfacts⟩ := Prod.mk.inj hfacts
  obtain ⟨hstate, hfacts⟩ := Prod.mk.inj hfacts
  obtain ⟨t, ht, hresult⟩ := Option.map_eq_some_iff.mp hfacts
  have hstep : s.step .inOrder (.start 0 op) = .ok ⟨s.takeTurn 0 t, .signalled t.result, t.offers⟩ :=
    Session.step_eq_ok.mpr (.start hb ht)
  exact ⟨registry, s₀, s, _, b, op, _, h₀, hist, hb, ho, hstate, hstep,
    congrArg Reply.signalled hresult⟩

end BuildFeed
