/-
# Starts that fail

A start that is answered with an error changes nothing but the record of the
mappers that were asked, and no call depends on that record: whatever is done
afterwards has the outcome that it would have had without the start
(`Session.run_congr`).

There are two ways to fail. If the operation is live already, not even a mapper
is asked. Otherwise the mapper refuses the operation, or it does not handle the
details that were routed to it; then the operation is not live, so that its
finish is passed over, and its next start is judged as the first
(`failed_starts_leave_no_trace`).

Key definitions: `Session.unasked`, `LeavesNoTrace`.
Key theorems: `Session.step_unasked`, `Session.run_congr`,
`Session.Effect.of_failed_start`, `History.stays_unknown`,
`failed_starts_leave_no_trace`.
-/
import BuildFeed.Mapper.Custom
import BuildFeed.Proofs.Session.States

namespace BuildFeed

/-! ### The record of the mappers that were asked -/

/-- The session without the record of the mappers that were asked. -/
def Session.unasked (s : Session) : Session := { s with consulted := [] }

/-- What a call does, without that record. -/
def Advance.unasked (a : Advance) : Advance := { a with session := a.session.unasked }

namespace Session

variable {listing : Listing} {s s' : Session}

@[simp] theorem bridge_unasked (s : Session) : s.unasked.bridge = s.bridge := rfl

@[simp] theorem hub_unasked (s : Session) : s.unasked.hub = s.hub := rfl

@[simp] theorem stream?_unasked (s : Session) (i : Nat) : s.unasked.stream? i = s.stream? i := rfl

@[simp] theorem build?_unasked (s : Session) (i : Nat) : s.unasked.build? i = s.build? i := rfl

theorem unasked_settle (s : Session) : s.settle.unasked = s.unasked.settle := by
  unfold settle
  show _ = if s.isAlive then _ else _
  split <;> rfl

theorem settle_congr (h : s'.unasked = s.unasked) : s'.settle.unasked = s.settle.unasked := by
  rw [unasked_settle, unasked_settle, h]

theorem onBridge_unasked {f g : Unit → Except Stop Advance}
    (h : (f ()).map Advance.unasked = (g ()).map Advance.unasked) :
    (s.unasked.onBridge f).map Advance.unasked = (s.onBridge g).map Advance.unasked := by
  rw [onBridge, onBridge, bridge_unasked]
  split
  · exact h
  · rfl

theorem onStream_unasked {i : Nat} {f : Connection → Reply × Connection} :
    (s.unasked.onStream i f).map Advance.unasked = (s.onStream i f).map Advance.unasked := by
  rw [onStream, onStream, stream?_unasked]
  split <;> rfl

theorem onBuild_unasked {i : Nat} {f g : Build → Except Stop Advance}
    (h : ∀ b, (f b).map Advance.unasked = (g b).map Advance.unasked) :
    (s.unasked.onBuild i f).map Advance.unasked = (s.onBuild i g).map Advance.unasked := by
  rw [onBuild, onBuild, build?_unasked]
  split
  · rfl
  · exact h _

/-- No call depends on the record. -/
theorem step_unasked (listing : Listing) (s : Session) (st : Step) :
    (s.unasked.step listing st).map Advance.unasked = (s.step listing st).map Advance.unasked := by
  cases st with
  | connect id subs =>
    rw [step, step]
    refine onBridge_unasked ?_
    rw [hub_unasked]
    split <;> rfl
  | disconnect id =>
    rw [step, step]
    exact onBridge_unasked rfl
  | dropStream i => exact onStream_unasked
  | drain i => exact onStream_unasked
  | receive i => exact onStream_unasked
  | dropBridge =>
    rw [step, step]
    refine onBridge_unasked (congrArg Except.ok ?_)
    show Advance.mk (settle _).unasked _ _ = Advance.mk (settle _).unasked _ _
    exact congrArg (Advance.mk · _ _) (settle_congr rfl)
  | begin id =>
    rw [step, step]
    exact onBridge_unasked rfl
  | start i op =>
    refine onBuild_unasked fun b => ?_
    have hstart : b.start s.unasked.registry s.unasked.policy s.unasked.hub op =
        b.start s.registry s.policy s.hub op := rfl
    rw [hstart]
    cases b.start s.registry s.policy s.hub op <;> rfl
  | finish i f => exact onBuild_unasked fun _ => rfl
  | close i reason => exact onBuild_unasked fun _ => rfl
  | dropBuild i =>
    refine onBuild_unasked fun b => congrArg Except.ok ?_
    show Advance.mk (settle _).unasked _ _ = Advance.mk (settle _).unasked _ _
    exact congrArg (Advance.mk · _ _) (settle_congr rfl)

theorem step_congr (listing : Listing) (h : s'.unasked = s.unasked) (st : Step) :
    (s'.step listing st).map Advance.unasked = (s.step listing st).map Advance.unasked := by
  rw [← step_unasked listing s', h, step_unasked]

/-- Two sessions that differ in the record alone go on alike, whatever is called. -/
theorem run_congr (h : s'.unasked = s.unasked) (steps : List Step) :
    (s'.run listing steps).map (List.map Advance.unasked) =
      (s.run listing steps).map (List.map Advance.unasked) := by
  induction steps generalizing s s' with
  | nil => rfl
  | cons st steps ih =>
    have hstep := step_congr listing h st
    rw [run, run]
    cases hs : s.step listing st with
    | error e =>
      cases hs' : s'.step listing st with
      | error e' =>
        rw [hs, hs'] at hstep
        exact congrArg Except.error (Except.error.inj hstep)
      | ok a' =>
        rw [hs, hs'] at hstep
        exact absurd hstep (by simp [Except.map])
    | ok a =>
      cases hs' : s'.step listing st with
      | error e' =>
        rw [hs, hs'] at hstep
        exact absurd hstep (by simp [Except.map])
      | ok a' =>
        rw [hs, hs'] at hstep
        have ha : a'.unasked = a.unasked := Except.ok.inj hstep
        have hrest := ih (congrArg Advance.session ha)
        simp only
        cases hr : a.session.run listing steps <;> cases hr' : a'.session.run listing steps <;>
          rw [hr, hr'] at hrest
        · exact congrArg Except.error (Except.error.inj hrest)
        · exact absurd hrest (by simp [Except.map])
        · exact absurd hrest (by simp [Except.map])
        · exact congrArg Except.ok (congrArg₂ List.cons ha (Except.ok.inj hrest))

end Session

/-! ### A start that fails -/

/-- A start that fails offers nothing and leaves the build as it is. -/
theorem Build.unchanged_of_error {registry : Registry} {policy : ParentPolicy} {hub : Hub}
    {b : Build} {op : StartSignal} {t : Turn} {e : Error}
    (h : b.start registry policy hub op = some t) (he : t.result = .error e) :
    t.build = b ∧ t.offers = [] := by
  cases startCase_of_start h with
  | again => exact ⟨rfl, rfl⟩
  | refused => exact ⟨rfl, rfl⟩
  | _ => exact absurd he (by simp [quiet])

/-- The error that a call answers. -/
def Reply.error? : Reply → Option Error
  | .signalled (.error e) => some e
  | _ => none

theorem Reply.error?_eq_some {r : Reply} {e : Error} :
    r.error? = some e ↔ r = .signalled (.error e) := by
  unfold error?
  split <;> simp_all

namespace Session

variable {listing : Listing} {s : Session} {i : Nat} {b : Build} {op : StartSignal} {a : Advance}
  {e : Error}

/-- Only the record of the mappers that were asked grows. -/
theorem Effect.of_failed_start (h : Effect listing s (.start i op) a) (hb : s.build? i = some b)
    (he : a.reply = .signalled (.error e)) :
    (∃ asked, a.session = { s with consulted := s.consulted ++ asked }) ∧ a.offers = [] := by
  obtain ⟨t, ht, hsession, hreply, hoffers, -⟩ := h.turn_of_start hb
  have herr : t.result = .error e := Reply.signalled.inj (hreply.symm.trans he)
  obtain ⟨hbuild, hnil⟩ := Build.unchanged_of_error ht herr
  exact ⟨⟨t.consulted, hsession.trans (takeTurn_of_unchanged hb hbuild hnil)⟩, hoffers.trans hnil⟩

/-- An operation that is not live in a build: its finish is passed over, and its
start is judged as the first. -/
structure Unknown (listing : Listing) (s : Session) (i : Nat) (b : Build) (x : OperationId) :
    Prop where
  state_eq : b.state x = .none
  finish_eq : ∀ f, f.id = x → s.step listing (.finish i f) = .ok ⟨s, .signalled (.ok ()), []⟩
  start_first : ∀ op a, op.id = x → b.closed = false → s.step listing (.start i op) = .ok a →
    ∃ t, Build.FirstStart s.registry s.policy s.hub b op t ∧ a.session = s.takeTurn i t ∧
      a.reply = .signalled t.result ∧ a.offers = t.offers

theorem unknown_of_state (listing : Listing) (hb : s.build? i = some b) {x : OperationId}
    (hx : b.state x = .none) : Unknown listing s i b x := by
  refine ⟨hx, fun f hf => ?_, fun op a hop ho hstep => ?_⟩
  · have hl : b.live.get? f.id = none := Build.state_eq_none_iff.mp (hf ▸ hx)
    have heff : Effect listing s (.finish i f) _ := .finish hb
    rw [Build.finish_of_unknown hl, takeTurn_quiet hb] at heff
    exact step_eq_ok.mpr heff
  · obtain ⟨t, ht, hsession, hreply, hoffers, -⟩ := (step_eq_ok.mp hstep).turn_of_start hb
    have hl : b.live.get? op.id = none := Build.state_eq_none_iff.mp (hop ▸ hx)
    exact ⟨t, Build.firstStart_of_start ho hl ht, hsession, hreply, hoffers⟩

end Session

/-- What is not live in a build is not live later, unless it is started. -/
theorem History.stays_unknown {listing : Listing} {s₀ s : Session} {h : List Call} {i : Nat}
    {b : Build} {x : OperationId} (h₀ : s₀.Sound) (hb : s₀.build? i = some b)
    (hx : b.state x = .none) (hist : History listing s₀ h s)
    (hno : ∀ k ∈ h, ∀ op, k.step = .start i op → op.id ≠ x) :
    ∀ {b' : Build}, s.build? i = some b' → b'.state x = .none := by
  have hlt : i < s₀.builds.length := (List.getElem?_eq_some_iff.mp (Session.build?_eq_some.mp hb)).1
  induction hist with
  | nil =>
    intro b' hb'
    obtain rfl := Option.some.inj (hb.symm.trans hb')
    exact hx
  | @snoc h s st a hist hs ih =>
    have ih := @ih fun k hk => hno k (List.mem_append_left _ hk)
    have hlast := hno ⟨s, st, a⟩ (by simp)
    have hsound := hist.sound h₀
    intro b' hb'
    cases Session.effect_on_build (Session.step_eq_ok.mp hs) i with
    | begun hi =>
      have hle := hist.build_lt.1
      omega
    | other _ heq => exact ih (heq ▸ hb')
    | @start op b₁ t a hi ht heq =>
      rw [heq, Option.some.injEq] at hb'
      subst hb'
      have hne : x ≠ op.id := fun h => hlast op rfl h.symm
      have hbefore := Build.state_eq_none_iff.mp (ih hi)
      rw [Build.state_eq_none_iff]
      rcases Build.live_start ht with hl | ⟨-, e, -, hl⟩
      · rw [hl, hbefore]
      · rw [hl, LiveTable.get?_insert, if_neg hne, hbefore]
    | @finish f b₁ a hi heq =>
      rw [heq, Option.some.injEq] at hb'
      subst hb'
      rcases Build.state_finish s.hub f (hsound i _ hi) x with hkeep | ⟨-, hnone⟩
      · exact hkeep.trans (ih hi)
      · exact hnone
    | @close reason b₁ a hi heq =>
      rw [heq, Option.some.injEq] at hb'
      subst hb'
      rcases Build.state_close s.hub reason b₁ x with hkeep | hnone
      · exact hkeep.trans (ih hi)
      · exact hnone
    | drop _ heq =>
      rw [heq] at hb'
      exact absurd hb' (by simp)

/-! ### Whole sessions -/

/-- A start of an operation fails and leaves no trace. -/
structure LeavesNoTrace (listing : Listing) (s : Session) (i : Nat) (b : Build) (op : StartSignal)
    (e : Error) (a : Advance) : Prop where
  builds_eq : a.session.builds = s.builds
  hub_eq : a.session.hub = s.hub
  unasked_eq : a.session.unasked = s.unasked
  offers_eq : a.offers = []
  /-- Whatever is called afterwards has the outcome that it would have without the start. -/
  later : ∀ steps, (a.session.run listing steps).map (List.map Advance.unasked) =
    (s.run listing steps).map (List.map Advance.unasked)
  opened : b.closed = false
  /-- Either the operation is live, and no mapper was asked, or its mapper answers so;
  then it is not known until it is started again. -/
  cause : (b.state op.id ≠ .none ∧ e = b.startedTwice op.id ∧ a.session = s) ∨
    ((∃ m p, b.Asks s.registry s.policy s.hub op m p ∧ (m.consult op p).1 = .error e) ∧
      ∀ h t b', History listing a.session h t →
        (∀ k ∈ h, ∀ op', k.step = .start i op' → op'.id ≠ op.id) → t.build? i = some b' →
          t.Unknown listing i b' op.id)

/-- In every session, whatever its mappers are, a start that fails leaves no trace. -/
theorem failed_starts_leave_no_trace {listing : Listing} {config : Config} {registry : Registry}
    {s₀ s : Session} {h : List Call} {i : Nat} {op : StartSignal} {a : Advance} {e : Error}
    (h₀ : Session.new config registry = .ok s₀) (hist : History listing s₀ h s)
    (hstep : s.step listing (.start i op) = .ok a) (he : a.reply = .signalled (.error e)) :
    ∃ b, s.build? i = some b ∧ LeavesNoTrace listing s i b op e a := by
  have heff := Session.step_eq_ok.mp hstep
  obtain ⟨b, t, hb, ht, hreply, -⟩ := heff.of_start
  obtain ⟨⟨asked, hsession⟩, hoffers⟩ := heff.of_failed_start hb he
  have herr : t.result = .error e := Reply.signalled.inj (hreply.symm.trans he)
  have hunasked : a.session.unasked = s.unasked := by rw [hsession]; rfl
  have hb' : a.session.build? i = some b := by rw [hsession]; exact hb
  have hsound : a.session.Sound := heff.sound (hist.sound (Session.fresh_of_new h₀).sound)
  obtain ⟨ho, hcause⟩ := Build.error_of_start ht herr
  refine ⟨b, hb, ?_⟩
  constructor
  case builds_eq => rw [hsession]
  case hub_eq => rw [hsession]
  case unasked_eq => exact hunasked
  case offers_eq => exact hoffers
  case later =>
    intro steps
    exact Session.run_congr hunasked steps
  case opened => exact ho
  case cause =>
    rcases hcause with ⟨hlive, hid⟩ | ⟨hnone, hasked⟩
    · have htwice := Session.step_of_live listing hb ho hlive
      obtain rfl := Except.ok.inj (hstep.symm.trans htwice)
      exact Or.inl ⟨hlive, hid, rfl⟩
    · refine Or.inr ⟨hasked, fun h' t' b' hist' hno hbuild => ?_⟩
      have hstays := hist'.stays_unknown hsound hb' hnone hno hbuild
      exact Session.unknown_of_state listing hbuild hstays

/-- Build work is routed to a mapper of tasks, below an item that is live. -/
theorem failed_starts_leave_no_trace_misrouted :
    ∃ (registry : Registry) (s₀ s : Session) (h : List Call) (a : Advance) (e : Error),
      Session.new default registry = .ok s₀ ∧ History .inOrder s₀ h s ∧
      s.step .inOrder (.start 0 (samplePhase 2 (some ⟨1⟩))) = .ok a ∧
      a.reply = .signalled (.error e) ∧
      ∃ b, s.build? 0 = some b ∧
        LeavesNoTrace .inOrder s 0 b (samplePhase 2 (some ⟨1⟩)) e a := by
  let registry : Registry := ⟨[.misroutedTask, .workItem], by decide⟩
  let s₀ := sampleSessionWith registry
  let steps : List Step := [.connect ⟨"a"⟩ .all, .begin ⟨"x"⟩, .start 0 (sampleItem 1 none)]
  let s := s₀.after .inOrder steps
  have h₀ : Session.new default registry = .ok s₀ := rfl
  have hist := Session.history_calls .inOrder steps s₀
  have hfails : ((s.step .inOrder (.start 0 (samplePhase 2 (some ⟨1⟩)))).toOption.bind
      (·.reply.error?)).isSome = true := by decide
  cases hstep : s.step .inOrder (.start 0 (samplePhase 2 (some ⟨1⟩))) with
  | error stop =>
    rw [hstep] at hfails
    exact absurd hfails (by simp [Except.toOption])
  | ok a =>
    rw [hstep] at hfails
    obtain ⟨e, he⟩ := Option.isSome_iff_exists.mp hfails
    have herr : a.reply = .signalled (.error e) := Reply.error?_eq_some.mp he
    exact ⟨registry, s₀, s, _, a, e, h₀, hist, hstep, herr,
      failed_starts_leave_no_trace h₀ hist hstep herr⟩

end BuildFeed
