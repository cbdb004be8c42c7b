/-
# Histories of sessions

A history is the list of the calls of a session that returned, each with the
session it was made on and what it did. Histories are the runs of
`Session.run` (`History.of_run`, `History.run_eq`), seen from their ends: a
history grows by one call at its end, so that what every call keeps holds
after every history.

What a connection has to do with a history is read off its calls: the
messages that were offered to it, those of them that came into its queue,
and those that its client read.

Key definitions: `Call`, `History`, `offeredTo`, `acceptedBy`, `readBy`,
`Session.Fresh`.
Key theorems: `History.split`, `History.exists_split`, `History.exists_followed`,
`History.run_eq`, `History.of_run`, `History.sound`, `History.settings`,
`Session.history_calls`.
-/
import BuildFeed.Proofs.Lists
import BuildFeed.Proofs.Session.Effect

namespace BuildFeed

/-- A call that returned. -/
structure Call where
  before : Session
  step : Step
  outcome : Advance

namespace Call

/-- The messages that the call offers to a connection. -/
def offered (c : Nat) (k : Call) : List Message := messagesTo c k.outcome.offers

/-- The messages that the call brings into the queue of a connection. -/
def accepted (c : Nat) (k : Call) : List Message :=
  match k.before.hub.connections[c]? with
  | none => []
  | some x => x.accepted k.before.hub.capacity (k.offered c)

/-- The messages that the client of a connection reads in the call. -/
def read (c : Nat) (k : Call) : List Message :=
  match k.step, k.outcome.reply with
  | .drain i, .drained ms => if i = c then ms else []
  | .receive i, .received r => if i = c then r.item?.toList else []
  | _, _ => []

end Call

/-- The calls of a history lead from one session to another. -/
inductive History (listing : Listing) (s₀ : Session) : List Call → Session → Prop
  | nil : History listing s₀ [] s₀
  | snoc {h : List Call} {s : Session} {st : Step} {a : Advance} (hist : History listing s₀ h s)
      (hs : s.step listing st = .ok a) : History listing s₀ (h ++ [⟨s, st, a⟩]) a.session

/-- The messages that were offered to a connection. -/
def offeredTo (c : Nat) (h : List Call) : List Message := h.flatMap (·.offered c)

/-- The messages that came into the queue of a connection. -/
def acceptedBy (c : Nat) (h : List Call) : List Message := h.flatMap (·.accepted c)

/-- The messages that the client of a connection read. -/
def readBy (c : Nat) (h : List Call) : List Message := h.flatMap (·.read c)

@[simp] theorem offeredTo_append (c : Nat) (h h' : List Call) :
    offeredTo c (h ++ h') = offeredTo c h ++ offeredTo c h' := List.flatMap_append

/-- What a connection was offered was offered by a call. -/
theorem exists_call_of_offered {c : Nat} {h : List Call} {m : Message} (hm : m ∈ offeredTo c h) :
    ∃ pre k post, h = pre ++ k :: post ∧ m ∈ k.offered c := by
  obtain ⟨k, hk, hm⟩ := List.mem_flatMap.mp hm
  obtain ⟨pre, post, hh⟩ := List.append_of_mem hk
  exact ⟨pre, k, post, hh, hm⟩

@[simp] theorem acceptedBy_append (c : Nat) (h h' : List Call) :
    acceptedBy c (h ++ h') = acceptedBy c h ++ acceptedBy c h' := List.flatMap_append

@[simp] theorem readBy_append (c : Nat) (h h' : List Call) :
    readBy c (h ++ h') = readBy c h ++ readBy c h' := List.flatMap_append

@[simp] theorem offeredTo_singleton (c : Nat) (k : Call) : offeredTo c [k] = k.offered c := by
  simp [offeredTo]

@[simp] theorem acceptedBy_singleton (c : Nat) (k : Call) : acceptedBy c [k] = k.accepted c := by
  simp [acceptedBy]

@[simp] theorem readBy_singleton (c : Nat) (k : Call) : readBy c [k] = k.read c := by
  simp [readBy]

namespace History

variable {listing : Listing} {s₀ s s' : Session} {h h' : List Call}

theorem append (hist : History listing s₀ h s) (hist' : History listing s h' s') :
    History listing s₀ (h ++ h') s' := by
  induction hist' with
  | nil => rwa [List.append_nil]
  | snoc _ hs ih =>
    rw [← List.append_assoc]
    exact ih.snoc hs

theorem single {st : Step} {a : Advance} (hs : s.step listing st = .ok a) :
    History listing s [⟨s, st, a⟩] a.session := History.nil.snoc hs

/-- A history before one of its calls, the call, and the history after it. -/
theorem split {k : Call} {pre post : List Call} (hist : History listing s₀ (pre ++ k :: post) s) :
    History listing s₀ pre k.before ∧ k.before.step listing k.step = .ok k.outcome ∧
      History listing k.outcome.session post s := by
  generalize hl : pre ++ k :: post = l at hist
  induction hist generalizing post with
  | nil => simp at hl
  | @snoc h s st a hist hs ih =>
    rcases split_of_snoc hl.symm with ⟨rfl, rfl, rfl⟩ | ⟨post', rfl, hh⟩
    · exact ⟨hist, hs, .nil⟩
    · obtain ⟨h1, h2, h3⟩ := ih hh.symm
      exact ⟨h1, h2, h3.snoc hs⟩

/-- What a call of a history did, between the history before it and the rest. -/
theorem exists_split {k : Call} (hist : History listing s₀ h s) (hk : k ∈ h) :
    ∃ pre post, h = pre ++ k :: post ∧ History listing s₀ pre k.before ∧
      Session.Effect listing k.before k.step k.outcome ∧
      History listing k.outcome.session post s := by
  obtain ⟨pre, post, rfl⟩ := List.append_of_mem hk
  obtain ⟨hpre, hstep, hpost⟩ := hist.split
  exact ⟨pre, post, rfl, hpre, Session.step_eq_ok.mp hstep, hpost⟩

/-- A history goes by way of a session between its beginning and the rest. -/
theorem exists_of_append {pre post : List Call} (hist : History listing s₀ (pre ++ post) s) :
    ∃ t, History listing s₀ pre t ∧ History listing t post s := by
  cases post with
  | nil =>
    rw [List.append_nil] at hist
    exact ⟨s, hist, .nil⟩
  | cons k post =>
    obtain ⟨hpre, hstep, hpost⟩ := hist.split
    exact ⟨k.before, hpre, (single hstep).append hpost⟩

/-- A history leads to one session only. -/
theorem unique (hist : History listing s₀ h s) (hist' : History listing s₀ h s') : s = s' := by
  cases hist with
  | nil =>
    generalize hl : ([] : List Call) = l at hist'
    cases hist' with
    | nil => rfl
    | snoc => simp at hl
  | @snoc h s st a _ _ =>
    generalize hl : h ++ [⟨s, st, a⟩] = l at hist'
    cases hist' with
    | nil => simp at hl
    | snoc _ _ =>
      have hk := List.singleton_inj.mp (List.append_inj' hl rfl).2
      rw [(Call.mk.inj hk).2.2]

/-- What a call keeps holds after a history if it holds before. -/
theorem invariant {P : Session → Prop} (h₀ : P s₀)
    (hstep : ∀ {s st a}, P s → Session.Effect listing s st a → P a.session)
    (hist : History listing s₀ h s) : P s := by
  induction hist with
  | nil => exact h₀
  | snoc _ hs ih => exact hstep ih (Session.step_eq_ok.mp hs)

theorem sound (h₀ : s₀.Sound) (hist : History listing s₀ h s) : s.Sound :=
  hist.invariant h₀ fun hs he => he.sound hs

/-- The registry, the policy and the capacity of the queues stay. -/
theorem frame (hist : History listing s₀ h s) : s.registry = s₀.registry ∧
    s.policy = s₀.policy ∧ s.hub.capacity = s₀.hub.capacity := by
  refine hist.invariant (P := fun s => s.registry = s₀.registry ∧ s.policy = s₀.policy ∧
    s.hub.capacity = s₀.hub.capacity) ⟨rfl, rfl, rfl⟩ ?_
  intro s st a hs he
  obtain ⟨h1, h2, h3⟩ := he.frame
  exact ⟨h1.trans hs.1, h2.trans hs.2.1, h3.trans hs.2.2⟩

/-- If of two sessions the second can make each call of the first, or leave it
out, and stay in a relation to it, then it does so along a whole history, and
along each of its beginnings. -/
theorem exists_followed (listing' : Listing) {s₀' : Session}
    {R : List Call → Session → List Call → Session → Prop} (h₀ : R [] s₀ [] s₀')
    (hist : History listing s₀ h s)
    (hstep : ∀ {pre t st a pre' t'}, pre ++ [⟨t, st, a⟩] <+: h → History listing s₀ pre t →
      History listing' s₀' pre' t' → R pre t pre' t' → Session.Effect listing t st a →
        R (pre ++ [⟨t, st, a⟩]) a.session pre' t' ∨
          ∃ st' a', Session.Effect listing' t' st' a' ∧
            R (pre ++ [⟨t, st, a⟩]) a.session (pre' ++ [⟨t', st', a'⟩]) a'.session) :
    ∃ h' s', History listing' s₀' h' s' ∧ R h s h' s' ∧
      ∀ pre t, pre <+: h → History listing s₀ pre t →
        ∃ pre' t', pre' <+: h' ∧ History listing' s₀' pre' t' ∧ R pre t pre' t' := by
  induction hist with
  | nil =>
    refine ⟨[], s₀', .nil, h₀, fun pre t hpre hist => ?_⟩
    obtain rfl := List.prefix_nil.mp hpre
    obtain rfl := hist.unique .nil
    exact ⟨[], s₀', List.prefix_rfl, .nil, h₀⟩
  | @snoc h s st a hist hs ih =>
    obtain ⟨h', s', hist', hrel, hbegin⟩ := ih fun hpre => hstep (hpre.trans (List.prefix_append ..))
    have hlonger := hist.snoc hs
    -- the new beginning is the whole history
    have hbegins : ∀ {h'' s''}, h' <+: h'' → History listing' s₀' h'' s'' →
        R (h ++ [⟨s, st, a⟩]) a.session h'' s'' →
        ∀ pre t, pre <+: h ++ [⟨s, st, a⟩] → History listing s₀ pre t →
          ∃ pre' t', pre' <+: h'' ∧ History listing' s₀' pre' t' ∧ R pre t pre' t' := by
      intro h'' s'' hpre'' hist'' hrel'' pre t hpre hpreHist
      rcases List.prefix_concat_iff.mp hpre with rfl | hpre
      · obtain rfl := hpreHist.unique hlonger
        exact ⟨h'', s'', List.prefix_rfl, hist'', hrel''⟩
      · obtain ⟨pre', t', hpre', hist₁, hrel₁⟩ := hbegin pre t hpre hpreHist
        exact ⟨pre', t', hpre'.trans hpre'', hist₁, hrel₁⟩
    rcases hstep List.prefix_rfl hist hist' hrel (Session.step_eq_ok.mp hs) with
      hrel' | ⟨st', a', he', hrel'⟩
    · exact ⟨h', s', hist', hrel', hbegins List.prefix_rfl hist' hrel'⟩
    · have hist'' := hist'.snoc (Session.step_eq_ok.mpr he')
      exact ⟨_, _, hist'', hrel', hbegins (List.prefix_append ..) hist'' hrel'⟩

/-! ### Histories and runs -/

/-- A run of calls that all return leaves a history. -/
theorem of_run : ∀ {steps : List Step} {s : Session} {as : List Advance},
    s.run listing steps = .ok as → ∃ h s', History listing s h s' ∧
      h.map (·.step) = steps ∧ h.map (·.outcome) = as
  | [], s, as, hr => by
    obtain rfl := Except.ok.inj hr
    exact ⟨[], s, .nil, rfl, rfl⟩
  | st :: steps, s, as, hr => by
    rw [Session.run] at hr
    cases hs : s.step listing st with
    | error e => simp [hs] at hr
    | ok a =>
      simp only [hs] at hr
      cases hrest : a.session.run listing steps with
      | error e => simp [hrest] at hr
      | ok as' =>
        simp only [hrest, Except.ok.injEq] at hr
        obtain ⟨h, s', hist, hst, has⟩ := of_run hrest
        refine ⟨⟨s, st, a⟩ :: h, s', (single hs).append hist, ?_, ?_⟩
        · rw [List.map_cons, hst]
        · rw [List.map_cons, has, hr]

theorem run_append (steps : List Step) : ∀ {h : List Call} {s s' : Session},
    History listing s h s' →
      s.run listing (h.map (·.step) ++ steps) =
        (s'.run listing steps).map (h.map (·.outcome) ++ ·) := by
  intro h s s' hist
  induction hist generalizing steps with
  | nil =>
    rw [List.map_nil, List.nil_append]
    cases s.run listing steps <;> simp [Except.map]
  | @snoc h s' st a hist hs ih =>
    rw [List.map_append, List.map_append, List.append_assoc, ih]
    simp only [List.map_cons, List.map_nil, List.cons_append, List.nil_append, Session.run, hs]
    cases a.session.run listing steps with
    | error e => rfl
    | ok as => simp [Except.map]

/-- A history is a run of its steps. -/
theorem run_eq (hist : History listing s h s') :
    s.run listing (h.map (·.step)) = .ok (h.map (·.outcome)) := by
  have hr := run_append [] hist
  rw [List.append_nil] at hr
  rw [hr]
  simp [Session.run, Except.map]

end History

namespace Session

/-- The calls of a list of steps, up to the first that does not return. -/
def calls (listing : Listing) (s : Session) : List Step → List Call
  | [] => []
  | st :: steps =>
    match s.step listing st with
    | .error _ => []
    | .ok a => ⟨s, st, a⟩ :: calls listing a.session steps

/-- The session after these calls. -/
def after (listing : Listing) (s : Session) : List Step → Session
  | [] => s
  | st :: steps =>
    match s.step listing st with
    | .error _ => s
    | .ok a => after listing a.session steps

theorem history_calls (listing : Listing) : ∀ (steps : List Step) (s : Session),
    History listing s (s.calls listing steps) (s.after listing steps)
  | [], s => .nil
  | st :: steps, s => by
    rw [calls, after]
    cases hs : s.step listing st with
    | error e => exact .nil
    | ok a => exact (History.single hs).append (history_calls listing steps a.session)

end Session

/-! ### The beginning -/

/-- A session that has just been made. -/
structure Session.Fresh (config : Config) (registry : Registry) (s₀ : Session) : Prop where
  registry_eq : s₀.registry = registry
  policy_eq : s₀.policy = config.dispatch.parentPolicy
  capacity_eq : s₀.hub.capacity = config.dispatch.queueCapacity.toNat
  connections_eq : s₀.hub.connections = []
  builds_eq : s₀.builds = []

theorem Session.fresh_of_new {config : Config} {registry : Registry} {s₀ : Session}
    (h : Session.new config registry = .ok s₀) : s₀.Fresh config registry := by
  unfold Session.new Config.validate at h
  by_cases hz : config.dispatch.queueCapacity = 0
  · rw [if_pos hz] at h
    simp [Except.map] at h
  · rw [if_neg hz] at h
    obtain rfl := Except.ok.inj h
    have hpos : config.dispatch.queueCapacity.toNat ≠ 0 := fun h0 =>
      hz (UInt64.toNat.inj h0)
    exact ⟨rfl, rfl, Nat.max_eq_left (Nat.pos_of_ne_zero hpos), rfl, rfl⟩

section Fresh

variable {config : Config} {registry : Registry} {s₀ s : Session}

theorem Session.Fresh.build?_eq_none (h₀ : s₀.Fresh config registry) (i : Nat) :
    s₀.build? i = none := by
  unfold Session.build?
  rw [h₀.builds_eq]
  rfl

theorem Session.Fresh.sound (h₀ : s₀.Fresh config registry) : s₀.Sound := by
  intro i b hb
  rw [h₀.build?_eq_none] at hb
  exact absurd hb (by simp)

/-- A session keeps what it was made with. -/
theorem History.settings {listing : Listing} {h : List Call} (h₀ : s₀.Fresh config registry)
    (hist : History listing s₀ h s) : s.registry = registry ∧
      s.policy = config.dispatch.parentPolicy ∧
      s.hub.capacity = config.dispatch.queueCapacity.toNat := by
  obtain ⟨hregistry, hpolicy, hcapacity⟩ := hist.frame
  exact ⟨hregistry.trans h₀.registry_eq, hpolicy.trans h₀.policy_eq, hcapacity.trans h₀.capacity_eq⟩

end Fresh

/-! ### Samples -/

/-- A work item. -/
def sampleItem (id : UInt64) (parent : Option OperationId) : StartSignal :=
  .new ⟨id⟩ parent none (.ofExecuteWorkItem ⟨"item"⟩) default

/-- Work of a build phase. -/
def samplePhase (id : UInt64) (parent : Option OperationId) : StartSignal :=
  .new ⟨id⟩ parent (some .runWork) (.ofRunBuildWork ⟨":"⟩) default

/-- A task of a class. -/
def sampleTask (taskClass : String) (id : UInt64) (parent : Option OperationId) : StartSignal :=
  .new ⟨id⟩ parent none (.ofExecuteTask ⟨":a", ":", taskClass⟩) default

/-- A session with the built-in mappers and queues for one message or more. -/
def sampleSession (policy : ParentPolicy) (capacity : Nat) : Session :=
  ⟨.builtIn, policy, .empty capacity, true, [], []⟩

/-- A session with the default configuration and mappers of one's own. -/
def sampleSessionWith (registry : Registry) : Session :=
  ⟨registry, .nearestEnabledAncestor, .empty 1024, true, [], []⟩

end BuildFeed
