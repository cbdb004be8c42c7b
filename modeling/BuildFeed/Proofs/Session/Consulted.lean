/-
# How often mappers are asked

A mapper is asked for a descriptor when an operation starts that somebody wants
(`Call.Wants`): the operation is routed to the mapper, the build is open, the
operation is not live, and the mapper serves a connection of the audience that
is still attached. It is asked once then, for all connections and for all the
parents that they see (`Build.consulted_of_start`), and no other call asks a
mapper (`Session.Effect.consulted_eq`). So the record of a session tells of each
mapper how many calls wanted it (`History.count_consulted`).

All this is said of mappers that read whatever is routed to them, and of calls
that return. A mapper whose shape leaves out details of its kind is not asked
about them, although the call wants it, and a start whose search for a parent
goes in circles asks nobody (`wanted_mappers_not_asked`).

Key definitions: `Build.Wants`, `Call.Wants`.
Key theorems: `Build.consulted_of_start`, `Session.Effect.consulted_eq`,
`Call.Wants.unique`, `History.count_consulted`, `mappers_asked_once`.
-/
import BuildFeed.Mapper.Custom
import BuildFeed.Proofs.Build.States
import BuildFeed.Proofs.Mapper.Routing
import BuildFeed.Proofs.Session.History
import BuildFeed.Proofs.Session.Returns

namespace BuildFeed

/-- The build and the operation of a start. -/
def Step.started? : Step → Option (Nat × StartSignal)
  | .start i op => some (i, op)
  | _ => none

/-- The start of an operation wants a mapper: it is a first start in an open build,
routed to the mapper, which serves the subscriptions of a connection of the audience
that is still attached. -/
def Build.Wants (b : Build) (hub : Hub) (op : StartSignal) (m : Mapper) : Prop :=
  m.declares = op.details.kind ∧ b.closed = false ∧ b.state op.id = .none ∧
    ∃ c ∈ b.audience, ∃ subs ∈ hub.subscriptions? c, m.isEnabled subs = true

instance (b : Build) (hub : Hub) (op : StartSignal) (m : Mapper) : Decidable (b.Wants hub op m) :=
  inferInstanceAs (Decidable (m.declares = op.details.kind ∧ b.closed = false ∧
    b.state op.id = .none ∧ ∃ c ∈ b.audience, ∃ subs ∈ hub.subscriptions? c, m.isEnabled subs = true))

/-- A call is a start that wants a mapper. -/
def Call.Wants (k : Call) (m : Mapper) : Prop :=
  ∃ x ∈ k.step.started?, ∃ b ∈ k.before.build? x.1, b.Wants k.before.hub x.2 m

instance (k : Call) (m : Mapper) : Decidable (k.Wants m) :=
  inferInstanceAs (Decidable (∃ x ∈ k.step.started?, ∃ b ∈ k.before.build? x.1,
    b.Wants k.before.hub x.2 m))

/-! ### One start -/

namespace Build

variable {registry : Registry} {policy : ParentPolicy} {hub : Hub} {b : Build} {op : StartSignal}
  {m : Mapper} {t : Turn}

/-- A mapper that can read an operation is asked when it is consulted. -/
theorem consult_snd_of_data {data : m.Data} (hd : m.dataOf op = .ok data)
    (p : Option OperationId) : (m.consult op p).2 = [m.consultation] := by
  simp [Mapper.consult, hd]

/-- A start asks the mapper that it wants once, and no other. -/
theorem consulted_of_start (hkinds : ∀ m ∈ registry.mappers, m.declares = m.handles)
    (hreads : ∀ m ∈ registry.mappers, m.ReadsKind) (h : b.start registry policy hub op = some t) :
    (∀ m ∈ registry.mappers, b.Wants hub op m → t.consulted = [m.consultation]) ∧
      ((∀ m ∈ registry.mappers, ¬ b.Wants hub op m) → t.consulted = []) := by
  constructor
  · rintro m hm ⟨hkind, ho, hstate, hserves⟩
    have hl := state_eq_none_iff.mp hstate
    have hroute : registry.lookup op.details.kind = some m :=
      Registry.lookup_eq_some_iff.mpr ⟨hm, hkind⟩
    obtain ⟨p, ha⟩ := exists_asks h ho hl hroute (targets_ne_nil_iff.mpr hserves)
    obtain ⟨data, hd⟩ := Registry.exists_data_of_lookup hroute (hkinds m hm) (hreads m hm)
    rw [(firstStart_of_start ho hl h).consulted_of_asks ha, consult_snd_of_data hd]
  · intro hnone
    cases ho : b.closed with
    | true =>
      rw [start_of_closed _ _ _ _ ho, Option.some.injEq] at h
      rw [← h, quiet]
    | false =>
      cases hl : b.live.get? op.id with
      | some e =>
        rw [start_of_live _ _ _ ho hl, Option.some.injEq] at h
        rw [← h, quiet]
      | none =>
        apply (firstStart_of_start ho hl h).consulted_of_not_asks
        rintro m p ⟨hroute, slot, slots, htargets, -⟩
        obtain ⟨hm, hkind⟩ := Registry.lookup_eq_some_iff.mp hroute
        have hserves := targets_ne_nil_iff.mp (htargets ▸ List.cons_ne_nil slot slots)
        exact hnone m hm ⟨hkind, ho, state_eq_none_iff.mpr hl, hserves⟩

/-- The end of a build asks no mapper for a descriptor. -/
theorem consulted_close (hub : Hub) (reason : EndReason) (b : Build) :
    (b.close hub reason).consulted = [] := by
  unfold close
  split <;> rfl

end Build

/-! ### One call -/

namespace Session

variable {listing : Listing} {s : Session} {st : Step} {a : Advance}

@[simp] theorem consulted_settle (s : Session) : s.settle.consulted = s.consulted := by
  unfold settle
  split <;> rfl

/-- The record grows by those that the call on a build asked. -/
theorem consulted_takeTurn (s : Session) (i : Nat) (t : Turn) :
    (s.takeTurn i t).consulted = s.consulted ++ t.consulted := rfl

/-- A call that is not a start asks no mapper. -/
theorem Effect.consulted_eq (h : Effect listing s st a) (hst : st.started? = none) :
    a.session.consulted = s.consulted := by
  cases h with
  | start => exact absurd hst (by simp [Step.started?])
  | finish => simp [consulted_takeTurn, Build.consulted_finish]
  | close => simp [consulted_takeTurn, Build.consulted_close]
  | dropBuild => simp [consulted_takeTurn, Build.consulted_close]
  | dropBridge => simp
  | _ => rfl

/-- A call asks the mapper that it wants once, and no other. -/
theorem Effect.asked (h : Effect listing s st a)
    (hkinds : ∀ m ∈ s.registry.mappers, m.declares = m.handles)
    (hreads : ∀ m ∈ s.registry.mappers, m.ReadsKind) :
    (∀ m ∈ s.registry.mappers, Call.Wants ⟨s, st, a⟩ m →
        a.session.consulted = s.consulted ++ [m.consultation]) ∧
      ((∀ m ∈ s.registry.mappers, ¬ Call.Wants ⟨s, st, a⟩ m) → a.session.consulted = s.consulted) := by
  by_cases hst : st.started? = none
  · refine ⟨?_, fun _ => h.consulted_eq hst⟩
    rintro m - ⟨x, hx, -⟩
    rw [hst] at hx
    exact absurd hx (by simp)
  · cases h with
    | @start i op b t hb ht =>
      have hwants : ∀ a m, Call.Wants ⟨s, .start i op, a⟩ m ↔ b.Wants s.hub op m := fun a m => by
        simp [Call.Wants, Step.started?, hb]
      obtain ⟨hone, hnone⟩ := Build.consulted_of_start hkinds hreads ht
      simp only [hwants, consulted_takeTurn]
      refine ⟨fun m hm hw => by rw [hone m hm hw], fun hno => ?_⟩
      rw [hnone hno, List.append_nil]
    | _ => exact absurd rfl hst

end Session

/-- A call wants one mapper at most. -/
theorem Call.Wants.unique {registry : Registry} {k : Call} {m m' : Mapper} (hm : m ∈ registry.mappers)
    (hm' : m' ∈ registry.mappers) (h : k.Wants m) (h' : k.Wants m') : m' = m := by
  obtain ⟨x, hx, b, -, hkind, -⟩ := h
  obtain ⟨x', hx', b', -, hkind', -⟩ := h'
  obtain rfl := Option.some.inj (hx.symm.trans hx')
  exact List.inj_on_of_nodup_map registry.distinct hm' hm (hkind'.trans hkind.symm)

/-! ### Whole sessions -/

theorem Session.consulted_of_new {config : Config} {registry : Registry} {s₀ : Session}
    (h : Session.new config registry = .ok s₀) : s₀.consulted = [] := by
  unfold Session.new at h
  cases hv : config.validate with
  | error e => simp [hv, Except.map] at h
  | ok u =>
    rw [hv] at h
    obtain rfl := Except.ok.inj h
    rfl

namespace History

variable {listing : Listing} {s₀ s : Session} {h : List Call} {m : Mapper}

/-- What each call of a history adds to the record. -/
theorem asked (hkinds : ∀ m ∈ s₀.registry.mappers, m.declares = m.handles)
    (hreads : ∀ m ∈ s₀.registry.mappers, m.ReadsKind) (hist : History listing s₀ h s) : ∀ k ∈ h,
      (∀ m ∈ s₀.registry.mappers, k.Wants m →
        k.outcome.session.consulted = k.before.consulted ++ [m.consultation]) ∧
      ((∀ m ∈ s₀.registry.mappers, ¬ k.Wants m) →
        k.outcome.session.consulted = k.before.consulted) := by
  intro k hk
  obtain ⟨pre, post, -, hpre, heff, -⟩ := hist.exists_split hk
  rw [← hpre.frame.1] at hkinds hreads ⊢
  exact heff.asked hkinds hreads

/-- The record tells of a mapper how many calls wanted it. -/
theorem count_consulted (hkinds : ∀ m ∈ s₀.registry.mappers, m.declares = m.handles)
    (hreads : ∀ m ∈ s₀.registry.mappers, m.ReadsKind) (hm : m ∈ s₀.registry.mappers)
    (hist : History listing s₀ h s) :
    s.consulted.count m.consultation = s₀.consulted.count m.consultation + h.countP (·.Wants m) := by
  induction hist with
  | nil => simp
  | @snoc h s st a hist hs ih =>
    obtain ⟨hone, hnone⟩ := (hist.snoc hs).asked hkinds hreads ⟨s, st, a⟩ (by simp)
    rw [List.countP_append, List.countP_singleton, ← Nat.add_assoc, ← ih]
    by_cases hwants : ∃ m' ∈ s₀.registry.mappers, Call.Wants ⟨s, st, a⟩ m'
    · obtain ⟨m', hm', hw'⟩ := hwants
      rw [hone m' hm' hw', List.count_append, List.count_singleton]
      congr 1
      -- another mapper declares another kind, so its name in the record is another
      have hsame : m'.consultation = m.consultation ↔ Call.Wants ⟨s, st, a⟩ m := by
        constructor
        · intro he
          have hkind : m'.declares = m.declares := congrArg Consultation.kind he
          rwa [List.inj_on_of_nodup_map s₀.registry.distinct hm' hm hkind] at hw'
        · intro hw
          rw [hw.unique hm hm' hw']
      simp [hsame]
    · have hno : ∀ m' ∈ s₀.registry.mappers, ¬ Call.Wants ⟨s, st, a⟩ m' := fun m' hm' hw =>
        hwants ⟨m', hm', hw⟩
      rw [hnone hno]
      simp [hno m hm]

end History

/-- In every session whose mappers declare the kinds of their shapes and can read all
details of them, each call that returns asks the mapper that it wants once, whatever the
number of connections and of parents that they see, and no other mapper. A call that wants
a mapper is a start, and it wants one at most; so over the whole session a mapper was asked
as often as a start wanted it. -/
theorem mappers_asked_once {listing : Listing} {config : Config} {registry : Registry}
    {s₀ s : Session} {h : List Call} (h₀ : Session.new config registry = .ok s₀)
    (hkinds : ∀ m ∈ registry.mappers, m.declares = m.handles)
    (hreads : ∀ m ∈ registry.mappers, m.ReadsKind) (hist : History listing s₀ h s) :
    (∀ k ∈ h,
      (∀ m ∈ registry.mappers, k.Wants m →
        k.outcome.session.consulted = k.before.consulted ++ [m.consultation]) ∧
      ((∀ m ∈ registry.mappers, ¬ k.Wants m) →
        k.outcome.session.consulted = k.before.consulted) ∧
      (∀ m ∈ registry.mappers, ∀ m' ∈ registry.mappers, k.Wants m → k.Wants m' → m' = m) ∧
      (k.step.started? = none → ∀ m, ¬ k.Wants m)) ∧
    ∀ m ∈ registry.mappers, s.consulted.count m.consultation = h.countP (·.Wants m) := by
  have hregistry : s₀.registry = registry := (Session.fresh_of_new h₀).registry_eq
  subst hregistry
  refine ⟨fun k hk => ?_, fun m hm => ?_⟩
  · obtain ⟨hone, hnone⟩ := hist.asked hkinds hreads k hk
    refine ⟨hone, hnone, fun m hm m' hm' => Call.Wants.unique hm hm', ?_⟩
    rintro hst m ⟨x, hx, -⟩
    rw [hst] at hx
    exact absurd hx (by simp)
  · rw [hist.count_consulted hkinds hreads hm, Session.consulted_of_new h₀, List.count_nil,
      Nat.zero_add]

/-- Two clients see a task under two parents, and the mapper is asked once; a second
start, a task that nobody is left to ask for, and the ends ask nobody. -/
theorem mappers_asked_once_of_tasks :
    ∃ (registry : Registry) (s₀ s : Session) (h : List Call),
      Session.new default registry = .ok s₀ ∧ History .inOrder s₀ h s ∧
      Mapper.countingTask ∈ registry.mappers ∧ h.length = 11 ∧
      s.consulted.count Mapper.countingTask.consultation = 1 ∧
      h.countP (·.Wants .countingTask) = 1 := by
  let registry : Registry := ⟨[.countingTask, .workItem], by decide⟩
  let s₀ := sampleSessionWith registry
  let steps : List Step := [.connect ⟨"a"⟩ (.ofList [.task]), .connect ⟨"b"⟩ .all, .begin ⟨"x"⟩,
    .start 0 (sampleItem 1 none), .start 0 (sampleTask "Copy" 2 (some ⟨1⟩)),
    .start 0 (sampleTask "Copy" 2 none), .finish 0 ⟨⟨2⟩, default, .success⟩, .disconnect ⟨"a"⟩,
    .disconnect ⟨"b"⟩, .start 0 (sampleTask "Copy" 3 none), .close 0 .completed]
  have h₀ : Session.new default registry = .ok s₀ := rfl
  have hist := Session.history_calls .inOrder steps s₀
  have hkinds : ∀ m ∈ registry.mappers, m.declares = m.handles := by
    simp [registry, Mapper.countingTask, Mapper.workItem]
  have hreads : ∀ m ∈ registry.mappers, m.ReadsKind := by
    simpa [registry] using ⟨Mapper.readsKind_erase rfl, Mapper.readsKind_erase rfl⟩
  have hmem : Mapper.countingTask ∈ registry.mappers := List.mem_cons_self
  have hcount : (s₀.calls .inOrder steps).countP (·.Wants .countingTask) = 1 := by decide
  refine ⟨registry, s₀, _, _, h₀, hist, hmem, by decide, ?_, hcount⟩
  rw [(mappers_asked_once h₀ hkinds hreads hist).2 _ hmem, hcount]

/-- A mapper of compile tasks is not asked about a task of another class, although its
start wants the mapper. And a mapper that reads all tasks is not asked about a task
below work that started under itself: the start wants the mapper, and does not return. -/
theorem wanted_mappers_not_asked :
    (∃ (registry : Registry) (s₀ s : Session) (h : List Call),
      Session.new default registry = .ok s₀ ∧ History .inOrder s₀ h s ∧
      (∀ m ∈ registry.mappers, m.declares = m.handles) ∧ Mapper.compileTask ∈ registry.mappers ∧
      (∃ k ∈ h, k.Wants .compileTask ∧ k.outcome.session.consulted = k.before.consulted) ∧
      s.consulted = []) ∧
    ∃ (registry : Registry) (s₀ s : Session) (h : List Call) (b : Build) (op : StartSignal),
      Session.new default registry = .ok s₀ ∧ History .inOrder s₀ h s ∧
      (∀ m ∈ registry.mappers, m.declares = m.handles) ∧ Mapper.countingTask ∈ registry.mappers ∧
      s.build? 0 = some b ∧ b.Wants s.hub op .countingTask ∧
      s.step .inOrder (.start 0 op) = .error .endlessWalk ∧ s.consulted = [] := by
  constructor
  · let registry : Registry := ⟨[.compileTask], by decide⟩
    let s₀ := sampleSessionWith registry
    let steps : List Step := [.connect ⟨"a"⟩ (.ofList [.task]), .begin ⟨"x"⟩,
      .start 0 (sampleTask "Copy" 1 none)]
    have h₀ : Session.new default registry = .ok s₀ := rfl
    have hist := Session.history_calls .inOrder steps s₀
    have hkinds : ∀ m ∈ registry.mappers, m.declares = m.handles := by
      simp [registry, Mapper.compileTask]
    have hwants : ∃ k ∈ s₀.calls .inOrder steps,
        k.Wants .compileTask ∧ k.outcome.session.consulted = k.before.consulted := by decide
    exact ⟨registry, s₀, _, _, h₀, hist, hkinds, List.mem_cons_self, hwants, by decide⟩
  · let registry : Registry := ⟨[.countingTask], by decide⟩
    let s₀ := sampleSessionWith registry
    let steps : List Step := [.connect ⟨"a"⟩ (.ofList [.task]), .begin ⟨"x"⟩,
      .start 0 (samplePhase 1 (some ⟨1⟩))]
    let s := s₀.after .inOrder steps
    have h₀ : Session.new default registry = .ok s₀ := rfl
    have hist := Session.history_calls .inOrder steps s₀
    have hkinds : ∀ m ∈ registry.mappers, m.declares = m.handles := by
      simp [registry, Mapper.countingTask]
    let op := sampleTask "Copy" 2 (some ⟨1⟩)
    have hfacts : (s.build? 0).map (fun b => (decide (b.Wants s.hub op .countingTask),
        (b.start s.registry s.policy s.hub op).isNone)) = some (true, true) := by decide
    obtain ⟨b, hb, hfacts⟩ := Option.map_eq_some_iff.mp hfacts
    obtain ⟨hwants, hstart⟩ := Prod.mk.inj hfacts
    have hendless : s.step .inOrder (.start 0 op) = .error .endlessWalk :=
      (Session.start_eq_error_iff hb).mpr (Option.isNone_iff_eq_none.mp hstart)
    exact ⟨registry, s₀, s, _, b, _, h₀, hist, hkinds, List.mem_cons_self, hb,
      of_decide_eq_true hwants, hendless, by decide⟩

end BuildFeed
