/-
# Where the calls on a build end

A start and a finish have exits with an error that lie behind part of their
work: the event of a delivery may not be made when other deliveries have been
served and the operation is already forgotten, and an operation may have become
live since it was looked up. `Build.startVia` and `Build.finishVia` are the two
calls with the exit that they take beside the outcome; without it they are the
calls (`Build.map_snd_startVia`, `Build.snd_finishVia`).

These exits are never taken (`Build.exit_of_startVia`,
`Build.exit_of_finishVia`). A mapper that made a descriptor has read the details
of the operation, and all events of the operation are made by this mapper from
these details, those of its end too, because both are kept with the operation.
So an error of a mapper comes before anything has changed. That a mapper cannot
read an operation shows that it declares another kind than that of its shape, or
that its shape leaves out details of the kind; a declaration alone does not
prevent it (`declared_mapper_misrouted`).

Key definitions: `StartExit`, `FinishExit`, `Build.startVia`, `Build.finishVia`,
`ErrorsComeEarly`.
Key theorems: `Build.map_snd_startVia`, `Build.snd_finishVia`,
`Build.exit_of_startVia`, `Build.exit_of_finishVia`, `errors_come_early`.
-/
import BuildFeed.Mapper.Custom
import BuildFeed.Proofs.Mapper.Routing
import BuildFeed.Proofs.Session.History

namespace BuildFeed

/-! ### Exits -/

/-- Where a start ends. -/
inductive StartExit
  /-- The build has ended. -/
  | ended
  /-- An operation of that id is live. -/
  | live
  /-- No mapper declares the kind of the details. -/
  | unrouted
  /-- The mapper serves none of the connections. -/
  | unwanted
  /-- The mapper cannot read the details, and is not asked for a descriptor. -/
  | misrouted
  /-- The mapper answers with an error. -/
  | refused
  /-- The mapper answers with no descriptor. -/
  | declined
  /-- The event of a delivery cannot be made. -/
  | unmade
  /-- An operation of that id has become live since it was looked up. -/
  | overtaken
  | published
  deriving Repr, DecidableEq, Inhabited

/-- Where a finish ends. -/
inductive FinishExit
  /-- The build has ended. -/
  | ended
  /-- No operation of that id is live. -/
  | unknown
  | suppressed
  /-- The event of a delivery cannot be made, and the rest is not served. -/
  | unmade
  /-- All deliveries are served. -/
  | served
  deriving Repr, DecidableEq, Inhabited

namespace Build

/-- Publishes an operation as `Build.publish` does, and tells where that ends. -/
def publishVia (b : Build) (m : Mapper) (op : StartSignal) (first : Option OperationId)
    (groups : List Group) : StartExit × Turn :=
  match m.dataOf op with
  | .error e => (.misrouted, ⟨b, .error e, [], []⟩)
  | .ok data =>
    match m.describe data op first with
    | .error e => (.refused, ⟨b, .error e, [], [m.consultation]⟩)
    | .ok none => (.declined, ⟨b.suppress op, .ok (), [], [m.consultation]⟩)
    | .ok (some d) =>
      let ds := deliveries d first groups
      match b.startedOffers m op ds with
      | .error e => (.unmade, ⟨b, .error e, [], [m.consultation]⟩)
      | .ok offers =>
        if b.live.contains op.id then
          (.overtaken, ⟨b, .error (b.startedTwice op.id), [], [m.consultation]⟩)
        else
          (.published, ⟨{ b with live := b.live.insert op.id (.published m op ds) }, .ok (), offers,
            [m.consultation]⟩)

/-- Starts an operation as `Build.start` does, and tells where that ends. -/
def startVia (registry : Registry) (policy : ParentPolicy) (hub : Hub) (op : StartSignal)
    (b : Build) : Option (StartExit × Turn) :=
  if b.closed then some (.ended, b.quiet (.ok ()))
  else if b.live.contains op.id then some (.live, b.quiet (.error (b.startedTwice op.id)))
  else
    match registry.lookup op.details.kind with
    | none => some (.unrouted, (b.suppress op).quiet (.ok ()))
    | some m =>
      match resolveAll policy b.live op.parent (b.targets hub m) with
      | none => none
      | some ps =>
        match group ps with
        | [] => some (.unwanted, (b.suppress op).quiet (.ok ()))
        | (first, slots) :: rest => some (b.publishVia m op first ((first, slots) :: rest))

/-- Finishes an operation as `Build.finish` does, and tells where that ends. -/
def finishVia (hub : Hub) (f : FinishSignal) (b : Build) : FinishExit × Turn :=
  if b.closed then (.ended, b.quiet (.ok ()))
  else
    let rest := { b with live := b.live.erase f.id }
    match b.live.get? f.id with
    | none => (.unknown, b.quiet (.ok ()))
    | some (.suppressed _) => (.suppressed, rest.quiet (.ok ()))
    | some (.published m op ds) =>
      match b.finishedOffers hub m op f ds with
      | (offers, .error e) => (.unmade, ⟨rest, .error e, offers, []⟩)
      | (offers, .ok ()) => (.served, ⟨rest, .ok (), offers, []⟩)

section Via

variable {registry : Registry} {policy : ParentPolicy} {hub : Hub} {b : Build} {op : StartSignal}
  {m : Mapper} {x : StartExit} {t : Turn}

theorem snd_publishVia (b : Build) (m : Mapper) (op : StartSignal) (first : Option OperationId)
    (groups : List Group) : (b.publishVia m op first groups).2 = b.publish m op first groups := by
  unfold publishVia publish Mapper.consult
  cases m.dataOf op with
  | error e => rfl
  | ok data =>
    simp only
    cases m.describe data op first with
    | error e => rfl
    | ok o =>
      cases o with
      | none => rfl
      | some d =>
        simp only
        cases b.startedOffers m op (deliveries d first groups) with
        | error e => rfl
        | ok offers =>
          simp only
          split <;> rfl

/-- Without the exit it is the start. -/
theorem map_snd_startVia (registry : Registry) (policy : ParentPolicy) (hub : Hub) (op : StartSignal)
    (b : Build) : (b.startVia registry policy hub op).map (·.2) = b.start registry policy hub op := by
  unfold startVia start
  split
  · rfl
  · split
    · rfl
    · cases registry.lookup op.details.kind with
      | none => rfl
      | some m =>
        simp only
        cases resolveAll policy b.live op.parent (b.targets hub m) with
        | none => rfl
        | some ps =>
          simp only
          cases group ps with
          | nil => rfl
          | cons g rest => exact congrArg some (b.snd_publishVia m op g.1 (g :: rest))

/-- Without the exit it is the finish. -/
theorem snd_finishVia (hub : Hub) (f : FinishSignal) (b : Build) :
    (b.finishVia hub f).2 = b.finish hub f := by
  unfold finishVia finish
  split
  · rfl
  · cases b.live.get? f.id with
    | none => rfl
    | some e =>
      cases e with
      | suppressed p => rfl
      | published m op ds =>
        simp only
        obtain ⟨offers, result⟩ := b.finishedOffers hub m op f ds
        cases result <;> rfl

/-- Once the mapper has read the details, every event can be made, and the operation
is not live if it was not before. -/
theorem exit_of_publishVia (hl : b.live.contains op.id = false) (first : Option OperationId)
    (groups : List Group) :
    (b.publishVia m op first groups).1 ≠ .unmade ∧ (b.publishVia m op first groups).1 ≠ .overtaken ∧
      ((b.publishVia m op first groups).1 = .misrouted → ∃ e, m.dataOf op = .error e) := by
  unfold publishVia
  cases hd : m.dataOf op with
  | error e => simp
  | ok data =>
    simp only
    cases m.describe data op first with
    | error e => simp
    | ok o =>
      cases o with
      | none => simp
      | some d => simp [startedOffers_of_dataOf b hd, hl]

/-- A start takes no exit with an error behind the answer of the mapper; if it ends
because the details cannot be read, the mapper declares another kind than that of its
shape, or its shape leaves out details of the kind. -/
theorem exit_of_startVia (h : b.startVia registry policy hub op = some (x, t)) :
    x ≠ .unmade ∧ x ≠ .overtaken ∧
      (x = .misrouted → ∃ m ∈ registry.mappers, m.declares = op.details.kind ∧
        m.reads op.details = false ∧ (m.declares = m.handles → ¬ m.ReadsKind)) := by
  unfold startVia at h
  split at h
  · obtain ⟨rfl, -⟩ := Prod.mk.inj (Option.some.inj h)
    simp
  · rename_i ho
    split at h
    · obtain ⟨rfl, -⟩ := Prod.mk.inj (Option.some.inj h)
      simp
    · rename_i hl
      cases hm : registry.lookup op.details.kind with
      | none =>
        simp only [hm, Option.some.injEq, Prod.mk.injEq] at h
        obtain ⟨rfl, -⟩ := h
        simp
      | some m =>
        simp only [hm] at h
        cases hp : resolveAll policy b.live op.parent (b.targets hub m) with
        | none => simp [hp] at h
        | some ps =>
          simp only [hp] at h
          cases hg : group ps with
          | nil =>
            simp only [hg, Option.some.injEq, Prod.mk.injEq] at h
            obtain ⟨rfl, -⟩ := h
            simp
          | cons g rest =>
            simp only [hg, Option.some.injEq] at h
            obtain ⟨hunmade, hovertaken, hmisrouted⟩ :=
              exit_of_publishVia (m := m) (Bool.eq_false_iff.mpr hl) g.1 (g :: rest)
            rw [h] at hunmade hovertaken hmisrouted
            refine ⟨hunmade, hovertaken, fun hx => ?_⟩
            obtain ⟨e, he⟩ := hmisrouted hx
            obtain ⟨hmem, hkind⟩ := Registry.lookup_eq_some_iff.mp hm
            exact ⟨m, hmem, hkind, Registry.unread_of_lookup hm he⟩

/-- A finish serves all deliveries of an operation that was published. -/
theorem exit_of_finishVia (hub : Hub) (f : FinishSignal) (hs : b.Sound) :
    (b.finishVia hub f).1 ≠ .unmade := by
  unfold finishVia
  split
  · simp
  · cases hl : b.live.get? f.id with
    | none => simp
    | some e =>
      cases e with
      | suppressed p => simp
      | published m op ds =>
        obtain ⟨⟨data, hd⟩, -⟩ := entry_sound hs hl
        simp [finishedOffers_of_dataOf b hub hd]

end Via

/-- A start that is answered with an internal error was routed to a mapper that is not
built in. -/
theorem routed_of_internal {registry : Registry} {policy : ParentPolicy} {hub : Hub} {b : Build}
    {op : StartSignal} {t : Turn} (h : b.start registry policy hub op = some t) {message : String}
    (hinternal : t.result = .error (.internal message)) :
    ∃ m, registry.lookup op.details.kind = some m ∧ m ∉ Mapper.builtIn := by
  cases startCase_of_start h with
  | again => simp [quiet, startedTwice, Error.startedTwice] at hinternal
  | @refused m first e _ _ hroute _ he =>
    refine ⟨m, hroute, fun hbuiltIn => ?_⟩
    obtain ⟨hdeclares, hreads⟩ := Mapper.readsKind_of_mem_builtIn hbuiltIn
    obtain ⟨data, hd⟩ := Registry.exists_data_of_lookup hroute hdeclares hreads
    obtain ⟨category, rfl⟩ := Mapper.consult_error_of_mem_builtIn hbuiltIn hd he
    simp at hinternal
  | _ => simp [quiet] at hinternal

end Build

/-! ### Whole sessions -/

/-- Errors of the calls on a build come before anything has changed. -/
structure ErrorsComeEarly (listing : Listing) (s : Session) (i : Nat) (b : Build) : Prop where
  /-- Every finish returns without an error. -/
  finish_ok : ∀ f, ∃ a, s.step listing (.finish i f) = .ok a ∧ a.reply = .signalled (.ok ())
  finish_exit : ∀ f, (b.finishVia s.hub f).2 = b.finish s.hub f ∧ (b.finishVia s.hub f).1 ≠ .unmade
  start_via : ∀ op, (b.startVia s.registry s.policy s.hub op).map (·.2) =
    b.start s.registry s.policy s.hub op
  start_exit : ∀ op x t, b.startVia s.registry s.policy s.hub op = some (x, t) →
    x ≠ .unmade ∧ x ≠ .overtaken
  /-- If the details of an operation cannot be read, they were routed to a mapper that is
  written for another kind, or not for all details of the kind. -/
  misrouted : ∀ op t, b.startVia s.registry s.policy s.hub op = some (.misrouted, t) →
    ∃ m ∈ s.registry.mappers, m.declares = op.details.kind ∧ m.reads op.details = false ∧
      (m.declares = m.handles → ¬ m.ReadsKind)
  /-- The mapper of a live operation can read its details. -/
  readable : ∀ x m op ds, b.live.get? x = some (.published m op ds) → ∃ data, m.dataOf op = .ok data

/-- In every session, whatever its mappers declare, no call ends at one of the late
errors, and a finish always returns without an error. If all mappers declare the
kinds of their shapes, and their shapes match all details of these kinds, none is ever
handed details that it cannot read. And an internal error, whatever other mappers there
are, is never caused by a built-in one. -/
theorem errors_come_early {listing : Listing} {config : Config} {registry : Registry}
    {s₀ s : Session} {h : List Call} (h₀ : Session.new config registry = .ok s₀)
    (hist : History listing s₀ h s) :
    (∀ i b, s.build? i = some b → ErrorsComeEarly listing s i b) ∧
    ((∀ m ∈ registry.mappers, m.declares = m.handles) → (∀ m ∈ registry.mappers, m.ReadsKind) →
      ∀ i b op x t, s.build? i = some b → b.startVia s.registry s.policy s.hub op = some (x, t) →
        x ≠ .misrouted) ∧
    ∀ st a message, s.step listing st = .ok a → a.reply = .signalled (.error (.internal message)) →
      ∃ i op m, st = .start i op ∧ registry.lookup op.details.kind = some m ∧
        m ∉ Mapper.builtIn := by
  have hfresh := Session.fresh_of_new h₀
  have hregistry := (hist.settings hfresh).1
  have hsound := hist.sound hfresh.sound
  refine ⟨fun i b hb => ?_, fun hkinds hreads i b op x t hb hvia hx => ?_,
    fun st a message hstep hinternal => ?_⟩
  · constructor
    case finish_ok =>
      intro f
      refine ⟨_, Session.step_eq_ok.mpr (.finish hb), ?_⟩
      exact congrArg Reply.signalled (Build.finish_result (hsound i b hb))
    case finish_exit =>
      exact fun f => ⟨Build.snd_finishVia .., Build.exit_of_finishVia _ f (hsound i b hb)⟩
    case start_via => exact fun op => Build.map_snd_startVia ..
    case start_exit =>
      intro op x t hvia
      obtain ⟨hunmade, hovertaken, -⟩ := Build.exit_of_startVia hvia
      exact ⟨hunmade, hovertaken⟩
    case misrouted => exact fun op t hvia => (Build.exit_of_startVia hvia).2.2 rfl
    case readable => exact fun x m op ds hl => (Build.entry_sound (hsound i b hb) hl).1
  · obtain ⟨m, hm, -, -, hne⟩ := (Build.exit_of_startVia hvia).2.2 hx
    have hm : m ∈ registry.mappers := hregistry ▸ hm
    exact hne (hkinds m hm) (hreads m hm)
  · cases Session.step_eq_ok.mp hstep with
    | @start i op b t hb ht =>
      obtain ⟨m, hroute, hm⟩ := Build.routed_of_internal ht (Reply.signalled.inj hinternal)
      exact ⟨i, op, m, rfl, hregistry ▸ hroute, hm⟩
    | finish hb => simp [Build.finish_result (hsound _ _ hb)] at hinternal
    | _ => simp at hinternal

/-- Work items are reported while build work is routed to a mapper of tasks, and the
built-in mappers report a work item under a phase. -/
theorem errors_come_early_misrouted :
    (∃ (registry : Registry) (s₀ s : Session) (h : List Call) (b : Build) (t : Turn),
      Session.new default registry = .ok s₀ ∧ History .inOrder s₀ h s ∧ s.build? 0 = some b ∧
      b.state ⟨1⟩ = .started ∧
      b.startVia s.registry s.policy s.hub (samplePhase 2 (some ⟨1⟩)) = some (.misrouted, t) ∧
      ErrorsComeEarly .inOrder s 0 b) ∧
    ∃ (s₀ s : Session) (h : List Call) (b : Build), Session.new default .builtIn = .ok s₀ ∧
      History .inOrder s₀ h s ∧ s.build? 0 = some b ∧ b.inFlight = 2 ∧
      (∀ op x t, b.startVia s.registry s.policy s.hub op = some (x, t) → x ≠ .misrouted) ∧
      ∀ st a message, s.step .inOrder st = .ok a → a.reply ≠ .signalled (.error (.internal message)) := by
  constructor
  · let registry : Registry := ⟨[.misroutedTask, .workItem], by decide⟩
    let s₀ := sampleSessionWith registry
    let steps : List Step := [.connect ⟨"a"⟩ .all, .begin ⟨"x"⟩, .start 0 (sampleItem 1 none)]
    let s := s₀.after .inOrder steps
    have h₀ : Session.new default registry = .ok s₀ := rfl
    have hist := Session.history_calls .inOrder steps s₀
    have hfacts : (s.build? 0).map (fun b => (b.state ⟨1⟩,
        (b.startVia s.registry s.policy s.hub (samplePhase 2 (some ⟨1⟩))).map (·.1))) =
          some (.started, some .misrouted) := by decide
    obtain ⟨b, hb, hfacts⟩ := Option.map_eq_some_iff.mp hfacts
    obtain ⟨hstate, hvia⟩ := Prod.mk.inj hfacts
    obtain ⟨⟨x, t⟩, hvia, rfl⟩ := Option.map_eq_some_iff.mp hvia
    exact ⟨registry, s₀, s, _, b, t, h₀, hist, hb, hstate, hvia, (errors_come_early h₀ hist).1 0 b hb⟩
  · let s₀ := sampleSession .nearestEnabledAncestor 1024
    let steps : List Step := [.connect ⟨"a"⟩ .all, .begin ⟨"x"⟩, .start 0 (samplePhase 1 none),
      .start 0 (sampleItem 2 (some ⟨1⟩))]
    have h₀ : Session.new default .builtIn = .ok s₀ := rfl
    have hist := Session.history_calls .inOrder steps s₀
    have hcount : ((s₀.after .inOrder steps).build? 0).map Build.inFlight = some 2 := by decide
    obtain ⟨b, hb, hcount⟩ := Option.map_eq_some_iff.mp hcount
    obtain ⟨-, hrouted, hinternal⟩ := errors_come_early h₀ hist
    have hkinds : ∀ m ∈ Registry.builtIn.mappers, m.declares = m.handles := fun _ hm =>
      (Mapper.readsKind_of_mem_builtIn hm).1
    have hreads : ∀ m ∈ Registry.builtIn.mappers, m.ReadsKind := fun _ hm =>
      (Mapper.readsKind_of_mem_builtIn hm).2
    refine ⟨s₀, _, _, b, h₀, hist, hb, hcount, fun op x t => hrouted hkinds hreads 0 b op x t hb,
      fun st a message hstep hreply => ?_⟩
    obtain ⟨i, op, m, -, hroute, hm⟩ := hinternal st a message hstep hreply
    exact hm (Build.lookup_mem hroute)

/-- A mapper of compile tasks declares the kind of its shape. It is handed a task of
another class and cannot read it, and the start ends with an internal error. -/
theorem declared_mapper_misrouted :
    ∃ (registry : Registry) (s₀ s : Session) (h : List Call) (b : Build) (op : StartSignal)
        (t : Turn),
      Session.new default registry = .ok s₀ ∧ History .inOrder s₀ h s ∧
      (∀ m ∈ registry.mappers, m.declares = m.handles) ∧ s.build? 0 = some b ∧
      b.startVia s.registry s.policy s.hub op = some (.misrouted, t) ∧
      t.result =
        .error (.internal "CompileTaskMapper was routed ExecuteTask details for operation 1") := by
  let registry : Registry := ⟨[.compileTask], by decide⟩
  let s₀ := sampleSessionWith registry
  let steps : List Step := [.connect ⟨"a"⟩ (.ofList [.task]), .begin ⟨"x"⟩]
  let s := s₀.after .inOrder steps
  let op := sampleTask "Copy" 1 none
  have h₀ : Session.new default registry = .ok s₀ := rfl
  have hist := Session.history_calls .inOrder steps s₀
  have hkinds : ∀ m ∈ registry.mappers, m.declares = m.handles := by
    simp [registry, Mapper.compileTask]
  have hfacts : (s.build? 0).map (fun b =>
      (b.startVia s.registry s.policy s.hub op).map fun v => (v.1, v.2.result)) =
      some (some (.misrouted, .error (.misrouted "CompileTaskMapper" "ExecuteTask" "1"))) := by
    decide +kernel
  obtain ⟨b, hb, hfacts⟩ := Option.map_eq_some_iff.mp hfacts
  obtain ⟨⟨x, t⟩, hvia, hresult⟩ := Option.map_eq_some_iff.mp hfacts
  obtain ⟨rfl, hresult⟩ := Prod.mk.inj hresult
  exact ⟨registry, s₀, s, _, b, op, t, h₀, hist, hkinds, hb, hvia, hresult⟩

end BuildFeed
