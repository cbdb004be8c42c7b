/-
# What a client asked for

A connection is told of an operation by a start alone, and the start looks at
what the connection asked for and at the operations that are live. So an event
for a connection is of a type that its client asked for, also if it tells of an
end, because that goes where the start went (`History.event_requested`). The
parent that an event names is an operation that was live when its child
started, and of which the connection had been told (`History.start_shows`,
`History.event_stems`). Nothing is assumed of the scheduler: an id may be used
again, and a start or a finish may come twice or out of order.

Key definitions: `Shown`, `Stems`.
Key theorems: `Build.reached_of_resolve`, `History.start_shows`,
`History.event_stems`, `History.event_requested`, `events_as_asked`.
-/
import BuildFeed.Proofs.Session.Answers
import BuildFeed.Proofs.Session.Narrowing

namespace BuildFeed

/-! ### Parents that are found -/

namespace Build

variable {t : LiveTable} {slot : Nat} {p : OperationId}

/-- The walk stops at an operation that was published to the slot. -/
theorem reached_of_nearest : ∀ {steps : Nat} {parent : Option OperationId},
    nearest t slot steps parent = some (some p) → ∃ e, t.get? p = some e ∧ e.reached slot = true
  | steps, none, h => by simp [nearest] at h
  | steps, some x, h => by
    unfold nearest at h
    cases he : t.get? x with
    | none => simp [he] at h
    | some e =>
      cases hr : e.reached slot with
      | true =>
        simp only [he, hr, if_true, Option.some.injEq] at h
        exact ⟨e, h ▸ he, hr⟩
      | false =>
        cases steps with
        | zero => simp [he, hr] at h
        | succ steps =>
          simp only [he, hr, Bool.false_eq_true, if_false] at h
          exact reached_of_nearest h

/-- The parent that a slot sees is live and was published to it. -/
theorem reached_of_resolve {policy : ParentPolicy} {parent : Option OperationId}
    (h : resolve policy t slot parent = some (some p)) :
    ∃ e, t.get? p = some e ∧ e.reached slot = true := by
  cases policy with
  | nearestEnabledAncestor => exact reached_of_nearest h
  | ownParentOnly =>
    have hown : ownParent t slot parent = some p := Option.some.inj h
    cases parent with
    | none => simp [ownParent] at hown
    | some x =>
      rw [ownParent, Option.ite_none_right_eq_some, Option.some.injEq] at hown
      obtain ⟨hany, rfl⟩ := hown
      exact (Option.any_eq_true _ _).mp hany

end Build

/-! ### Where an event comes from -/

/-- An operation is live after a history, and the start that made it so told a
connection of it. -/
def Shown (i c : Nat) (h : List Call) (build : BuildId) (x : OperationId) : Prop :=
  ∃ k op d, Opened i h x k op ∧ .event build (.started op.startTime d) ∈ k.offered c ∧ d.id = x

/-- An event that a call offers a connection stems from a start in the same
build: the call itself, or, if the event tells of an end, the start that made
the operation live that the call finishes. The start had the id that the event
has and told the connection of the operation with the same descriptor, and the
parent in it was shown to the connection before. -/
def Stems (i c : Nat) (pre : List Call) (k : Call) (build : BuildId) (e : Event) : Prop :=
  ∃ before k₀ op,
    ((e.isStarted = true ∧ before = pre ∧ k₀ = k) ∨
      (e.isStarted = false ∧ (∃ f, k.step = .finish i f ∧ f.id = op.id) ∧
        ∃ after, pre = before ++ k₀ :: after ∧
          ∀ k' ∈ after, ∀ f, k'.step = .finish i f → f.id ≠ op.id)) ∧
      k₀.step = .start i op ∧ e.descriptor.id = op.id ∧
      .event build (.started op.startTime e.descriptor) ∈ k₀.offered c ∧
      ∀ p, e.descriptor.parent = some p → Shown i c before build p

namespace History

variable {listing : Listing} {config : Config} {registry : Registry} {s₀ s : Session}
  {pre post h : List Call} {k : Call} {i c : Nat} {m : Message} {build : BuildId} {e : Event}

/-- What a start offers a connection: news of the operation, which is of a type
that the connection asked for, and under a parent that was shown to it. -/
theorem start_shows (h₀ : s₀.Fresh config registry)
    (hm : ∀ m ∈ registry.mappers, m ∈ Mapper.builtIn)
    (hist : History listing s₀ (pre ++ k :: post) s) {op : StartSignal} (hst : k.step = .start i op)
    (hmsg : m ∈ k.offered c) :
    ∃ build d, m = .event build (.started op.startTime d) ∧ d.id = op.id ∧
      (∃ subs, k.before.hub.subscriptions? c = some subs ∧ subs.requests d.operationType = true) ∧
      ∀ p, d.parent = some p → Shown i c pre build p := by
  have hu : ∀ m ∈ registry.mappers, m.Uniform := fun m h => Mapper.uniform_of_mem_builtIn (hm m h)
  have hf : ∀ m ∈ registry.mappers, m.Faithful := fun m h => (hu m h).faithful
  obtain ⟨hpre, hstep, -⟩ := hist.split
  rw [hst] at hstep
  obtain ⟨b, t, hb, ht, -, ho⟩ := (Session.step_eq_ok.mp hstep).of_start
  rw [Call.offered, ho] at hmsg
  have hreg : k.before.registry = registry := (hpre.settings h₀).1
  rw [hreg] at ht
  obtain ⟨hc, e, sh, hrec, hshown, rfl⟩ :=
    Build.records_of_start hf (hpre.sound h₀.sound i b hb) ht hmsg
  have hmade : sh.Made registry op := hrec.made _ sh hshown
  have hshows := (hrec.shows_iff hu _ sh).mp hshown
  have hev : sh.started b.id = .event b.id (.started op.startTime sh.descriptor) := by
    rw [Showing.started, hmade.op_eq]
  refine ⟨b.id, sh.descriptor, hev, hmade.id_eq hu, ?_, ?_⟩
  · obtain ⟨-, subs, hsubs, -⟩ := Build.slotOf_mem_targets.mp hshows.target
    exact ⟨subs, hsubs, hshows.requested hm hsubs⟩
  · -- the parent is live, and what is kept of it was offered by its start
    intro p hp
    have hres := hrec.sees _ sh hshown
    rw [hp] at hres
    obtain ⟨e', he', hreached⟩ := Build.reached_of_resolve hres
    obtain ⟨k₁, op₁, hopened, -, hoff, hmade₁⟩ := (hpre.reflects h₀ hf hb hc).opened p e' he'
    rw [Entry.reached_eq, Option.isSome_iff_exists] at hreached
    obtain ⟨sh₁, hsh₁⟩ := hreached
    have hmade₁ := hmade₁ _ sh₁ hsh₁
    refine ⟨k₁, op₁, sh₁.descriptor, hopened, ?_, (hmade₁.id_eq hu).trans hopened.id_eq⟩
    rw [hoff c, hsh₁, ← hmade₁.op_eq]
    exact List.mem_singleton_self _

/-- An event stems from a start. -/
theorem event_stems (h₀ : s₀.Fresh config registry)
    (hm : ∀ m ∈ registry.mappers, m ∈ Mapper.builtIn)
    (hist : History listing s₀ (pre ++ k :: post) s) (hmsg : .event build e ∈ k.offered c) :
    ∃ i, Stems i c pre k build e := by
  have hu : ∀ m ∈ registry.mappers, m.Uniform := fun m h => Mapper.uniform_of_mem_builtIn (hm m h)
  have hf : ∀ m ∈ registry.mappers, m.Faithful := fun m h => (hu m h).faithful
  obtain ⟨i, -, hi, -⟩ := hist.made_by h₀ hmsg
  refine ⟨i, ?_⟩
  by_cases hst : ∃ op, k.step = .start i op
  · obtain ⟨op, hst⟩ := hst
    obtain ⟨build', d, hev, hid, -, hpar⟩ := hist.start_shows h₀ hm hst hmsg
    obtain ⟨rfl, rfl⟩ := Message.event.inj hev
    exact ⟨pre, k, op, Or.inl ⟨rfl, rfl, rfl⟩, hst, hid, hmsg, hpar⟩
  · by_cases hfin : ∃ f, k.step = .finish i f
    · obtain ⟨f, hfin⟩ := hfin
      obtain ⟨build', k₀, op, sh, hopened, hoff, hmade, hsh⟩ := hist.finish_call h₀ hf hfin hmsg
      obtain ⟨r, task, hev⟩ := hmade.finished_eq hu hsh
      obtain ⟨rfl, rfl⟩ := Message.event.inj hev
      obtain ⟨before, after, hpre, hst₀, hid, -, hafter⟩ := hopened
      -- the start that is answered is a call of the history too
      have hist₀ : History listing s₀ (before ++ k₀ :: (after ++ k :: post)) s := by
        rw [hpre, List.append_assoc, List.cons_append] at hist
        exact hist
      obtain ⟨build₁, d, hev₀, hdid, -, hpar⟩ := hist₀.start_shows h₀ hm hst₀ hoff
      obtain ⟨rfl, hev₁⟩ := Message.event.inj hev₀
      obtain ⟨-, rfl⟩ := Event.started.inj hev₁
      refine ⟨before, k₀, op, Or.inr ⟨rfl, ⟨f, hfin, hid.symm⟩, after, hpre, hid ▸ hafter⟩,
        hst₀, hdid,
        ?_, hpar⟩
      show .event build (.started op.startTime sh.descriptor) ∈ k₀.offered c
      rw [← hev₀]
      exact hoff
    · have hnone :=
      hist.end_call h₀ hi (fun op hop => hst ⟨op, hop⟩) (fun f hop => hfin ⟨f, hop⟩) hmsg
      exact absurd hnone (by simp [Message.event?])

/-- An event is of a type that its connection asked for. -/
theorem event_requested (h₀ : s₀.Fresh config registry)
    (hm : ∀ m ∈ registry.mappers, m ∈ Mapper.builtIn) (hist : History listing s₀ h s)
    (hmsg : .event build e ∈ offeredTo c h) :
    ∃ x, s.hub.connections[c]? = some x ∧
      x.subscriptions.requests e.descriptor.operationType = true := by
  obtain ⟨pre, k, post, rfl, hk⟩ := exists_call_of_offered hmsg
  obtain ⟨i, before, k₀, op, hwhen, hst₀, -, hoff, -⟩ := hist.event_stems h₀ hm hk
  obtain ⟨before', after, hsplit⟩ : ∃ before' after, pre ++ k :: post = before' ++ k₀ :: after := by
    rcases hwhen with ⟨-, rfl, rfl⟩ | ⟨-, -, after, rfl, -⟩
    · exact ⟨before, post, rfl⟩
    · exact ⟨before, after ++ k :: post, by simp⟩
  rw [hsplit] at hist
  obtain ⟨build', d, hev, -, ⟨subs, hsubs, hreq⟩, -⟩ := hist.start_shows h₀ hm hst₀ hoff
  obtain ⟨-, hev⟩ := Message.event.inj hev
  obtain ⟨-, hd⟩ := Event.started.inj hev
  -- the connection still has the subscriptions that it had at the start
  obtain ⟨hpre, hstep, hpost⟩ := hist.split
  unfold Hub.subscriptions? at hsubs
  obtain ⟨x, hx, hsubs⟩ := Option.bind_eq_some_iff.mp hsubs
  obtain ⟨-, hsubs⟩ := Option.ite_none_right_eq_some.mp hsubs
  obtain rfl := Option.some.inj hsubs
  have hrest : History listing k₀.before ([k₀] ++ after) s := (History.single hstep).append hpost
  obtain ⟨y, hy, hkept⟩ := hrest.keeps_connection (hpre.sound h₀.sound) hx
  exact ⟨y, hy, by rw [hkept, hd]; exact hreq⟩

end History

/-! ### Whole sessions -/

/-- In every session with the built-in mappers an event for a connection is of a
type that its client asked for, and it stems from a start: it has the id that
the start had, and the parent that it names is an operation of which the
connection had been told and which was not finished when the child started. A
client that asked for nothing is sent no event. What comes into a queue is what
is offered, up to a point, and as long as the stream is held it is what was read and
what is queued. -/
theorem events_as_asked {listing : Listing} {config : Config} {registry : Registry}
    {s₀ s : Session} {h : List Call} (h₀ : Session.new config registry = .ok s₀)
    (hm : ∀ m ∈ registry.mappers, m ∈ Mapper.builtIn) (hist : History listing s₀ h s) (c : Nat) :
    (∀ build e, .event build e ∈ offeredTo c h →
      ∃ x, s.hub.connections[c]? = some x ∧
        x.subscriptions.requests e.descriptor.operationType = true) ∧
      (∀ x, s.hub.connections[c]? = some x → x.subscriptions.isEmpty = true →
        ∀ build e, .event build e ∉ offeredTo c h) ∧
      (∀ pre k post build e, h = pre ++ k :: post → .event build e ∈ k.offered c →
        ∃ i, Stems i c pre k build e) ∧
      acceptedBy c h <+: offeredTo c h ∧
      ∀ x, s.hub.connections[c]? = some x → x.held = true → acceptedBy c h = readBy c h ++ x.queue := by
  have hfresh := Session.fresh_of_new h₀
  have hasked : ∀ build e, .event build e ∈ offeredTo c h → ∃ x, s.hub.connections[c]? = some x ∧
      x.subscriptions.requests e.descriptor.operationType = true := fun build e hmsg =>
    hist.event_requested hfresh hm hmsg
  refine ⟨hasked, ?_, ?_, (hist.acceptedBy_first hfresh.sound c).1,
    fun x hx hheld => hist.acceptedBy_eq hfresh hx hheld⟩
  · intro x hx hempty build e hmsg
    obtain ⟨y, hy, hreq⟩ := hasked build e hmsg
    obtain rfl := Option.some.inj (hx.symm.trans hy)
    rw [SubscriptionSet.not_requests_of_isEmpty hempty] at hreq
    exact absurd hreq (by simp)
  · rintro pre k post build e rfl hmsg
    exact hist.event_stems hfresh hm hmsg

/-- One client asks for work items and another for nothing. An item is started
under work that nobody asked for, below an item whose id was used before. -/
theorem events_as_asked_of_reuse :
    ∃ (s₀ s : Session) (h : List Call),
      Session.new default .builtIn = .ok s₀ ∧ History .inOrder s₀ h s ∧
      (acceptedBy 0 h).length = 5 ∧ acceptedBy 1 h = [] ∧ ∀ c,
      (∀ build e, .event build e ∈ offeredTo c h →
        ∃ x, s.hub.connections[c]? = some x ∧
          x.subscriptions.requests e.descriptor.operationType = true) ∧
        (∀ x, s.hub.connections[c]? = some x → x.subscriptions.isEmpty = true →
          ∀ build e, .event build e ∉ offeredTo c h) ∧
        (∀ pre k post build e, h = pre ++ k :: post → .event build e ∈ k.offered c →
          ∃ i, Stems i c pre k build e) ∧
        acceptedBy c h <+: offeredTo c h ∧
        ∀ x, s.hub.connections[c]? = some x → x.held = true →
          acceptedBy c h = readBy c h ++ x.queue :=
  let s₀ := sampleSession .nearestEnabledAncestor 1024
  let steps : List Step :=
    [.connect ⟨"a"⟩ (.ofList [.workItem]), .connect ⟨"b"⟩ .none, .begin ⟨"x"⟩,
    .start 0 (sampleItem 1 none), .finish 0 ⟨⟨1⟩, default, .success⟩, .start 0 (sampleItem 1 none),
    .start 0 (samplePhase 2 (some ⟨1⟩)), .start 0 (sampleItem 3 (some ⟨2⟩)),
    .start 0 (sampleItem 3 none), .finish 0 ⟨⟨3⟩, default, .success⟩]
  have h₀ : Session.new default .builtIn = .ok s₀ := rfl
  have hist := Session.history_calls .inOrder steps s₀
  ⟨s₀, _, _, h₀, hist, by decide, by decide, events_as_asked h₀ (fun _ hm => hm) hist⟩

end BuildFeed
