/-
# Ends answer starts

A scheduler may start an operation twice, or finish it twice or never, and
it may use an id again after the finish. Whatever it does, what a build keeps
of a live operation for a connection is the last news of that operation that
the connection was offered (`Build.Recalls`): a start inserts the entry and
tells of it, a finish tells of the entry and erases it, and other calls do
neither. A finished event is made of what is kept, so that the news before it
is the start that it answers (`History.finish_answers`).

Key definitions: `newsOf`, `Build.Recalls`, `Answers`, `EndsAnswered`.
Key theorems: `History.recalls`, `History.finish_answers`,
`finished_answers_started`.
-/
import BuildFeed.Proofs.Session.Builds

namespace BuildFeed

open Time

/-! ### News of an operation -/

/-- The news of an operation of a build among messages, in order. -/
def newsOf (build : BuildId) (x : OperationId) (ms : List Message) : List Event :=
  ((messagesOf build ms).filterMap Message.event?).filter fun e => decide (e.descriptor.id = x)

section NewsOf

variable {build : BuildId} {x : OperationId} {ms : List Message} {e : Event}

@[simp] theorem newsOf_append (build : BuildId) (x : OperationId) (ms ms' : List Message) :
    newsOf build x (ms ++ ms') = newsOf build x ms ++ newsOf build x ms' := by
  simp [newsOf]

theorem newsOf_of_messagesOf_nil (h : messagesOf build ms = []) : newsOf build x ms = [] := by
  simp [newsOf, h]

theorem newsOf_singleton (h : e.descriptor.id = x) : newsOf build x [.event build e] = [e] := by
  simp [newsOf, messagesOf, Message.build, Message.event?, h]

/-- Events of other operations are no news of an operation. -/
theorem newsOf_eq_nil (h : ∀ e, .event build e ∈ ms → e.descriptor.id ≠ x) :
    newsOf build x ms = [] := by
  rw [newsOf, List.filter_eq_nil_iff]
  intro e he
  obtain ⟨m, hm, hev⟩ := List.mem_filterMap.mp he
  obtain ⟨hms, hbuild⟩ := mem_messagesOf.mp hm
  cases m with
  | endOfStream => exact absurd hev (by simp [Message.event?])
  | event build' e' =>
    obtain rfl : build' = build := hbuild
    obtain rfl : e' = e := Option.some.inj hev
    have hne : e'.descriptor.id ≠ x := h e' hms
    simpa using hne

end NewsOf

/-! ### What a build recalls -/

/-- What a build keeps of a live operation for a connection is the last news of
the operation that the connection was offered. -/
def Build.Recalls (b : Build) (c : Nat) (h : List Call) : Prop :=
  ∀ x e sh, b.live.get? x = some e → e.shown (b.slotOf c) = some sh →
    ∃ es, newsOf b.id x (offeredTo c h) = es ++ [.started sh.op.startTime sh.descriptor]

namespace Build.Recalls

variable {registry : Registry} {i c : Nat} {h : List Call} {k : Call} {b b' : Build}

/-- It is enough that a call tells nothing of an operation that it leaves live,
and tells the start of one that it makes live. -/
theorem snoc (hrec : b.Recalls c h) (hid : b'.id = b.id) (hslot : b'.slotOf c = b.slotOf c)
    (hnew : ∀ x e sh, b'.live.get? x = some e → e.shown (b.slotOf c) = some sh →
      (b.live.get? x = some e ∧ newsOf b.id x (k.offered c) = []) ∨
        newsOf b.id x (k.offered c) = [.started sh.op.startTime sh.descriptor]) :
    b'.Recalls c (h ++ [k]) := by
  intro x e sh he hsh
  rw [hslot] at hsh
  rw [hid, offeredTo_append, offeredTo_singleton, newsOf_append]
  rcases hnew x e sh he hsh with ⟨hold, hnone⟩ | hstart
  · obtain ⟨es, hes⟩ := hrec x e sh hold hsh
    exact ⟨es, by rw [hnone, List.append_nil, hes]⟩
  · exact ⟨_, by rw [hstart]⟩

/-- A call that tells nothing of the build and leaves its operations. -/
theorem keep (hrec : b.Recalls c h) (hnone : messagesOf b.id (k.offered c) = []) :
    b.Recalls c (h ++ [k]) := by
  apply hrec.snoc rfl rfl
  intro x e sh he _
  exact Or.inl ⟨he, newsOf_of_messagesOf_nil hnone⟩

/-- A start in an open build. -/
theorem start (hrec : b.Recalls c h) (hu : ∀ m ∈ registry.mappers, m.Uniform) (hs : b.Sound)
    (hc : b.closed = false) {policy : ParentPolicy} {hub : Hub} {op : StartSignal} {t : Turn}
    (ht : b.start registry policy hub op = some t) (ho : k.outcome.offers = t.offers) :
    t.build.Recalls c (h ++ [k]) := by
  have hf : ∀ m ∈ registry.mappers, m.Faithful := fun m hm => (hu m hm).faithful
  have hquiet : t.build = b → t.offers = [] → t.build.Recalls c (h ++ [k]) := by
    intro hbuild hoffers
    have hoff : k.offered c = [] := by rw [Call.offered, ho, hoffers]; rfl
    rw [hbuild]
    apply hrec.keep
    rw [hoff]
    rfl
  cases hl : b.live.get? op.id with
  | some e =>
    rw [Build.start_of_live _ _ _ hc hl, Option.some.injEq] at ht
    subst ht
    exact hquiet rfl rfl
  | none =>
    rcases Build.start_outcome hf hs hc hl ht with ⟨e, href⟩ | ⟨e, hmade⟩
    · exact hquiet href.unchanged href.offers
    · have hoff : k.offered c = ((e.shown (b.slotOf c)).map (·.started b.id)).toList := by
        rw [Call.offered, ho]
        exact hmade.offers c
      have hopid : ∀ sh, e.shown (b.slotOf c) = some sh → sh.descriptor.id = op.id := fun sh hsh =>
        (hmade.made _ sh hsh).id_eq hu
      rw [hmade.build]
      refine hrec.snoc rfl rfl ?_
      intro x e' sh he' hsh
      rw [LiveTable.get?_insert] at he'
      by_cases hx : x = op.id
      · rw [if_pos hx, Option.some.injEq] at he'
        subst he'
        right
        rw [hoff, hsh]
        exact newsOf_singleton ((hopid sh hsh).trans hx.symm)
      · rw [if_neg hx] at he'
        refine Or.inl ⟨he', newsOf_eq_nil fun ev hev => ?_⟩
        rw [hoff, Option.mem_toList, Option.map_eq_some_iff] at hev
        obtain ⟨sh', hsh', hmsg⟩ := hev
        obtain ⟨-, rfl⟩ := Message.event.inj hmsg
        have hdesc : sh'.descriptor.id = op.id := hopid sh' hsh'
        exact fun hcontra => hx (hcontra.symm.trans hdesc)

/-- A finish in an open build. -/
theorem finish (hrec : b.Recalls c h) (hu : ∀ m ∈ registry.mappers, m.Uniform) (hs : b.Sound)
    (hc : b.closed = false) (hr : b.Reflects registry i h) {hub : Hub} {f : FinishSignal}
    (ho : k.outcome.offers = (b.finish hub f).offers) :
    (b.finish hub f).build.Recalls c (h ++ [k]) := by
  cases hl : b.live.get? f.id with
  | none =>
    have hoff : k.offered c = [] := by rw [Call.offered, ho, Build.finish_of_unknown hl]; rfl
    rw [Build.finish_of_unknown hl]
    apply hrec.keep
    rw [hoff]
    rfl
  | some e =>
    obtain ⟨hbuild, -, -, hmsgs⟩ := Build.finish_of_live hub hs hc hl
    obtain ⟨k₀, op, hopened, -, -, hmade⟩ := hr.opened f.id e hl
    rw [hbuild]
    refine hrec.snoc rfl rfl ?_
    intro x e' sh he' _
    rw [LiveTable.get?_erase] at he'
    by_cases hx : x = f.id
    · rw [if_pos hx] at he'
      exact absurd he' (by simp)
    · rw [if_neg hx] at he'
      refine Or.inl ⟨he', newsOf_eq_nil fun ev hev => ?_⟩
      rw [Call.offered, ho, hmsgs c] at hev
      split at hev
      · obtain ⟨sh', hsh', hfin⟩ := Option.bind_eq_some_iff.mp (Option.mem_toList.mp hev)
        obtain ⟨r, task, hmsg⟩ := (hmade _ sh' hsh').finished_eq hu hfin
        obtain ⟨-, rfl⟩ := Message.event.inj hmsg
        have hdesc : sh'.descriptor.id = f.id :=
          ((hmade _ sh' hsh').id_eq hu).trans hopened.id_eq
        exact fun hcontra => hx (hcontra.symm.trans hdesc)
      · exact absurd hev (by simp)

end Build.Recalls

namespace History

variable {listing : Listing} {config : Config} {registry : Registry} {s₀ s : Session}
  {pre post h : List Call} {k : Call} {i c : Nat}

/-- As long as a build is open, it recalls what it told. -/
theorem recalls (h₀ : s₀.Fresh config registry) (hu : ∀ m ∈ registry.mappers, m.Uniform)
    (hist : History listing s₀ h s) (hids : (begunIn h).Nodup) :
    ∀ {b : Build}, s.build? i = some b → b.closed = false → b.Recalls c h := by
  have hf : ∀ m ∈ registry.mappers, m.Faithful := fun m hm => (hu m hm).faithful
  induction hist with
  | nil =>
    intro b hb
    rw [h₀.build?_eq_none] at hb
    exact absurd hb (by simp)
  | @snoc h s st a hist hs ih =>
    have hlonger := hist.snoc hs
    have ih := @ih (begunIn_nodup_of_append hids)
    have hsound := hist.sound h₀.sound
    have hreg := (hist.settings h₀).1
    intro b' hb' ho'
    cases Session.effect_on_build (Session.step_eq_ok.mp hs) i with
    | begun _ hb =>
      rw [hb, Option.some.injEq] at hb'
      subst hb'
      intro x e sh he
      exact absurd he (by simp [Build.begin])
    | other hst hb =>
      have hplace := (hlonger.begun h₀ hb').1
      rw [hb] at hb'
      apply (ih hb' ho').keep
      rw [messagesOf_eq_nil]
      intro m hm hbuild
      rw [← hbuild] at hplace
      exact hst (hlonger.build_of_message h₀ hids hplace hm)
    | start hi ht hb _ ho =>
      rw [hb, Option.some.injEq] at hb'
      subst hb'
      rw [Build.closed_start ht] at ho'
      exact (ih hi ho').start hu (hsound i _ hi) ho' (hreg ▸ ht) ho
    | finish hi hb _ ho =>
      rw [hb, Option.some.injEq] at hb'
      subst hb'
      rw [Build.closed_finish _ _ (hsound i _ hi)] at ho'
      exact (ih hi ho').finish hu (hsound i _ hi) ho' (hist.reflects h₀ hf hi ho') ho
    | close hi hb =>
      rw [hb, Option.some.injEq] at hb'
      rw [← hb', Build.closed_close] at ho'
      exact absurd ho' (by simp)
    | drop _ hb =>
      rw [hb] at hb'
      exact absurd hb' (by simp)

/-- What a finish offers: the end of the operation that the connection was told
last, of its start, with what the connection was told then. -/
theorem finish_answers (h₀ : s₀.Fresh config registry)
    (hm : ∀ m ∈ registry.mappers, m ∈ Mapper.builtIn)
    (hist : History listing s₀ (pre ++ k :: post) s) (hids : (begunIn (pre ++ k :: post)).Nodup)
    {f : FinishSignal} (hst : k.step = .finish i f) {build : BuildId} {t : Instant} {d : Descriptor}
    {r : OperationResult} {task : Option TaskExecution}
    (hmsg : .event build (.finished t d r task) ∈ k.offered c) :
    (∃ es, newsOf build d.id (offeredTo c pre) = es ++ [.started r.startTime d]) ∧
      (begunIn (pre ++ k :: post))[i]? = some build ∧ f.id = d.id ∧ f.endTime = t ∧
      f.endTime = r.endTime := by
  have hu : ∀ m ∈ registry.mappers, m.Uniform := fun m h => Mapper.uniform_of_mem_builtIn (hm m h)
  have hf : ∀ m ∈ registry.mappers, m.Faithful := fun m h => (hu m h).faithful
  obtain ⟨hpre, hstep, -⟩ := hist.split
  have hids₀ : (begunIn pre).Nodup := begunIn_nodup_of_append hids
  obtain ⟨j, b, hj, hb, hc, -, hbuild, hplace⟩ := hist.made_by h₀ hmsg
  obtain rfl : build = b.id := hbuild
  rw [hst] at hstep hj
  obtain rfl : i = j := Option.some.inj hj
  obtain ⟨b', hb', -, ho⟩ := (Session.step_eq_ok.mp hstep).of_finish
  obtain rfl : b = b' := Option.some.inj (hb.symm.trans hb')
  have hs : b.Sound := hpre.sound h₀.sound i b hb
  rw [Call.offered, ho] at hmsg
  -- the message is made of what the build keeps for the connection
  cases hl : b.live.get? f.id with
  | none =>
    rw [Build.finish_of_unknown hl] at hmsg
    exact absurd hmsg (by simp [Build.quiet])
  | some e =>
    rw [(Build.finish_of_live k.before.hub hs hc hl).2.2.2 c] at hmsg
    split at hmsg
    · obtain ⟨sh, hsh, hfin⟩ := Option.bind_eq_some_iff.mp (Option.mem_toList.mp hmsg)
      obtain ⟨k₀, op, hopened, -, -, hmade⟩ := (hpre.reflects h₀ hf hb hc).opened f.id e hl
      have hmade := hmade _ sh hsh
      obtain ⟨task', hmsg'⟩ := hmade.finished_of_builtIn hm hfin
      obtain ⟨-, hev⟩ := Message.event.inj hmsg'
      obtain ⟨rfl, rfl, rfl, -⟩ := Event.finished.inj hev
      have hid : sh.descriptor.id = f.id := (hmade.id_eq hu).trans hopened.id_eq
      refine ⟨?_, hplace, hid.symm, rfl, rfl⟩
      rw [hid]
      exact hpre.recalls h₀ hu hids₀ hb hc f.id e sh hl hsh
    · exact absurd hmsg (by simp)

/-- A finished event is offered by a finish. -/
theorem finish_of_offered (h₀ : s₀.Fresh config registry)
    (hf : ∀ m ∈ registry.mappers, m.Faithful) (hist : History listing s₀ (pre ++ k :: post) s)
    {build : BuildId} {t : Instant} {d : Descriptor} {r : OperationResult}
    {task : Option TaskExecution} (hmsg : .event build (.finished t d r task) ∈ k.offered c) :
    ∃ i f, k.step = .finish i f := by
  obtain ⟨hpre, hstep, -⟩ := hist.split
  obtain ⟨i, b, hi, hb, -⟩ := hist.made_by h₀ hmsg
  by_cases hfin : ∃ f, k.step = .finish i f
  · obtain ⟨f, hfin⟩ := hfin
    exact ⟨i, f, hfin⟩
  · by_cases hst : ∃ op, k.step = .start i op
    · -- what a start offers is started events
      obtain ⟨op, hst⟩ := hst
      rw [hst] at hstep
      obtain ⟨b', t', hb', ht', -, ho⟩ := (Session.step_eq_ok.mp hstep).of_start
      rw [Call.offered, ho] at hmsg
      have hs : b'.Sound := hpre.sound h₀.sound i b' hb'
      obtain ⟨sh, hsh⟩ := Build.started_of_start ((hpre.settings h₀).1 ▸ hf) hs ht' hmsg
      obtain ⟨-, hev⟩ := Message.event.inj hsh
      exact absurd hev (by simp)
    · have hnone := hist.end_call h₀ hi (fun op hop => hst ⟨op, hop⟩) (fun f hop => hfin ⟨f, hop⟩) hmsg
      exact absurd hnone (by simp [Message.event?])

/-- A call offers a connection one message or none. -/
theorem offered_le_one (h₀ : s₀.Sound) (hist : History listing s₀ h s) :
    ∀ k ∈ h, (k.offered c).length ≤ 1 := by
  intro k hk
  obtain ⟨pre, post, -, hpre, he, -⟩ := hist.exists_split hk
  exact messagesTo_length_le_one c k.outcome.offers (he.proper (hpre.sound h₀)).1

end History

/-! ### Whole sessions -/

/-- A finished event for a connection answers a started event: the last news
that the connection had of the operation was its start, with the same
descriptor and at the start time of the result, and the end is that of the
finish that offered the event. -/
structure Answers (c : Nat) (h : List Call) (before : List Message) (build : BuildId) (t : Instant)
    (d : Descriptor) (r : OperationResult) (task : Option TaskExecution) : Prop where
  start : ∃ es, newsOf build d.id before = es ++ [.started r.startTime d]
  finish : ∃ i pre k post f, (begunIn h)[i]? = some build ∧ h = pre ++ k :: post ∧
    offeredTo c pre = before ∧ k.step = .finish i f ∧ f.id = d.id ∧ f.endTime = t ∧
    f.endTime = r.endTime ∧ k.offered c = [.event build (.finished t d r task)]

/-- Every finished event among messages for a connection answers a started event. -/
def EndsAnswered (c : Nat) (h : List Call) (ms : List Message) : Prop :=
  ∀ before after build t d r task, ms = before ++ .event build (.finished t d r task) :: after →
    Answers c h before build t d r task

theorem EndsAnswered.of_initial {c : Nat} {h : List Call} {ms ms' : List Message}
    (hms' : EndsAnswered c h ms') (hms : ms <+: ms') : EndsAnswered c h ms := by
  obtain ⟨rest, rfl⟩ := hms
  intro before after build t d r task heq
  apply hms' before (after ++ rest)
  rw [heq, List.append_assoc, List.cons_append]

/-- In every session with the built-in mappers and builds of different ids, the
finished events that a connection is offered, accepts and reads answer
started events. -/
theorem finished_answers_started {listing : Listing} {config : Config} {registry : Registry}
    {s₀ s : Session} {h : List Call} (h₀ : Session.new config registry = .ok s₀)
    (hm : ∀ m ∈ registry.mappers, m ∈ Mapper.builtIn) (hist : History listing s₀ h s)
    (hids : (begunIn h).Nodup) (c : Nat) :
    EndsAnswered c h (offeredTo c h) ∧ EndsAnswered c h (acceptedBy c h) ∧
      EndsAnswered c h (readBy c h) := by
  have hfresh := Session.fresh_of_new h₀
  have hf : ∀ m ∈ registry.mappers, m.Faithful := fun m h =>
    (Mapper.uniform_of_mem_builtIn (hm m h)).faithful
  have hoffered : EndsAnswered c h (offeredTo c h) := by
    intro before after build t d r task heq
    obtain ⟨pre, k, post, rfl, hpre, hk⟩ :=
      split_of_flatMap (hist.offered_le_one hfresh.sound) heq
    have hmsg : .event build (.finished t d r task) ∈ k.offered c := by
      rw [hk]
      exact List.mem_singleton_self _
    obtain ⟨i, f, hst⟩ := hist.finish_of_offered hfresh hf hmsg
    obtain ⟨hstart, hplace, hid, ht, hr⟩ := hist.finish_answers hfresh hm hids hst hmsg
    refine ⟨?_, i, pre, k, post, f, hplace, rfl, hpre, hst, hid, ht, hr, hk⟩
    rw [← hpre]
    exact hstart
  have haccepted : acceptedBy c h <+: offeredTo c h := (hist.acceptedBy_first hfresh.sound c).1
  have hread : readBy c h <+: offeredTo c h := hist.readBy_first hfresh c
  exact ⟨hoffered, hoffered.of_initial haccepted, hoffered.of_initial hread⟩

/-- In one build an item is started again under another one after it was
finished, and it is started and finished in another build meanwhile; some
starts and finishes come twice. -/
theorem finished_answers_started_of_reuse :
    ∃ (s₀ s : Session) (h : List Call),
      Session.new default .builtIn = .ok s₀ ∧ History .inOrder s₀ h s ∧ (begunIn h).Nodup ∧
      (newsOf ⟨"x"⟩ ⟨1⟩ (readBy 0 h)).length = 4 ∧
      EndsAnswered 0 h (offeredTo 0 h) ∧ EndsAnswered 0 h (acceptedBy 0 h) ∧
        EndsAnswered 0 h (readBy 0 h) :=
  let s₀ := sampleSession .nearestEnabledAncestor 1024
  let steps : List Step := [.connect ⟨"a"⟩ .all, .begin ⟨"x"⟩, .begin ⟨"y"⟩,
    .start 0 (sampleItem 1 (some ⟨7⟩)), .start 0 (sampleItem 1 none), .start 1 (sampleItem 1 none),
    .finish 0 ⟨⟨1⟩, default, .success⟩, .finish 1 ⟨⟨1⟩, default, .skipped "no input"⟩,
    .finish 0 ⟨⟨1⟩, default, .success⟩, .start 0 (sampleItem 7 none),
    .start 0 (sampleItem 1 (some ⟨7⟩)), .finish 0 ⟨⟨1⟩, default, .upToDate⟩, .drain 0]
  have h₀ : Session.new default .builtIn = .ok s₀ := rfl
  have hist := Session.history_calls .inOrder steps s₀
  have hids : (begunIn (s₀.calls .inOrder steps)).Nodup := by decide
  ⟨s₀, _, _, h₀, hist, hids, by decide,
    finished_answers_started h₀ (fun _ hm => hm) hist hids 0⟩

end BuildFeed
