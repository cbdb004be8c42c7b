/-
# What a narrower subscription is sent

Two connections attend a build, and what the first asks for the second asks for
too. With the built-in mappers the first is shown of an operation what the
second is shown, if it asked for the type of the operation, and nothing
otherwise; only the parents may differ (`Entry.Narrows`). So the events of the
build for the first are those for the second that it asked for, in the same
order, up to the parents (`History.narrowed_offered`).

Key definitions: `Event.SameButParent`, `requestedIn`, `Entry.Narrows`,
`Narrowed`, `Attends`.
Key theorems: `Build.narrows_of_records`, `Build.narrowed_start`,
`Build.narrowed_finish`, `History.narrowed_offered`.
-/
import BuildFeed.Proofs.Session.Nesting

namespace BuildFeed

open List (Forall₂)

/-! ### Events -/

/-- Two events differ in the parent of the operation alone. -/
def Event.SameButParent (e₁ e₂ : Event) : Prop := ∃ p, e₁ = e₂.withParent p

@[simp] theorem Event.descriptor_withParent (e : Event) (p : Option OperationId) :
    (e.withParent p).descriptor = e.descriptor.withParent p := by
  cases e <;> rfl

/-- The message with another parent for the operation that it tells of. -/
def Message.withParent (m : Message) (p : Option OperationId) : Message :=
  match m with
  | event build e => event build (e.withParent p)
  | endOfStream build reason => endOfStream build reason

theorem Message.event?_withParent (m : Message) (p : Option OperationId) :
    (m.withParent p).event? = m.event?.map (·.withParent p) := by
  cases m <;> rfl

/-- The events of operations of the types asked for. -/
def requestedIn (subs : SubscriptionSet) (es : List Event) : List Event :=
  es.filter fun e => subs.requests e.descriptor.operationType

@[simp] theorem requestedIn_append (subs : SubscriptionSet) (es es' : List Event) :
    requestedIn subs (es ++ es') = requestedIn subs es ++ requestedIn subs es' := List.filter_append ..

theorem mem_requestedIn {subs : SubscriptionSet} {es : List Event} {e : Event} :
    e ∈ requestedIn subs es ↔ e ∈ es ∧ subs.requests e.descriptor.operationType = true :=
  List.mem_filter

/-! ### What two connections are shown -/

namespace Showing

/-- What is shown of the same operation under another parent. -/
def withParent (sh : Showing) (p : Option OperationId) : Showing :=
  { sh with descriptor := sh.descriptor.withParent p }

/-- News that a built-in mapper makes of what is shown: it carries the descriptor,
and the parent is told in it and nowhere else. -/
structure News (news : Showing → Option Event) : Prop where
  withParent : ∀ {sh : Showing}, sh.mapper ∈ Mapper.builtIn → ∀ p,
    news (sh.withParent p) = (news sh).map (·.withParent p)
  descriptor : ∀ {sh : Showing}, sh.mapper ∈ Mapper.builtIn → ∀ e, news sh = some e →
    e.descriptor = sh.descriptor

theorem news_started (build : BuildId) :
    News fun sh => (some (sh.started build)).bind Message.event? where
  withParent _ _ := rfl
  descriptor {sh} _ e he := by
    rw [← Option.some.inj he]
    rfl

/-- News of an end that a built-in mapper makes under another parent. -/
theorem finished_withParent {sh : Showing} (hm : sh.mapper ∈ Mapper.builtIn) (build : BuildId)
    (f : FinishSignal) (p : Option OperationId) :
    (sh.withParent p).finished build f = (sh.finished build f).map (·.withParent p) := by
  unfold finished Mapper.finishedEvent
  cases hd : sh.mapper.dataOf sh.op with
  | error e =>
    have hd' : (sh.withParent p).mapper.dataOf (sh.withParent p).op = .error e := hd
    simp [hd', Except.map]
  | ok data =>
    have hd' : (sh.withParent p).mapper.dataOf (sh.withParent p).op = .ok data := hd
    have hfin : (sh.withParent p).mapper.finished (sh.withParent p).descriptor data
        (sh.withParent p).op f = (sh.mapper.finished sh.descriptor data sh.op f).map (·.withParent p) :=
      Mapper.finished_withParent_of_mem_builtIn hm sh.descriptor data sh.op f p
    simp only [hd', Except.map, hfin]
    cases sh.mapper.finished sh.descriptor data sh.op f <;> rfl

theorem news_finished (build : BuildId) (f : FinishSignal) :
    News fun sh => (sh.finished build f).bind Message.event? where
  withParent {sh} hm p := by
    rw [finished_withParent hm]
    cases sh.finished build f with
    | none => rfl
    | some m => exact m.event?_withParent p
  descriptor {sh} hm e he := by
    obtain ⟨m, hfin, hev⟩ := Option.bind_eq_some_iff.mp he
    obtain ⟨data, e', he', rfl⟩ := exists_of_finished hfin
    obtain ⟨task, rfl⟩ := Mapper.finished_of_mem_builtIn hm he'
    rw [← Option.some.inj hev]
    rfl

end Showing

/-- Of an operation the first of two slots was shown what the second was, if it asked
for it, and nothing else. -/
structure Entry.Narrows (subs : SubscriptionSet) (slot₁ slot₂ : Nat) (e : Entry) : Prop where
  builtIn : ∀ slot sh, e.shown slot = some sh → sh.mapper ∈ Mapper.builtIn
  shown : Option.Rel (fun sh₁ sh₂ => ∃ p, sh₁ = sh₂.withParent p) (e.shown slot₁)
    ((e.shown slot₂).filter fun sh => subs.requests sh.descriptor.operationType)

/-- The news for both slots. -/
theorem Entry.Narrows.news {subs : SubscriptionSet} {slot₁ slot₂ : Nat} {e : Entry}
    (hn : e.Narrows subs slot₁ slot₂) {news : Showing → Option Event} (hnews : Showing.News news) :
    Forall₂ Event.SameButParent ((e.shown slot₁).bind news).toList
      (requestedIn subs ((e.shown slot₂).bind news).toList) := by
  have hrel := hn.shown
  cases h₂ : e.shown slot₂ with
  | none =>
    rw [h₂] at hrel
    generalize e.shown slot₁ = o at hrel
    cases hrel
    exact .nil
  | some sh =>
    have hm := hn.builtIn slot₂ sh h₂
    rw [h₂] at hrel
    rw [Option.bind_some]
    have hlist : requestedIn subs (news sh).toList =
        if subs.requests sh.descriptor.operationType then (news sh).toList else [] := by
      cases hsh : news sh with
      | none => simp [requestedIn]
      | some ev => simp [requestedIn, hnews.descriptor hm ev hsh, List.filter_cons]
    rw [hlist]
    generalize e.shown slot₁ = o at hrel
    cases hr : subs.requests sh.descriptor.operationType with
    | false =>
      rw [Option.filter_some, if_neg (by simp [hr])] at hrel
      cases hrel
      exact .nil
    | true =>
      rw [Option.filter_some, if_pos hr] at hrel
      obtain ⟨⟨p, rfl⟩⟩ := hrel
      rw [if_pos rfl, Option.bind_some, hnews.withParent hm p]
      cases news sh with
      | none => exact .nil
      | some ev => exact .cons ⟨p, rfl⟩ .nil

/-! ### What is offered to two connections -/

/-- The events that are offered to the first of two connections are those that are
offered to the second and were asked for, up to the parents. -/
def Narrowed (subs : SubscriptionSet) (c₁ c₂ : Nat) (os : List Offer) : Prop :=
  Forall₂ Event.SameButParent ((messagesTo c₁ os).filterMap Message.event?)
    (requestedIn subs ((messagesTo c₂ os).filterMap Message.event?))

theorem Narrowed.nil (subs : SubscriptionSet) (c₁ c₂ : Nat) : Narrowed subs c₁ c₂ [] := Forall₂.nil

theorem Narrowed.of_no_events {subs : SubscriptionSet} {c₁ c₂ : Nat} {os : List Offer}
    (h : ∀ c, ∀ m ∈ messagesTo c os, m.event? = none) : Narrowed subs c₁ c₂ os := by
  rw [Narrowed, List.filterMap_eq_nil_iff.mpr (h c₁), List.filterMap_eq_nil_iff.mpr (h c₂)]
  exact .nil

/-- The events among messages of one showing. -/
theorem filterMap_event?_toList (o : Option Showing) (g : Showing → Option Message) :
    (o.bind g).toList.filterMap Message.event? = (o.bind fun sh => (g sh).bind Message.event?).toList := by
  cases o with
  | none => rfl
  | some sh =>
    rw [Option.bind_some, Option.bind_some]
    cases g sh with
    | none => rfl
    | some m => cases m <;> rfl

/-- News of an operation is offered to both connections. -/
theorem Entry.Narrows.narrowed {subs : SubscriptionSet} {c₁ c₂ slot₁ slot₂ : Nat} {e : Entry}
    {os : List Offer} (hn : e.Narrows subs slot₁ slot₂) {news : Showing → Option Message}
    (hnews : Showing.News fun sh => (news sh).bind Message.event?)
    (h₁ : messagesTo c₁ os = ((e.shown slot₁).bind news).toList)
    (h₂ : messagesTo c₂ os = ((e.shown slot₂).bind news).toList) : Narrowed subs c₁ c₂ os := by
  rw [Narrowed, h₁, h₂, filterMap_event?_toList, filterMap_event?_toList]
  exact hn.news hnews

/-- A connection is of the audience of a build, and attached with subscriptions. -/
def Build.Attended (b : Build) (hub : Hub) (c : Nat) (subs : SubscriptionSet) : Prop :=
  c ∈ b.audience ∧ hub.subscriptions? c = some subs

namespace Build

variable {registry : Registry} {policy : ParentPolicy} {hub : Hub} {b : Build} {op : StartSignal}
  {t : Turn} {e : Entry} {c c₁ c₂ slot₁ slot₂ : Nat} {subs subs₁ subs₂ : SubscriptionSet} {sh : Showing}

/-- A connection that is shown an operation has asked for its type. -/
theorem Shows.requested (hsh : Shows registry policy hub b op (b.slotOf c) sh)
    (hm : ∀ m ∈ registry.mappers, m ∈ Mapper.builtIn) (hs : hub.subscriptions? c = some subs) :
    subs.requests sh.descriptor.operationType = true := by
  obtain ⟨p, -, hcons⟩ := hsh.described
  obtain ⟨-, subs', hs', henabled⟩ := slotOf_mem_targets.mp hsh.target
  obtain rfl := Option.some.inj (hs.symm.trans hs')
  rwa [Mapper.isEnabled_of_consult (hm _ (lookup_mem hsh.routed)) hcons] at henabled

/-- What one slot is shown, a slot of any build is shown under the parent that it sees,
if it is a target of the mapper. -/
theorem Shows.withParent {policy' : ParentPolicy} {hub' : Hub} {b' : Build} {q : Option OperationId}
    (hsh : Shows registry policy hub b op slot₁ sh) (hu : ∀ m ∈ registry.mappers, m.Uniform)
    (htarget : slot₂ ∈ b'.targets hub' sh.mapper)
    (hq : resolve policy' b'.live slot₂ op.parent = some q) :
    Shows registry policy' hub' b' op slot₂ (sh.withParent q) := by
  obtain ⟨p, -, hcons⟩ := hsh.described
  refine ⟨hsh.routed, htarget, hsh.op_eq, q, hq, ?_⟩
  show (sh.mapper.consult op q).1 = .ok (some (sh.descriptor.withParent q))
  rw [(hu _ (lookup_mem hsh.routed)).consult_eq op p q, hcons]
  rfl

/-- Another connection that has asked for it is shown the operation too, perhaps
under another parent. -/
theorem Shows.other (hsh : Shows registry policy hub b op slot₁ sh)
    (hm : ∀ m ∈ registry.mappers, m ∈ Mapper.builtIn) (ho : b.closed = false)
    (hl : b.live.get? op.id = none) (ht : b.start registry policy hub op = some t)
    (hc : c₂ ∈ b.audience) (hs : hub.subscriptions? c₂ = some subs)
    (hr : subs.requests sh.descriptor.operationType = true) :
    ∃ q, Shows registry policy hub b op (b.slotOf c₂) (sh.withParent q) := by
  obtain ⟨p, -, hcons⟩ := hsh.described
  have hbuiltIn := hm _ (lookup_mem hsh.routed)
  have htarget : b.slotOf c₂ ∈ b.targets hub sh.mapper :=
    slotOf_mem_targets.mpr ⟨hc, subs, hs, (Mapper.isEnabled_of_consult hbuiltIn hcons subs).trans hr⟩
  obtain ⟨q, hq⟩ := exists_resolve_of_start ht ho hl hsh.routed htarget
  exact ⟨q, hsh.withParent (fun m h => Mapper.uniform_of_mem_builtIn (hm m h)) htarget hq⟩

/-- What a start records for two connections of which the second asks for more. -/
theorem narrows_of_records (hm : ∀ m ∈ registry.mappers, m ∈ Mapper.builtIn) (ho : b.closed = false)
    (hl : b.live.get? op.id = none) (ht : b.start registry policy hub op = some t)
    (hrec : Records registry policy hub b op t e)
    (hsubs : ∀ ty, subs₁.requests ty = true → subs₂.requests ty = true)
    (h₁ : b.Attended hub c₁ subs₁) (h₂ : b.Attended hub c₂ subs₂) :
    e.Narrows subs₁ (b.slotOf c₁) (b.slotOf c₂) := by
  obtain ⟨hc₁, hs₁⟩ := h₁
  obtain ⟨hc₂, hs₂⟩ := h₂
  have hu : ∀ m ∈ registry.mappers, m.Uniform := fun m h => Mapper.uniform_of_mem_builtIn (hm m h)
  have hiff := hrec.shows_iff hu
  refine ⟨fun slot sh hsh => hm _ (hrec.made slot sh hsh).mapper_mem, ?_⟩
  -- what the first is shown the second is shown
  have hwider : ∀ sh₁, e.shown (b.slotOf c₁) = some sh₁ →
      subs₁.requests sh₁.descriptor.operationType = true ∧
        ∃ q, e.shown (b.slotOf c₂) = some (sh₁.withParent q) := by
    intro sh₁ h₁
    have hsh₁ := (hiff _ sh₁).mp h₁
    have hr := hsh₁.requested hm hs₁
    obtain ⟨q, hsh₂⟩ := hsh₁.other hm ho hl ht hc₂ hs₂ (hsubs _ hr)
    exact ⟨hr, q, (hiff _ _).mpr hsh₂⟩
  have hnothing : (∀ sh₂, e.shown (b.slotOf c₂) = some sh₂ →
      subs₁.requests sh₂.descriptor.operationType = false) → e.shown (b.slotOf c₁) = none := by
    intro hnone
    cases h₁ : e.shown (b.slotOf c₁) with
    | none => rfl
    | some sh₁ =>
      obtain ⟨hr, q, h₂⟩ := hwider sh₁ h₁
      exact absurd hr (by simpa [Showing.withParent] using hnone _ h₂)
  cases h₂ : e.shown (b.slotOf c₂) with
  | none =>
    rw [hnothing (by simp [h₂])]
    exact .none
  | some sh₂ =>
    cases hr : subs₁.requests sh₂.descriptor.operationType with
    | false =>
      rw [hnothing (by simp [h₂, hr]), Option.filter_some, if_neg (by simp [hr])]
      exact .none
    | true =>
      obtain ⟨p, hsh₁⟩ := ((hiff _ sh₂).mp h₂).other hm ho hl ht hc₁ hs₁ hr
      rw [(hiff _ _).mpr hsh₁, Option.filter_some, if_pos hr]
      exact .some ⟨p, rfl⟩

/-- A start in a build that both connections attend while it is open. -/
theorem narrowed_start (hm : ∀ m ∈ registry.mappers, m ∈ Mapper.builtIn) (hs : b.Sound)
    (ht : b.start registry policy hub op = some t)
    (hsubs : ∀ ty, subs₁.requests ty = true → subs₂.requests ty = true)
    (h₁ : b.closed = false → b.Attended hub c₁ subs₁)
    (h₂ : b.closed = false → b.Attended hub c₂ subs₂) : Narrowed subs₁ c₁ c₂ t.offers := by
  cases ho : b.closed with
  | true =>
    rw [start_of_closed _ _ _ _ ho, Option.some.injEq] at ht
    exact ht ▸ .nil ..
  | false =>
    cases hl : b.live.get? op.id with
    | some e =>
      rw [start_of_live _ _ _ ho hl, Option.some.injEq] at ht
      exact ht ▸ .nil ..
    | none =>
      have hf : ∀ m ∈ registry.mappers, m.Faithful := fun m h =>
        (Mapper.uniform_of_mem_builtIn (hm m h)).faithful
      rcases start_outcome hf hs ho hl ht with ⟨e, href⟩ | ⟨e, hrec⟩
      · exact href.offers ▸ .nil ..
      · have hoff : ∀ c, messagesTo c t.offers =
            ((e.shown (b.slotOf c)).bind fun sh => some (sh.started b.id)).toList := by
          intro c
          rw [hrec.offers c]
          cases e.shown (b.slotOf c) <;> rfl
        exact (narrows_of_records hm ho hl ht hrec hsubs (h₁ ho) (h₂ ho)).narrowed
          (Showing.news_started b.id) (hoff c₁) (hoff c₂)

/-- A finish in a build that both connections attend while it is open. -/
theorem narrowed_finish {f : FinishSignal} (hs : b.Sound)
    (h₁ : b.closed = false → b.Attended hub c₁ subs₁) (h₂ : b.closed = false → b.Attended hub c₂ subs₂)
    (hlive : ∀ e, b.closed = false → b.live.get? f.id = some e →
      e.Narrows subs₁ (b.slotOf c₁) (b.slotOf c₂)) :
    Narrowed subs₁ c₁ c₂ (b.finish hub f).offers := by
  cases ho : b.closed with
  | true =>
    rw [finish_of_closed ho]
    exact .nil ..
  | false =>
    cases hl : b.live.get? f.id with
    | none =>
      rw [finish_of_unknown hl]
      exact .nil ..
    | some e =>
      have hoff : ∀ {c subs}, b.Attended hub c subs → messagesTo c (b.finish hub f).offers =
          ((e.shown (b.slotOf c)).bind (·.finished b.id f)).toList := by
        intro c subs hatt
        rw [(finish_of_live hub hs ho hl).2.2.2 c, if_pos (isAttached_of_subscriptions hatt.2)]
      exact (hlive e ho hl).narrowed (Showing.news_finished b.id f) (hoff (h₁ ho)) (hoff (h₂ ho))

end Build

/-! ### Whole histories -/

/-- A connection attends a build: when an operation is started or finished in the
open build, the connection is of its audience, and attached with the
subscriptions. -/
def Attends (i c : Nat) (subs : SubscriptionSet) (h : List Call) : Prop :=
  ∀ k ∈ h, k.step.build? = some i → k.step.ends i = false →
    ∀ b, k.before.build? i = some b → b.closed = false → b.Attended k.before.hub c subs

theorem Attends.of_append {i c : Nat} {subs : SubscriptionSet} {h h' : List Call}
    (ha : Attends i c subs (h ++ h')) : Attends i c subs h :=
  fun k hk => ha k (List.mem_append_left _ hk)

namespace History

variable {listing : Listing} {config : Config} {registry : Registry} {s₀ s : Session}
  {h : List Call} {i c₁ c₂ : Nat} {subs₁ subs₂ : SubscriptionSet}

/-- The live operations of a build narrow. -/
theorem live_narrows (h₀ : s₀.Fresh config registry)
    (hm : ∀ m ∈ registry.mappers, m ∈ Mapper.builtIn) (hist : History listing s₀ h s)
    (hsubs : ∀ ty, subs₁.requests ty = true → subs₂.requests ty = true)
    (ha₁ : Attends i c₁ subs₁ h) (ha₂ : Attends i c₂ subs₂ h) {b : Build} (hb : s.build? i = some b)
    (ho : b.closed = false) {x : OperationId} {e : Entry} (hl : b.live.get? x = some e) :
    e.Narrows subs₁ (b.slotOf c₁) (b.slotOf c₂) := by
  have hf : ∀ m ∈ registry.mappers, m.Faithful := fun m h =>
    (Mapper.uniform_of_mem_builtIn (hm m h)).faithful
  have hfollows := hist.follows (i := i) h₀ (Q := fun _ audience _ _ e =>
    e.Narrows subs₁ (audience.idxOf c₁) (audience.idxOf c₂)) ?_ hb ho
  · obtain ⟨-, -, -, hn⟩ := hfollows.opened hl
    exact hn
  · intro k hk op b t hfirst
    rcases Build.start_outcome hf hfirst.sound hfirst.opened hfirst.fresh hfirst.start_eq with
      ⟨e, href⟩ | ⟨e, hrec⟩
    · exact Or.inl ⟨e, href.unchanged, href.result⟩
    · have hi : k.step.build? = some i := by rw [hfirst.step_eq]; rfl
      have hends : k.step.ends i = false := by rw [hfirst.step_eq]; rfl
      exact Or.inr ⟨e, hrec.build, hrec.result, Build.narrows_of_records hm hfirst.opened hfirst.fresh
        hfirst.start_eq hrec hsubs (ha₁ k hk hi hends b hfirst.build_eq hfirst.opened)
        (ha₂ k hk hi hends b hfirst.build_eq hfirst.opened)⟩

/-- What one call on a build offers to two connections that attend it. -/
theorem narrowed_call (h₀ : s₀.Fresh config registry)
    (hm : ∀ m ∈ registry.mappers, m ∈ Mapper.builtIn) {k : Call}
    (hist : History listing s₀ (h ++ [k]) s) (hi : k.step.build? = some i)
    (hsubs : ∀ ty, subs₁.requests ty = true → subs₂.requests ty = true)
    (ha₁ : Attends i c₁ subs₁ (h ++ [k])) (ha₂ : Attends i c₂ subs₂ (h ++ [k])) :
    Narrowed subs₁ c₁ c₂ k.outcome.offers := by
  obtain ⟨hpre, hstep, -⟩ := hist.split
  have hsound := hpre.sound h₀.sound
  have hend : (∀ op, k.step ≠ .start i op) → (∀ f, k.step ≠ .finish i f) →
      Narrowed subs₁ c₁ c₂ k.outcome.offers := fun hs hf =>
    .of_no_events fun _ _ hm => hist.end_call h₀ hi hs hf hm
  have hat₁ := ha₁ k (by simp) hi
  have hat₂ := ha₂ k (by simp) hi
  obtain ⟨s₁, st, a⟩ := k
  cases Session.effect_on_build (Session.step_eq_ok.mp hstep) i with
  | begun => exact absurd hi (by simp [Step.build?])
  | other hne => exact absurd hi hne
  | @start op b t a hb ht _ _ ho =>
    rw [(hpre.settings h₀).1] at ht
    exact ho ▸ Build.narrowed_start hm (hsound i b hb) ht hsubs (hat₁ rfl b hb) (hat₂ rfl b hb)
  | @finish f b a hb _ _ ho =>
    exact ho ▸ Build.narrowed_finish (hsound i b hb) (hat₁ rfl b hb) (hat₂ rfl b hb)
      fun e hc hl => hpre.live_narrows h₀ hm hsubs ha₁.of_append ha₂.of_append hb hc hl
  | close => exact hend (by simp) (by simp)
  | drop => exact hend (by simp) (by simp)

/-- The events of a build for the narrower of two connections that attend it. -/
theorem narrowed_offered (h₀ : s₀.Fresh config registry)
    (hm : ∀ m ∈ registry.mappers, m ∈ Mapper.builtIn) (hist : History listing s₀ h s)
    (hsubs : ∀ ty, subs₁.requests ty = true → subs₂.requests ty = true)
    (ha₁ : Attends i c₁ subs₁ h) (ha₂ : Attends i c₂ subs₂ h) :
    Forall₂ Event.SameButParent (eventsIn i (Call.offered c₁) h)
      (requestedIn subs₁ (eventsIn i (Call.offered c₂) h)) := by
  induction hist with
  | nil => exact .nil
  | @snoc h s st a hist hs ih =>
    rw [eventsIn_append, eventsIn_append, requestedIn_append]
    refine List.rel_append (ih ha₁.of_append ha₂.of_append) ?_
    rw [eventsIn_singleton, eventsIn_singleton]
    by_cases hi : st.build? = some i
    · rw [if_pos hi, if_pos hi]
      exact (hist.snoc hs).narrowed_call h₀ hm hi hsubs ha₁ ha₂
    · rw [if_neg hi, if_neg hi]
      exact .nil

end History

end BuildFeed
