/-
# What a call of a session does

`Session.Effect` lists what each call does, and under which conditions it
returns; it is `Session.step` read as a relation (`Session.step_eq_ok`). From
it follow the views that the theory needs: what a call leaves as it is
(`Session.Effect.frame`), and what becomes of one build (`Session.effect_on_build`).

Key definitions: `Session.Effect`, `Step.build?`, `Session.Sound`,
`Session.Touch`.
Key theorems: `Session.step_eq_ok`, `Session.effect_on_build`,
`Session.Effect.turn_of_start`,
`Session.Effect.sound`, `Session.Effect.proper`.
-/
import BuildFeed.Session
import BuildFeed.Proofs.Build.Turns

namespace BuildFeed

/-- The build that a call is made on. -/
def Step.build? : Step → Option Nat
  | .start i _ => some i
  | .finish i _ => some i
  | .close i _ => some i
  | .dropBuild i => some i
  | _ => none

namespace Session

/-- What a call does. -/
inductive Effect (listing : Listing) (s : Session) : Step → Advance → Prop
  | connect {id : ConnectionId} {subs : SubscriptionSet} (hb : s.bridge = true)
      (hc : s.hub.capacity ≤ Hub.maxCapacity) :
    Effect listing s (.connect id subs)
      ⟨{ s with hub := s.hub.connect id subs }, .connected s.hub.connections.length, []⟩
  | disconnect {id : ConnectionId} (hb : s.bridge = true) :
    Effect listing s (.disconnect id)
      ⟨{ s with hub := (s.hub.disconnect id).2 }, .disconnected (s.hub.disconnect id).1, []⟩
  | dropStream {i : Nat} {x : Connection} (hx : s.stream? i = some x) :
    Effect listing s (.dropStream i)
      ⟨{ s with hub := s.hub.modify i fun _ => x.dropStream }, .done, []⟩
  | drain {i : Nat} {x : Connection} (hx : s.stream? i = some x) :
    Effect listing s (.drain i)
      ⟨{ s with hub := s.hub.modify i fun _ => x.drain.2 }, .drained x.drain.1, []⟩
  | receive {i : Nat} {x : Connection} (hx : s.stream? i = some x) :
    Effect listing s (.receive i)
      ⟨{ s with hub := s.hub.modify i fun _ => x.receive.2 }, .received x.receive.1, []⟩
  | dropBridge (hb : s.bridge = true) :
    Effect listing s .dropBridge ⟨{ s with bridge := false }.settle, .done, []⟩
  | begin {id : BuildId} (hb : s.bridge = true) :
    Effect listing s (.begin id)
      ⟨{ s with
          builds := s.builds ++
            [some (.begin id (listing.order s.builds.length s.hub.attachedNumbers))] },
        .begun s.builds.length, []⟩
  | start {i : Nat} {op : StartSignal} {b : Build} {t : Turn} (hi : s.build? i = some b)
      (ht : b.start s.registry s.policy s.hub op = some t) :
    Effect listing s (.start i op) ⟨s.takeTurn i t, .signalled t.result, t.offers⟩
  | finish {i : Nat} {f : FinishSignal} {b : Build} (hi : s.build? i = some b) :
    Effect listing s (.finish i f)
      ⟨s.takeTurn i (b.finish s.hub f), .signalled (b.finish s.hub f).result,
        (b.finish s.hub f).offers⟩
  | close {i : Nat} {reason : EndReason} {b : Build} (hi : s.build? i = some b) :
    Effect listing s (.close i reason)
      ⟨s.takeTurn i (b.close s.hub reason), .closed b.orphans, (b.close s.hub reason).offers⟩
  | dropBuild {i : Nat} {b : Build} (hi : s.build? i = some b) :
    Effect listing s (.dropBuild i)
      ⟨{ s.takeTurn i (b.close s.hub .cancelled) with
          builds := (s.takeTurn i (b.close s.hub .cancelled)).builds.set i none }.settle,
        .done, (b.close s.hub .cancelled).offers⟩

variable {listing : Listing} {s : Session} {st : Step} {a : Advance}

theorem onBridge_eq_ok {f : Unit → Except Stop Advance} :
    s.onBridge f = .ok a ↔ s.bridge = true ∧ f () = .ok a := by
  unfold onBridge
  cases s.bridge <;> simp

theorem onStream_eq_ok {i : Nat} {f : Connection → Reply × Connection} :
    s.onStream i f = .ok a ↔ ∃ x, s.stream? i = some x ∧
      a = ⟨{ s with hub := s.hub.modify i fun _ => (f x).2 }, (f x).1, []⟩ := by
  unfold onStream
  cases s.stream? i with
  | none => simp
  | some x => simp [eq_comm]

theorem onBuild_eq_ok {i : Nat} {f : Build → Except Stop Advance} :
    s.onBuild i f = .ok a ↔ ∃ b, s.build? i = some b ∧ f b = .ok a := by
  unfold onBuild
  cases s.build? i with
  | none => simp
  | some b => simp

/-- The effects are what a call does. -/
theorem step_eq_ok : s.step listing st = .ok a ↔ Effect listing s st a := by
  constructor
  · intro h
    cases st with
    | connect id subs =>
      rw [step, onBridge_eq_ok] at h
      obtain ⟨hb, h⟩ := h
      by_cases hc : Hub.maxCapacity < s.hub.capacity
      · rw [if_pos hc] at h
        exact absurd h (by simp)
      · rw [if_neg hc] at h
        exact Except.ok.inj h ▸ .connect hb (Nat.not_lt.mp hc)
    | disconnect id =>
      rw [step, onBridge_eq_ok] at h
      obtain ⟨hb, h⟩ := h
      exact Except.ok.inj h ▸ .disconnect hb
    | dropStream i =>
      obtain ⟨x, hx, rfl⟩ := onStream_eq_ok.mp h
      exact .dropStream hx
    | drain i =>
      obtain ⟨x, hx, rfl⟩ := onStream_eq_ok.mp h
      exact .drain hx
    | receive i =>
      obtain ⟨x, hx, rfl⟩ := onStream_eq_ok.mp h
      exact .receive hx
    | dropBridge =>
      rw [step, onBridge_eq_ok] at h
      obtain ⟨hb, h⟩ := h
      exact Except.ok.inj h ▸ .dropBridge hb
    | begin id =>
      rw [step, onBridge_eq_ok] at h
      obtain ⟨hb, h⟩ := h
      exact Except.ok.inj h ▸ .begin hb
    | start i op =>
      obtain ⟨b, hi, h⟩ := onBuild_eq_ok.mp h
      cases ht : b.start s.registry s.policy s.hub op with
      | none => simp [ht] at h
      | some t =>
        simp only [ht] at h
        exact Except.ok.inj h ▸ .start hi ht
    | finish i f =>
      obtain ⟨b, hi, h⟩ := onBuild_eq_ok.mp h
      exact Except.ok.inj h ▸ .finish hi
    | close i reason =>
      obtain ⟨b, hi, h⟩ := onBuild_eq_ok.mp h
      exact Except.ok.inj h ▸ .close hi
    | dropBuild i =>
      obtain ⟨b, hi, h⟩ := onBuild_eq_ok.mp h
      exact Except.ok.inj h ▸ .dropBuild hi
  · intro h
    cases h with
    | connect hb hc =>
      rw [step, onBridge_eq_ok]
      exact ⟨hb, if_neg (Nat.not_lt.mpr hc)⟩
    | disconnect hb =>
      rw [step, onBridge_eq_ok]
      exact ⟨hb, rfl⟩
    | dropStream hx => exact onStream_eq_ok.mpr ⟨_, hx, rfl⟩
    | drain hx => exact onStream_eq_ok.mpr ⟨_, hx, rfl⟩
    | receive hx => exact onStream_eq_ok.mpr ⟨_, hx, rfl⟩
    | dropBridge hb =>
      rw [step, onBridge_eq_ok]
      exact ⟨hb, rfl⟩
    | begin hb =>
      rw [step, onBridge_eq_ok]
      exact ⟨hb, rfl⟩
    | start hi ht => exact onBuild_eq_ok.mpr ⟨_, hi, by rw [ht]⟩
    | finish hi => exact onBuild_eq_ok.mpr ⟨_, hi, rfl⟩
    | close hi => exact onBuild_eq_ok.mpr ⟨_, hi, rfl⟩
    | dropBuild hi => exact onBuild_eq_ok.mpr ⟨_, hi, rfl⟩

/-- A start hands its operation to the build. -/
theorem Effect.of_start {i : Nat} {op : StartSignal} (h : Effect listing s (.start i op) a) :
    ∃ b t, s.build? i = some b ∧ b.start s.registry s.policy s.hub op = some t ∧
      a.reply = .signalled t.result ∧ a.offers = t.offers := by
  cases h with
  | start hi ht => exact ⟨_, _, hi, ht, rfl, rfl⟩

theorem Effect.of_finish {i : Nat} {f : FinishSignal} (h : Effect listing s (.finish i f) a) :
    ∃ b, s.build? i = some b ∧ a.reply = .signalled (b.finish s.hub f).result ∧
      a.offers = (b.finish s.hub f).offers := by
  cases h with
  | finish hi => exact ⟨_, hi, rfl, rfl⟩

/-! ### Parts of a session -/

theorem stream?_eq_some {i : Nat} {x : Connection} :
    s.stream? i = some x ↔ s.hub.connections[i]? = some x ∧ x.held = true := by
  rw [stream?, Option.filter_eq_some_iff]

theorem build?_eq_some {i : Nat} {b : Build} : s.build? i = some b ↔ s.builds[i]? = some (some b) := by
  unfold build?
  cases h : s.builds[i]? with
  | none => simp
  | some o => cases o <;> simp

theorem isAlive_of_bridge (hb : s.bridge = true) : s.isAlive = true := by
  simp [isAlive, hb]

theorem isAlive_of_build? {i : Nat} {b : Build} (hb : s.build? i = some b) : s.isAlive = true := by
  rw [isAlive, Bool.or_eq_true, List.any_eq_true]
  exact Or.inr ⟨some b, List.mem_of_getElem? (build?_eq_some.mp hb), rfl⟩

theorem build?_congr {s' : Session} (h : s'.builds = s.builds) (i : Nat) :
    s'.build? i = s.build? i := by
  rw [build?, build?, h]

theorem build?_takeTurn {i : Nat} {b : Build} (hi : s.build? i = some b) (t : Turn) (j : Nat) :
    (s.takeTurn i t).build? j = if i = j then some t.build else s.build? j := by
  have hlt : i < s.builds.length := (List.getElem?_eq_some_iff.mp (build?_eq_some.mp hi)).1
  unfold takeTurn build?
  rw [List.getElem?_set]
  by_cases h : i = j
  · rw [if_pos h, if_pos h]
    subst h
    rw [if_pos hlt]
    rfl
  · rw [if_neg h, if_neg h]

theorem build?_append (s : Session) (b : Build) (j : Nat) :
    build? { s with builds := s.builds ++ [some b] } j =
      if j = s.builds.length then some b else s.build? j := by
  unfold build?
  by_cases hj : j = s.builds.length
  · rw [if_pos hj, hj]
    simp
  · rw [if_neg hj]
    rcases Nat.lt_or_gt_of_ne hj with hlt | hgt
    · rw [List.getElem?_append_left hlt]
    · rw [List.getElem?_eq_none (by simp; omega), List.getElem?_eq_none (by omega)]

/-- A start is a turn of its build. -/
theorem Effect.turn_of_start {i : Nat} {op : StartSignal} {b : Build}
    (h : Effect listing s (.start i op) a) (hb : s.build? i = some b) :
    ∃ t, b.start s.registry s.policy s.hub op = some t ∧ a.session = s.takeTurn i t ∧
      a.reply = .signalled t.result ∧ a.offers = t.offers ∧ a.session.build? i = some t.build := by
  cases h with
  | start hi ht =>
    obtain rfl := Option.some.inj (hb.symm.trans hi)
    exact ⟨_, ht, rfl, rfl, rfl, (build?_takeTurn hi _ i).trans (if_pos rfl)⟩

@[simp] theorem builds_settle (s : Session) : s.settle.builds = s.builds := by
  unfold settle
  split <;> rfl

@[simp] theorem registry_settle (s : Session) : s.settle.registry = s.registry := by
  unfold settle
  split <;> rfl

@[simp] theorem policy_settle (s : Session) : s.settle.policy = s.policy := by
  unfold settle
  split <;> rfl

@[simp] theorem bridge_settle (s : Session) : s.settle.bridge = s.bridge := by
  unfold settle
  split <;> rfl

@[simp] theorem isAlive_settle (s : Session) : s.settle.isAlive = s.isAlive := by
  unfold settle
  split <;> rfl

@[simp] theorem capacity_settle (s : Session) : s.settle.hub.capacity = s.hub.capacity := by
  unfold settle
  split <;> rfl

@[simp] theorem length_settle (s : Session) :
    s.settle.hub.connections.length = s.hub.connections.length := by
  unfold settle
  split
  · rfl
  · exact List.length_map ..

theorem getElem?_settle (s : Session) (c : Nat) : s.settle.hub.connections[c]? =
    s.hub.connections[c]?.map fun x => if s.isAlive then x else x.abandon := by
  unfold settle
  cases s.isAlive with
  | true => simp
  | false => simp [Hub.dissolve]

theorem getElem?_disconnect (hub : Hub) (id : ConnectionId) (c : Nat) :
    (hub.disconnect id).2.connections[c]? =
      hub.connections[c]?.map fun x =>
        if hub.find? id = some c then x.tearDown .disconnected else x := by
  unfold Hub.disconnect
  cases hf : hub.find? id with
  | none => simp
  | some i =>
    simp only [Hub.getElem?_modify, Option.some.injEq]

@[simp] theorem capacity_disconnect (hub : Hub) (id : ConnectionId) :
    (hub.disconnect id).2.capacity = hub.capacity := by
  unfold Hub.disconnect
  split <;> rfl

/-- No call changes the registry, the policy or the capacity of the queues. -/
theorem Effect.frame (h : Effect listing s st a) : a.session.registry = s.registry ∧
    a.session.policy = s.policy ∧ a.session.hub.capacity = s.hub.capacity := by
  cases h <;> simp [takeTurn, Hub.connect]

/-- Builds are not lost. -/
theorem Effect.length_builds_le (h : Effect listing s st a) :
    s.builds.length ≤ a.session.builds.length := by
  cases h <;> simp [takeTurn]

/-! ### Builds -/

/-- Every build is sound. -/
def Sound (s : Session) : Prop := ∀ i b, s.build? i = some b → b.Sound

theorem mem_attachedNumbers {hub : Hub} {c : Nat} :
    c ∈ hub.attachedNumbers ↔ hub.isAttached c = true := by
  rw [Hub.attachedNumbers, List.mem_filter, List.mem_range, and_iff_right_iff_imp]
  intro ha
  obtain ⟨x, hx, -⟩ := (Option.any_eq_true _ _).mp ha
  exact (List.getElem?_eq_some_iff.mp hx).1

theorem nodup_attachedNumbers (hub : Hub) : hub.attachedNumbers.Nodup :=
  List.nodup_range.filter _

/-- What a call does to the build of a number. -/
inductive Touch (listing : Listing) (s : Session) (i : Nat) : Step → Advance → Prop
  /-- The build begins. -/
  | begun {id : BuildId} {a : Advance} (hi : i = s.builds.length)
      (hb : a.session.build? i =
        some (.begin id (listing.order i s.hub.attachedNumbers))) (ho : a.offers = []) :
    Touch listing s i (.begin id) a
  /-- The call is not about the build. -/
  | other {st : Step} {a : Advance} (hst : st.build? ≠ some i)
      (hb : a.session.build? i = s.build? i) : Touch listing s i st a
  | start {op : StartSignal} {b : Build} {t : Turn} {a : Advance} (hi : s.build? i = some b)
      (ht : b.start s.registry s.policy s.hub op = some t)
      (hb : a.session.build? i = some t.build) (hr : a.reply = .signalled t.result)
      (ho : a.offers = t.offers) : Touch listing s i (.start i op) a
  | finish {f : FinishSignal} {b : Build} {a : Advance} (hi : s.build? i = some b)
      (hb : a.session.build? i = some (b.finish s.hub f).build)
      (hr : a.reply = .signalled (b.finish s.hub f).result)
      (ho : a.offers = (b.finish s.hub f).offers) : Touch listing s i (.finish i f) a
  | close {reason : EndReason} {b : Build} {a : Advance} (hi : s.build? i = some b)
      (hb : a.session.build? i = some (b.close s.hub reason).build)
      (ho : a.offers = (b.close s.hub reason).offers) : Touch listing s i (.close i reason) a
  | drop {b : Build} {a : Advance} (hi : s.build? i = some b)
      (hb : a.session.build? i = none)
      (ho : a.offers = (b.close s.hub .cancelled).offers) : Touch listing s i (.dropBuild i) a

/-- A call on a build leaves every other build as it is. -/
theorem effect_on_build (h : Effect listing s st a) (i : Nat) : Touch listing s i st a := by
  cases h with
  | connect => exact .other (by simp [Step.build?]) rfl
  | disconnect => exact .other (by simp [Step.build?]) rfl
  | dropStream => exact .other (by simp [Step.build?]) rfl
  | drain => exact .other (by simp [Step.build?]) rfl
  | receive => exact .other (by simp [Step.build?]) rfl
  | dropBridge => exact .other (by simp [Step.build?]) (build?_congr (builds_settle _) i)
  | begin hb =>
    by_cases hi : i = s.builds.length
    · subst hi
      exact .begun rfl ((build?_append s _ _).trans (if_pos rfl)) rfl
    · exact .other (by simp [Step.build?]) ((build?_append s _ i).trans (if_neg hi))
  | @start j op b t hj ht =>
    by_cases hi : j = i
    · subst hi
      exact .start hj ht (by rw [build?_takeTurn hj, if_pos rfl]) rfl rfl
    · exact .other (by simp [Step.build?, hi]) (by rw [build?_takeTurn hj, if_neg hi])
  | @finish j f b hj =>
    by_cases hi : j = i
    · subst hi
      exact .finish hj (by rw [build?_takeTurn hj, if_pos rfl]) rfl rfl
    · exact .other (by simp [Step.build?, hi]) (by rw [build?_takeTurn hj, if_neg hi])
  | @close j reason b hj =>
    by_cases hi : j = i
    · subst hi
      exact .close hj (by rw [build?_takeTurn hj, if_pos rfl]) rfl
    · exact .other (by simp [Step.build?, hi]) (by rw [build?_takeTurn hj, if_neg hi])
  | @dropBuild j b hj =>
    have hlt : j < s.builds.length := (List.getElem?_eq_some_iff.mp (build?_eq_some.mp hj)).1
    by_cases hi : j = i
    · subst hi
      refine .drop hj ?_ rfl
      rw [build?_congr (builds_settle _)]
      simp [build?, takeTurn, hlt]
    · refine .other (by simp [Step.build?, hi]) ?_
      rw [build?_congr (builds_settle _)]
      simp [build?, takeTurn, hi]

/-- Every call keeps every build sound. -/
theorem Effect.sound (h : Effect listing s st a) (hs : s.Sound) : a.session.Sound := by
  intro i b' hb'
  cases effect_on_build h i with
  | begun _ hb _ =>
    rw [hb, Option.some.injEq] at hb'
    rw [← hb']
    exact Build.sound_begin _ ((listing.perm _ _).nodup_iff.mpr (nodup_attachedNumbers _))
  | other _ hb =>
    rw [hb] at hb'
    exact hs i b' hb'
  | start hi ht hb =>
    rw [hb, Option.some.injEq] at hb'
    exact hb' ▸ Build.sound_start (hs i _ hi) ht
  | finish hi hb =>
    rw [hb, Option.some.injEq] at hb'
    exact hb' ▸ Build.sound_finish (hs i _ hi)
  | close hi hb =>
    rw [hb, Option.some.injEq] at hb'
    exact hb' ▸ Build.sound_close (hs i _ hi)
  | drop _ hb =>
    rw [hb] at hb'
    simp at hb'

/-- The offers of every call are made properly: to attached connections, and
at most one to each. -/
theorem Effect.proper (h : Effect listing s st a) (hs : s.Sound) :
    (a.offers.map (·.connection)).Nodup ∧ ∀ o ∈ a.offers, s.hub.isAttached o.connection = true := by
  have hnone : (([] : List Offer).map (·.connection)).Nodup ∧
      ∀ o ∈ ([] : List Offer), s.hub.isAttached o.connection = true :=
    ⟨List.nodup_nil, fun _ h => absurd h (by simp)⟩
  cases h with
  | start hi ht =>
    have hp := Build.proper_start (hs _ _ hi) ht
    exact ⟨hp.once, hp.attached⟩
  | @finish i f b hi =>
    have hp := Build.proper_finish s.hub f (hs _ _ hi)
    exact ⟨hp.once, hp.attached⟩
  | @close i reason b hi =>
    have hp := Build.proper_close s.hub reason (hs _ _ hi)
    exact ⟨hp.once, hp.attached⟩
  | dropBuild hi =>
    have hp := Build.proper_close s.hub .cancelled (hs _ _ hi)
    exact ⟨hp.once, hp.attached⟩
  | connect => exact hnone
  | disconnect => exact hnone
  | dropStream => exact hnone
  | drain => exact hnone
  | receive => exact hnone
  | dropBridge => exact hnone
  | begin => exact hnone

end Session

end BuildFeed
