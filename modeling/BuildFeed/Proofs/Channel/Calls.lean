/-
# Calls on the channel of intermediate models

A listener is registered with one receiver at most (`ModelChannel.Single`), so
that every call can be told receiver by receiver: what it does to the receiver
of a number depends on that receiver alone (`ModelChannel.getElem?_push` and
its like). `ModelReceiver.Follows` puts this in the words of the call: whether
it ends the registration, what it delivers to the listener, what is read of the
receiver, and whether the receiver is gone after it.

Key definitions: `ModelChannel.Call`, `ModelChannel.History`,
`ModelReceiver.serves`, `ModelChannel.Single`, `ModelReceiver.Follows`.
Key theorems: `ModelChannel.push_fst_iff`, `ModelChannel.Single.step`,
`ModelChannel.Call.follows`.
-/
import BuildFeed.ModelChannel
import BuildFeed.Proofs.Lists

namespace BuildFeed

open Json

/-- Whether a receiver is that of the registration of a listener. -/
def ModelReceiver.serves (listener : ListenerId) (r : ModelReceiver) : Bool :=
  r.registered && r.listener = listener

theorem ModelReceiver.serves_iff {listener : ListenerId} {r : ModelReceiver} :
    r.serves listener = true ↔ r.registered = true ∧ r.listener = listener := by
  rw [serves, Bool.and_eq_true, decide_eq_true_eq]

namespace ModelChannel

/-- A call that was made: its step, its answer, and the channel before and after. -/
structure Call where
  before : ModelChannel
  step : Step
  reply : Reply
  after : ModelChannel

/-- The calls of a history lead from one channel to another. -/
inductive History (ch₀ : ModelChannel) : List Call → ModelChannel → Prop
  | nil : History ch₀ [] ch₀
  | snoc {h : List Call} {ch ch' : ModelChannel} {st : Step} {reply : Reply}
      (hist : History ch₀ h ch) (hs : ch.step st = some (reply, ch')) :
    History ch₀ (h ++ [⟨ch, st, reply, ch'⟩]) ch'

namespace History

variable {ch₀ ch : ModelChannel} {pre post h : List Call} {k : Call}

/-- A history before one of its calls, the call, and the history after it. -/
theorem split (hist : History ch₀ (pre ++ k :: post) ch) :
    History ch₀ pre k.before ∧ k.before.step k.step = some (k.reply, k.after) ∧
      History k.after post ch := by
  generalize hl : pre ++ k :: post = l at hist
  induction hist generalizing post with
  | nil => simp at hl
  | @snoc h ch ch' st reply hist hs ih =>
    rcases split_of_snoc hl.symm with ⟨rfl, rfl, rfl⟩ | ⟨post', rfl, hh⟩
    · exact ⟨hist, hs, .nil⟩
    · obtain ⟨h1, h2, h3⟩ := ih hh.symm
      exact ⟨h1, h2, h3.snoc hs⟩

/-- What every call keeps holds after a history if it holds before. -/
theorem invariant {P : ModelChannel → Prop} (h₀ : P ch₀)
    (hstep : ∀ {ch ch' st reply}, P ch → ch.step st = some (reply, ch') → P ch')
    (hist : History ch₀ h ch) : P ch := by
  induction hist with
  | nil => exact h₀
  | snoc _ hs ih => exact hstep ih hs

/-- A call after which come the calls of a history. -/
theorem cons {ch' : ModelChannel} {st : Step} {reply : Reply} (hs : ch₀.step st = some (reply, ch'))
    (hist : History ch' h ch) : History ch₀ (⟨ch₀, st, reply, ch'⟩ :: h) ch := by
  induction hist with
  | nil => exact .snoc (h := []) .nil hs
  | snoc _ hs' ih => exact .snoc (h := _ :: _) ih hs'

end History

/-- The calls of a list of steps, up to the first that cannot be made. -/
def calls (ch : ModelChannel) : List Step → List Call
  | [] => []
  | st :: steps =>
    match ch.step st with
    | none => []
    | some (reply, ch') => ⟨ch, st, reply, ch'⟩ :: calls ch' steps

/-- The channel after these calls. -/
def afterAll (ch : ModelChannel) : List Step → ModelChannel
  | [] => ch
  | st :: steps =>
    match ch.step st with
    | none => ch
    | some (_, ch') => afterAll ch' steps

theorem history_calls : ∀ (steps : List Step) (ch : ModelChannel),
    History ch (ch.calls steps) (ch.afterAll steps)
  | [], _ => .nil
  | st :: steps, ch => by
    rw [calls, afterAll]
    cases hs : ch.step st with
    | none => exact .nil
    | some a => exact .cons hs (history_calls steps a.2)

/-! ### Receivers by number -/

/-- No listener is registered with two receivers. -/
def Single (ch : ModelChannel) : Prop :=
  ∀ (i j : Nat) (r r' : ModelReceiver) (listener : ListenerId), ch.receivers[i]? = some r →
    ch.receivers[j]? = some r' → r.serves listener = true → r'.serves listener = true → i = j

section Single

variable {ch ch' : ModelChannel} {listener : ListenerId} {i j : Nat} {r : ModelReceiver}
  {payload : Value}

theorem getElem?_modify (ch : ModelChannel) (i j : Nat) (f : ModelReceiver → ModelReceiver) :
    (ch.modify i f).receivers[j]? = ch.receivers[j]?.map fun r => if i = j then f r else r := by
  rw [modify, List.getElem?_modify]
  by_cases hij : i = j
  · simp [hij]
  · simp [hij]

/-- The receiver that is found is the one that serves the listener. -/
theorem find?_eq_some_iff (hs : ch.Single) : ch.find? listener = some i ↔
    ∃ r : ModelReceiver, ch.receivers[i]? = some r ∧ r.serves listener = true := by
  rw [find?, List.findIdx?_eq_some_iff_getElem]
  constructor
  · rintro ⟨hlt, hserves, -⟩
    exact ⟨_, List.getElem?_eq_getElem hlt, hserves⟩
  · rintro ⟨r, hr, hserves⟩
    obtain ⟨hlt, rfl⟩ := List.getElem?_eq_some_iff.mp hr
    refine ⟨hlt, hserves, fun j hj hfound => ?_⟩
    have hlt' : j < ch.receivers.length := Nat.lt_trans hj hlt
    have heq : j = i := hs j i _ _ listener (List.getElem?_eq_getElem hlt') hr hfound hserves
    omega

theorem find?_eq_none_iff : ch.find? listener = none ↔
    ∀ (i : Nat) (r : ModelReceiver), ch.receivers[i]? = some r → r.serves listener = false := by
  rw [find?, List.findIdx?_eq_none_iff]
  constructor
  · intro h i r hr
    exact h r (List.mem_of_getElem? hr)
  · intro h r hr
    obtain ⟨i, hi⟩ := List.mem_iff_getElem?.mp hr
    exact h i r hi

/-- To change the receiver of a registration is to change the one that serves
the listener. -/
theorem getElem?_modify_find (hs : ch.Single) (hf : ch.find? listener = some i)
    (f : ModelReceiver → ModelReceiver) (j : Nat) :
    (ch.modify i f).receivers[j]? =
      ch.receivers[j]?.map fun r => if r.serves listener then f r else r := by
  obtain ⟨r, hr, hserves⟩ := (find?_eq_some_iff hs).mp hf
  rw [getElem?_modify]
  cases hj : ch.receivers[j]? with
  | none => rfl
  | some r' =>
    by_cases hij : i = j
    · subst hij
      obtain rfl := Option.some.inj (hr.symm.trans hj)
      simp [hserves]
    · have hnot : r'.serves listener = false := by
        rw [Bool.eq_false_iff]
        exact fun hserves' => hij (hs i j r r' listener hr hj hserves hserves')
      simp [hij, hnot]

theorem map_serves_of_none (hf : ch.find? listener = none) (f : ModelReceiver → ModelReceiver)
    (j : Nat) : ch.receivers[j]? =
      ch.receivers[j]?.map fun r => if r.serves listener then f r else r := by
  cases hj : ch.receivers[j]? with
  | none => rfl
  | some r =>
    have hnot : r.serves listener = false := find?_eq_none_iff.mp hf j r hj
    simp [hnot]

/-- A registration that is torn down: the receiver that serves the listener. -/
theorem getElem?_tearDown (hs : ch.Single) (listener : ListenerId) (j : Nat) :
    (ch.tearDown listener).2.receivers[j]? =
      ch.receivers[j]?.map fun r => if r.serves listener then r.unregister else r := by
  unfold tearDown
  cases hf : ch.find? listener with
  | none => exact map_serves_of_none hf _ j
  | some i => exact getElem?_modify_find hs hf _ j

theorem length_tearDown (ch : ModelChannel) (listener : ListenerId) :
    (ch.tearDown listener).2.receivers.length = ch.receivers.length := by
  unfold tearDown
  cases ch.find? listener with
  | none => rfl
  | some i => exact List.length_modify ..

/-- A new registration tears the one before it down. -/
theorem getElem?_register (hs : ch.Single) (listener : ListenerId) (j : Nat) :
    (ch.register listener).receivers[j]? =
      if j = ch.receivers.length then some (.fresh listener)
      else ch.receivers[j]?.map fun r => if r.serves listener then r.unregister else r := by
  rw [register, ← getElem?_tearDown hs listener j, ← length_tearDown ch listener]
  by_cases hj : j = (ch.tearDown listener).2.receivers.length
  · rw [if_pos hj, hj, List.getElem?_concat_length]
  · rw [if_neg hj]
    by_cases hlt : j < (ch.tearDown listener).2.receivers.length
    · rw [List.getElem?_append_left hlt]
    · rw [List.getElem?_eq_none (by simp; omega), List.getElem?_eq_none (by omega)]

/-- What a push does to a receiver that serves the listener. -/
def taking (payload : Value) (r : ModelReceiver) : ModelReceiver :=
  if r.held then r.enqueue payload.canonical else r.unregister

/-- A push reaches the receiver that serves the listener, or ends its registration. -/
theorem getElem?_push (hs : ch.Single) (listener : ListenerId) (payload : Value) (j : Nat) :
    (ch.push listener payload).2.receivers[j]? =
      ch.receivers[j]?.map fun r => if r.serves listener then taking payload r else r := by
  unfold push
  cases hf : ch.find? listener with
  | none => exact map_serves_of_none hf _ j
  | some i =>
    obtain ⟨r, hr, hserves⟩ := (find?_eq_some_iff hs).mp hf
    -- of the receivers that serve the listener there is only the one found
    have hsame : ∀ f : ModelReceiver → ModelReceiver, f r = taking payload r →
        (ch.modify i f).receivers[j]? =
          ch.receivers[j]?.map fun r => if r.serves listener then taking payload r else r := by
      intro f hfr
      rw [getElem?_modify_find hs hf]
      cases hj : ch.receivers[j]? with
      | none => rfl
      | some r' =>
        cases hserves' : r'.serves listener with
        | false => simp [hserves']
        | true =>
          obtain rfl := hs i j r r' listener hr hj hserves hserves'
          obtain rfl := Option.some.inj (hr.symm.trans hj)
          simp [hserves', hfr]
    simp only [hr]
    cases hheld : r.held with
    | true => exact hsame _ (by simp [taking, hheld])
    | false => exact hsame _ (by simp [taking, hheld])

/-- A push is delivered exactly if the listener is registered with a receiver
that is held. -/
theorem push_fst_iff (hs : ch.Single) : (ch.push listener payload).1 = true ↔
    ∃ (i : Nat) (r : ModelReceiver), ch.receivers[i]? = some r ∧ r.serves listener = true ∧
      r.held = true := by
  unfold push
  cases hf : ch.find? listener with
  | none =>
    constructor
    · simp
    · rintro ⟨i, r, hr, hserves, -⟩
      rw [find?_eq_none_iff.mp hf i r hr] at hserves
      exact absurd hserves (by simp)
  | some i =>
    obtain ⟨r, hr, hserves⟩ := (find?_eq_some_iff hs).mp hf
    have honly : (∃ (i : Nat) (r : ModelReceiver), ch.receivers[i]? = some r ∧
        r.serves listener = true ∧ r.held = true) ↔ r.held = true := by
      constructor
      · rintro ⟨j, r', hr', hserves', hheld⟩
        obtain rfl := hs i j r r' listener hr hr' hserves hserves'
        obtain rfl := Option.some.inj (hr.symm.trans hr')
        exact hheld
      · exact fun hheld => ⟨i, r, hr, hserves, hheld⟩
    rw [honly]
    simp only [hr]
    cases hheld : r.held <;> simp

theorem receiver?_eq_some {r : ModelReceiver} :
    ch.receiver? i = some r ↔ ch.receivers[i]? = some r ∧ r.held = true := by
  rw [receiver?, Option.filter_eq_some_iff]

theorem getElem?_release (ch : ModelChannel) (j : Nat) :
    ch.release.receivers[j]? = ch.receivers[j]?.map ModelReceiver.unregister := by
  rw [release, List.getElem?_map]

end Single

/-! ### Receivers stay apart -/

theorem single_empty : Single .empty := by
  intro i j r r' listener hr
  simp [empty] at hr

/-- Receivers that serve no more listeners than before stay apart. -/
theorem Single.of_map {ch ch' : ModelChannel} {f : Nat → ModelReceiver → ModelReceiver}
    (hs : ch.Single) (h : ∀ j : Nat, ch'.receivers[j]? = ch.receivers[j]?.map (f j))
    (hf : ∀ (j : Nat) (r : ModelReceiver) (listener : ListenerId), ch.receivers[j]? = some r →
      (f j r).serves listener = true → r.serves listener = true) : ch'.Single := by
  intro i j r r' listener hr hr' hserves hserves'
  rw [h, Option.map_eq_some_iff] at hr hr'
  obtain ⟨x, hx, rfl⟩ := hr
  obtain ⟨y, hy, rfl⟩ := hr'
  exact hs i j x y listener hx hy (hf i x listener hx hserves) (hf j y listener hy hserves')

theorem serves_unregister (r : ModelReceiver) (listener : ListenerId) :
    r.unregister.serves listener = false := by simp [ModelReceiver.serves, ModelReceiver.unregister]

theorem serves_taking {payload : Value} {r : ModelReceiver} {listener : ListenerId}
    (h : (taking payload r).serves listener = true) : r.serves listener = true := by
  unfold taking at h
  split at h
  · exact h
  · rw [serves_unregister] at h
    exact absurd h (by simp)

theorem receive_snd (r : ModelReceiver) : r.receive.2 = { r with queue := r.queue.tail } := by
  obtain ⟨listener, queue, pushed, registered, held⟩ := r
  cases queue <;> rfl

/-- The loop that feeds a consumer takes all unread models and counts them. -/
theorem forward_eq (payloads : List Value) (n : Nat) (r : ModelReceiver) :
    r.forward ⟨payloads, n, none⟩ =
      (⟨payloads ++ r.queue.map (·.payload), n + r.queue.length,
          if r.registered then none else some (n + r.queue.length)⟩,
        { r with queue := [] }) := by
  obtain ⟨listener, queue, pushed, registered, held⟩ := r
  induction queue generalizing payloads n with
  | nil =>
    rw [ModelReceiver.forward]
    cases registered <;> simp [ModelReceiver.receive, Forwarding.next]
  | cons m rest ih =>
    rw [ModelReceiver.forward]
    simp only [ModelReceiver.receive, Forwarding.next, ih, List.map_cons, List.append_assoc,
      List.singleton_append, List.length_cons, Nat.add_assoc, Nat.add_comm 1]

/-- It returns the number of unread models, unless the registration lasts. -/
theorem forward_fresh (r : ModelReceiver) : r.forward .fresh =
    (⟨r.queue.map (·.payload), r.queue.length, if r.registered then none else some r.queue.length⟩,
      { r with queue := [] }) := by
  rw [Forwarding.fresh, forward_eq, List.nil_append, Nat.zero_add]

/-- A receiver whose registration ends if it is that of a listener. -/
theorem serves_of_ended {l listener : ListenerId} {r : ModelReceiver}
    (h : (if r.serves l then r.unregister else r).serves listener = true) :
    r.serves listener = true ∧ listener ≠ l := by
  cases hl : r.serves l with
  | true =>
    rw [hl, if_pos rfl, serves_unregister] at h
    exact absurd h (by simp)
  | false =>
    rw [hl, if_neg (by simp)] at h
    refine ⟨h, ?_⟩
    rintro rfl
    rw [hl] at h
    exact absurd h (by simp)

theorem Single.register {ch : ModelChannel} (hs : ch.Single) (l : ListenerId) :
    (ch.register l).Single := by
  -- a receiver is the new one, which serves its listener, or an old one, which does not
  have hcases : ∀ {j : Nat} {r : ModelReceiver} {listener : ListenerId},
      (ch.register l).receivers[j]? = some r → r.serves listener = true →
        (j = ch.receivers.length ∧ listener = l) ∨
          (listener ≠ l ∧ ∃ x, ch.receivers[j]? = some x ∧ x.serves listener = true) := by
    intro j r listener hr hserves
    rw [getElem?_register hs] at hr
    by_cases hj : j = ch.receivers.length
    · rw [if_pos hj, Option.some.injEq] at hr
      subst hr
      exact Or.inl ⟨hj, (ModelReceiver.serves_iff.mp hserves).2.symm⟩
    · rw [if_neg hj, Option.map_eq_some_iff] at hr
      obtain ⟨x, hx, rfl⟩ := hr
      obtain ⟨hserves, hne⟩ := serves_of_ended hserves
      exact Or.inr ⟨hne, x, hx, hserves⟩
  intro i j r r' listener hr hr' hserves hserves'
  rcases hcases hr hserves with ⟨hi, hl⟩ | ⟨hne, x, hx, hxs⟩
  · rcases hcases hr' hserves' with ⟨hj, -⟩ | ⟨hne, -⟩
    · exact hi.trans hj.symm
    · exact absurd hl hne
  · rcases hcases hr' hserves' with ⟨-, hl⟩ | ⟨-, y, hy, hys⟩
    · exact absurd hl hne
    · exact hs i j x y listener hx hy hxs hys

/-- A change to one receiver that leaves its listener and its registration. -/
theorem Single.modify {ch : ModelChannel} (hs : ch.Single) {i : Nat} {r : ModelReceiver}
    {f : ModelReceiver → ModelReceiver} (hr : ch.receivers[i]? = some r)
    (hf : ∀ listener, (f r).serves listener = r.serves listener) : (ch.modify i f).Single := by
  refine hs.of_map (getElem?_modify ch i · f) fun j r' listener hr' h => ?_
  by_cases hij : i = j
  · subst hij
    obtain rfl := Option.some.inj (hr.symm.trans hr')
    rwa [if_pos rfl, hf] at h
  · rwa [if_neg hij] at h

/-- No call registers a listener twice. -/
theorem Single.step {ch ch' : ModelChannel} {st : Step} {reply : Reply} (hs : ch.Single)
    (h : ch.step st = some (reply, ch')) : ch'.Single := by
  cases st with
  | register l =>
    obtain ⟨-, rfl⟩ := Prod.mk.inj (Option.some.inj h)
    exact hs.register l
  | push l payload =>
    cases payload with
    | none =>
      obtain ⟨-, rfl⟩ := Prod.mk.inj (Option.some.inj h)
      exact hs
    | some payload =>
      obtain ⟨-, rfl⟩ := Prod.mk.inj (Option.some.inj h)
      refine hs.of_map (getElem?_push hs l payload) fun j r listener _ h => ?_
      split at h
      · exact serves_taking h
      · exact h
  | tearDown l =>
    obtain ⟨-, rfl⟩ := Prod.mk.inj (Option.some.inj h)
    exact hs.of_map (getElem?_tearDown hs l) fun _ _ _ _ h => (serves_of_ended h).1
  | receive i =>
    obtain ⟨r, hr, h⟩ := Option.map_eq_some_iff.mp h
    obtain ⟨-, rfl⟩ := Prod.mk.inj h
    refine hs.modify (receiver?_eq_some.mp hr).1 fun listener => ?_
    rw [receive_snd]
    rfl
  | dropReceiver i =>
    obtain ⟨r, hr, h⟩ := Option.map_eq_some_iff.mp h
    obtain ⟨-, rfl⟩ := Prod.mk.inj h
    exact hs.modify (receiver?_eq_some.mp hr).1 fun _ => rfl
  | forward i =>
    obtain ⟨r, hr, h⟩ := Option.map_eq_some_iff.mp h
    obtain ⟨-, rfl⟩ := Prod.mk.inj h
    refine hs.modify (receiver?_eq_some.mp hr).1 fun listener => ?_
    rw [forward_fresh]
    rfl
  | release =>
    obtain ⟨-, rfl⟩ := Prod.mk.inj (Option.some.inj h)
    refine hs.of_map (f := fun _ => ModelReceiver.unregister) (getElem?_release ch) ?_
    intro j r listener _ h
    rw [serves_unregister] at h
    exact absurd h (by simp)

theorem History.single {h : List Call} {ch : ModelChannel} (hist : History .empty h ch) :
    ch.Single :=
  hist.invariant single_empty fun hs h => hs.step h

/-! ### What a call means for a receiver -/

namespace Call

/-- Whether a call ends the registration of a listener, if there is one. -/
def ends (l : ListenerId) (k : Call) : Bool :=
  match k.step, k.reply with
  | .register l', _ => l' = l
  | .tearDown l', _ => l' = l
  | .push l' _, .pushed (.ok false) => l' = l
  | .release, _ => true
  | _, _ => false

/-- The payloads that a call delivers to a listener, by its answer. -/
def delivered (l : ListenerId) (k : Call) : List Value :=
  match k.step, k.reply with
  | .push l' (some payload), .pushed (.ok true) => if l' = l then [payload.canonical] else []
  | _, _ => []

/-- The models that a call reads of a receiver: the one that it answers with, or
all those whose payloads are fed to a consumer. -/
def reads (i : Nat) (k : Call) : List IntermediateModel :=
  match k.step, k.reply with
  | .receive i', .received (.item m) => if i' = i then [m] else []
  | .forward i', _ => if i' = i then ((k.before.receivers[i]?.map (·.queue)).getD []) else []
  | _, _ => []

/-- Whether a receiver is gone after a call, dropped or used up. -/
def discards (i : Nat) (k : Call) : Bool :=
  match k.step with
  | .dropReceiver i' => i' = i
  | .forward i' => i' = i
  | _ => false

/-- A call that delivers something to a listener does not end its registration. -/
theorem delivered_of_ends {l : ListenerId} {k : Call} (h : k.ends l = true) :
    k.delivered l = [] := by
  obtain ⟨ch, st, reply, ch'⟩ := k
  unfold ends at h
  unfold delivered
  split at h <;> simp_all

/-- The model read of a receiver is the first in its queue. -/
theorem reads_receive (ch ch' : ModelChannel) (r : ModelReceiver) (i j : Nat) :
    reads i ⟨ch, .receive j, .received r.receive.1, ch'⟩ = if j = i then r.queue.take 1 else [] := by
  obtain ⟨listener, queue, pushed, registered, held⟩ := r
  cases queue with
  | nil => cases registered <;> simp [reads, ModelReceiver.receive]
  | cons m rest => rfl

end Call

/-- Payloads as the models of a listener, numbered from a place in the sequence. -/
def numberedFrom (n : Nat) (l : ListenerId) (payloads : List Value) : List IntermediateModel :=
  payloads.mapIdx fun j payload => ⟨l, UInt64.ofNat (n + j), payload⟩

theorem numberedFrom_append (n : Nat) (l : ListenerId) (ps qs : List Value) :
    numberedFrom n l (ps ++ qs) = numberedFrom n l ps ++ numberedFrom (n + ps.length) l qs := by
  unfold numberedFrom
  rw [List.mapIdx_append]
  congr 1
  apply List.mapIdx_eq_mapIdx_iff.mpr
  intro j hj
  rw [Nat.add_comm j, Nat.add_assoc]

end ModelChannel

open ModelChannel in
/-- What a call does to the receiver of a number, in the words of the call. -/
structure ModelReceiver.Follows (k : Call) (i : Nat) (r r' : ModelReceiver) : Prop where
  listener : r'.listener = r.listener
  registered : r'.registered = (r.registered && !k.ends r.listener)
  held : r'.held = (r.held && !k.discards i)
  pushed : r'.pushed = r.pushed + (if r.registered then k.delivered r.listener else []).length
  queue : r'.held = true → k.reads i ++ r'.queue =
    r.queue ++
      numberedFrom r.pushed r.listener (if r.registered then k.delivered r.listener else [])
  unread : k.reads i <+: r.queue
  holding : r.held = false → k.reads i = []

namespace ModelReceiver.Follows

open ModelChannel

variable {k : Call} {i : Nat} {r : ModelReceiver}

/-- A call that does not concern a receiver leaves it. -/
theorem same (hends : r.registered = true → k.ends r.listener = false)
    (hdel : r.registered = true → k.delivered r.listener = []) (hreads : k.reads i = [])
    (hdis : k.discards i = false) : Follows k i r r := by
  obtain ⟨listener, queue, pushed, registered, held⟩ := r
  cases registered with
  | false => constructor <;> simp [hreads, hdis, numberedFrom]
  | true =>
    have hends := hends rfl
    have hdel := hdel rfl
    constructor <;> simp_all [numberedFrom]

/-- A call that ends the registration of a receiver leaves the rest of it. -/
theorem unregister (hends : r.registered = true → k.ends r.listener = true)
    (hreads : k.reads i = []) (hdis : k.discards i = false) : Follows k i r r.unregister := by
  have hdel : r.registered = true → k.delivered r.listener = [] := fun h =>
    k.delivered_of_ends (hends h)
  obtain ⟨listener, queue, pushed, registered, held⟩ := r
  cases registered with
  | false => constructor <;> simp [ModelReceiver.unregister, hreads, hdis, numberedFrom]
  | true =>
    have hends := hends rfl
    have hdel := hdel rfl
    constructor <;> simp_all [ModelReceiver.unregister, numberedFrom]

/-- A call that ends the registration of a listener, if it has one. -/
theorem of_end {l : ListenerId} (hends : ∀ l', k.ends l' = decide (l = l'))
    (hdel : ∀ l', k.delivered l' = [])
    (hreads : k.reads i = []) (hdis : k.discards i = false) :
    Follows k i r (if r.serves l then r.unregister else r) := by
  by_cases hserves : r.serves l = true
  · obtain ⟨-, rfl⟩ := serves_iff.mp hserves
    rw [if_pos hserves]
    exact unregister (fun _ => by rw [hends, decide_eq_true rfl]) hreads hdis
  · rw [if_neg hserves]
    refine same (fun hreg => ?_) (fun _ => hdel _) hreads hdis
    rw [hends, decide_eq_false]
    rintro rfl
    exact hserves (serves_iff.mpr ⟨hreg, rfl⟩)

/-- What a push does to a receiver is what its answer says. -/
theorem of_push {ch ch' : ModelChannel} {l : ListenerId} {payload : Value} {delivered : Bool}
    (hheld : r.serves l = true → delivered = r.held) :
    Follows ⟨ch, .push l (some payload), .pushed (.ok delivered), ch'⟩ i r
      (if r.serves l then taking payload r else r) := by
  by_cases hserves : r.serves l = true
  · obtain ⟨hreg, rfl⟩ := serves_iff.mp hserves
    obtain rfl := hheld hserves
    rw [if_pos hserves]
    unfold taking
    cases hh : r.held with
    | true =>
      rw [if_pos rfl]
      constructor <;>
        simp [ModelReceiver.enqueue, Call.ends, Call.delivered, Call.reads, Call.discards, hreg, hh,
        numberedFrom]
    | false =>
      rw [if_neg (by simp)]
      exact unregister (fun _ => by simp [Call.ends]) rfl rfl
  · rw [if_neg hserves]
    have hne : r.registered = true → l ≠ r.listener := by
      rintro hreg rfl
      exact hserves (serves_iff.mpr ⟨hreg, rfl⟩)
    refine same (fun hreg => ?_) (fun hreg => ?_) rfl rfl
    · cases delivered <;> simp [Call.ends, hne hreg]
    · cases delivered <;> simp [Call.delivered, hne hreg]

/-- A call on one receiver leaves the others. -/
theorem of_modify {j : Nat} {f : ModelReceiver → ModelReceiver} (hends : ∀ l, k.ends l = false)
    (hdel : ∀ l, k.delivered l = []) (hother : j ≠ i → k.reads i = [] ∧ k.discards i = false)
    (hf : j = i → Follows k i r (f r)) : Follows k i r (if j = i then f r else r) := by
  by_cases hij : j = i
  · rw [if_pos hij]
    exact hf hij
  · obtain ⟨hreads, hdis⟩ := hother hij
    rw [if_neg hij]
    exact same (fun _ => hends _) (fun _ => hdel _) hreads hdis

end ModelReceiver.Follows

namespace ModelChannel

theorem step_push (ch : ModelChannel) (l : ListenerId) (payload : Value) :
    ch.step (.push l (some payload)) =
      some (.pushed (.ok (ch.push l payload).1), (ch.push l payload).2) := rfl

theorem step_tearDown (ch : ModelChannel) (l : ListenerId) :
    ch.step (.tearDown l) = some (.tornDown (ch.tearDown l).1, (ch.tearDown l).2) := rfl

/-- A receiver that is forwarded is used up. -/
theorem step_forward {ch : ModelChannel} {i : Nat} {r : ModelReceiver}
    (hr : ch.receivers[i]? = some r) (hheld : r.held = true) :
    ch.step (.forward i) = some (.forwarded (r.forward .fresh).1, ch.modify i ModelReceiver.drop) := by
  have hmodify : ch.modify i (fun _ => (r.forward .fresh).2.drop) = ch.modify i ModelReceiver.drop := by
    rw [modify, modify, forward_fresh]
    congr 1
    refine List.ext_getElem? fun j => ?_
    rw [List.getElem?_modify, List.getElem?_modify]
    by_cases hij : i = j
    · subst hij
      rw [hr]
      rfl
    · simp only [if_neg hij]
  rw [step, receiver?_eq_some.mpr ⟨hr, hheld⟩, Option.map_some, hmodify]

/-- What a call does to a receiver is told by the call. -/
theorem Call.follows {k : Call} (hs : k.before.Single)
    (h : k.before.step k.step = some (k.reply, k.after))
    {i : Nat} {r : ModelReceiver} (hr : k.before.receivers[i]? = some r) :
    ∃ r', k.after.receivers[i]? = some r' ∧ ModelReceiver.Follows k i r r' := by
  obtain ⟨ch, st, reply, ch'⟩ := k
  dsimp only at hs h hr ⊢
  cases st with
  | register l =>
    obtain ⟨rfl, rfl⟩ := Prod.mk.inj (Option.some.inj h)
    have hlt : i ≠ ch.receivers.length := fun hi => by simp [hi] at hr
    refine ⟨_, by rw [getElem?_register hs, if_neg hlt, hr]; rfl, ?_⟩
    exact .of_end (fun _ => rfl) (fun _ => rfl) rfl rfl
  | push l payload =>
    cases payload with
    | none =>
      obtain ⟨rfl, rfl⟩ := Prod.mk.inj (Option.some.inj h)
      exact ⟨r, hr, .same (fun _ => rfl) (fun _ => rfl) rfl rfl⟩
    | some payload =>
      rw [step_push] at h
      obtain ⟨rfl, rfl⟩ := Prod.mk.inj (Option.some.inj h)
      refine ⟨_, by rw [getElem?_push hs, hr]; rfl, .of_push fun hserves => ?_⟩
      -- the receiver that serves the listener decides the answer
      rw [Bool.eq_iff_iff, push_fst_iff hs]
      constructor
      · rintro ⟨j, r', hr', hserves', hheld⟩
        obtain rfl := hs i j r r' l hr hr' hserves hserves'
        obtain rfl := Option.some.inj (hr.symm.trans hr')
        exact hheld
      · exact fun hheld => ⟨i, r, hr, hserves, hheld⟩
  | tearDown l =>
    rw [step_tearDown] at h
    obtain ⟨rfl, rfl⟩ := Prod.mk.inj (Option.some.inj h)
    refine ⟨_, by rw [getElem?_tearDown hs, hr]; rfl, ?_⟩
    exact .of_end (fun _ => rfl) (fun _ => rfl) rfl rfl
  | receive j =>
    obtain ⟨x, hx, h⟩ := Option.map_eq_some_iff.mp h
    obtain ⟨rfl, rfl⟩ := Prod.mk.inj h
    obtain ⟨hx, hheld⟩ := receiver?_eq_some.mp hx
    refine ⟨_, by rw [getElem?_modify, hr]; rfl, ?_⟩
    refine .of_modify (f := fun _ => x.receive.2) (fun _ => rfl) (fun _ => rfl) ?_ ?_
    · exact fun hij => ⟨by rw [reads_receive, if_neg hij], rfl⟩
    · rintro rfl
      obtain rfl := Option.some.inj (hx.symm.trans hr)
      constructor <;>
        simp [reads_receive, receive_snd, ends, delivered, discards, hheld, numberedFrom,
          List.take_prefix, ← List.drop_one]
  | dropReceiver j =>
    obtain ⟨x, hx, h⟩ := Option.map_eq_some_iff.mp h
    obtain ⟨rfl, rfl⟩ := Prod.mk.inj h
    refine ⟨_, by rw [getElem?_modify, hr]; rfl, ?_⟩
    refine .of_modify (fun _ => rfl) (fun _ => rfl) (fun hij => ⟨rfl, decide_eq_false hij⟩) ?_
    rintro rfl
    constructor <;> simp [ModelReceiver.drop, ends, delivered, reads, discards]
  | forward j =>
    obtain ⟨x, hx, h⟩ := Option.map_eq_some_iff.mp h
    obtain ⟨rfl, rfl⟩ := Prod.mk.inj h
    obtain ⟨hx, hheld⟩ := receiver?_eq_some.mp hx
    refine ⟨_, by rw [getElem?_modify, hr]; rfl, ?_⟩
    refine .of_modify (f := fun _ => (x.forward .fresh).2.drop) (fun _ => rfl) (fun _ => rfl)
      (fun hij => ⟨if_neg hij, decide_eq_false hij⟩) ?_
    rintro rfl
    obtain rfl := Option.some.inj (hx.symm.trans hr)
    constructor <;>
      simp [forward_fresh, ModelReceiver.drop, ends, delivered, reads, discards, hx, hheld]
  | release =>
    obtain ⟨rfl, rfl⟩ := Prod.mk.inj (Option.some.inj h)
    refine ⟨_, by rw [getElem?_release, hr]; rfl, ?_⟩
    exact .unregister (fun _ => rfl) rfl rfl

end ModelChannel

end BuildFeed
