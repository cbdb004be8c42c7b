/-
# Registrations on the channel of intermediate models

A registration begins with the call that makes its receiver and lasts until
the first call that ends it. What its receiver gives is what was delivered to
the listener in between, numbered from zero (`ModelChannel.Arrives`): every
call adds to one side what it adds to the other
(`ModelChannel.Arrives.step`), whatever other listeners do and whatever was
registered before or after.

Key definitions: `ModelChannel.Registered`, `ModelChannel.deliveredDuring`,
`ModelChannel.Arrives`, `ModelChannel.Answered`, `ModelChannel.Call.concerns`.
Key theorems: `ModelChannel.History.arrives`, `ModelChannel.History.answered`,
`models_arrive_as_pushed`.
-/
import BuildFeed.Proofs.Channel.Calls

namespace BuildFeed

open Json

namespace ModelChannel

/-- A listener was registered with the receiver of a number, and these are the
calls that were made since. -/
def Registered (h : List Call) (l : ListenerId) (i : Nat) (since : List Call) : Prop :=
  ∃ pre k, h = pre ++ k :: since ∧ k.step = .register l ∧ k.reply = .registered i

/-- Whether a registration lasts, by the calls since. -/
def lasts (l : ListenerId) (since : List Call) : Bool := since.all (!·.ends l)

/-- Whether a receiver is still there, by the calls since it was made. -/
def alive (i : Nat) (since : List Call) : Bool := since.all (!·.discards i)

/-- The payloads delivered to a listener until its registration ends. -/
def deliveredDuring (l : ListenerId) (since : List Call) : List Value :=
  (since.takeWhile (!·.ends l)).flatMap (·.delivered l)

/-- The models read of a receiver. -/
def readOf (i : Nat) (since : List Call) : List IntermediateModel := since.flatMap (·.reads i)

/-- The receiver of a registration gives what was delivered to the listener
until the registration ended, and nothing else. What is unread is gone with the
receiver, and what was read is still the first of it. -/
structure Arrives (l : ListenerId) (i : Nat) (since : List Call) (r : ModelReceiver) : Prop where
  listener : r.listener = l
  registered : r.registered = lasts l since
  held : r.held = alive i since
  pushed : r.pushed = (deliveredDuring l since).length
  exact : alive i since = true →
    readOf i since ++ r.queue = numberedFrom 0 l (deliveredDuring l since)
  first : readOf i since <+: numberedFrom 0 l (deliveredDuring l since)

section Snoc

variable {l : ListenerId} {i : Nat} {since : List Call} {k : Call}

theorem lasts_snoc : lasts l (since ++ [k]) = (lasts l since && !k.ends l) := by simp [lasts]

theorem alive_snoc : alive i (since ++ [k]) = (alive i since && !k.discards i) := by simp [alive]

theorem readOf_snoc : readOf i (since ++ [k]) = readOf i since ++ k.reads i := by simp [readOf]

/-- A call adds to what is delivered if the registration lasts. -/
theorem deliveredDuring_snoc : deliveredDuring l (since ++ [k]) =
    deliveredDuring l since ++ if lasts l since then k.delivered l else [] := by
  unfold deliveredDuring lasts
  have hlast : ([k].takeWhile (!·.ends l)).flatMap (·.delivered l) = k.delivered l := by
    cases hends : k.ends l with
    | true => simp [hends, k.delivered_of_ends hends]
    | false => simp [hends]
  by_cases hall : (since.all (!·.ends l)) = true
  · have hgo : ∀ k' ∈ since, (!Call.ends l k') = true := List.all_eq_true.mp hall
    have hwhole : since.takeWhile (!·.ends l) = since := by
      have := @List.takeWhile_append_of_pos _ _ since [] hgo
      simpa using this
    rw [if_pos hall, List.takeWhile_append_of_pos hgo, List.flatMap_append, hlast, hwhole]
  · rw [if_neg hall, List.append_nil, List.takeWhile_append]
    have hlen : (since.takeWhile (!·.ends l)).length ≠ since.length := by
      intro hlen
      apply hall
      rw [← List.IsPrefix.eq_of_length (List.takeWhile_prefix _) hlen]
      exact List.all_takeWhile
    rw [if_neg hlen]

end Snoc

namespace Arrives

variable {l : ListenerId} {i : Nat} {since : List Call} {k : Call} {r r' : ModelReceiver}

theorem fresh (l : ListenerId) (i : Nat) : Arrives l i [] (.fresh l) := by
  constructor <;> simp [ModelReceiver.fresh, lasts, alive, deliveredDuring, readOf, numberedFrom]

/-- A call adds to what the receiver gives what it delivers to the listener. -/
theorem step (ha : Arrives l i since r) (hf : ModelReceiver.Follows k i r r') :
    Arrives l i (since ++ [k]) r' := by
  obtain ⟨rfl, hreg, hheld, hpushed, hexact, hfirst⟩ := ha
  have hnew : numberedFrom 0 r.listener (deliveredDuring r.listener (since ++ [k])) =
      numberedFrom 0 r.listener (deliveredDuring r.listener since) ++
        numberedFrom r.pushed r.listener (if r.registered then k.delivered r.listener else []) := by
    rw [deliveredDuring_snoc, numberedFrom_append, hreg, hpushed, Nat.zero_add]
  have hread : readOf i (since ++ [k]) <+:
      numberedFrom 0 r.listener (deliveredDuring r.listener since) := by
    rw [readOf_snoc]
    cases halive : alive i since with
    | true =>
      rw [← hexact halive]
      exact List.prefix_append_right_inj _ |>.mpr hf.unread
    | false =>
      rw [hf.holding (hheld.trans halive), List.append_nil]
      exact hfirst
  refine ⟨hf.listener, ?_, ?_, ?_, ?_, ?_⟩
  · rw [hf.registered, hreg, lasts_snoc]
  · rw [hf.held, hheld, alive_snoc]
  · rw [hf.pushed, hpushed, deliveredDuring_snoc, List.length_append, hreg]
  · intro halive
    have hheld' : r'.held = true := by rw [hf.held, hheld, ← alive_snoc, halive]
    have hbefore : alive i since = true := by
      rw [alive_snoc, Bool.and_eq_true] at halive
      exact halive.1
    rw [readOf_snoc, List.append_assoc, hf.queue hheld', ← List.append_assoc, hexact hbefore, hnew]
  · rw [hnew]
    exact hread.trans (List.prefix_append _ _)

end Arrives

/-! ### The answers of pushes -/

/-- A push to a listener is answered by whether it is registered with a receiver
that is still there. If it is not delivered then no queue changes, and all that
changes is that a registration whose receiver is gone ends. -/
def Answered (l : ListenerId) (pre : List Call) (k : Call) : Prop :=
  ∃ delivered, k.reply = .pushed (.ok delivered) ∧
    (delivered = true ↔
      ∃ i since, Registered pre l i since ∧ lasts l since = true ∧ alive i since = true) ∧
    (delivered = false →
      (∀ j : Nat, k.after.receivers[j]?.map (·.queue) = k.before.receivers[j]?.map (·.queue)) ∧
      ((∀ i since, Registered pre l i since → lasts l since = false) → k.after = k.before) ∧
      ∀ i since, Registered pre l i since → lasts l since = true →
        k.after = k.before.modify i ModelReceiver.unregister)

/-- Whether a call may change a receiver. A call for a listener concerns the
receiver that it is registered with, and no other. -/
def Call.concerns (k : Call) (i : Nat) (r : ModelReceiver) : Bool :=
  match k.step with
  | .register l => r.serves l
  | .push l (some _) => r.serves l
  | .push _ none => false
  | .tearDown l => r.serves l
  | .receive j => j = i
  | .dropReceiver j => j = i
  | .forward j => j = i
  | .release => r.registered

/-- A push that is not delivered ends the registration, if there is one. -/
theorem push_snd_of_not {ch : ModelChannel} {l : ListenerId} {payload : Value}
    (h : (ch.push l payload).1 = false) :
    (ch.find? l = none ∧ (ch.push l payload).2 = ch) ∨
      ∃ i, ch.find? l = some i ∧ (ch.push l payload).2 = ch.modify i ModelReceiver.unregister := by
  unfold push at h ⊢
  cases hf : ch.find? l with
  | none => exact Or.inl ⟨rfl, rfl⟩
  | some i =>
    refine Or.inr ⟨i, rfl, ?_⟩
    obtain ⟨hlt, -⟩ := List.findIdx?_eq_some_iff_getElem.mp hf
    simp only [hf, List.getElem?_eq_getElem hlt] at h ⊢
    cases hheld : ch.receivers[i].held with
    | true => simp [hheld] at h
    | false => simp

/-- To end a registration leaves the queues. -/
theorem queue_modify_unregister (ch : ModelChannel) (i j : Nat) :
    (ch.modify i ModelReceiver.unregister).receivers[j]?.map (·.queue) =
      ch.receivers[j]?.map (·.queue) := by
  rw [getElem?_modify, Option.map_map]
  congr 1
  funext r
  by_cases hij : i = j
  · simp [hij, ModelReceiver.unregister]
  · simp [hij]

/-- A receiver that is new was made by a registration. -/
theorem registered_of_new {ch ch' : ModelChannel} {st : Step} {reply : Reply} {i : Nat}
    {r : ModelReceiver} (hs : ch.Single) (h : ch.step st = some (reply, ch'))
    (hnone : ch.receivers[i]? = none) (hr : ch'.receivers[i]? = some r) :
    st = .register r.listener ∧ reply = .registered i := by
  cases st with
  | register l =>
    obtain ⟨rfl, rfl⟩ := Prod.mk.inj (Option.some.inj h)
    rw [getElem?_register hs, hnone] at hr
    by_cases hi : i = ch.receivers.length
    · rw [if_pos hi, Option.some.injEq] at hr
      subst hr hi
      exact ⟨rfl, rfl⟩
    · simp [hi] at hr
  | push l payload =>
    cases payload with
    | none =>
      obtain ⟨-, rfl⟩ := Prod.mk.inj (Option.some.inj h)
      exact absurd (hnone.symm.trans hr) (by simp)
    | some payload =>
      rw [step_push] at h
      obtain ⟨-, rfl⟩ := Prod.mk.inj (Option.some.inj h)
      simp [getElem?_push hs, hnone] at hr
  | tearDown l =>
    rw [step_tearDown] at h
    obtain ⟨-, rfl⟩ := Prod.mk.inj (Option.some.inj h)
    simp [getElem?_tearDown hs, hnone] at hr
  | receive j | dropReceiver j | forward j =>
    obtain ⟨x, hx, h⟩ := Option.map_eq_some_iff.mp h
    obtain ⟨-, rfl⟩ := Prod.mk.inj h
    simp [getElem?_modify, hnone] at hr
  | release =>
    obtain ⟨-, rfl⟩ := Prod.mk.inj (Option.some.inj h)
    simp [getElem?_release, hnone] at hr

/-- A call leaves the receivers that it does not concern. -/
theorem Call.leaves {k : Call} (hs : k.before.Single)
    (h : k.before.step k.step = some (k.reply, k.after))
    {i : Nat} {r : ModelReceiver} (hr : k.before.receivers[i]? = some r)
    (hnot : k.concerns i r = false) : k.after.receivers[i]? = some r := by
  obtain ⟨ch, st, reply, ch'⟩ := k
  dsimp only at hs h hr ⊢
  cases st with
  | register l =>
    obtain ⟨-, rfl⟩ := Prod.mk.inj (Option.some.inj h)
    have hserves : r.serves l = false := hnot
    have hlt : i ≠ ch.receivers.length := fun hi => by simp [hi] at hr
    simp [getElem?_register hs, hlt, hr, hserves]
  | push l payload =>
    cases payload with
    | none =>
      obtain ⟨-, rfl⟩ := Prod.mk.inj (Option.some.inj h)
      exact hr
    | some payload =>
      rw [step_push] at h
      obtain ⟨-, rfl⟩ := Prod.mk.inj (Option.some.inj h)
      have hserves : r.serves l = false := hnot
      simp [getElem?_push hs, hr, hserves]
  | tearDown l =>
    rw [step_tearDown] at h
    obtain ⟨-, rfl⟩ := Prod.mk.inj (Option.some.inj h)
    have hserves : r.serves l = false := hnot
    simp [getElem?_tearDown hs, hr, hserves]
  | receive j | dropReceiver j | forward j =>
    obtain ⟨x, hx, h⟩ := Option.map_eq_some_iff.mp h
    obtain ⟨-, rfl⟩ := Prod.mk.inj h
    have hij : j ≠ i := of_decide_eq_false hnot
    simp [getElem?_modify, hr, hij]
  | release =>
    obtain ⟨-, rfl⟩ := Prod.mk.inj (Option.some.inj h)
    have hreg : r.registered = false := hnot
    obtain ⟨listener, queue, pushed, registered, held⟩ := r
    simp_all [getElem?_release, ModelReceiver.unregister]

/-! ### Histories -/

namespace History

variable {h pre post since : List Call} {ch : ModelChannel} {k : Call} {l : ListenerId} {i : Nat}
  {r : ModelReceiver} {payload : Value}

/-- What the receiver of a registration gives, after any calls. -/
theorem arrives (hist : History .empty h ch) (hreg : Registered h l i since) :
    ∃ r, ch.receivers[i]? = some r ∧ Arrives l i since r := by
  induction hist generalizing since with
  | nil =>
    obtain ⟨pre, k, h, -⟩ := hreg
    simp at h
  | @snoc h ch ch' st reply hist hs ih =>
    obtain ⟨pre, k, hsplit, hst, hreply⟩ := hreg
    rcases split_of_snoc hsplit with ⟨rfl, rfl, rfl⟩ | ⟨since', rfl, hh⟩
    · -- the registration begins with the last call
      obtain rfl : st = .register l := hst
      obtain ⟨hreply', rfl⟩ := Prod.mk.inj (Option.some.inj hs)
      obtain rfl : ch.receivers.length = i := Reply.registered.inj (hreply'.trans hreply)
      exact ⟨.fresh l, by rw [getElem?_register hist.single, if_pos rfl], .fresh l _⟩
    · obtain ⟨r, hr, ha⟩ := ih ⟨pre, k, hh, hst, hreply⟩
      obtain ⟨r', hr', hf⟩ := Call.follows (k := ⟨ch, st, reply, ch'⟩) hist.single hs hr
      exact ⟨r', hr', ha.step hf⟩

/-- Every receiver is that of a registration. -/
theorem exists_registered (hist : History .empty h ch) (hr : ch.receivers[i]? = some r) :
    ∃ since, Registered h r.listener i since := by
  induction hist generalizing r with
  | nil => simp [empty] at hr
  | @snoc h ch ch' st reply hist hs ih =>
    have hold : ∀ r', ch.receivers[i]? = some r' → ∃ since,
        Registered (h ++ [⟨ch, st, reply, ch'⟩]) r.listener i since := by
      intro r' hr'
      obtain ⟨x, hx, hf⟩ := Call.follows (k := ⟨ch, st, reply, ch'⟩) hist.single hs hr'
      obtain rfl := Option.some.inj (hr.symm.trans hx)
      obtain ⟨since, pre, k, rfl, hst, hreply⟩ := ih hr'
      exact ⟨since ++ [_], pre, k, by rw [List.append_assoc, List.cons_append],
        hf.listener ▸ hst, hreply⟩
    cases hb : ch.receivers[i]? with
    | some r' => exact hold r' hb
    | none =>
      obtain ⟨hst, hreply⟩ := registered_of_new hist.single hs hb hr
      exact ⟨[], h, _, rfl, hst, hreply⟩

/-- What a push is answered, by the history before it. -/
theorem answered (hist : History .empty (pre ++ k :: post) ch)
    (hst : k.step = .push l (some payload)) :
    Answered l pre k := by
  obtain ⟨hpre, hstep, -⟩ := hist.split
  obtain ⟨before, st, reply, after⟩ := k
  obtain rfl : st = .push l (some payload) := hst
  dsimp only at hpre hstep
  have hs : before.Single := hpre.single
  rw [step_push] at hstep
  obtain ⟨rfl, rfl⟩ := Prod.mk.inj (Option.some.inj hstep)
  -- the receiver of a registration that lasts serves the listener
  have hserves : ∀ i since, Registered pre l i since → lasts l since = true →
      ∃ r, before.receivers[i]? = some r ∧ r.serves l = true ∧ r.held = alive i since := by
    intro i since hreg hlasts
    obtain ⟨r, hr, ha⟩ := hpre.arrives hreg
    exact ⟨r, hr, ModelReceiver.serves_iff.mpr ⟨ha.registered.trans hlasts, ha.listener⟩, ha.held⟩
  refine ⟨(before.push l payload).1, rfl, ?_, ?_⟩
  · rw [push_fst_iff hs]
    constructor
    · rintro ⟨i, r, hr, hserved, hheld⟩
      obtain ⟨hreg, rfl⟩ := ModelReceiver.serves_iff.mp hserved
      obtain ⟨since, hsince⟩ := hpre.exists_registered hr
      obtain ⟨r', hr', ha⟩ := hpre.arrives hsince
      obtain rfl := Option.some.inj (hr.symm.trans hr')
      exact ⟨i, since, hsince, ha.registered.symm.trans hreg, ha.held.symm.trans hheld⟩
    · rintro ⟨i, since, hsince, hlasts, halive⟩
      obtain ⟨r, hr, hserved, hheld⟩ := hserves i since hsince hlasts
      exact ⟨i, r, hr, hserved, hheld.trans halive⟩
  · intro hnot
    show (∀ j : Nat, (before.push l payload).2.receivers[j]?.map (·.queue) = _) ∧
      (_ → (before.push l payload).2 = before) ∧ _
    rcases push_snd_of_not hnot with ⟨hf, hafter⟩ | ⟨i, hf, hafter⟩
    · refine ⟨fun j => by rw [hafter], fun _ => hafter, fun i since hsince hlasts => ?_⟩
      obtain ⟨r, hr, hserved, -⟩ := hserves i since hsince hlasts
      rw [find?_eq_none_iff.mp hf i r hr] at hserved
      exact absurd hserved (by simp)
    · obtain ⟨r, hr, hserved⟩ := (find?_eq_some_iff hs).mp hf
      refine ⟨fun j => by rw [hafter, queue_modify_unregister], fun hno => ?_,
        fun j since hsince hlasts => ?_⟩
      · obtain ⟨hreg, rfl⟩ := ModelReceiver.serves_iff.mp hserved
        obtain ⟨since, hsince⟩ := hpre.exists_registered hr
        obtain ⟨r', hr', ha⟩ := hpre.arrives hsince
        obtain rfl := Option.some.inj (hr.symm.trans hr')
        rw [ha.registered, hno i since hsince] at hreg
        exact absurd hreg (by simp)
      · obtain ⟨r', hr', hserved', -⟩ := hserves j since hsince hlasts
        obtain rfl := hs i j r r' l hr hr' hserved hserved'
        exact hafter

end History

end ModelChannel

open ModelChannel

/-- On one channel, over any calls: the receiver of a registration gives the
models that were delivered to its listener between the registration and its end,
in order and numbered from zero, until the receiver is gone. A push is delivered
exactly if its listener is registered with a receiver that is still there, and
otherwise queues nothing and ends at most that registration. A call leaves every
receiver that it does not concern, and so those of other listeners and those of
registrations that ended. -/
theorem models_arrive_as_pushed {h : List Call} {ch : ModelChannel} (hist : History .empty h ch) :
    (∀ l i since, Registered h l i since →
      ∃ r, ch.receivers[i]? = some r ∧ Arrives l i since r) ∧
      ∀ pre k post, h = pre ++ k :: post →
        (∀ l payload, k.step = .push l (some payload) → Answered l pre k) ∧
        ∀ (i : Nat) (r : ModelReceiver), k.before.receivers[i]? = some r → k.concerns i r = false →
          k.after.receivers[i]? = some r := by
  refine ⟨fun l i since hreg => hist.arrives hreg, ?_⟩
  rintro pre k post rfl
  obtain ⟨hpre, hstep, -⟩ := hist.split
  refine ⟨fun l payload hst => hist.answered hst, fun i r hr hnot => ?_⟩
  exact Call.leaves hpre.single hstep hr hnot

/-- A listener is registered a second time while the receiver of the first
registration is read, and another loses its receiver. -/
theorem models_arrive_as_pushed_of_reuse :
    ∃ (h since : List Call) (ch : ModelChannel), History .empty h ch ∧ h.length = 12 ∧
      Registered h ⟨"a"⟩ 2 since ∧ readOf 2 since = [⟨⟨"a"⟩, 0, .bool true⟩] ∧
      (∃ r, ch.receivers[2]? = some r ∧ r.queue = [⟨⟨"a"⟩, 1, .text "x"⟩] ∧
        Arrives ⟨"a"⟩ 2 since r) ∧
      ∀ pre k post, h = pre ++ k :: post →
        (∀ l payload, k.step = .push l (some payload) → Answered l pre k) ∧
        ∀ (i : Nat) (r : ModelReceiver), k.before.receivers[i]? = some r → k.concerns i r = false →
          k.after.receivers[i]? = some r := by
  let steps : List Step := [.register ⟨"a"⟩, .register ⟨"b"⟩, .push ⟨"a"⟩ (some .null),
    .register ⟨"a"⟩, .push ⟨"a"⟩ (some (.bool true)), .receive 0, .receive 2, .dropReceiver 1,
    .push ⟨"b"⟩ (some .null), .push ⟨"a"⟩ (some (.text "x")), .tearDown ⟨"a"⟩,
    .push ⟨"a"⟩ (some .null)]
  let h := ModelChannel.empty.calls steps
  have hist : History .empty h (ModelChannel.empty.afterAll steps) := history_calls steps .empty
  obtain ⟨harrives, hanswered⟩ := models_arrive_as_pushed hist
  have hreg : Registered h ⟨"a"⟩ 2 (h.drop 4) := ⟨h.take 3, _, rfl, rfl, rfl⟩
  obtain ⟨r, hr, ha⟩ := harrives _ _ _ hreg
  refine ⟨h, h.drop 4, _, hist, rfl, hreg, rfl, ⟨r, hr, ?_, ha⟩, hanswered⟩
  obtain rfl := Option.some.inj hr
  rfl

end BuildFeed
