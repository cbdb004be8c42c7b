/-
# Forwarding a registration that has ended

A consumer that is fed from a receiver may have the channel to itself
(`ModelReceiver.forward`), or take turns with everybody else on it: in each
turn the loop goes on with what the receiver gives (`Forwarding.next`), and it
returns when the receiver says that nothing more will come. Once the
registration has ended the receiver never lets it wait. It gives one unread
model a turn and then says that it has ended, whatever is pushed in between
to the listener or registered for it (`ModelChannel.History.receipts_of_ended`),
because a push only reaches the registration that lasts.

So the consumer is called with what is unread and no more, and the number of
its calls is returned. That is what was delivered to the listener while the
registration lasted, less what was read before.

Key definitions: `ModelChannel.Call.delivers`, `ModelChannel.receiptsOf`,
`ModelChannel.given`.
Key theorems: `ModelChannel.foldl_next_given`,
`ModelChannel.length_deliveredDuring`, `ModelChannel.Call.receipt_of_ended`,
`ModelChannel.History.receipts_of_ended`, `ended_registrations_drain`.
-/
import BuildFeed.Proofs.Channel.Registrations

namespace BuildFeed

open Json

namespace ModelChannel

/-! ### What a consumer is fed -/

namespace Call

/-- Whether a call is a push to a listener that is answered by success. -/
def delivers (l : ListenerId) (k : Call) : Bool :=
  match k.step, k.reply with
  | .push l' (some _), .pushed (.ok true) => l' = l
  | _, _ => false

/-- What a call that asks a receiver for a model is told. -/
def receipt? (i : Nat) (k : Call) : Option (Receipt IntermediateModel) :=
  match k.step, k.reply with
  | .receive j, .received receipt => if j = i then some receipt else none
  | _, _ => none

theorem length_delivered (l : ListenerId) (k : Call) :
    (k.delivered l).length = if k.delivers l then 1 else 0 := by
  unfold delivered delivers
  split
  case h_1 => split <;> simp_all
  case h_2 hne => simp

end Call

/-- What a receiver gives in the turns of its consumer. -/
def receiptsOf (i : Nat) (h : List Call) : List (Receipt IntermediateModel) :=
  h.filterMap (·.receipt? i)

/-- What a receiver gives in its turn of a number if it has these models and
nothing is added to them. -/
def given (models : List IntermediateModel) (n : Nat) : Receipt IntermediateModel :=
  match models[n]? with
  | some m => .item m
  | none => .ended

/-- A loop that has returned does nothing more. -/
theorem foldl_next_of_returned {f : Forwarding} {n : Nat} (h : f.returned = some n) :
    ∀ receipts : List (Receipt IntermediateModel), receipts.foldl Forwarding.next f = f
  | [] => rfl
  | receipt :: rest => by
    have hnext : f.next receipt = f := by simp [Forwarding.next, h]
    rw [List.foldl_cons, hnext, foldl_next_of_returned h rest]

/-- A loop that need not wait calls its consumer with one model a turn; in the turn
after them it returns their number. -/
theorem foldl_next_given : ∀ (models : List IntermediateModel) (n : Nat) (payloads : List Value) (k : Nat),
    ((List.range n).map (given models)).foldl Forwarding.next ⟨payloads, k, none⟩ =
      ⟨payloads ++ (models.map (·.payload)).take n, k + min n models.length,
        if models.length < n then some (k + models.length) else none⟩
  | _, 0, _, _ => by simp
  | [], n + 1, payloads, k => by
    have hended : given [] 0 = .ended := rfl
    rw [List.range_succ_eq_map, List.map_cons, List.foldl_cons, hended,
      foldl_next_of_returned (n := k) rfl]
    simp [Forwarding.next]
  | m :: models, n + 1, payloads, k => by
    have hrest : (List.range n).map (given (m :: models) ∘ Nat.succ) =
        (List.range n).map (given models) := rfl
    have hcall : Forwarding.next ⟨payloads, k, none⟩ (given (m :: models) 0) =
        ⟨payloads ++ [m.payload], k + 1, none⟩ := rfl
    rw [List.range_succ_eq_map, List.map_cons, List.map_map, hrest, List.foldl_cons, hcall,
      foldl_next_given models n]
    simp only [List.append_assoc, List.map_cons, List.take_succ_cons, List.singleton_append,
      List.length_cons, Nat.add_lt_add_iff_right, Nat.add_min_add_right, Nat.add_assoc,
      Nat.add_comm 1]

/-- As many models are delivered as pushes are answered by success. -/
theorem length_deliveredDuring (l : ListenerId) (since : List Call) :
    (deliveredDuring l since).length = (since.takeWhile (!·.ends l)).countP (·.delivers l) := by
  unfold deliveredDuring
  induction since.takeWhile (!·.ends l) with
  | nil => rfl
  | cons k ks ih =>
    rw [List.flatMap_cons, List.length_append, ih, Call.length_delivered, List.countP_cons, Nat.add_comm]

/-! ### A receiver whose registration has ended -/

theorem receive_fst_of_ended {r : ModelReceiver} (h : r.registered = false) :
    r.receive.1 = given r.queue 0 := by
  unfold ModelReceiver.receive given
  cases r.queue <;> simp [h]

/-- A call gives the next model of a receiver whose registration has ended, or
leaves what is unread. -/
theorem Call.receipt_of_ended {k : Call} (hs : k.before.Single)
    (hstep : k.before.step k.step = some (k.reply, k.after)) {i : Nat} {r : ModelReceiver}
    (hr : k.before.receivers[i]? = some r) (hended : r.registered = false) (hheld : r.held = true)
    (hkeep : k.discards i = false) :
    ∃ r', k.after.receivers[i]? = some r' ∧ r'.registered = false ∧ r'.held = true ∧
      ((k.receipt? i = some (given r.queue 0) ∧ r'.queue = r.queue.tail) ∨
        (k.receipt? i = none ∧ r'.queue = r.queue)) := by
  obtain ⟨r', hr', hf⟩ := Call.follows hs hstep hr
  have hheld' : r'.held = true := by rw [hf.held, hheld, hkeep]; rfl
  have hqueue := hf.queue hheld'
  rw [hended, if_neg (by simp), numberedFrom, List.mapIdx_nil, List.append_nil] at hqueue
  refine ⟨r', hr', by rw [hf.registered, hended, Bool.false_and], hheld', ?_⟩
  -- a call that reads nothing of the receiver leaves what is unread
  have hleft : k.receipt? i = none → k.reads i = [] →
      (k.receipt? i = some (given r.queue 0) ∧ r'.queue = r.queue.tail) ∨
        (k.receipt? i = none ∧ r'.queue = r.queue) := fun hnone hreads =>
    Or.inr ⟨hnone, by rwa [hreads, List.nil_append] at hqueue⟩
  obtain ⟨ch, st, reply, ch'⟩ := k
  cases st with
  | receive j =>
    obtain ⟨x, hx, h⟩ := Option.map_eq_some_iff.mp hstep
    obtain ⟨rfl, -⟩ := Prod.mk.inj h
    rw [reads_receive] at hqueue
    by_cases hij : j = i
    · subst hij
      obtain rfl := Option.some.inj ((receiver?_eq_some.mp hx).1.symm.trans hr)
      rw [if_pos rfl] at hqueue
      refine Or.inl ⟨(if_pos rfl).trans (congrArg some (receive_fst_of_ended hended)), ?_⟩
      exact List.append_cancel_left (hqueue.trans (by cases x.queue <;> rfl))
    · exact hleft (if_neg hij) (by rw [reads_receive, if_neg hij])
  | forward j => exact hleft rfl (if_neg (of_decide_eq_false hkeep))
  | push l payload => exact hleft rfl rfl
  | register l => exact hleft rfl rfl
  | tearDown l => exact hleft rfl rfl
  | dropReceiver j => exact hleft rfl rfl
  | release => exact hleft rfl rfl

namespace History

variable {h post : List Call} {ch ch' : ModelChannel} {i : Nat} {r : ModelReceiver}

/-- A receiver whose registration has ended, while it is not dropped: it never lets
anybody wait, and nothing is added to what it has. -/
theorem receipts_of_ended (hs : ch.Single) (hr : ch.receivers[i]? = some r)
    (hended : r.registered = false) (hheld : r.held = true) (hist : History ch post ch')
    (hkeep : ∀ k ∈ post, k.discards i = false) :
    receiptsOf i post = (List.range (receiptsOf i post).length).map (given r.queue) ∧
      ∃ r', ch'.receivers[i]? = some r' ∧ r'.registered = false ∧ r'.held = true ∧
        r'.queue = r.queue.drop (receiptsOf i post).length := by
  induction hist with
  | nil => exact ⟨rfl, r, hr, hended, hheld, rfl⟩
  | @snoc post ch₁ ch₂ st reply hist hstep ih =>
    obtain ⟨hgiven, r₁, hr₁, hended₁, hheld₁, hqueue₁⟩ :=
      ih fun k hk => hkeep k (List.mem_append_left _ hk)
    have hs₁ : ch₁.Single := hist.invariant hs fun hs h => hs.step h
    obtain ⟨r₂, hr₂, hended₂, hheld₂, hcase⟩ :=
      Call.receipt_of_ended (k := ⟨ch₁, st, reply, ch₂⟩) hs₁ hstep hr₁ hended₁ hheld₁ (hkeep _ (by simp))
    rcases hcase with ⟨hnext, hqueue₂⟩ | ⟨hnone, hqueue₂⟩
    · have hsnoc : receiptsOf i (post ++ [⟨ch₁, st, reply, ch₂⟩]) =
          receiptsOf i post ++ [given r.queue (receiptsOf i post).length] := by
        have hgiven₁ : given r₁.queue 0 = given r.queue (receiptsOf i post).length := by
          rw [hqueue₁, given, List.getElem?_drop]
          rfl
        rw [receiptsOf, List.filterMap_append, ← hgiven₁]
        simp [receiptsOf, hnext]
      rw [hsnoc, List.length_append, List.length_singleton, List.range_succ, List.map_append, ← hgiven]
      refine ⟨rfl, r₂, hr₂, hended₂, hheld₂, ?_⟩
      rw [hqueue₂, hqueue₁, List.tail_drop]
    · have hsnoc : receiptsOf i (post ++ [⟨ch₁, st, reply, ch₂⟩]) = receiptsOf i post := by
        rw [receiptsOf, List.filterMap_append]
        simp [receiptsOf, hnone]
      rw [hsnoc]
      exact ⟨hgiven, r₂, hr₂, hended₂, hheld₂, hqueue₂.trans hqueue₁⟩

end History

theorem length_numberedFrom (n : Nat) (l : ListenerId) (payloads : List Value) :
    (numberedFrom n l payloads).length = payloads.length := List.length_mapIdx

theorem payloads_numberedFrom (n : Nat) (l : ListenerId) (payloads : List Value) :
    (numberedFrom n l payloads).map (·.payload) = payloads := by
  refine List.ext_getElem? fun j => ?_
  rw [numberedFrom, List.getElem?_map, List.getElem?_mapIdx, Option.map_map]
  cases payloads[j]? <;> rfl

/-- What is unread of a registration whose receiver is still there. -/
theorem Arrives.payloads_queue {l : ListenerId} {i : Nat} {since : List Call} {r : ModelReceiver}
    (ha : Arrives l i since r) (halive : alive i since = true) :
    r.queue.map (·.payload) = (deliveredDuring l since).drop (readOf i since).length := by
  have hall : (readOf i since).map (·.payload) ++ r.queue.map (·.payload) = deliveredDuring l since := by
    rw [← List.map_append, ha.exact halive, payloads_numberedFrom]
  rw [← hall, List.drop_left' (List.length_map _)]

end ModelChannel

open ModelChannel

/-- A registration that was torn down, replaced or released with the channel,
and whose receiver is still there. A consumer that is forwarded to is called
with what was delivered while the registration lasted and not read before, and
the number of its calls is returned: the pushes that were answered by success
less the models read. If it takes turns with any other calls then each of its
turns can be made, none makes it wait, and after a turn more than there are
payloads it was called with all of them and their number was returned. -/
theorem ended_registrations_drain {h since : List Call} {ch : ModelChannel} {l : ListenerId} {i : Nat}
    (hist : History .empty h ch) (hreg : Registered h l i since) (hended : lasts l since = false)
    (halive : alive i since = true) :
    ∃ unread returned, unread = (deliveredDuring l since).drop (readOf i since).length ∧
      returned = unread.length ∧
      returned = (since.takeWhile (!·.ends l)).countP (·.delivers l) - (readOf i since).length ∧
      (readOf i since).length ≤ (since.takeWhile (!·.ends l)).countP (·.delivers l) ∧
      ch.step (.forward i) =
        some (.forwarded ⟨unread, unread.length, some returned⟩, ch.modify i ModelReceiver.drop) ∧
      ∀ post ch', History ch post ch' → (∀ k ∈ post, k.discards i = false) →
        (∃ receipt ch'', ch'.step (.receive i) = some (.received receipt, ch'')) ∧
        .pending ∉ receiptsOf i post ∧
        (receiptsOf i post).foldl Forwarding.next .fresh =
          ⟨unread.take (receiptsOf i post).length, min (receiptsOf i post).length unread.length,
            if unread.length < (receiptsOf i post).length then some returned else none⟩ := by
  obtain ⟨r, hr, ha⟩ := hist.arrives hreg
  have hregistered : r.registered = false := ha.registered.trans hended
  have hheld : r.held = true := ha.held.trans halive
  have hunread := ha.payloads_queue halive
  have hle : (readOf i since).length ≤ (deliveredDuring l since).length := by
    rw [← length_numberedFrom 0 l]
    exact ha.first.length_le
  rw [length_deliveredDuring] at hle
  refine ⟨_, _, rfl, rfl, ?_, hle, ?_, fun post ch' hpost hkeep => ?_⟩
  · rw [List.length_drop, length_deliveredDuring]
  · rw [step_forward hr hheld, forward_fresh, hregistered, ← hunread, List.length_map]
    rfl
  · obtain ⟨hgiven, r', hr', -, hheld', -⟩ := hpost.receipts_of_ended hist.single hr hregistered hheld hkeep
    refine ⟨⟨_, _, by rw [step, receiver?_eq_some.mpr ⟨hr', hheld'⟩, Option.map_some]⟩, ?_, ?_⟩
    · rw [hgiven]
      intro hmem
      obtain ⟨n, -, hn⟩ := List.mem_map.mp hmem
      unfold given at hn
      split at hn <;> exact absurd hn (by simp)
    · rw [hgiven, Forwarding.fresh, foldl_next_given, ← hunread, List.length_map, List.length_map,
        List.length_range, List.nil_append, Nat.zero_add, Nat.zero_add]

/-- Of three models pushed to a listener one is read; then the listener is
registered anew, while a handle for pushing to it goes on. A consumer that is
forwarded to takes three turns between the pushes, and two is returned. -/
theorem ended_registrations_drain_of_replaced :
    ∃ (h since post : List Call) (ch ch' : ModelChannel), History .empty h ch ∧
      Registered h ⟨"a"⟩ 0 since ∧ lasts ⟨"a"⟩ since = false ∧ alive 0 since = true ∧
      readOf 0 since = [⟨⟨"a"⟩, 0, .null⟩] ∧
      (∃ ch'', ch.step (.forward 0) =
        some (.forwarded ⟨[.bool true, .text "x"], 2, some 2⟩, ch'')) ∧
      History ch post ch' ∧ (post.countP (·.delivers ⟨"a"⟩)) = 2 ∧
      (receiptsOf 0 post).foldl Forwarding.next .fresh = ⟨[.bool true, .text "x"], 2, some 2⟩ := by
  let steps : List Step := [.register ⟨"a"⟩, .push ⟨"a"⟩ (some .null), .push ⟨"a"⟩ (some (.bool true)),
    .receive 0, .push ⟨"a"⟩ (some (.text "x")), .register ⟨"a"⟩, .push ⟨"a"⟩ (some .null)]
  let turns : List Step := [.receive 0, .push ⟨"a"⟩ (some .null), .receive 0, .push ⟨"a"⟩ (some .null),
    .receive 0]
  let h := ModelChannel.empty.calls steps
  let ch := ModelChannel.empty.afterAll steps
  have hist : History .empty h ch := history_calls steps .empty
  have hpost : History ch (ch.calls turns) (ch.afterAll turns) := history_calls turns ch
  have hreg : Registered h ⟨"a"⟩ 0 (h.drop 1) := ⟨[], _, rfl, rfl, rfl⟩
  obtain ⟨unread, returned, hunread, hreturned, -, -, hforward, hturns⟩ :=
    ended_registrations_drain hist hreg rfl rfl
  obtain rfl : unread = [.bool true, .text "x"] := hunread
  obtain rfl : returned = 2 := hreturned
  obtain ⟨-, -, hfed⟩ := hturns _ _ hpost (by decide)
  exact ⟨h, h.drop 1, ch.calls turns, ch, _, hist, hreg, rfl, rfl, rfl, ⟨_, hforward⟩, hpost, rfl, hfed⟩

end BuildFeed
