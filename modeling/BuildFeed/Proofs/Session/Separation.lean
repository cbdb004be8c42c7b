/-
# Builds do not interfere

A session is compared with the one from which a build is removed: it does not
begin, and no call is made on it (`Call.without`). If every delivery of the
first session succeeds, then so does every delivery of the second, every
connection accepts the same messages of the other builds, and these builds
give the same answers.

The builds share the connections. The sessions are kept in step by
`Session.Without`: the second has the other builds as they are in the first,
and its hub is the same but for shorter queues.

Key definitions: `Call.without`, `Session.Without`, `SameBuilds`.
Key theorems: `Session.Without.step`, `History.exists_without`,
`builds_do_not_interfere`.
-/
import BuildFeed.Proofs.Session.Builds
import BuildFeed.Proofs.Session.Order
import BuildFeed.Proofs.Session.Queues

namespace BuildFeed

/-! ### Calls -/

/-- The number of a build when another is removed. -/
def renumber (j i : Nat) : Nat := if i < j then i else i - 1

theorem renumber_inj {j i i' : Nat} (hi : i ≠ j) (hi' : i' ≠ j) (h : renumber j i = renumber j i') :
    i = i' := by
  unfold renumber at h
  split at h <;> split at h <;> omega

/-- The step of a call in the session from which a build is removed: none if it
is about that build. -/
def Call.without (j : Nat) (k : Call) : Option Step :=
  match k.step with
  | .begin id => if k.before.builds.length = j then none else some (.begin id)
  | .start i op => if i = j then none else some (.start (renumber j i) op)
  | .finish i f => if i = j then none else some (.finish (renumber j i) f)
  | .close i reason => if i = j then none else some (.close (renumber j i) reason)
  | .dropBuild i => if i = j then none else some (.dropBuild (renumber j i))
  | st => some st

/-- The connections are listed for a build as if the removed one had begun too. -/
def Listing.without (j : Nat) (listing : Listing) : Listing :=
  ⟨fun n => listing.order (if n < j then n else n + 1), fun _ => listing.perm _⟩

/-- A call that is made in the second session is not on the removed build, and is
on the same build there. -/
theorem Call.build?_of_without {j : Nat} {k : Call} {st : Step} (h : k.without j = some st) :
    k.step.build? ≠ some j ∧ st.build? = k.step.build?.map (renumber j) := by
  obtain ⟨s, kst, a⟩ := k
  have hsome : ∀ {i : Nat} {st' : Step}, (if i = j then none else some st') = some st →
      i ≠ j ∧ st' = st := by
    intro i st' h
    rwa [Option.ite_none_left_eq_some, Option.some.injEq] at h
  have hne : ∀ {i : Nat}, i ≠ j → some i ≠ some j := fun hi h => hi (Option.some.inj h)
  cases kst with
  | begin id =>
    obtain ⟨-, rfl⟩ := hsome h
    exact ⟨fun h => absurd h (by simp [Step.build?]), rfl⟩
  | start i op =>
    obtain ⟨hi, rfl⟩ := hsome h
    exact ⟨hne hi, rfl⟩
  | finish i f =>
    obtain ⟨hi, rfl⟩ := hsome h
    exact ⟨hne hi, rfl⟩
  | close i reason =>
    obtain ⟨hi, rfl⟩ := hsome h
    exact ⟨hne hi, rfl⟩
  | dropBuild i =>
    obtain ⟨hi, rfl⟩ := hsome h
    exact ⟨hne hi, rfl⟩
  | _ =>
    obtain rfl := Option.some.inj h
    exact ⟨fun h => absurd h (by simp [Step.build?]), rfl⟩

/-! ### Lists from which a place is removed -/

section EraseIdx

variable {α : Type} {l : List α} {i j : Nat}

theorem getElem?_renumber (l : List α) (hi : i ≠ j) : (l.eraseIdx j)[renumber j i]? = l[i]? := by
  rw [List.getElem?_eraseIdx, renumber]
  by_cases hlt : i < j
  · rw [if_pos hlt, if_pos hlt]
  · rw [if_neg hlt, if_neg (by omega), show i - 1 + 1 = i by omega]

theorem set_renumber (l : List α) (hi : i ≠ j) (x : α) :
    (l.eraseIdx j).set (renumber j i) x = (l.set i x).eraseIdx j := by
  rw [renumber]
  by_cases hlt : i < j
  · rw [if_pos hlt, List.eraseIdx_set_gt hlt]
  · rw [if_neg hlt, List.eraseIdx_set_lt (by omega)]

/-- What comes to the end of the list comes to the end of the shorter one. -/
theorem eraseIdx_concat (hj : l.length ≠ j) (x : α) :
    (l ++ [x]).eraseIdx j = l.eraseIdx j ++ [x] := by
  rcases Nat.lt_or_gt_of_ne hj with hlt | hgt
  · rw [List.eraseIdx_append_of_length_le (Nat.le_of_lt hlt), List.eraseIdx_of_length_le (Nat.le_of_lt hlt),
      List.eraseIdx_of_length_le (by simp; omega)]
  · rw [List.eraseIdx_append_of_lt_length hgt]

/-- A list that grows by the removed place. -/
theorem eraseIdx_concat_self (l : List α) (x : α) :
    (l ++ [x]).eraseIdx l.length = l.eraseIdx l.length := by
  rw [List.eraseIdx_append_of_length_le (Nat.le_refl _), List.eraseIdx_of_length_le (Nat.le_refl _)]
  simp

/-- The place of the next element in the longer list. -/
theorem place_of_length (hj : l.length ≠ j) :
    (if (l.eraseIdx j).length < j then (l.eraseIdx j).length else (l.eraseIdx j).length + 1) =
      l.length := by
  rw [List.length_eraseIdx]
  split <;> split <;> omega

end EraseIdx

/-! ### Sessions -/

namespace Session

/-- The second session is the first without a build. -/
structure Without (j : Nat) (s s' : Session) : Prop where
  registry_eq : s'.registry = s.registry
  policy_eq : s'.policy = s.policy
  bridge_eq : s'.bridge = s.bridge
  builds_eq : s'.builds = s.builds.eraseIdx j
  hub : s.hub.Thinner s'.isAlive s'.hub

namespace Without

variable {listing : Listing} {j i : Nat} {s s' : Session} {st : Step} {a : Advance} {b : Build}

theorem build?_eq (h : s.Without j s') (hi : i ≠ j) : s'.build? (renumber j i) = s.build? i := by
  rw [build?, build?, h.builds_eq, getElem?_renumber _ hi]

/-- If somebody is left in the second session, so it is in the first. -/
theorem isAlive (h : s.Without j s') (ha : s'.isAlive = true) : s.isAlive = true := by
  rw [Session.isAlive, Bool.or_eq_true, List.any_eq_true] at ha ⊢
  rw [h.bridge_eq, h.builds_eq] at ha
  rcases ha with hb | ⟨o, ho, hs⟩
  · exact Or.inl hb
  · exact Or.inr ⟨o, List.mem_of_mem_eraseIdx ho, hs⟩

theorem hub_of_isAlive (h : s.Without j s') (ha : s'.isAlive = true) : s.hub.Thinner true s'.hub :=
  ha ▸ h.hub

theorem hub_of_bridge (h : s.Without j s') (hb : s.bridge = true) : s.hub.Thinner true s'.hub :=
  h.hub_of_isAlive (isAlive_of_bridge (h.bridge_eq.trans hb))

/-- Another build is in the second session as it is in the first. -/
theorem other_build (h : s.Without j s') (hi : i ≠ j) (hb : s.build? i = some b) :
    s'.build? (renumber j i) = some b ∧ s.hub.Thinner true s'.hub := by
  have hb' := (h.build?_eq hi).trans hb
  exact ⟨hb', h.hub_of_isAlive (isAlive_of_build? hb')⟩

/-- Only the hubs change. -/
theorem withHub (h : s.Without j s') {hub hub' : Hub} (hhub : hub.Thinner s'.isAlive hub') :
    Without j { s with hub := hub } { s' with hub := hub' } :=
  ⟨h.registry_eq, h.policy_eq, h.bridge_eq, h.builds_eq, hhub⟩

/-- The connections of the first session are detached only if nobody is left in
the second. -/
theorem settle_left (h : s.Without j s') : s.settle.Without j s' := by
  refine ⟨(registry_settle s).symm ▸ h.registry_eq, (policy_settle s).symm ▸ h.policy_eq,
    (bridge_settle s).symm ▸ h.bridge_eq, (builds_settle s).symm ▸ h.builds_eq, ?_⟩
  refine h.hub.map (g := fun _ x => x) (capacity_settle s) rfl (getElem?_settle s) (by simp)
    fun _ _ hthin => ?_
  cases ha : s'.isAlive with
  | true => rwa [if_pos (h.isAlive ha), ← ha]
  | false =>
    rw [ha] at hthin
    split
    · exact hthin
    · exact hthin.abandon_left

theorem settle_right (h : s.Without j s') : s.Without j s'.settle := by
  refine ⟨(registry_settle s').trans h.registry_eq, (policy_settle s').trans h.policy_eq,
    (bridge_settle s').trans h.bridge_eq, (builds_settle s').trans h.builds_eq, ?_⟩
  rw [isAlive_settle]
  refine h.hub.map (f := fun _ x => x) rfl (capacity_settle s') (by simp) (getElem?_settle s')
    fun _ _ hthin => ?_
  cases ha : s'.isAlive with
  | true => rwa [if_pos rfl, ← ha]
  | false =>
    rw [ha] at hthin
    exact hthin.abandon_right

theorem dropBridge (h : s.Without j s') :
    Without j { s with bridge := false } { s' with bridge := false } := by
  refine ⟨h.registry_eq, h.policy_eq, rfl, h.builds_eq, ?_⟩
  refine h.hub.mono fun ha => ?_
  rw [Session.isAlive, Bool.false_or] at ha
  rw [Session.isAlive, ha, Bool.or_true]

/-! ### Builds -/

/-- Another build begins. -/
theorem begin (h : s.Without j s') (hb : s.bridge = true) (hj : s.builds.length ≠ j)
    (listing : Listing) (id : BuildId) :
    Without j
      { s with
        builds := s.builds ++
          [some (.begin id (listing.order s.builds.length s.hub.attachedNumbers))] }
      { s' with
        builds := s'.builds ++
          [some (.begin id ((listing.without j).order s'.builds.length s'.hub.attachedNumbers))] } := by
  have hhub := h.hub_of_bridge hb
  have horder : (listing.without j).order s'.builds.length s'.hub.attachedNumbers =
      listing.order s.builds.length s.hub.attachedNumbers := by
    rw [Listing.without, hhub.attachedNumbers_eq, h.builds_eq]
    simp only [place_of_length hj]
  refine ⟨h.registry_eq, h.policy_eq, h.bridge_eq, ?_, hhub.mono fun _ => rfl⟩
  rw [horder, h.builds_eq, eraseIdx_concat hj]

/-- The removed build begins. -/
theorem begin_left (h : s.Without s.builds.length s') (b : Build) :
    Without s.builds.length { s with builds := s.builds ++ [some b] } s' :=
  ⟨h.registry_eq, h.policy_eq, h.bridge_eq, h.builds_eq.trans (eraseIdx_concat_self _ _).symm, h.hub⟩

/-- A call on another build. -/
theorem takeTurn (h : s.Without j s') (hi : i ≠ j) (hhub : s.hub.Thinner true s'.hub) {t : Turn}
    (hacc : s.hub.Accepts t.offers) :
    (s.takeTurn i t).Without j (s'.takeTurn (renumber j i) t) := by
  refine ⟨h.registry_eq, h.policy_eq, h.bridge_eq, ?_, ?_⟩
  · show s'.builds.set _ _ = (s.builds.set _ _).eraseIdx j
    rw [h.builds_eq, set_renumber _ hi]
  · exact (hacc.deliver hhub).mono fun _ => rfl

/-- A call on the removed build. -/
theorem takeTurn_left (h : s.Without j s') {t : Turn} (hacc : s.hub.Accepts t.offers) :
    (s.takeTurn j t).Without j s' := by
  refine ⟨h.registry_eq, h.policy_eq, h.bridge_eq, ?_, hacc.deliver_left h.hub⟩
  show s'.builds = (s.builds.set _ _).eraseIdx j
  rw [h.builds_eq, List.eraseIdx_set_eq]

/-- Another build is dropped. -/
theorem forget (h : s.Without j s') (hi : i ≠ j) (hhub : s.hub.Thinner true s'.hub) :
    Without j { s with builds := s.builds.set i none }
      { s' with builds := s'.builds.set (renumber j i) none } := by
  refine ⟨h.registry_eq, h.policy_eq, h.bridge_eq, ?_, hhub.mono fun _ => rfl⟩
  rw [h.builds_eq, set_renumber _ hi]

/-- The removed build is dropped. -/
theorem forget_left (h : s.Without j s') :
    Without j { s with builds := s.builds.set j none } s' := by
  refine ⟨h.registry_eq, h.policy_eq, h.bridge_eq, ?_, h.hub⟩
  rw [h.builds_eq, List.eraseIdx_set_eq]

end Without

end Session

/-! ### One call -/

/-- A call is made in the second session too: what it offers is the same, and it
is accepted, and a call on a build is answered the same. -/
structure Call.Twin (j : Nat) (k k' : Call) : Prop where
  step_eq : k.without j = some k'.step
  offers_eq : k'.outcome.offers = k.outcome.offers
  reply_eq : k.step.build? ≠ none → k'.outcome.reply = k.outcome.reply
  delivers : k'.Delivers

namespace Session.Without

variable {listing : Listing} {j : Nat} {s s' : Session} {st : Step} {a : Advance}

/-- A call is about the removed build, or it is made in the second session too. -/
def Followed (listing : Listing) (j : Nat) (s' : Session) (k : Call) : Prop :=
  (k.without j = none ∧ k.outcome.session.Without j s') ∨
    ∃ st' a', Effect (listing.without j) s' st' a' ∧ k.outcome.session.Without j a'.session ∧
      k.Twin j ⟨s', st', a'⟩

/-- A call that is not on a build is made in the second session, and offers nothing. -/
theorem followed_of_quiet {st' : Step} {a' : Advance} (he : Effect (listing.without j) s' st' a')
    (h : a.session.Without j a'.session) (hst : Call.without j ⟨s, st, a⟩ = some st')
    (hb : st.build? = none) (ho : a.offers = []) (ho' : a'.offers = []) :
    Followed listing j s' ⟨s, st, a⟩ := by
  have hacc : s'.hub.Accepts a'.offers := by
    rw [ho']
    exact .nil _
  exact Or.inr ⟨st', a', he, h, hst, ho'.trans ho.symm, fun hne => absurd hb hne, hacc.delivers⟩

/-- A call on another build is made in the second session. -/
theorem followed_of_same {st' : Step} {a' : Advance} (he : Effect (listing.without j) s' st' a')
    (h : a.session.Without j a'.session) (hst : Call.without j ⟨s, st, a⟩ = some st')
    (hacc : s'.hub.Accepts a.offers) (ho : a'.offers = a.offers) (hr : a'.reply = a.reply) :
    Followed listing j s' ⟨s, st, a⟩ := by
  have hacc' : s'.hub.Accepts a'.offers := ho ▸ hacc
  exact Or.inr ⟨st', a', he, h, hst, ho, fun _ => hr, hacc'.delivers⟩

/-- The stream of a connection is there in the second session. -/
theorem exists_stream (h : s.Without j s') {c : Nat} {x : Connection} (hx : s.stream? c = some x) :
    ∃ x', s'.stream? c = some x' ∧ x.Thinner s'.isAlive x' := by
  obtain ⟨hc, hheld⟩ := stream?_eq_some.mp hx
  obtain ⟨x', hx', hthin⟩ := h.hub.exists_connection hc
  exact ⟨x', stream?_eq_some.mpr ⟨hx', hthin.held_eq.trans hheld⟩, hthin⟩

/-- The sessions stay in step. -/
theorem step (h : s.Without j s') (hs : s.Sound) (he : Effect listing s st a)
    (hdel : Call.Delivers ⟨s, st, a⟩) : Followed listing j s' ⟨s, st, a⟩ := by
  have hacc : s.hub.Accepts a.offers := he.accepts hs hdel
  cases he with
  | @connect id subs hb hc =>
    have hc' : s'.hub.capacity ≤ Hub.maxCapacity := h.hub.capacity_eq ▸ hc
    exact followed_of_quiet (.connect (h.bridge_eq.trans hb) hc') (h.withHub (h.hub.connect id subs))
      rfl rfl rfl rfl
  | @disconnect id hb =>
    have hthin := ((h.hub_of_bridge hb).disconnect id).2
    exact followed_of_quiet (.disconnect (h.bridge_eq.trans hb))
      (h.withHub (hthin.mono fun _ => rfl)) rfl rfl rfl rfl
  | dropStream hx =>
    obtain ⟨x', hx', hthin⟩ := h.exists_stream hx
    exact followed_of_quiet (.dropStream hx') (h.withHub (h.hub.onStream hthin.dropStream)) rfl rfl rfl
      rfl
  | drain hx =>
    obtain ⟨x', hx', hthin⟩ := h.exists_stream hx
    exact followed_of_quiet (.drain hx') (h.withHub (h.hub.onStream hthin.drain)) rfl rfl rfl rfl
  | receive hx =>
    obtain ⟨x', hx', hthin⟩ := h.exists_stream hx
    exact followed_of_quiet (.receive hx') (h.withHub (h.hub.onStream hthin.receive)) rfl rfl rfl rfl
  | dropBridge hb =>
    exact followed_of_quiet (.dropBridge (h.bridge_eq.trans hb))
      h.dropBridge.settle_left.settle_right rfl rfl rfl rfl
  | @begin id hb =>
    by_cases hj : s.builds.length = j
    · subst hj
      exact Or.inl ⟨if_pos rfl, h.begin_left _⟩
    · exact followed_of_quiet (.begin (h.bridge_eq.trans hb)) (h.begin hb hj listing id) (if_neg hj) rfl
        rfl rfl
  | @start i op b t hi ht =>
    by_cases hij : i = j
    · subst hij
      exact Or.inl ⟨if_pos rfl, h.takeTurn_left hacc⟩
    · obtain ⟨hi', hthin⟩ := h.other_build hij hi
      rw [← Build.start_congr hthin.subscriptions?_eq, ← h.registry_eq, ← h.policy_eq] at ht
      exact followed_of_same (.start hi' ht) (h.takeTurn hij hthin hacc) (if_neg hij)
        (hacc.thinner hthin) rfl rfl
  | @finish i f b hi =>
    by_cases hij : i = j
    · subst hij
      exact Or.inl ⟨if_pos rfl, h.takeTurn_left hacc⟩
    · obtain ⟨hi', hthin⟩ := h.other_build hij hi
      have he' : Effect (listing.without j) s' (.finish (renumber j i) f) _ := .finish hi'
      rw [Build.finish_congr hthin.subscriptions?_eq] at he'
      exact followed_of_same he' (h.takeTurn hij hthin hacc) (if_neg hij)
        (hacc.thinner hthin) rfl rfl
  | @close i reason b hi =>
    by_cases hij : i = j
    · subst hij
      exact Or.inl ⟨if_pos rfl, h.takeTurn_left hacc⟩
    · obtain ⟨hi', hthin⟩ := h.other_build hij hi
      have he' : Effect (listing.without j) s' (.close (renumber j i) reason) _ := .close hi'
      rw [Build.close_congr hthin.subscriptions?_eq] at he'
      exact followed_of_same he' (h.takeTurn hij hthin hacc) (if_neg hij)
        (hacc.thinner hthin) rfl rfl
  | @dropBuild i b hi =>
    by_cases hij : i = j
    · subst hij
      exact Or.inl ⟨if_pos rfl, (h.takeTurn_left hacc).forget_left.settle_left⟩
    · obtain ⟨hi', hthin⟩ := h.other_build hij hi
      have he' : Effect (listing.without j) s' _ _ := .dropBuild hi'
      rw [Build.close_congr hthin.subscriptions?_eq] at he'
      have hturn := h.takeTurn hij hthin hacc
      exact followed_of_same he' (hturn.forget hij (hacc.deliver hthin)).settle_left.settle_right (if_neg hij)
        (hacc.thinner hthin) rfl rfl

end Session.Without

/-! ### Histories -/

/-- The answer to a call that is on a build. -/
def Call.replyOf (i : Nat) (k : Call) : List Reply :=
  if k.step.build? = some i then [k.outcome.reply] else []

/-- The answers to the calls on a build, in order. -/
def repliesOf (i : Nat) (h : List Call) : List Reply := h.flatMap (·.replyOf i)

@[simp] theorem repliesOf_append (i : Nat) (h h' : List Call) :
    repliesOf i (h ++ h') = repliesOf i h ++ repliesOf i h' := List.flatMap_append

@[simp] theorem repliesOf_singleton (i : Nat) (k : Call) : repliesOf i [k] = k.replyOf i := by
  simp [repliesOf]

/-- In the second of two sessions a build of the first is missing, and nobody who
is concerned with another build can tell: the calls on it get the same answers, it
tells the same of every operation, and the connections accept the same messages
of it. No delivery fails in the second session. -/
structure SameBuilds (j : Nat) (h h' : List Call) (s s' : Session) : Prop where
  steps_eq : h'.map (·.step) = h.filterMap (·.without j)
  delivers : ∀ k ∈ h', k.Delivers
  replies_eq : ∀ i, i ≠ j → repliesOf (renumber j i) h' = repliesOf i h
  builds : ∀ i, i ≠ j → Option.Rel Build.LooksLike (s.build? i) (s'.build? (renumber j i))
  accepted_eq : ∀ c build, (begunIn h)[j]? ≠ some build →
    messagesOf build (acceptedBy c h') = messagesOf build (acceptedBy c h)

namespace Call

variable {j i : Nat} {k k' : Call}

/-- A call that is not made in the second session is on no other build. -/
theorem replyOf_of_removed (hk : k.without j = none) (hi : i ≠ j) : k.replyOf i = [] := by
  refine if_neg fun hb => ?_
  obtain ⟨s, st, a⟩ := k
  cases st with
  | start i' | finish i' | close i' | dropBuild i' =>
    obtain rfl := Option.some.inj hb
    simp [without, hi] at hk
  | _ => exact absurd hb (by simp [Step.build?])

theorem Twin.replyOf_eq (h : k.Twin j k') (hi : i ≠ j) :
    k'.replyOf (renumber j i) = k.replyOf i := by
  obtain ⟨hne, hbuild⟩ := build?_of_without h.step_eq
  unfold replyOf
  rw [hbuild]
  cases hb : k.step.build? with
  | none => rfl
  | some i' =>
    rw [hb] at hne
    have hi' : i' ≠ j := fun he => hne (congrArg some he)
    rw [h.reply_eq (by simp [hb]), Option.map_some]
    simp only [Option.some.injEq]
    by_cases he : i' = i
    · rw [if_pos he, if_pos (congrArg _ he)]
    · rw [if_neg he, if_neg fun hr => he (renumber_inj hi' hi hr)]

theorem Twin.accepted_eq (h : k.Twin j k') (hk : k.Delivers) (c : Nat) :
    k'.accepted c = k.accepted c := by
  rw [h.delivers c, hk c, offered, offered, h.offers_eq]

/-- No delivery fails if none of those that the call makes does. -/
theorem delivers_of_offers (h : ∀ o ∈ k.outcome.offers, k.accepted o.connection = k.offered o.connection) :
    k.Delivers := by
  intro c
  by_cases hc : c ∈ k.outcome.offers.map (·.connection)
  · obtain ⟨o, ho, rfl⟩ := List.mem_map.mp hc
    exact h o ho
  · have hnone : k.offered c = [] := messagesTo_eq_nil.mpr hc
    unfold accepted
    rw [hnone]
    cases k.before.hub.connections[c]? <;> rfl

end Call

namespace SameBuilds

variable {j : Nat} {h h' h'' : List Call} {s s' s'' : Session} {k k' : Call}

theorem builds_of_without (hw : s.Without j s') (i : Nat) (hi : i ≠ j) :
    Option.Rel Build.LooksLike (s.build? i) (s'.build? (renumber j i)) := by
  rw [hw.build?_eq hi]
  cases s.build? i with
  | none => exact .none
  | some b => exact .some (.refl b)

/-- An id that is not that of the build after a call is not that of the build before. -/
theorem begunIn_ne {build : BuildId} (hne : (begunIn (h ++ [k]))[j]? ≠ some build) :
    (begunIn h)[j]? ≠ some build := by
  intro he
  rw [begunIn_append, List.getElem?_append_left (List.getElem?_eq_some_iff.mp he).1] at hne
  exact hne he

theorem removed (hsame : SameBuilds j h h' k.before s') (hk : k.without j = none)
    (hafter : k.outcome.session.Without j s') (hdel : k.Delivers)
    (hoff : ∀ c m, m ∈ k.offered c → (begunIn h)[j]? = some m.build) :
    SameBuilds j (h ++ [k]) h' k.outcome.session s' where
  steps_eq := by simp [hsame.steps_eq, hk]
  delivers := hsame.delivers
  replies_eq i hi := by
    rw [repliesOf_append, repliesOf_singleton, Call.replyOf_of_removed hk hi, List.append_nil,
      hsame.replies_eq i hi]
  builds := builds_of_without hafter
  accepted_eq c build hne := by
    have hnone : messagesOf build (k.accepted c) = [] := by
      rw [hdel c, messagesOf_eq_nil]
      intro m hm hb
      exact begunIn_ne hne (hb ▸ hoff c m hm)
    rw [acceptedBy_append, messagesOf_append, acceptedBy_singleton, hnone, List.append_nil,
      hsame.accepted_eq c build (begunIn_ne hne)]

theorem kept (k k' : Call) (hsame : SameBuilds j h h' k.before k'.before) (hk : k.Twin j k')
    (hafter : k.outcome.session.Without j k'.outcome.session) (hdel : k.Delivers) :
    SameBuilds j (h ++ [k]) (h' ++ [k']) k.outcome.session k'.outcome.session where
  steps_eq := by simp [hsame.steps_eq, hk.step_eq]
  delivers k₁ hk₁ := by
    rcases List.mem_append.mp hk₁ with hk₁ | hk₁
    · exact hsame.delivers k₁ hk₁
    · obtain rfl := List.mem_singleton.mp hk₁
      exact hk.delivers
  replies_eq i hi := by
    rw [repliesOf_append, repliesOf_append, repliesOf_singleton, repliesOf_singleton,
      hsame.replies_eq i hi, hk.replyOf_eq hi]
  builds := builds_of_without hafter
  accepted_eq c build hne := by
    rw [acceptedBy_append, acceptedBy_append, messagesOf_append, messagesOf_append,
      acceptedBy_singleton, acceptedBy_singleton, hsame.accepted_eq c build (begunIn_ne hne),
      hk.accepted_eq hdel]

/-- So it is in a session that looks like the second. -/
theorem trans_looksLike (hsame : SameBuilds j h h' s s') (hcalls : List.Forall₂ Call.LooksLike h' h'')
    (hs : s'.LooksLike s'') : SameBuilds j h h'' s s'' where
  steps_eq := by
    rw [← hsame.steps_eq]
    exact map_eq_of_forall₂ hcalls fun hk => hk.step_eq
  delivers k'' hk'' c := by
    obtain ⟨k', hk', hlike⟩ := exists_of_mem_right hcalls hk''
    rw [hlike.accepted_eq, hlike.offered_eq]
    exact hsame.delivers k' hk' c
  replies_eq i hi := by
    rw [← hsame.replies_eq i hi]
    refine flatMap_eq_of_forall₂ hcalls fun hk => ?_
    rw [Call.replyOf, Call.replyOf, hk.step_eq, hk.reply_eq]
  builds i hi := by
    have hrel := hsame.builds i hi
    have hrel' := hs.builds (renumber j i)
    generalize s.build? i = o at hrel
    generalize s'.build? (renumber j i) = o' at hrel hrel'
    generalize s''.build? (renumber j i) = o'' at hrel'
    cases hrel with
    | none => exact hrel'
    | some hb =>
      obtain ⟨hb'⟩ := hrel'
      exact .some (hb.trans hb')
  accepted_eq c build hne := by
    rw [← hsame.accepted_eq c build hne]
    exact congrArg _ (flatMap_eq_of_forall₂ hcalls fun hk => hk.accepted_eq c)

end SameBuilds

section Fresh

variable {listing : Listing} {config : Config} {registry : Registry} {s₀ s : Session}
  {h : List Call}

/-- At first there is no build to be removed. -/
theorem Session.Fresh.without (h₀ : s₀.Fresh config registry) (j : Nat) : s₀.Without j s₀ :=
  ⟨rfl, rfl, rfl, by simp [h₀.builds_eq], .refl _ _⟩

/-- What a call that is removed offers is of the removed build. -/
theorem History.offered_by_removed (h₀ : s₀.Fresh config registry) (hist : History listing s₀ h s)
    {st : Step} {a : Advance} (he : s.Effect listing st a) {j c : Nat}
    (hk : Call.without j ⟨s, st, a⟩ = none) {m : Message} (hm : m ∈ Call.offered c ⟨s, st, a⟩) :
    (begunIn h)[j]? = some m.build := by
  obtain ⟨i, b, hi, hb, -, -, hid⟩ := he.made_by (hist.sound h₀.sound) hm
  have hij : i = j := by
    by_contra hne
    have hreply := Call.replyOf_of_removed hk hne
    rw [Call.replyOf, if_pos hi] at hreply
    exact absurd hreply (by simp)
  rw [← hij, (hist.begun h₀ hb).1, hid]

/-- The history of the session from which a build is removed, and its beginnings. -/
theorem History.exists_without (h₀ : s₀.Fresh config registry) (hist : History listing s₀ h s)
    (hdel : ∀ k ∈ h, k.Delivers) (j : Nat) :
    ∃ h' s', History (listing.without j) s₀ h' s' ∧ (s.Without j s' ∧ SameBuilds j h h' s s') ∧
      ∀ pre t, pre <+: h → History listing s₀ pre t →
        ∃ pre' t', pre' <+: h' ∧ History (listing.without j) s₀ pre' t' ∧
          t.Without j t' ∧ SameBuilds j pre pre' t t' := by
  have hsame₀ : SameBuilds j [] [] s₀ s₀ :=
    ⟨rfl, fun k hk => absurd hk (by simp), fun _ _ => rfl,
      SameBuilds.builds_of_without (h₀.without j), fun _ _ _ => rfl⟩
  refine hist.exists_followed (listing.without j)
    (R := fun pre t pre' t' => t.Without j t' ∧ SameBuilds j pre pre' t t') ⟨h₀.without j, hsame₀⟩ ?_
  intro pre t st a pre' t' hpre hist₁ _ ⟨hwithout, hsame⟩ he
  have hdel' : Call.Delivers ⟨t, st, a⟩ := hdel _ (hpre.subset (by simp))
  rcases hwithout.step (hist₁.sound h₀.sound) he hdel' with
    ⟨hk, hafter⟩ | ⟨st', a', he', hafter, hk⟩
  · have hoff := fun c m hm => hist₁.offered_by_removed h₀ (c := c) (m := m) he hk hm
    exact Or.inl ⟨hafter, hsame.removed hk hafter hdel' hoff⟩
  · exact Or.inr ⟨st', a', he', hafter, hsame.kept ⟨t, st, a⟩ ⟨t', st', a'⟩ hk hafter hdel'⟩

end Fresh

/-! ### Whole sessions -/

/-- If no delivery of a session fails, a build can be removed from it: no delivery
fails then either, every call on another build is answered the same, and every
connection accepts the same messages of the other builds; and so it is at every
point of the session. The connections are listed for the other builds in the
same order, or in any order, if the mappers treat all parents alike. -/
theorem builds_do_not_interfere {listing listing' : Listing} {config : Config} {registry : Registry}
    {s₀ s : Session} {h : List Call} (h₀ : Session.new config registry = .ok s₀)
    (hist : History listing s₀ h s) (hdel : ∀ k ∈ h, k.Delivers) (j : Nat)
    (hlisting : listing' = listing.without j ∨ ∀ m ∈ registry.mappers, m.Uniform) :
    ∃ h' s', History listing' s₀ h' s' ∧ SameBuilds j h h' s s' ∧
      ∀ pre t, pre <+: h → History listing s₀ pre t →
        ∃ pre' t', pre' <+: h' ∧ History listing' s₀ pre' t' ∧ SameBuilds j pre pre' t t' := by
  have hfresh := Session.fresh_of_new h₀
  obtain ⟨h', s', hist', ⟨-, hsame⟩, hbegin⟩ := hist.exists_without hfresh hdel j
  rcases hlisting with rfl | hu
  · refine ⟨h', s', hist', hsame, fun pre t hpre hist₁ => ?_⟩
    obtain ⟨pre', t', hpre', hist₁', -, hsame'⟩ := hbegin pre t hpre hist₁
    exact ⟨pre', t', hpre', hist₁', hsame'⟩
  · obtain ⟨h'', s'', hist'', ⟨hs, hcalls⟩, hbegin'⟩ := hist'.exists_same hfresh hu listing'
    refine ⟨h'', s'', hist'', hsame.trans_looksLike hcalls hs.looksLike, fun pre t hpre hist₁ => ?_⟩
    obtain ⟨pre', t', hpre', hist₁', -, hsame'⟩ := hbegin pre t hpre hist₁
    obtain ⟨pre'', t'', hpre'', hist₁'', hs', hcalls'⟩ := hbegin' pre' t' hpre' hist₁'
    exact ⟨pre'', t'', hpre'', hist₁'', hsame'.trans_looksLike hcalls' hs'.looksLike⟩

/-- Two builds with an operation of one id live in both; the client reads while
they go on. -/
theorem builds_do_not_interfere_interleaved :
    ∃ (s₀ s : Session) (h : List Call),
      Session.new ⟨⟨4, .nearestEnabledAncestor⟩, default⟩ .builtIn = .ok s₀ ∧
      History .inOrder s₀ h s ∧ (∀ k ∈ h, k.Delivers) ∧
      (messagesOf ⟨"x"⟩ (acceptedBy 0 h)).length = 3 ∧ (messagesOf ⟨"y"⟩ (acceptedBy 0 h)).length = 3 ∧
      ∃ h' s', History .inOrder s₀ h' s' ∧ SameBuilds 0 h h' s s' ∧
        ∀ pre t, pre <+: h → History .inOrder s₀ pre t →
          ∃ pre' t', pre' <+: h' ∧ History .inOrder s₀ pre' t' ∧ SameBuilds 0 pre pre' t t' :=
  let s₀ := sampleSession .nearestEnabledAncestor 4
  let steps : List Step := [.connect ⟨"a"⟩ .all, .begin ⟨"x"⟩, .begin ⟨"y"⟩,
    .start 0 (sampleItem 1 none), .start 1 (sampleItem 1 none), .finish 0 ⟨⟨1⟩, default, .success⟩,
    .drain 0, .close 0 .completed, .finish 1 ⟨⟨1⟩, default, .success⟩, .close 1 .completed]
  have h₀ : Session.new ⟨⟨4, .nearestEnabledAncestor⟩, default⟩ .builtIn = .ok s₀ := rfl
  have hist := Session.history_calls .inOrder steps s₀
  have hoffers : (s₀.calls .inOrder steps).all (fun k => k.outcome.offers.all fun o =>
      decide (k.accepted o.connection = k.offered o.connection)) = true := by decide
  have hdel : ∀ k ∈ s₀.calls .inOrder steps, k.Delivers := fun k hk =>
    Call.delivers_of_offers fun o ho =>
      of_decide_eq_true (List.all_eq_true.mp (List.all_eq_true.mp hoffers k hk) o ho)
  ⟨s₀, _, _, h₀, hist, hdel, by decide, by decide, builds_do_not_interfere h₀ hist hdel 0 (Or.inl rfl)⟩

end BuildFeed
