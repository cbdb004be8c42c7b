/-
# Connections do not interfere

A session is compared with the one in which a connection is alone: the others
are not made, and nothing is done with them (`Call.alone`). The connection is
offered and reads the same in both, is closed for the same reason, and the
scheduler gets the same answers, if no mapper fails in the first session.

The two sessions are kept in step by `Session.Alone`: the second hub has the
one connection of the first, and the builds look alike to it.

Key definitions: `Call.alone`, `Call.MappingFails`, `Hub.Alone`, `Session.Alone`,
`SameStream`.
Key theorems: `Session.Alone.step`, `connections_do_not_interfere`.
-/
import BuildFeed.Proofs.Build.View
import BuildFeed.Proofs.Session.Moves

namespace BuildFeed

/-! ### Hubs -/

/-- The second hub has one connection of the first, if it is there, and no other. -/
structure Hub.Alone (c : Nat) (hub hub' : Hub) : Prop where
  capacity_eq : hub'.capacity = hub.capacity
  here : hub'.connections[0]? = hub.connections[c]?
  only : ∀ n, hub'.connections[n + 1]? = none

namespace Hub.Alone

variable {c : Nat} {hub hub' : Hub}

theorem connections_eq (h : hub.Alone c hub') : hub'.connections = hub.connections[c]?.toList := by
  refine List.ext_getElem? fun n => ?_
  cases n with
  | zero =>
    rw [h.here]
    cases hub.connections[c]? <;> rfl
  | succ n =>
    rw [h.only]
    cases hub.connections[c]? <;> rfl

theorem eq_zero_of_isAttached (h : hub.Alone c hub') {n : Nat} (ha : hub'.isAttached n = true) :
    n = 0 := by
  cases n with
  | zero => rfl
  | succ n =>
    rw [Hub.isAttached, h.only] at ha
    simp at ha

/-- The connection is made. -/
theorem connect (h : hub.Alone c hub') (hc : hub.connections.length = c) (id : ConnectionId)
    (subs : SubscriptionSet) : (hub.connect id subs).Alone c (hub'.connect id subs) := by
  have hnone : hub.connections[c]? = none := List.getElem?_eq_none_iff.mpr (Nat.le_of_eq hc)
  have hnil : hub'.connections = [] := by
    rw [h.connections_eq, hnone]
    rfl
  refine ⟨h.capacity_eq, ?_, fun n => ?_⟩
  · rw [Hub.connect, Hub.connect, hnil, ← hc]
    simp
  · rw [Hub.connect, hnil]
    simp

/-- Another connection is made. -/
theorem connect_other (h : hub.Alone c hub') (hc : hub.connections.length ≠ c) (id : ConnectionId)
    (subs : SubscriptionSet) : (hub.connect id subs).Alone c hub' := by
  refine ⟨h.capacity_eq, h.here.trans ?_, h.only⟩
  rw [Hub.connect]
  rcases Nat.lt_or_gt_of_ne hc with hlt | hgt
  · rw [List.getElem?_eq_none (by omega), List.getElem?_eq_none (by simp; omega)]
  · rw [List.getElem?_append_left hgt]

/-- Something is done with the connection. -/
theorem modify (h : hub.Alone c hub') (f : Connection → Connection) :
    (hub.modify c f).Alone c (hub'.modify 0 f) := by
  refine ⟨h.capacity_eq, ?_, fun n => ?_⟩
  · rw [getElem?_modify, getElem?_modify, h.here]
    simp
  · rw [getElem?_modify, h.only]
    rfl

/-- Something is done with another connection. -/
theorem modify_other (h : hub.Alone c hub') {n : Nat} (hn : n ≠ c) (f : Connection → Connection) :
    (hub.modify n f).Alone c hub' := by
  refine ⟨h.capacity_eq, h.here.trans ?_, h.only⟩
  rw [getElem?_modify]
  simp [hn]

/-- The connection is offered the same messages. -/
theorem deliver (h : hub.Alone c hub') {os os' : List Offer} (hm : messagesTo 0 os' = messagesTo c os) :
    (hub.deliver os).Alone c (hub'.deliver os') := by
  refine ⟨by simp [h.capacity_eq], ?_, fun n => ?_⟩
  · rw [getElem?_deliver, getElem?_deliver, h.here, h.capacity_eq, hm]
  · rw [getElem?_deliver, h.only]
    rfl

theorem dissolve (h : hub.Alone c hub') : hub.dissolve.Alone c hub'.dissolve := by
  refine ⟨h.capacity_eq, ?_, fun n => ?_⟩
  · simp [Hub.dissolve, h.here]
  · simp [Hub.dissolve, h.only]

/-- A connection is found by its id in the second hub if it is in the first. -/
theorem find?_of_self (h : hub.Alone c hub') {id : ConnectionId} (hf : hub.find? id = some c) :
    hub'.find? id = some 0 := by
  have hc := List.of_findIdx?_eq_some hf
  rw [Hub.find?, h.connections_eq]
  cases hx : hub.connections[c]? with
  | none => simp [hx] at hc
  | some x =>
    rw [hx] at hc
    simpa using hc

theorem find?_of_none (h : hub.Alone c hub') {id : ConnectionId} (hf : hub.find? id = none) :
    hub'.find? id = none := by
  have hall := List.findIdx?_eq_none_iff.mp hf
  rw [Hub.find?, h.connections_eq, List.findIdx?_eq_none_iff]
  intro x hx
  exact hall x (List.mem_of_getElem? (Option.mem_toList.mp hx))

end Hub.Alone

/-! ### Calls -/

/-- The step of a call in the session where a connection is alone: none if it
is about another connection. -/
def Call.alone (c : Nat) (k : Call) : Option Step :=
  match k.step with
  | .connect id subs => if k.before.hub.connections.length = c then some (.connect id subs) else none
  | .disconnect id =>
    match k.before.hub.find? id with
    | some n => if n = c then some (.disconnect id) else none
    | none => some (.disconnect id)
  | .dropStream n => if n = c then some (.dropStream 0) else none
  | .drain n => if n = c then some (.drain 0) else none
  | .receive n => if n = c then some (.receive 0) else none
  | st => some st

/-- The mapper that a call asks for a descriptor fails. -/
def Call.MappingFails (k : Call) : Prop :=
  ∃ i op b m p e, k.step = .start i op ∧ k.before.build? i = some b ∧
    k.before.registry.lookup op.details.kind = some m ∧ b.targets k.before.hub m ≠ [] ∧
    (m.consult op p).1 = .error e ∧ k.outcome.reply = .signalled (.error e)

/-- The answer to the scheduler. -/
def Reply.signal? : Reply → Option (Except Error Unit)
  | .signalled r => some r
  | _ => none

theorem Call.not_mappingFails {k : Call} (h : k.outcome.reply.signal?.all Except.isOk = true) :
    ¬ k.MappingFails := by
  rintro ⟨i, op, b, m, p, e, -, -, -, -, -, hr⟩
  rw [hr] at h
  simp [Reply.signal?, Except.isOk, Except.toBool] at h

/-- What two calls have in common: what they offer to a connection of each,
what is read from it, and the answer to the scheduler. -/
structure Call.Same (c : Nat) (k k' : Call) : Prop where
  offered_eq : k'.offered 0 = k.offered c
  read_eq : k'.read 0 = k.read c
  signal_eq : k'.outcome.reply.signal? = k.outcome.reply.signal?

/-! ### Sessions -/

namespace Session

/-- In the second session a connection of the first is alone. -/
structure Alone (c : Nat) (s s' : Session) : Prop where
  registry_eq : s'.registry = s.registry
  policy_eq : s'.policy = s.policy
  bridge_eq : s'.bridge = s.bridge
  hub : s.hub.Alone c s'.hub
  length_eq : s'.builds.length = s.builds.length
  absent : ∀ i, s.build? i = none → s'.build? i = none
  present : ∀ {i b}, s.build? i = some b → ∃ b', s'.build? i = some b' ∧ b.Alike c 0 b'

theorem any_isSome_iff {s : Session} : s.builds.any Option.isSome = true ↔ ∃ i b, s.build? i = some b := by
  rw [List.any_eq_true]
  constructor
  · rintro ⟨o, ho, hs⟩
    obtain ⟨b, rfl⟩ := Option.isSome_iff_exists.mp hs
    obtain ⟨i, hi⟩ := List.mem_iff_getElem?.mp ho
    exact ⟨i, b, build?_eq_some.mpr hi⟩
  · rintro ⟨i, b, hb⟩
    exact ⟨some b, List.mem_of_getElem? (build?_eq_some.mp hb), rfl⟩

namespace Alone

variable {listing : Listing} {c : Nat} {s s' : Session}

theorem stream?_eq (h : s.Alone c s') : s'.stream? 0 = s.stream? c := by
  rw [stream?, stream?, h.hub.here]

theorem isAlive_eq (h : s.Alone c s') : s'.isAlive = s.isAlive := by
  have hany : s'.builds.any Option.isSome = s.builds.any Option.isSome := by
    rw [Bool.eq_iff_iff, any_isSome_iff, any_isSome_iff]
    constructor
    · rintro ⟨i, b', hb'⟩
      cases hb : s.build? i with
      | none =>
        rw [h.absent i hb] at hb'
        simp at hb'
      | some b => exact ⟨i, b, hb⟩
    · rintro ⟨i, b, hb⟩
      obtain ⟨b', hb', -⟩ := h.present hb
      exact ⟨i, b', hb'⟩
  rw [isAlive, isAlive, h.bridge_eq, hany]

/-- Only the hubs change. -/
theorem withHub (h : s.Alone c s') {hub hub' : Hub} (hhub : hub.Alone c hub') :
    Alone c { s with hub := hub } { s' with hub := hub' } :=
  ⟨h.registry_eq, h.policy_eq, h.bridge_eq, hhub, h.length_eq, h.absent, h.present⟩

theorem settle (h : s.Alone c s') : s.settle.Alone c s'.settle := by
  unfold Session.settle
  rw [h.isAlive_eq]
  split
  · exact h
  · exact h.withHub h.hub.dissolve

theorem dropBridge (h : s.Alone c s') :
    Alone c { s with bridge := false } { s' with bridge := false } :=
  ⟨h.registry_eq, h.policy_eq, rfl, h.hub, h.length_eq, h.absent, h.present⟩

/-- One build changes in both sessions, so that it looks alike again. -/
theorem change_one (h : s.Alone c s') {s₁ s₁' : Session} {i : Nat} {o o' : Option Build}
    (hs₁ : ∀ j, s₁.build? j = if i = j then o else s.build? j)
    (hs₁' : ∀ j, s₁'.build? j = if i = j then o' else s'.build? j)
    (ho : Option.Rel (fun b b' => b.Alike c 0 b') o o') :
    (∀ j, s₁.build? j = none → s₁'.build? j = none) ∧
      ∀ j b, s₁.build? j = some b → ∃ b', s₁'.build? j = some b' ∧ b.Alike c 0 b' := by
  constructor
  · intro j hj
    rw [hs₁] at hj
    rw [hs₁']
    by_cases hij : i = j
    · rw [if_pos hij] at hj ⊢
      rw [hj] at ho
      cases ho
      rfl
    · rw [if_neg hij] at hj ⊢
      exact h.absent j hj
  · intro j b hj
    rw [hs₁] at hj
    rw [hs₁']
    by_cases hij : i = j
    · rw [if_pos hij] at hj ⊢
      rw [hj] at ho
      obtain ⟨halike⟩ := ho
      exact ⟨_, rfl, halike⟩
    · rw [if_neg hij] at hj ⊢
      exact h.present hj

/-- A build is dropped. -/
theorem forget (h : s.Alone c s') (i : Nat) :
    Alone c { s with builds := s.builds.set i none } { s' with builds := s'.builds.set i none } := by
  have hset : ∀ (t : Session) (j : Nat), build? { t with builds := t.builds.set i none } j =
      if i = j then none else t.build? j := by
    intro t j
    unfold build?
    simp only [List.getElem?_set]
    by_cases hij : i = j
    · rw [if_pos hij, if_pos hij]
      split <;> rfl
    · rw [if_neg hij, if_neg hij]
  have hlength : (s'.builds.set i none).length = (s.builds.set i none).length := by
    rw [List.length_set, List.length_set, h.length_eq]
  obtain ⟨habsent, hpresent⟩ := h.change_one (hset s) (hset s') .none
  exact ⟨h.registry_eq, h.policy_eq, h.bridge_eq, h.hub, hlength, habsent, hpresent _ _⟩

/-- A build begins; the connection is in both audiences or in none. -/
theorem begin (h : s.Alone c s') (listing' : Listing) (id : BuildId) :
    Alone c
      { s with
        builds := s.builds ++
          [some (.begin id (listing.order s.builds.length s.hub.attachedNumbers))] }
      { s' with
        builds := s'.builds ++
          [some (.begin id (listing'.order s'.builds.length s'.hub.attachedNumbers))] } := by
  have haudience : 0 ∈ listing'.order s'.builds.length s'.hub.attachedNumbers ↔
      c ∈ listing.order s.builds.length s.hub.attachedNumbers := by
    rw [(listing'.perm _ _).mem_iff, (listing.perm _ _).mem_iff, mem_attachedNumbers,
      mem_attachedNumbers, Build.Alike.isAttached_eq h.hub.here]
  have happend : ∀ (t : Session) (b : Build) (j : Nat),
      build? { t with builds := t.builds ++ [some b] } j =
        if t.builds.length = j then some b else t.build? j := by
    intro t b j
    rw [build?_append]
    simp only [eq_comm]
  have halike : (Build.begin id (listing.order s.builds.length s.hub.attachedNumbers)).Alike c 0
      (Build.begin id (listing'.order s'.builds.length s'.hub.attachedNumbers)) :=
    ⟨rfl, rfl, haudience, rfl⟩
  obtain ⟨habsent, hpresent⟩ :=
    h.change_one (happend s _) (h.length_eq ▸ happend s' _) (.some halike)
  exact ⟨h.registry_eq, h.policy_eq, h.bridge_eq, h.hub, by simp [h.length_eq], habsent,
    hpresent _ _⟩

/-- A call on a build. -/
theorem takeTurn (h : s.Alone c s') {i : Nat} {b b' : Build} (hi : s.build? i = some b)
    (hi' : s'.build? i = some b') {t t' : Turn} (ht : t.Alike c 0 t') :
    (s.takeTurn i t).Alone c (s'.takeTurn i t') := by
  have hlength : (s'.takeTurn i t').builds.length = (s.takeTurn i t).builds.length := by
    simp [Session.takeTurn, h.length_eq]
  obtain ⟨habsent, hpresent⟩ := h.change_one (build?_takeTurn hi t) (build?_takeTurn hi' t')
    (.some ht.build)
  exact ⟨h.registry_eq, h.policy_eq, h.bridge_eq, h.hub.deliver ht.messages_eq, hlength, habsent,
    hpresent _ _⟩

/-- A call about another connection leaves the connection as it is. -/
structure Removed (c : Nat) (s' : Session) (k : Call) : Prop where
  alone_eq : k.alone c = none
  after : k.outcome.session.Alone c s'
  offered_eq : k.offered c = []
  read_eq : k.read c = []
  signal_eq : k.outcome.reply.signal? = none

/-- A call is about another connection, or it is made in the second session too. -/
def Followed (listing' : Listing) (c : Nat) (s' : Session) (k : Call) : Prop :=
  Removed c s' k ∨ ∃ st' a', k.alone c = some st' ∧ Effect listing' s' st' a' ∧
    k.outcome.session.Alone c a'.session ∧ k.Same c ⟨s', st', a'⟩

/-- A connection of an id is detached. -/
theorem disconnect (listing' : Listing) (h : s.Alone c s') {id : ConnectionId}
    (hb : s.bridge = true) : Followed listing' c s' ⟨s, .disconnect id,
      ⟨{ s with hub := (s.hub.disconnect id).2 }, .disconnected (s.hub.disconnect id).1, []⟩⟩ := by
  have hb' : s'.bridge = true := h.bridge_eq.trans hb
  cases hf : s.hub.find? id with
  | none =>
    have hhub : (s.hub.disconnect id).2.Alone c (s'.hub.disconnect id).2 := by
      simp only [Hub.disconnect, hf, h.hub.find?_of_none hf]
      exact h.hub
    exact Or.inr ⟨.disconnect id, _, by simp [Call.alone, hf], .disconnect hb', h.withHub hhub, rfl,
      rfl, rfl⟩
  | some n =>
    by_cases hn : n = c
    · subst hn
      have hhub : (s.hub.disconnect id).2.Alone n (s'.hub.disconnect id).2 := by
        simp only [Hub.disconnect, hf, h.hub.find?_of_self hf]
        exact h.hub.modify _
      exact Or.inr ⟨.disconnect id, _, by simp [Call.alone, hf], .disconnect hb', h.withHub hhub, rfl,
        rfl, rfl⟩
    · have hhub : (s.hub.disconnect id).2.Alone c s'.hub := by
        simp only [Hub.disconnect, hf]
        exact h.hub.modify_other hn _
      exact Or.inl ⟨by simp [Call.alone, hf, hn], h.withHub hhub, rfl, rfl, rfl⟩

/-- An operation starts. -/
theorem start (listing' : Listing) (h : s.Alone c s') (hs : s.Sound) (hs' : s'.Sound)
    (hu : ∀ m ∈ s.registry.mappers, m.Uniform) {i : Nat} {op : StartSignal} {b : Build} {t : Turn}
    (hi : s.build? i = some b) (ht : b.start s.registry s.policy s.hub op = some t)
    (hok : ¬ Call.MappingFails ⟨s, .start i op, ⟨s.takeTurn i t, .signalled t.result, t.offers⟩⟩) :
    Followed listing' c s' ⟨s, .start i op, ⟨s.takeTurn i t, .signalled t.result, t.offers⟩⟩ := by
  obtain ⟨b', hi', halike⟩ := h.present hi
  have hrefuses : ∀ e, ¬ Build.Refuses s.registry s.hub b op t e := by
    intro e href
    obtain ⟨m, p, hm, hne, herr, -⟩ := href.refused
    exact hok ⟨i, op, b, m, p, e, rfl, hi, hm, hne, herr, by rw [href.result]⟩
  obtain ⟨t', ht', hturn⟩ := halike.start h.hub.here (fun n => h.hub.eq_zero_of_isAttached) hu
    (hs i b hi) (hs' i b' hi') ht hrefuses
  rw [← h.registry_eq, ← h.policy_eq] at ht'
  exact Or.inr ⟨_, _, rfl, .start hi' ht', h.takeTurn hi hi' hturn, hturn.messages_eq, rfl,
    congrArg some hturn.result_eq⟩

/-- The sessions stay in step. -/
theorem step (listing' : Listing) {st : Step} {a : Advance} (h : s.Alone c s') (hs : s.Sound)
    (hs' : s'.Sound) (hu : ∀ m ∈ s.registry.mappers, m.Uniform) (he : Effect listing s st a)
    (hok : ¬ Call.MappingFails ⟨s, st, a⟩) : Followed listing' c s' ⟨s, st, a⟩ := by
  cases he with
  | @connect id subs hb hc =>
    by_cases hn : s.hub.connections.length = c
    · have hhub := h.hub.connect hn id subs
      exact Or.inr ⟨_, _, if_pos hn, .connect (h.bridge_eq.trans hb) (h.hub.capacity_eq ▸ hc),
        h.withHub hhub, rfl, rfl, rfl⟩
    · have hhub := h.hub.connect_other hn id subs
      exact Or.inl ⟨if_neg hn, h.withHub hhub, rfl, rfl, rfl⟩
  | disconnect hb => exact h.disconnect listing' hb
  | @dropStream n x hx =>
    by_cases hn : n = c
    · subst hn
      exact Or.inr ⟨_, _, if_pos rfl, .dropStream (h.stream?_eq.trans hx),
        h.withHub (h.hub.modify _), rfl, rfl, rfl⟩
    · exact Or.inl ⟨if_neg hn, h.withHub (h.hub.modify_other hn _), rfl, rfl, rfl⟩
  | @drain n x hx =>
    by_cases hn : n = c
    · subst hn
      exact Or.inr ⟨_, _, if_pos rfl, .drain (h.stream?_eq.trans hx), h.withHub (h.hub.modify _), rfl,
        by simp [Call.read], rfl⟩
    · exact Or.inl ⟨if_neg hn, h.withHub (h.hub.modify_other hn _), rfl, if_neg hn, rfl⟩
  | @receive n x hx =>
    by_cases hn : n = c
    · subst hn
      exact Or.inr ⟨_, _, if_pos rfl, .receive (h.stream?_eq.trans hx), h.withHub (h.hub.modify _), rfl,
        by simp [Call.read], rfl⟩
    · exact Or.inl ⟨if_neg hn, h.withHub (h.hub.modify_other hn _), rfl, if_neg hn, rfl⟩
  | dropBridge hb =>
    exact Or.inr ⟨_, _, rfl, .dropBridge (h.bridge_eq.trans hb), h.dropBridge.settle, rfl, rfl, rfl⟩
  | begin hb =>
    exact Or.inr ⟨_, _, rfl, .begin (h.bridge_eq.trans hb), h.begin listing' _, rfl, rfl, rfl⟩
  | start hi ht => exact h.start listing' hs hs' hu hi ht hok
  | @finish i f b hi =>
    obtain ⟨b', hi', halike⟩ := h.present hi
    have hturn := halike.finish h.hub.here (hs i b hi) (hs' i b' hi') f
    exact Or.inr ⟨_, _, rfl, .finish hi', h.takeTurn hi hi' hturn, hturn.messages_eq, rfl,
      congrArg some hturn.result_eq⟩
  | @close i reason b hi =>
    obtain ⟨b', hi', halike⟩ := h.present hi
    have hturn := halike.close h.hub.here (hs i b hi) (hs' i b' hi') reason
    exact Or.inr ⟨_, _, rfl, .close hi', h.takeTurn hi hi' hturn, hturn.messages_eq, rfl, rfl⟩
  | @dropBuild i b hi =>
    obtain ⟨b', hi', halike⟩ := h.present hi
    have hturn := halike.close h.hub.here (hs i b hi) (hs' i b' hi') .cancelled
    exact Or.inr ⟨_, _, rfl, .dropBuild hi', ((h.takeTurn hi hi' hturn).forget i).settle,
      hturn.messages_eq, rfl, rfl⟩

end Alone

end Session

/-! ### Histories -/

/-- The answers to the scheduler, in order. -/
def answersIn (h : List Call) : List (Except Error Unit) := h.filterMap (·.outcome.reply.signal?)

@[simp] theorem answersIn_append (h h' : List Call) :
    answersIn (h ++ h') = answersIn h ++ answersIn h' := List.filterMap_append

theorem answersIn_singleton (k : Call) : answersIn [k] = k.outcome.reply.signal?.toList := by
  rw [answersIn, List.filterMap_cons]
  cases k.outcome.reply.signal? <;> rfl

/-- A connection and the scheduler can not tell two sessions apart, of which the
second was made without the other connections. -/
structure SameStream (c : Nat) (h h' : List Call) (s s' : Session) : Prop where
  steps_eq : h'.map (·.step) = h.filterMap (·.alone c)
  offered_eq : offeredTo 0 h' = offeredTo c h
  read_eq : readBy 0 h' = readBy c h
  answers_eq : answersIn h' = answersIn h
  connection_eq : s'.hub.connections[0]? = s.hub.connections[c]?

namespace SameStream

variable {c : Nat} {h h' : List Call} {s s' : Session}

theorem removed {k : Call} (hsame : SameStream c h h' k.before s')
    (hk : Session.Alone.Removed c s' k) : SameStream c (h ++ [k]) h' k.outcome.session s' where
  steps_eq := by simp [hsame.steps_eq, hk.alone_eq]
  offered_eq := by rw [offeredTo_append, offeredTo_singleton, hk.offered_eq, List.append_nil, hsame.offered_eq]
  read_eq := by rw [readBy_append, readBy_singleton, hk.read_eq, List.append_nil, hsame.read_eq]
  answers_eq := by
    rw [answersIn_append, answersIn_singleton, hk.signal_eq, Option.toList_none, List.append_nil,
      hsame.answers_eq]
  connection_eq := hk.after.hub.here

theorem kept {k : Call} (hsame : SameStream c h h' k.before s') (k' : Call)
    (halone : k.alone c = some k'.step) (hk : k.Same c k')
    (hafter : k.outcome.session.Alone c k'.outcome.session) :
    SameStream c (h ++ [k]) (h' ++ [k']) k.outcome.session k'.outcome.session where
  steps_eq := by simp [hsame.steps_eq, halone]
  offered_eq := by
    rw [offeredTo_append, offeredTo_append, offeredTo_singleton, offeredTo_singleton, hk.offered_eq,
      hsame.offered_eq]
  read_eq := by
    rw [readBy_append, readBy_append, readBy_singleton, readBy_singleton, hk.read_eq, hsame.read_eq]
  answers_eq := by
    rw [answersIn_append, answersIn_append, answersIn_singleton, answersIn_singleton, hk.signal_eq,
      hsame.answers_eq]
  connection_eq := hafter.hub.here

end SameStream

section Fresh

variable {listing : Listing} {config : Config} {registry : Registry} {s₀ s : Session}
  {h : List Call}

/-- At first no connection has any others beside it. -/
theorem Session.Fresh.alone (h₀ : s₀.Fresh config registry) (c : Nat) : s₀.Alone c s₀ := by
  have hhub : s₀.hub.Alone c s₀.hub :=
    ⟨rfl, by simp [h₀.connections_eq], by simp [h₀.connections_eq]⟩
  refine ⟨rfl, rfl, rfl, hhub, rfl, fun _ h => h, fun {i b} hb => ?_⟩
  rw [h₀.build?_eq_none] at hb
  exact absurd hb (by simp)

/-- The history of the session where a connection is alone, and its beginnings. -/
theorem History.exists_alone (h₀ : s₀.Fresh config registry)
    (hu : ∀ m ∈ registry.mappers, m.Uniform) (hist : History listing s₀ h s)
    (hok : ∀ k ∈ h, ¬ k.MappingFails) (listing' : Listing) (c : Nat) :
    ∃ h' s', History listing' s₀ h' s' ∧ s.Alone c s' ∧ SameStream c h h' s s' ∧
      ∀ pre t, pre <+: h → History listing s₀ pre t →
        ∃ pre' t', pre' <+: h' ∧ History listing' s₀ pre' t' ∧ SameStream c pre pre' t t' := by
  have hsame₀ : SameStream c [] [] s₀ s₀ := ⟨rfl, rfl, rfl, rfl, (h₀.alone c).hub.here⟩
  obtain ⟨h', s', hist', ⟨halone, hsame⟩, hbegin⟩ := hist.exists_followed listing'
    (R := fun pre t pre' t' => t.Alone c t' ∧ SameStream c pre pre' t t') ⟨h₀.alone c, hsame₀⟩ (by
      intro pre t st a pre' t' hpre hist₁ hist₁' ⟨halone, hsame⟩ he
      have hu' : ∀ m ∈ t.registry.mappers, m.Uniform := (hist₁.settings h₀).1 ▸ hu
      have hok' : ¬ Call.MappingFails ⟨t, st, a⟩ := hok _ (hpre.subset (by simp))
      rcases halone.step listing' (hist₁.sound h₀.sound) (hist₁'.sound h₀.sound) hu' he hok' with
        hrem | ⟨st', a', hst', he', halone', hk⟩
      · exact Or.inl ⟨hrem.after, hsame.removed hrem⟩
      · exact Or.inr ⟨st', a', he', halone', hsame.kept ⟨t', st', a'⟩ hst' hk halone'⟩)
  refine ⟨h', s', hist', halone, hsame, fun pre t hpre hist₁ => ?_⟩
  obtain ⟨pre', t', hpre', hist₁', -, hsame'⟩ := hbegin pre t hpre hist₁
  exact ⟨pre', t', hpre', hist₁', hsame'⟩

end Fresh

/-! ### Whole sessions -/

/-- A connection is offered and reads the same, and is closed for the same
reason, and every start and finish is answered the same, when the other
connections are not there; and so it is at every point of the session. -/
theorem connections_do_not_interfere {listing : Listing} {config : Config} {registry : Registry}
    {s₀ s : Session} {h : List Call} (h₀ : Session.new config registry = .ok s₀)
    (hu : ∀ m ∈ registry.mappers, m.Uniform) (hist : History listing s₀ h s)
    (hok : ∀ k ∈ h, ¬ k.MappingFails) (listing' : Listing) (c : Nat) :
    ∃ h' s', History listing' s₀ h' s' ∧ SameStream c h h' s s' ∧
      ∀ pre t, pre <+: h → History listing s₀ pre t →
        ∃ pre' t', pre' <+: h' ∧ History listing' s₀ pre' t' ∧ SameStream c pre pre' t t' := by
  have hfresh := Session.fresh_of_new h₀
  obtain ⟨h', s', hist', -, hsame, hbegin⟩ := hist.exists_alone hfresh hu hok listing' c
  exact ⟨h', s', hist', hsame, hbegin⟩

/-- One connection asks for phases and is disconnected; the other, which asks
for work items, can not tell. -/
theorem connections_do_not_interfere_disconnected :
    ∃ (s₀ s : Session) (h : List Call),
      Session.new default .builtIn = .ok s₀ ∧ History .inOrder s₀ h s ∧
      (∀ k ∈ h, ¬ k.MappingFails) ∧ (offeredTo 1 h).length = 3 ∧
      ∃ h' s', History .inOrder s₀ h' s' ∧ SameStream 1 h h' s s' ∧
        ∀ pre t, pre <+: h → History .inOrder s₀ pre t →
          ∃ pre' t', pre' <+: h' ∧ History .inOrder s₀ pre' t' ∧ SameStream 1 pre pre' t t' :=
  let s₀ := sampleSession .nearestEnabledAncestor 1024
  let steps : List Step := [.connect ⟨"a"⟩ (.ofList [.buildPhase]), .connect ⟨"b"⟩ (.ofList [.workItem]),
    .begin ⟨"x"⟩, .start 0 (samplePhase 1 none), .disconnect ⟨"a"⟩, .start 0 (sampleItem 2 (some ⟨1⟩)),
    .finish 0 ⟨⟨2⟩, default, .success⟩, .close 0 .completed]
  have h₀ : Session.new default .builtIn = .ok s₀ := rfl
  have hist := Session.history_calls .inOrder steps s₀
  have hanswers : (s₀.calls .inOrder steps).all (·.outcome.reply.signal?.all Except.isOk) = true := by
    decide
  have hok : ∀ k ∈ s₀.calls .inOrder steps, ¬ k.MappingFails := fun k hk =>
    Call.not_mappingFails (List.all_eq_true.mp hanswers k hk)
  ⟨s₀, _, _, h₀, hist, hok, by decide, connections_do_not_interfere h₀
    (fun _ hm => Mapper.uniform_of_mem_builtIn hm) hist hok .inOrder 1⟩

end BuildFeed
