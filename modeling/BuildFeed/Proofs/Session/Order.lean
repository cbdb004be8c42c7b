/-
# The order of the connections does not show

When a build begins, the attached connections are listed in an order that is
not fixed. Two sessions with the same calls, in which the connections of each
build are listed in two orders, cannot be told apart: their hubs are equal
after every call, and their builds differ in nothing but the order of the
audience (`Session.Same`). So the calls are answered alike, every connection
is offered, accepts and reads the same, and is closed for the same reason, and
every operation stands alike (`Call.LooksLike`).

Key definitions: `Session.Same`, `Advance.Same`, `Session.LooksLike`,
`Call.LooksLike`.
Key theorems: `Session.Same.step`, `History.exists_same`, `order_does_not_show`.
-/
import BuildFeed.Proofs.Build.Order
import BuildFeed.Proofs.Session.Moves

namespace BuildFeed

open List (Forall₂)

/-- Hubs that hand every connection the same messages stay equal. -/
theorem Hub.deliver_congr (hub : Hub) {os os' : List Offer}
    (h : ∀ c, messagesTo c os' = messagesTo c os) : hub.deliver os' = hub.deliver os := by
  have hconnections : (hub.deliver os').connections = (hub.deliver os).connections := by
    refine List.ext_getElem? fun c => ?_
    rw [getElem?_deliver, getElem?_deliver, h c]
  rw [Hub.mk.injEq]
  exact ⟨by simp, hconnections⟩

/-! ### Sessions -/

namespace Session

/-- The builds of one number are related if the builds are related in pairs. -/
theorem rel_build? {R : Build → Build → Prop} {s s' : Session}
    (h : Forall₂ (Option.Rel R) s.builds s'.builds) (i : Nat) :
    Option.Rel R (s.build? i) (s'.build? i) := by
  have hrel := forall₂_getElem? h i
  unfold build?
  generalize s.builds[i]? = o at hrel
  generalize s'.builds[i]? = o' at hrel
  cases hrel with
  | none => exact .none
  | some hb => exact hb

theorem isSome_build?_eq {R : Build → Build → Prop} {s s' : Session}
    (h : Forall₂ (Option.Rel R) s.builds s'.builds) (i : Nat) :
    (s'.build? i).isSome = (s.build? i).isSome := by
  have hrel := rel_build? h i
  generalize s.build? i = o at hrel
  generalize s'.build? i = o' at hrel
  cases hrel <;> rfl

theorem exists_build {R : Build → Build → Prop} {s s' : Session} {i : Nat} {b : Build}
    (h : Forall₂ (Option.Rel R) s.builds s'.builds) (hb : s.build? i = some b) :
    ∃ b', s'.build? i = some b' ∧ R b b' := by
  have hrel := rel_build? h i
  rw [hb] at hrel
  generalize s'.build? i = o at hrel
  obtain ⟨hbb'⟩ := hrel
  exact ⟨_, rfl, hbb'⟩

/-- Two sessions differ in the order of the audiences of their builds alone. -/
structure Same (s s' : Session) : Prop where
  registry_eq : s'.registry = s.registry
  policy_eq : s'.policy = s.policy
  hub_eq : s'.hub = s.hub
  bridge_eq : s'.bridge = s.bridge
  builds : Forall₂ (Option.Rel Build.Same) s.builds s'.builds
  consulted_eq : s'.consulted = s.consulted

end Session

/-- Two calls end in such sessions, with one answer, and offer every connection the
same. -/
structure Advance.Same (a a' : Advance) : Prop where
  session : a.session.Same a'.session
  reply_eq : a'.reply = a.reply
  messages_eq : ∀ c, messagesTo c a'.offers = messagesTo c a.offers

namespace Session.Same

variable {listing listing' : Listing} {s s' : Session} {st : Step} {a : Advance} {i : Nat} {b : Build}

theorem isAlive_eq (h : s.Same s') : s'.isAlive = s.isAlive := by
  rw [isAlive, isAlive, h.bridge_eq, any_isSome_eq h.builds]

/-- Only the hub changes. -/
theorem withHub (h : s.Same s') (hub : Hub) :
    Same { s with hub := hub } { s' with hub := hub } :=
  ⟨h.registry_eq, h.policy_eq, rfl, h.bridge_eq, h.builds, h.consulted_eq⟩

theorem settle (h : s.Same s') : s.settle.Same s'.settle := by
  unfold Session.settle
  rw [h.isAlive_eq, h.hub_eq]
  split
  · exact h
  · exact h.withHub _

/-- A call on a build. -/
theorem takeTurn (h : s.Same s') {t t' : Turn} (ht : t.Same t') (i : Nat) :
    (s.takeTurn i t).Same (s'.takeTurn i t') where
  registry_eq := h.registry_eq
  policy_eq := h.policy_eq
  hub_eq := by
    show s'.hub.deliver t'.offers = s.hub.deliver t.offers
    rw [h.hub_eq]
    exact s.hub.deliver_congr ht.messages_eq
  bridge_eq := h.bridge_eq
  builds := forall₂_set h.builds (.some ht.build) i
  consulted_eq := by
    show s'.consulted ++ t'.consulted = s.consulted ++ t.consulted
    rw [h.consulted_eq, ht.consulted_eq]

/-- A build begins, for the same connections. -/
theorem begin (h : s.Same s') (listing listing' : Listing) (id : BuildId) :
    Same
      { s with
        builds := s.builds ++
          [some (.begin id (listing.order s.builds.length s.hub.attachedNumbers))] }
      { s' with
        builds := s'.builds ++
          [some (.begin id (listing'.order s'.builds.length s'.hub.attachedNumbers))] } := by
  have haudience : ∀ c, c ∈ listing'.order s'.builds.length s'.hub.attachedNumbers ↔
      c ∈ listing.order s.builds.length s.hub.attachedNumbers := by
    intro c
    rw [(listing'.perm _ _).mem_iff, (listing.perm _ _).mem_iff, h.hub_eq]
  have hlast := Forall₂.cons (Option.Rel.some (Build.Same.begin id haudience)) .nil
  exact ⟨h.registry_eq, h.policy_eq, h.hub_eq, h.bridge_eq, List.rel_append h.builds hlast,
    h.consulted_eq⟩

/-- A build is dropped. -/
theorem forget (h : s.Same s') (i : Nat) :
    Same { s with builds := s.builds.set i none } { s' with builds := s'.builds.set i none } :=
  ⟨h.registry_eq, h.policy_eq, h.hub_eq, h.bridge_eq, forall₂_set h.builds .none i, h.consulted_eq⟩

theorem dropBridge (h : s.Same s') : Same { s with bridge := false } { s' with bridge := false } :=
  ⟨h.registry_eq, h.policy_eq, h.hub_eq, rfl, h.builds, h.consulted_eq⟩

/-- The sessions stay in step. -/
theorem step (listing' : Listing) (h : s.Same s') (hs : s.Sound) (hs' : s'.Sound)
    (hu : ∀ m ∈ s.registry.mappers, m.Uniform) (he : Effect listing s st a) :
    ∃ a', Effect listing' s' st a' ∧ a.Same a' := by
  have hstream : ∀ {i x}, s.stream? i = some x → s'.stream? i = some x := by
    intro i x hx
    rwa [stream?, h.hub_eq]
  cases he with
  | connect hb hc =>
    refine ⟨_, .connect (h.bridge_eq.trans hb) (h.hub_eq ▸ hc), ?_, ?_, fun _ => rfl⟩
    · rw [h.hub_eq]
      exact h.withHub _
    · rw [h.hub_eq]
  | disconnect hb =>
    refine ⟨_, .disconnect (h.bridge_eq.trans hb), ?_, ?_, fun _ => rfl⟩
    · rw [h.hub_eq]
      exact h.withHub _
    · rw [h.hub_eq]
  | dropStream hx =>
    refine ⟨_, .dropStream (hstream hx), ?_, rfl, fun _ => rfl⟩
    rw [h.hub_eq]
    exact h.withHub _
  | drain hx =>
    refine ⟨_, .drain (hstream hx), ?_, rfl, fun _ => rfl⟩
    rw [h.hub_eq]
    exact h.withHub _
  | receive hx =>
    refine ⟨_, .receive (hstream hx), ?_, rfl, fun _ => rfl⟩
    rw [h.hub_eq]
    exact h.withHub _
  | dropBridge hb => exact ⟨_, .dropBridge (h.bridge_eq.trans hb), h.dropBridge.settle, rfl, fun _ => rfl⟩
  | begin hb =>
    refine ⟨_, .begin (h.bridge_eq.trans hb), h.begin listing listing' _, ?_, fun _ => rfl⟩
    rw [h.builds.length_eq]
  | @start i op b t hi ht =>
    obtain ⟨b', hi', hsame⟩ := exists_build h.builds hi
    obtain ⟨t', ht', hturn⟩ := hsame.start hu (hs i b hi) (hs' i b' hi') ht
    rw [← h.registry_eq, ← h.policy_eq, ← h.hub_eq] at ht'
    exact ⟨_, .start hi' ht', h.takeTurn hturn i, congrArg Reply.signalled hturn.result_eq,
      hturn.messages_eq⟩
  | @finish i f b hi =>
    obtain ⟨b', hi', hsame⟩ := exists_build h.builds hi
    have hturn : (b.finish s.hub f).Same (b'.finish s'.hub f) := by
      rw [h.hub_eq]
      exact hsame.finish (hs i b hi) (hs' i b' hi') f
    exact ⟨_, .finish hi', h.takeTurn hturn i, congrArg Reply.signalled hturn.result_eq,
      hturn.messages_eq⟩
  | @close i reason b hi =>
    obtain ⟨b', hi', hsame⟩ := exists_build h.builds hi
    have hturn : (b.close s.hub reason).Same (b'.close s'.hub reason) := by
      rw [h.hub_eq]
      exact hsame.close (hs i b hi) (hs' i b' hi') reason
    exact ⟨_, .close hi', h.takeTurn hturn i, congrArg Reply.closed hsame.looksLike.orphans_eq,
      hturn.messages_eq⟩
  | @dropBuild i b hi =>
    obtain ⟨b', hi', hsame⟩ := exists_build h.builds hi
    have hturn : (b.close s.hub .cancelled).Same (b'.close s'.hub .cancelled) := by
      rw [h.hub_eq]
      exact hsame.close (hs i b hi) (hs' i b' hi') .cancelled
    exact ⟨_, .dropBuild hi', ((h.takeTurn hturn i).forget i).settle, rfl, hturn.messages_eq⟩

end Session.Same

/-! ### What is seen of a session -/

/-- Two sessions look alike to everybody: each connection has the same messages
unread and is closed for the same reason, and the builds answer alike. -/
structure Session.LooksLike (s s' : Session) : Prop where
  connections_eq : s'.hub.connections = s.hub.connections
  count_eq : s'.connectionCount = s.connectionCount
  builds : ∀ i, Option.Rel Build.LooksLike (s.build? i) (s'.build? i)
  consulted_eq : s'.consulted = s.consulted

/-- Two calls look alike to everybody: they are one step with one answer, each
connection is offered, accepts and reads the same, and the sessions look alike
before and after. -/
structure Call.LooksLike (k k' : Call) : Prop where
  step_eq : k'.step = k.step
  reply_eq : k'.outcome.reply = k.outcome.reply
  offered_eq : ∀ c, k'.offered c = k.offered c
  accepted_eq : ∀ c, k'.accepted c = k.accepted c
  read_eq : ∀ c, k'.read c = k.read c
  before : k.before.LooksLike k'.before
  after : k.outcome.session.LooksLike k'.outcome.session

namespace Session.Same

variable {s s' : Session} {st : Step} {a a' : Advance}

theorem looksLike (h : s.Same s') : s.LooksLike s' where
  connections_eq := by rw [h.hub_eq]
  count_eq := by rw [connectionCount, connectionCount, h.bridge_eq, h.hub_eq]
  builds i := by
    have hrel := rel_build? h.builds i
    generalize s.build? i = o at hrel
    generalize s'.build? i = o' at hrel
    cases hrel with
    | none => exact .none
    | some hb => exact .some hb.looksLike
  consulted_eq := h.consulted_eq

/-- Calls of one step in such sessions, with such outcomes. -/
theorem call_looksLike (h : s.Same s') (ha : a.Same a') :
    Call.LooksLike ⟨s, st, a⟩ ⟨s', st, a'⟩ where
  step_eq := rfl
  reply_eq := ha.reply_eq
  offered_eq := ha.messages_eq
  accepted_eq c := by
    simp only [Call.accepted, Call.offered, h.hub_eq, ha.messages_eq]
  read_eq c := by
    simp only [Call.read, ha.reply_eq]
  before := h.looksLike
  after := ha.session.looksLike

end Session.Same

/-! ### Whole sessions -/

theorem Session.Fresh.same {config : Config} {registry : Registry} {s₀ : Session}
    (h₀ : s₀.Fresh config registry) : s₀.Same s₀ := by
  refine ⟨rfl, rfl, rfl, rfl, ?_, rfl⟩
  rw [h₀.builds_eq]
  exact .nil

/-- A history, and every beginning of it, can be gone through again with the
connections listed in another order. -/
theorem History.exists_same {listing : Listing} {config : Config} {registry : Registry}
    {s₀ s : Session} {h : List Call} (h₀ : s₀.Fresh config registry)
    (hu : ∀ m ∈ registry.mappers, m.Uniform) (hist : History listing s₀ h s) (listing' : Listing) :
    ∃ h' s', History listing' s₀ h' s' ∧ (s.Same s' ∧ Forall₂ Call.LooksLike h h') ∧
      ∀ pre t, pre <+: h → History listing s₀ pre t →
        ∃ pre' t', pre' <+: h' ∧ History listing' s₀ pre' t' ∧
          t.Same t' ∧ Forall₂ Call.LooksLike pre pre' := by
  refine hist.exists_followed listing'
    (R := fun pre t pre' t' => t.Same t' ∧ Forall₂ Call.LooksLike pre pre') ⟨h₀.same, .nil⟩ ?_
  intro pre t st a pre' t' _ hist₁ hist₁' ⟨hsame, hcalls⟩ he
  have hu' : ∀ m ∈ t.registry.mappers, m.Uniform := (hist₁.settings h₀).1 ▸ hu
  obtain ⟨a', he', ha⟩ :=
    hsame.step listing' (hist₁.sound h₀.sound) (hist₁'.sound h₀.sound) hu' he
  have hcall : Call.LooksLike ⟨t, st, a⟩ ⟨t', st, a'⟩ := hsame.call_looksLike ha
  exact Or.inr ⟨st, a', he', ha.session, List.rel_append hcalls (.cons hcall .nil)⟩

/-- With mappers that treat all parents alike, nobody can tell in which order the
connections are listed when the builds begin: in every other order all calls
return too, with the same answers, and every connection is sent the same. -/
theorem order_does_not_show {listing : Listing} {config : Config} {registry : Registry}
    {s₀ s : Session} {h : List Call} (h₀ : Session.new config registry = .ok s₀)
    (hu : ∀ m ∈ registry.mappers, m.Uniform) (hist : History listing s₀ h s)
    (listing' : Listing) :
    ∃ h' s', History listing' s₀ h' s' ∧ s.LooksLike s' ∧ Forall₂ Call.LooksLike h h' := by
  have hfresh := Session.fresh_of_new h₀
  obtain ⟨h', s', hist', ⟨hsame, hcalls⟩, -⟩ := hist.exists_same hfresh hu listing'
  exact ⟨h', s', hist', hsame.looksLike, hcalls⟩

/-- The connections are listed the last made first. -/
def Listing.reversed : Listing := ⟨fun _ cs => cs.reverse, fun _ cs => cs.reverse_perm⟩

/-- A client that asks for work items and one that asks for phases too see an item
under two parents; the one whose parent is found first is another when the
clients are listed in reverse. -/
theorem order_does_not_show_reversed :
    ∃ (s₀ s : Session) (h : List Call), Session.new default .builtIn = .ok s₀ ∧
      History .inOrder s₀ h s ∧ (offeredTo 0 h).length = 3 ∧ (offeredTo 1 h).length = 4 ∧
      ∃ h' s', History .reversed s₀ h' s' ∧ s.LooksLike s' ∧ Forall₂ Call.LooksLike h h' :=
  let s₀ := sampleSession .nearestEnabledAncestor 1024
  let steps : List Step := [.connect ⟨"a"⟩ (.ofList [.workItem]),
    .connect ⟨"b"⟩ (.ofList [.workItem, .buildPhase]), .begin ⟨"x"⟩, .start 0 (samplePhase 1 none),
    .start 0 (sampleItem 2 (some ⟨1⟩)), .finish 0 ⟨⟨2⟩, default, .success⟩, .close 0 .completed]
  have h₀ : Session.new default .builtIn = .ok s₀ := rfl
  have hu : ∀ m ∈ Registry.builtIn.mappers, m.Uniform := fun _ hm => Mapper.uniform_of_mem_builtIn hm
  have hist := Session.history_calls .inOrder steps s₀
  ⟨s₀, _, _, h₀, hist, by decide, by decide, order_does_not_show h₀ hu hist .reversed⟩

end BuildFeed
