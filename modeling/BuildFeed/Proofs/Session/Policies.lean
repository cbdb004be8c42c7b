/-
# The parent policy shows in parents alone

Two sessions go through the same calls. In the first a connection sees the
nearest ancestor that it was shown as the parent of an operation; in the second
it sees the operation's own parent, if it was shown that, and none otherwise.
What the second session shows is plainer (`Build.Plainer`): it is what the first
shows, but some parents are left out. The reason is that the own parent is where
the walk to the nearest ancestor begins (`Build.Plainer.ownParent_cases`), and
that a built-in mapper makes the same of an operation under every parent. So the
calls return alike, the same messages go to each connection, which takes or
refuses them alike, and the builds tell the same of all operations
(`Session.Plainer.step`, `policy_shows_in_parents_alone`).

A walk could fail to end where the other search does not; it ends as long as the
scheduler starts no operation twice and none before its parent.

Key definitions: `Entry.Plainer`, `Build.Plainer`, `Session.Plainer`,
`Session.LooksPlainer`, `Advance.LooksPlainer`.
Key theorems: `Build.Plainer.start`, `Session.Plainer.step`,
`History.own_parent`, `policy_shows_in_parents_alone`.
-/
import BuildFeed.Proofs.Session.Consulted
import BuildFeed.Proofs.Session.Lockstep
import BuildFeed.Proofs.Session.Order
import BuildFeed.Proofs.Session.Plainer
import BuildFeed.Proofs.Session.Requested

namespace BuildFeed

open List (Forall₂)

/-! ### Operations -/

/-- The second connection was shown what the first was, or that without the parent. -/
def Showing.Plainer (sh sh' : Showing) : Prop := sh' = sh ∨ sh' = sh.withParent none

namespace Showing.Plainer

variable {sh sh' : Showing}

theorem started (h : sh.Plainer sh') (build : BuildId) :
    (sh.started build).Plainer (sh'.started build) := by
  rcases h with rfl | rfl
  · exact .refl _
  · exact Or.inr rfl

/-- News of the end is plainer too. -/
theorem finished (h : sh.Plainer sh') (hm : sh.mapper ∈ Mapper.builtIn) (build : BuildId)
    (f : FinishSignal) : Option.Rel Message.Plainer (sh.finished build f) (sh'.finished build f) := by
  rcases h with rfl | rfl
  · cases sh'.finished build f with
    | none => exact .none
    | some m => exact .some (.refl m)
  · rw [finished_withParent hm]
    cases sh.finished build f with
    | none => exact .none
    | some m => exact .some (Or.inr rfl)

end Showing.Plainer

/-- The same connections, which have slots in two builds, were shown the operation by a
built-in mapper, and what the second entry has for each of them is plainer. -/
structure Entry.Plainer (slotOf slotOf' : Nat → Nat) (e e' : Entry) : Prop where
  builtIn : ∀ slot sh, e.shown slot = some sh → sh.mapper ∈ Mapper.builtIn
  shown : ∀ c, Option.Rel Showing.Plainer (e.shown (slotOf c)) (e'.shown (slotOf' c))

namespace Entry.Plainer

variable {slotOf slotOf' : Nat → Nat} {e e' : Entry}

theorem reached_eq (h : e.Plainer slotOf slotOf' e') (c : Nat) :
    e'.reached (slotOf' c) = e.reached (slotOf c) := by
  have hrel := h.shown c
  rw [Entry.reached_eq, Entry.reached_eq]
  generalize e.shown (slotOf c) = o at hrel
  generalize e'.shown (slotOf' c) = o' at hrel
  cases hrel <;> rfl

theorem started (h : e.Plainer slotOf slotOf' e') (c : Nat) (build : BuildId) :
    Forall₂ Message.Plainer ((e.shown (slotOf c)).map (·.started build)).toList
      ((e'.shown (slotOf' c)).map (·.started build)).toList := by
  have hrel := h.shown c
  generalize e.shown (slotOf c) = o at hrel
  generalize e'.shown (slotOf' c) = o' at hrel
  cases hrel with
  | none => exact .nil
  | some hsh => exact .cons (hsh.started build) .nil

theorem finished (h : e.Plainer slotOf slotOf' e') (c : Nat) (build : BuildId) (f : FinishSignal) :
    Forall₂ Message.Plainer ((e.shown (slotOf c)).bind (·.finished build f)).toList
      ((e'.shown (slotOf' c)).bind (·.finished build f)).toList := by
  have hrel := h.shown c
  have hm := h.builtIn (slotOf c)
  generalize e.shown (slotOf c) = o at hrel hm
  generalize e'.shown (slotOf' c) = o' at hrel
  cases hrel with
  | none => exact .nil
  | some hsh => exact forall₂_toList (hsh.finished (hm _ rfl) build f)

end Entry.Plainer

/-! ### Builds -/

/-- Two builds have the same audience and the same operations, which stand alike, and
what the second has shown of them is plainer. -/
structure Build.Plainer (b b' : Build) : Prop where
  id_eq : b'.id = b.id
  closed_eq : b'.closed = b.closed
  audience : ∀ c, c ∈ b'.audience ↔ c ∈ b.audience
  live : ∀ x, Option.Rel (Entry.Plainer b.slotOf b'.slotOf) (b.live.get? x) (b'.live.get? x)
  kinds_eq : b'.live.kinds = b.live.kinds

/-- Two calls on builds are answered alike, and make plainer messages of the second. -/
structure Turn.Plainer (t t' : Turn) : Prop where
  build : t.build.Plainer t'.build
  result_eq : t'.result = t.result
  messages : ∀ c, Forall₂ Message.Plainer (messagesTo c t.offers) (messagesTo c t'.offers)
  consulted_eq : t'.consulted = t.consulted

namespace Build.Plainer

variable {b b' : Build} {hub hub' : Hub} {c : Nat} {x : OperationId} {e : Entry}

theorem begin (id : BuildId) {audience audience' : List Nat}
    (h : ∀ c, c ∈ audience' ↔ c ∈ audience) :
    (Build.begin id audience).Plainer (Build.begin id audience') :=
  ⟨rfl, rfl, h, fun _ => .none, rfl⟩

theorem looksLike (h : b.Plainer b') : b.LooksLike b' := .of_kinds h.id_eq h.closed_eq h.kinds_eq

theorem quiet (h : b.Plainer b') (r : Except Error Unit) : (b.quiet r).Plainer (b'.quiet r) :=
  ⟨h, rfl, fun _ => .nil, rfl⟩

theorem get?_eq_none (h : b.Plainer b') (hx : b.live.get? x = none) : b'.live.get? x = none := by
  have hrel := h.live x
  rw [hx] at hrel
  generalize b'.live.get? x = o at hrel
  cases hrel
  rfl

theorem exists_entry (h : b.Plainer b') (hx : b.live.get? x = some e) :
    ∃ e', b'.live.get? x = some e' ∧ e.Plainer b.slotOf b'.slotOf e' := by
  have hrel := h.live x
  rw [hx] at hrel
  generalize b'.live.get? x = o at hrel
  obtain ⟨he⟩ := hrel
  exact ⟨_, rfl, he⟩

/-- An operation is recorded in both builds. -/
theorem insert (h : b.Plainer b') {e' : Entry} (he : e.Plainer b.slotOf b'.slotOf e')
    (hpublished : e'.isPublished = e.isPublished) (x : OperationId) :
    Build.Plainer { b with live := b.live.insert x e } { b' with live := b'.live.insert x e' } := by
  refine ⟨h.id_eq, h.closed_eq, h.audience, fun y => ?_, ?_⟩
  · rw [LiveTable.get?_insert, LiveTable.get?_insert]
    split
    · exact .some he
    · exact h.live y
  · rw [LiveTable.kinds_insert, LiveTable.kinds_insert, hpublished, h.kinds_eq]

/-- An operation is forgotten in both builds. -/
theorem erase (h : b.Plainer b') (x : OperationId) :
    Build.Plainer { b with live := b.live.erase x } { b' with live := b'.live.erase x } := by
  refine ⟨h.id_eq, h.closed_eq, h.audience, fun y => ?_, ?_⟩
  · rw [LiveTable.get?_erase, LiveTable.get?_erase]
    split
    · exact .none
    · exact h.live y
  · rw [LiveTable.kinds_erase, LiveTable.kinds_erase, h.kinds_eq]

/-- The own parent is where the walk to the nearest ancestor begins: if a connection of
the second build sees it, then the connection sees it in the first build too. -/
theorem ownParent_cases (h : b.Plainer b') {parent p : Option OperationId}
    (hp : resolve .nearestEnabledAncestor b.live (b.slotOf c) parent = some p) :
    ownParent b'.live (b'.slotOf c) parent = p ∨ ownParent b'.live (b'.slotOf c) parent = none := by
  cases parent with
  | none => exact Or.inr rfl
  | some x =>
    rw [ownParent]
    cases hx : b.live.get? x with
    | none =>
      rw [h.get?_eq_none hx]
      exact Or.inr rfl
    | some e =>
      obtain ⟨e', hx', he⟩ := h.exists_entry hx
      rw [hx', Option.any_some, he.reached_eq]
      cases hr : e.reached (b.slotOf c) with
      | false => exact Or.inr rfl
      | true =>
        unfold resolve nearest at hp
        simp only [hx, hr, if_true, Option.some.injEq] at hp
        rw [if_pos rfl]
        exact Or.inl hp

/-! ### Starting -/

section Start

variable {registry : Registry} {op : StartSignal} {t t' : Turn}
  (hsubs : ∀ c, hub'.subscriptions? c = hub.subscriptions? c)

include hsubs

theorem mem_targets_iff (h : b.Plainer b') (m : Mapper) (c : Nat) :
    b'.slotOf c ∈ b'.targets hub' m ↔ b.slotOf c ∈ b.targets hub m := by
  rw [slotOf_mem_targets, slotOf_mem_targets, h.audience, hsubs]

theorem targets_ne_nil_iff (h : b.Plainer b') (m : Mapper) :
    b'.targets hub' m ≠ [] ↔ b.targets hub m ≠ [] := by
  rw [Build.targets_ne_nil_iff, Build.targets_ne_nil_iff]
  simp only [h.audience, hsubs]

/-- The same mappers are asked. -/
theorem consulted_eq (h : b.Plainer b') (hm : ∀ m ∈ registry.mappers, m ∈ Mapper.builtIn)
    (ht : b.start registry .nearestEnabledAncestor hub op = some t)
    (ht' : b'.start registry .ownParentOnly hub' op = some t') : t'.consulted = t.consulted := by
  have hkinds : ∀ m ∈ registry.mappers, m.declares = m.handles := fun m hmem =>
    (Mapper.readsKind_of_mem_builtIn (hm m hmem)).1
  have hreads : ∀ m ∈ registry.mappers, m.ReadsKind := fun m hmem =>
    (Mapper.readsKind_of_mem_builtIn (hm m hmem)).2
  obtain ⟨hone, hnone⟩ := consulted_of_start hkinds hreads ht
  obtain ⟨hone', hnone'⟩ := consulted_of_start hkinds hreads ht'
  have hwants : ∀ m, b'.Wants hub' op m ↔ b.Wants hub op m := fun m => by
    simp only [Wants, h.closed_eq, h.looksLike.state_eq, h.audience, hsubs]
  by_cases hw : ∃ m ∈ registry.mappers, b.Wants hub op m
  · obtain ⟨m, hm, hw⟩ := hw
    rw [hone m hm hw, hone' m hm ((hwants m).mpr hw)]
  · have hno : ∀ m ∈ registry.mappers, ¬ b.Wants hub op m := fun m hm hw' => hw ⟨m, hm, hw'⟩
    rw [hnone hno, hnone' fun m hm hw' => hno m hm ((hwants m).mp hw')]

/-- What a start records in both builds: each connection is shown the operation under the
parent that the policy finds. -/
theorem records (h : b.Plainer b') (hm : ∀ m ∈ registry.mappers, m ∈ Mapper.builtIn)
    (ho : b.closed = false) (hl : b.live.get? op.id = none)
    (ht : b.start registry .nearestEnabledAncestor hub op = some t) {e' : Entry}
    (hr : Records registry .nearestEnabledAncestor hub b op t e)
    (hr' : Records registry .ownParentOnly hub' b' op t' e') :
    e.Plainer b.slotOf b'.slotOf e' := by
  have hu : ∀ m ∈ registry.mappers, m.Uniform := fun m hmem => Mapper.uniform_of_mem_builtIn (hm m hmem)
  refine ⟨fun slot sh hsh => hm _ (hr.made slot sh hsh).mapper_mem, fun c => ?_⟩
  cases hsh : e.shown (b.slotOf c) with
  | some sh =>
    have hshows := (hr.shows_iff hu _ sh).mp hsh
    have htarget := (h.mem_targets_iff hsubs _ _).mpr hshows.target
    have hshows' : Shows registry .ownParentOnly hub' b' op (b'.slotOf c)
        (sh.withParent (ownParent b'.live (b'.slotOf c) op.parent)) := hshows.withParent hu htarget rfl
    rw [(hr'.shows_iff hu _ _).mpr hshows']
    rcases h.ownParent_cases (hr.sees _ sh hsh) with hp | hp
    · rw [hp]
      exact .some (Or.inl rfl)
    · rw [hp]
      exact .some (Or.inr rfl)
  | none =>
    cases hsh' : e'.shown (b'.slotOf c) with
    | none => exact .none
    | some sh' =>
      have hshows' := (hr'.shows_iff hu _ sh').mp hsh'
      have htarget := (h.mem_targets_iff hsubs _ _).mp hshows'.target
      obtain ⟨q, hq⟩ := exists_resolve_of_start ht ho hl hshows'.routed htarget
      have hshows := hshows'.withParent hu htarget hq
      rw [(hr.shows_iff hu _ _).mpr hshows] at hsh
      exact absurd hsh (by simp)

/-- The start of an operation. -/
theorem start (h : b.Plainer b') (hm : ∀ m ∈ registry.mappers, m ∈ Mapper.builtIn) (hs : b.Sound)
    (hs' : b'.Sound) (ht : b.start registry .nearestEnabledAncestor hub op = some t) :
    ∃ t', b'.start registry .ownParentOnly hub' op = some t' ∧ t.Plainer t' := by
  have hu : ∀ m ∈ registry.mappers, m.Uniform := fun m hmem => Mapper.uniform_of_mem_builtIn (hm m hmem)
  cases hc : b.closed with
  | true =>
    rw [start_of_closed _ _ _ _ hc, Option.some.injEq] at ht
    exact ⟨_, start_of_closed _ _ _ _ (h.closed_eq.trans hc), ht ▸ h.quiet _⟩
  | false =>
    have hc' := h.closed_eq.trans hc
    cases hl : b.live.get? op.id with
    | some e =>
      obtain ⟨e', hl', -⟩ := h.exists_entry hl
      rw [start_of_live _ _ _ hc hl, Option.some.injEq] at ht
      refine ⟨_, start_of_live _ _ _ hc' hl', ht ▸ ?_⟩
      rw [startedTwice_congr h.id_eq]
      exact h.quiet _
    | none =>
      have hl' := h.get?_eq_none hl
      obtain ⟨t', ht'⟩ : ∃ t', b'.start registry .ownParentOnly hub' op = some t' :=
        exists_start registry hub' fun _ _ _ _ => ⟨_, rfl⟩
      have hconsulted := h.consulted_eq hsubs hm ht ht'
      refine ⟨t', ht', ?_⟩
      rcases start_outcomes hu hs hs' hc hc' hl hl' ht ht' (h.targets_ne_nil_iff hsubs) with
        ⟨e, href, href'⟩ | ⟨e, e', hr, hr', hpublished⟩
      · refine ⟨?_, href'.result.trans href.result.symm, fun c => ?_, hconsulted⟩
        · rw [href.unchanged, href'.unchanged]
          exact h
        · rw [href.offers, href'.offers]
          exact .nil
      · have he := h.records hsubs hm hc hl ht hr hr'
        refine ⟨?_, hr'.result.trans hr.result.symm, fun c => ?_, hconsulted⟩
        · rw [hr.build, hr'.build]
          exact h.insert he hpublished op.id
        · rw [hr.offers, hr'.offers, h.id_eq]
          exact he.started c b.id

/-! ### Finishing and ending -/

/-- The finish of an operation. -/
theorem finish (h : b.Plainer b') (hs : b.Sound) (hs' : b'.Sound) (f : FinishSignal) :
    (b.finish hub f).Plainer (b'.finish hub' f) := by
  cases hc : b.closed with
  | true =>
    rw [finish_of_closed hc, finish_of_closed (h.closed_eq.trans hc)]
    exact h.quiet _
  | false =>
    cases hl : b.live.get? f.id with
    | none =>
      rw [finish_of_unknown hl, finish_of_unknown (h.get?_eq_none hl)]
      exact h.quiet _
    | some e =>
      obtain ⟨e', hl', he⟩ := h.exists_entry hl
      obtain ⟨hbuild, hresult, -, hmsg⟩ := finish_of_live hub hs hc hl
      obtain ⟨hbuild', hresult', -, hmsg'⟩ := finish_of_live hub' hs' (h.closed_eq.trans hc) hl'
      refine ⟨?_, hresult'.trans hresult.symm, fun c => ?_, ?_⟩
      · rw [hbuild, hbuild']
        exact h.erase f.id
      · rw [hmsg, hmsg', Hub.isAttached_congr hsubs, h.id_eq]
        split
        · exact he.finished c b.id f
        · exact .nil
      · rw [consulted_finish, consulted_finish]

/-- The end of a build. -/
theorem close (h : b.Plainer b') (hs : b.Sound) (hs' : b'.Sound) (reason : EndReason) :
    (b.close hub reason).Plainer (b'.close hub' reason) := by
  refine ⟨?_, ?_, fun c => ?_, by rw [consulted_close, consulted_close]⟩
  · unfold Build.close
    rw [h.closed_eq]
    cases b.closed with
    | true => exact h
    | false => exact ⟨h.id_eq, rfl, h.audience, fun _ => .none, rfl⟩
  · unfold Build.close
    rw [h.closed_eq]
    split <;> rfl
  · simp only [messagesTo_close hs, messagesTo_close hs', h.closed_eq, h.id_eq, h.audience,
      Hub.isAttached_congr hsubs]
    exact List.forall₂_same.mpr fun m _ => .refl m

end Start

end Build.Plainer

/-! ### Sessions -/

/-- Two sessions with one policy each have the same connections and builds, and what the
second has shown, or has yet to show, is plainer. -/
structure Session.Plainer (s s' : Session) : Prop where
  registry_eq : s'.registry = s.registry
  nearest : s.policy = .nearestEnabledAncestor
  own : s'.policy = .ownParentOnly
  hub : s.hub.Related Connection.Plainer s'.hub
  bridge_eq : s'.bridge = s.bridge
  builds : Forall₂ (Option.Rel Build.Plainer) s.builds s'.builds
  consulted_eq : s'.consulted = s.consulted

/-- Two calls end in such sessions and are answered alike, and make plainer messages in
the second. -/
structure Advance.Plainer (a a' : Advance) : Prop where
  session : a.session.Plainer a'.session
  reply : a.reply.Plainer a'.reply
  messages : ∀ c, Forall₂ Message.Plainer (messagesTo c a.offers) (messagesTo c a'.offers)

namespace Session.Plainer

variable {listing listing' : Listing} {s s' : Session} {st : Step} {a a' : Advance} {i : Nat}
  {b b' : Build}

theorem subscriptions?_eq (h : s.Plainer s') (c : Nat) :
    s'.hub.subscriptions? c = s.hub.subscriptions? c :=
  h.hub.subscriptions?_eq Connection.Plainer.sameToOthers c

theorem isAlive_eq (h : s.Plainer s') : s'.isAlive = s.isAlive := by
  rw [isAlive, isAlive, h.bridge_eq, any_isSome_eq h.builds]

/-- The streams of one number are held in both sessions or in neither. -/
theorem rel_stream? (h : s.Plainer s') (i : Nat) :
    Option.Rel Connection.Plainer (s.stream? i) (s'.stream? i) := by
  have hrel := h.hub.connections i
  unfold stream?
  generalize s.hub.connections[i]? = o at hrel
  generalize s'.hub.connections[i]? = o' at hrel
  cases hrel with
  | none => exact .none
  | @some x x' hx =>
    rw [Option.filter_some, Option.filter_some, hx.held_eq]
    split
    · exact .some hx
    · exact .none

theorem exists_stream (h : s.Plainer s') {x : Connection} (hx : s.stream? i = some x) :
    ∃ x', s'.stream? i = some x' ∧ x.Plainer x' := by
  have hrel := h.rel_stream? i
  rw [hx] at hrel
  generalize s'.stream? i = o at hrel
  obtain ⟨hxx'⟩ := hrel
  exact ⟨_, rfl, hxx'⟩

/-- Only the hubs change. -/
theorem withHub (h : s.Plainer s') {hub hub' : Hub} (hhub : hub.Related Connection.Plainer hub') :
    Plainer { s with hub := hub } { s' with hub := hub' } :=
  ⟨h.registry_eq, h.nearest, h.own, hhub, h.bridge_eq, h.builds, h.consulted_eq⟩

theorem settle (h : s.Plainer s') : s.settle.Plainer s'.settle := by
  unfold Session.settle
  rw [h.isAlive_eq]
  split
  · exact h
  · refine h.withHub (h.hub.map (f := fun _ => .abandon) (g := fun _ => .abandon) rfl rfl ?_ ?_
      fun _ _ hx => hx.abandon)
    · exact fun c => List.getElem?_map ..
    · exact fun c => List.getElem?_map ..

/-- A call on a build. -/
theorem takeTurn (h : s.Plainer s') {t t' : Turn} (ht : t.Plainer t') (i : Nat) :
    (s.takeTurn i t).Plainer (s'.takeTurn i t') where
  registry_eq := h.registry_eq
  nearest := h.nearest
  own := h.own
  hub := h.hub.deliver_plainer ht.messages
  bridge_eq := h.bridge_eq
  builds := forall₂_set h.builds (.some ht.build) i
  consulted_eq := by rw [consulted_takeTurn, consulted_takeTurn, h.consulted_eq, ht.consulted_eq]

/-- A build begins, for the same connections. -/
theorem begin (h : s.Plainer s') (listing listing' : Listing) (id : BuildId) :
    Plainer
      { s with
        builds := s.builds ++
          [some (.begin id (listing.order s.builds.length s.hub.attachedNumbers))] }
      { s' with
        builds := s'.builds ++
          [some (.begin id (listing'.order s'.builds.length s'.hub.attachedNumbers))] } := by
  have haudience : ∀ c, c ∈ listing'.order s'.builds.length s'.hub.attachedNumbers ↔
      c ∈ listing.order s.builds.length s.hub.attachedNumbers := by
    intro c
    rw [(listing'.perm _ _).mem_iff, (listing.perm _ _).mem_iff,
      h.hub.attachedNumbers_eq Connection.Plainer.sameToOthers]
  have hlast := Forall₂.cons (Option.Rel.some (Build.Plainer.begin id haudience)) .nil
  exact ⟨h.registry_eq, h.nearest, h.own, h.hub, h.bridge_eq, List.rel_append h.builds hlast,
    h.consulted_eq⟩

/-- A build is dropped. -/
theorem forget (h : s.Plainer s') (i : Nat) :
    Plainer { s with builds := s.builds.set i none } { s' with builds := s'.builds.set i none } :=
  ⟨h.registry_eq, h.nearest, h.own, h.hub, h.bridge_eq, forall₂_set h.builds .none i, h.consulted_eq⟩

theorem dropBridge (h : s.Plainer s') :
    Plainer { s with bridge := false } { s' with bridge := false } :=
  ⟨h.registry_eq, h.nearest, h.own, h.hub, rfl, h.builds, h.consulted_eq⟩

/-- The sessions stay in step. -/
theorem step (listing' : Listing) (h : s.Plainer s') (hs : s.Sound) (hs' : s'.Sound)
    (hm : ∀ m ∈ s.registry.mappers, m ∈ Mapper.builtIn) (he : Effect listing s st a) :
    ∃ a', Effect listing' s' st a' ∧ a.Plainer a' := by
  cases he with
  | @connect id subs hb hc =>
    refine ⟨_, .connect (h.bridge_eq.trans hb) (h.hub.capacity_eq ▸ hc),
      h.withHub (h.hub.connect (.fresh id subs)), ?_, fun _ => .nil⟩
    rw [h.hub.length_eq]
    exact .same _
  | @disconnect id hb =>
    obtain ⟨hwas, hhub⟩ := h.hub.disconnect Connection.Plainer.sameToOthers (fun hx => hx.tearDown _) id
    refine ⟨_, .disconnect (h.bridge_eq.trans hb), h.withHub hhub, ?_, fun _ => .nil⟩
    rw [hwas]
    exact .same _
  | dropStream hx =>
    obtain ⟨x', hx', hxx'⟩ := h.exists_stream hx
    exact ⟨_, .dropStream hx', h.withHub (h.hub.onStream hxx'.dropStream), .same _, fun _ => .nil⟩
  | drain hx =>
    obtain ⟨x', hx', hxx'⟩ := h.exists_stream hx
    exact ⟨_, .drain hx', h.withHub (h.hub.onStream hxx'.drain), .drained hxx'.queue, fun _ => .nil⟩
  | receive hx =>
    obtain ⟨x', hx', hxx'⟩ := h.exists_stream hx
    obtain ⟨hreply, hleft⟩ := hxx'.receive
    exact ⟨_, .receive hx', h.withHub (h.hub.onStream hleft), hreply, fun _ => .nil⟩
  | dropBridge hb =>
    exact ⟨_, .dropBridge (h.bridge_eq.trans hb), h.dropBridge.settle, .same _, fun _ => .nil⟩
  | begin hb =>
    refine ⟨_, .begin (h.bridge_eq.trans hb), h.begin listing listing' _, ?_, fun _ => .nil⟩
    rw [h.builds.length_eq]
    exact .same _
  | @start i op b t hi ht =>
    obtain ⟨b', hi', hb⟩ := exists_build h.builds hi
    rw [h.nearest] at ht
    obtain ⟨t', ht', hturn⟩ := hb.start h.subscriptions?_eq hm (hs i b hi) (hs' i b' hi') ht
    rw [← h.own, ← h.registry_eq] at ht'
    refine ⟨_, .start hi' ht', h.takeTurn hturn i, ?_, hturn.messages⟩
    rw [hturn.result_eq]
    exact .same _
  | @finish i f b hi =>
    obtain ⟨b', hi', hb⟩ := exists_build h.builds hi
    have hturn := hb.finish h.subscriptions?_eq (hs i b hi) (hs' i b' hi') f
    refine ⟨_, .finish hi', h.takeTurn hturn i, ?_, hturn.messages⟩
    rw [hturn.result_eq]
    exact .same _
  | @close i reason b hi =>
    obtain ⟨b', hi', hb⟩ := exists_build h.builds hi
    have hturn := hb.close h.subscriptions?_eq (hs i b hi) (hs' i b' hi') reason
    refine ⟨_, .close hi', h.takeTurn hturn i, ?_, hturn.messages⟩
    rw [hb.looksLike.orphans_eq]
    exact .same _
  | @dropBuild i b hi =>
    obtain ⟨b', hi', hb⟩ := exists_build h.builds hi
    have hturn := hb.close h.subscriptions?_eq (hs i b hi) (hs' i b' hi') .cancelled
    exact ⟨_, .dropBuild hi', ((h.takeTurn hturn i).forget i).settle, .same _, hturn.messages⟩

/-- The calls of the second session return in the first, if each start does. -/
theorem exists_effect (listing : Listing) (h : s.Plainer s') (he' : Effect listing' s' st a')
    (hstart : ∀ i op b, st = .start i op → s.build? i = some b →
      ∃ t, b.start s.registry s.policy s.hub op = some t) : ∃ a, Effect listing s st a := by
  have hbridge : s'.bridge = true → s.bridge = true := h.bridge_eq.symm.trans
  have hbuild : ∀ {i b'}, s'.build? i = some b' → ∃ b, s.build? i = some b := fun {i b'} hi' => by
    rw [← Option.isSome_iff_exists, ← isSome_build?_eq h.builds, hi']
    rfl
  have hstream : ∀ {i x'}, s'.stream? i = some x' → ∃ x, s.stream? i = some x := by
    intro i x' hx'
    have hrel := h.rel_stream? i
    rw [hx'] at hrel
    generalize s.stream? i = o at hrel
    cases hrel
    exact ⟨_, rfl⟩
  cases he' with
  | connect hb hc => exact ⟨_, .connect (hbridge hb) (h.hub.capacity_eq ▸ hc)⟩
  | disconnect hb => exact ⟨_, .disconnect (hbridge hb)⟩
  | dropStream hx' =>
    obtain ⟨x, hx⟩ := hstream hx'
    exact ⟨_, .dropStream hx⟩
  | drain hx' =>
    obtain ⟨x, hx⟩ := hstream hx'
    exact ⟨_, .drain hx⟩
  | receive hx' =>
    obtain ⟨x, hx⟩ := hstream hx'
    exact ⟨_, .receive hx⟩
  | dropBridge hb => exact ⟨_, .dropBridge (hbridge hb)⟩
  | begin hb => exact ⟨_, .begin (hbridge hb)⟩
  | start hi' _ =>
    obtain ⟨b, hi⟩ := hbuild hi'
    obtain ⟨t, ht⟩ := hstart _ _ b rfl hi
    exact ⟨_, .start hi ht⟩
  | finish hi' =>
    obtain ⟨b, hi⟩ := hbuild hi'
    exact ⟨_, .finish hi⟩
  | close hi' =>
    obtain ⟨b, hi⟩ := hbuild hi'
    exact ⟨_, .close hi⟩
  | dropBuild hi' =>
    obtain ⟨b, hi⟩ := hbuild hi'
    exact ⟨_, .dropBuild hi⟩

/-- One step of both sessions, if a start returns in the first. -/
theorem agree (listing listing' : Listing) (h : s.Plainer s') (hs : s.Sound) (hs' : s'.Sound)
    (hm : ∀ m ∈ s.registry.mappers, m ∈ Mapper.builtIn)
    (hstart : ∀ i op b, st = .start i op → s.build? i = some b →
      ∃ t, b.start s.registry s.policy s.hub op = some t) :
    Agree Advance.Plainer (s.step listing st) (s'.step listing' st) :=
  step_agree (stopOf_congr h.bridge_eq (isSome_build?_eq h.builds) st)
    (fun _ he => h.step listing' hs hs' hm he) fun _ he' => h.exists_effect listing he' hstart

end Session.Plainer

/-! ### What is seen of a session -/

/-- Two sessions look alike, but for parents that the second leaves out: each
connection has plainer messages unread in the second, and is attached, held and
closed alike, and the builds tell the same of every operation. -/
structure Session.LooksPlainer (s s' : Session) : Prop where
  hub : s.hub.Related Connection.Plainer s'.hub
  count_eq : s'.connectionCount = s.connectionCount
  builds : ∀ i, Option.Rel Build.LooksLike (s.build? i) (s'.build? i)
  consulted_eq : s'.consulted = s.consulted

/-- Two calls look alike to the caller and to every connection, and the sessions do
afterwards, but for parents that the second leaves out. -/
structure Advance.LooksPlainer (a a' : Advance) : Prop where
  reply : a.reply.Plainer a'.reply
  messages : ∀ c, Forall₂ Message.Plainer (messagesTo c a.offers) (messagesTo c a'.offers)
  session : a.session.LooksPlainer a'.session

theorem Session.Plainer.looksPlainer {s s' : Session} (h : s.Plainer s') : s.LooksPlainer s' where
  hub := h.hub
  count_eq := by
    rw [connectionCount, connectionCount, h.bridge_eq,
      h.hub.attachedCount_eq Connection.Plainer.sameToOthers]
  builds i := by
    have hrel := rel_build? h.builds i
    generalize s.build? i = o at hrel
    generalize s'.build? i = o' at hrel
    cases hrel with
    | none => exact .none
    | some hb => exact .some hb.looksLike
  consulted_eq := h.consulted_eq

theorem Advance.Plainer.looksPlainer {a a' : Advance} (h : a.Plainer a') : a.LooksPlainer a' :=
  ⟨h.reply, h.messages, h.session.looksPlainer⟩

/-! ### Whole sessions -/

/-- The configuration with a parent policy. -/
def Config.under (config : Config) (policy : ParentPolicy) : Config :=
  { config with dispatch := { config.dispatch with parentPolicy := policy } }

theorem startsIn_eq (i : Nat) (h : List Call) :
    startsIn i h = (h.map (·.step)).filterMap (Step.start? i) := by
  rw [startsIn, List.filterMap_map]
  rfl

section Runs

variable {listing : Listing} {config : Config} {registry : Registry} {s₀ s₀' s : Session}

theorem Session.plainer_of_new
    (h₀ : Session.new (config.under .nearestEnabledAncestor) registry = .ok s₀)
    (h₀' : Session.new (config.under .ownParentOnly) registry = .ok s₀') : s₀.Plainer s₀' := by
  have hvalidate : ∀ policy, (config.under policy).validate = config.validate := fun _ => rfl
  rw [Session.new, hvalidate] at h₀ h₀'
  cases hv : config.validate with
  | error e =>
    rw [hv] at h₀
    exact absurd h₀ (by simp [Except.map])
  | ok u =>
    rw [hv] at h₀ h₀'
    obtain rfl := Except.ok.inj h₀
    obtain rfl := Except.ok.inj h₀'
    exact ⟨rfl, rfl, rfl, ⟨rfl, fun _ => .none⟩, rfl, .nil, rfl⟩

/-- A run under the one policy goes on like the run under the other. The walks to
ancestors end, because the starts so far were in order. -/
theorem Session.Plainer.run_agree (hplain : s₀.Plainer s₀')
    (h₀ : s₀.Fresh (config.under .nearestEnabledAncestor) registry) (hs' : s₀'.Sound)
    (hm : ∀ m ∈ registry.mappers, m ∈ Mapper.builtIn) {steps : List Step}
    (hord : ∀ i, Ordered (steps.filterMap (Step.start? i))) (listing listing' : Listing) :
    Agree (Forall₂ Advance.LooksPlainer) (s₀.run listing steps) (s₀'.run listing' steps) := by
  have hf : ∀ m ∈ registry.mappers, m.Faithful := fun m hmem =>
    (Mapper.uniform_of_mem_builtIn (hm m hmem)).faithful
  rw [run_eq_runBy, run_eq_runBy]
  apply runBy_agree (R := fun done s s' => (∃ h, History listing s₀ h s ∧ h.map (·.step) = done) ∧
    s'.Sound ∧ s.Plainer s') ?_ (List.nil_append steps) ⟨⟨[], .nil, rfl⟩, hs', hplain⟩
  rintro done st s s' hprefix ⟨⟨h, hist, rfl⟩, hsound', hplain⟩
  have hm' : ∀ m ∈ s.registry.mappers, m ∈ Mapper.builtIn := (hist.settings h₀).1 ▸ hm
  have hstart : ∀ i op b, st = .start i op → s.build? i = some b →
      ∃ t, b.start s.registry s.policy s.hub op = some t := by
    rintro i op b rfl hb
    have hinitial := hprefix.filterMap (Step.start? i)
    have hlast : [Step.start i op].filterMap (Step.start? i) = [op] := by simp [Step.start?]
    rw [List.filterMap_append, ← startsIn_eq, hlast] at hinitial
    exact hist.exists_start h₀ hf hb ((hord i).of_initial hinitial)
  have hone := (hplain.agree listing listing' (hist.sound h₀.sound) hsound' hm' hstart).outcomes
  refine hone.mono ?_
  rintro a a' ⟨ha, ha', haa'⟩
  refine ⟨haa'.looksPlainer, ⟨_, hist.snoc ha, ?_⟩, (step_eq_ok.mp ha').sound hsound', haa'.session⟩
  rw [List.map_append, List.map_singleton]

/-- An event names no parent but the own parent of its operation. -/
theorem History.own_parent (h₀ : s₀.Fresh (config.under .ownParentOnly) registry)
    (hm : ∀ m ∈ registry.mappers, m ∈ Mapper.builtIn) {h : List Call}
    (hist : History listing s₀ h s) (hord : ∀ i, Ordered (startsIn i h)) {k : Call} (hk : k ∈ h) {c : Nat}
    {build : BuildId} {e : Event} (hmsg : .event build e ∈ k.offered c) {p : OperationId}
    (hp : e.descriptor.parent = some p) :
    ∃ i op, k.step.build? = some i ∧ op ∈ startsIn i h ∧ op.id = e.descriptor.id ∧
      op.parent = some p := by
  have hf : ∀ m ∈ registry.mappers, m.Faithful := fun m hmem =>
    (Mapper.uniform_of_mem_builtIn (hm m hmem)).faithful
  obtain ⟨pre, post, rfl⟩ := List.append_of_mem hk
  obtain ⟨i, before, k₀, op, hwhen, hst₀, hid, hoff, -⟩ := hist.event_stems h₀ hm hmsg
  obtain ⟨hi, after, hsplit⟩ : k.step.build? = some i ∧
      ∃ after, pre ++ k :: post = before ++ k₀ :: after := by
    rcases hwhen with ⟨-, rfl, rfl⟩ | ⟨-, ⟨f, hfin, -⟩, after, rfl, -⟩
    · exact ⟨by rw [hst₀]; rfl, post, rfl⟩
    · exact ⟨by rw [hfin]; rfl, after ++ k :: post, by simp⟩
  have hop : op ∈ startsIn i (pre ++ k :: post) := by
    rw [hsplit]
    exact mem_startsIn.mpr ⟨k₀, by simp, hst₀⟩
  rw [hsplit] at hist hord
  obtain ⟨build', sh, l, hsh, -, -, hsees⟩ := hist.start_sees h₀ hf (hord i) hst₀ hoff
  obtain ⟨-, hev⟩ := Message.event.inj hsh
  obtain ⟨-, hd⟩ := Event.started.inj hev
  -- what the connection sees under this policy is the own parent
  obtain ⟨hpar, -⟩ : Sees .ownParentOnly i before c op.parent l p := (hsees p).mp (hd ▸ hp)
  exact ⟨i, op, hi, hop, hid.symm, hpar⟩

end Runs

/-- Of two sessions with the built-in mappers, in which the connections see the nearest
ancestor or the own parent alone, no call tells which is which, but for the parents in
messages: as long as no operation of a build is started twice or before its parent, the
calls return alike and are answered alike, each connection is offered and reads the same
messages and is closed for the same reason, and the builds tell the same of every
operation. In the second session a message names the parent that it names in the first,
or none; a parent that it names is the one that the scheduler gave. -/
theorem policy_shows_in_parents_alone {config : Config} {registry : Registry} {s₀ s₀' : Session}
    (h₀ : Session.new (config.under .nearestEnabledAncestor) registry = .ok s₀)
    (h₀' : Session.new (config.under .ownParentOnly) registry = .ok s₀')
    (hm : ∀ m ∈ registry.mappers, m ∈ Mapper.builtIn) {steps : List Step}
    (hord : ∀ i, Ordered (steps.filterMap (Step.start? i))) (listing listing' : Listing) :
    Agree (Forall₂ Advance.LooksPlainer) (s₀.run listing steps) (s₀'.run listing' steps) ∧
      (∀ m build e p, Message.Plainer m (.event build e) → e.descriptor.parent = some p →
        m = .event build e) ∧
      ∀ h' s', History listing' s₀' h' s' → h'.map (·.step) <+: steps →
        ∀ k ∈ h', ∀ c build e p, .event build e ∈ k.offered c → e.descriptor.parent = some p →
          ∃ i op, k.step.build? = some i ∧ .start i op ∈ steps ∧ op.id = e.descriptor.id ∧
            op.parent = some p := by
  have hfresh' := Session.fresh_of_new h₀'
  refine ⟨?_, fun m build e p => Message.Plainer.eq_of_parent, ?_⟩
  · exact (Session.plainer_of_new h₀ h₀').run_agree (Session.fresh_of_new h₀) hfresh'.sound hm hord
      listing listing'
  · intro h' s' hist' hsteps k hk c build e p hmsg hp
    have hord' : ∀ i, Ordered (startsIn i h') := fun i => by
      rw [startsIn_eq]
      exact (hord i).of_initial (hsteps.filterMap (Step.start? i))
    obtain ⟨i, op, hi, hop, hid, hpar⟩ := hist'.own_parent hfresh' hm hord' hk hmsg hp
    obtain ⟨k₀, hk₀, hst₀⟩ := mem_startsIn.mp hop
    exact ⟨i, op, hi, hst₀ ▸ hsteps.subset (List.mem_map_of_mem hk₀), hid, hpar⟩

/-- A work item starts below work of a phase below another item, and finishes. A client
that asks for items alone sees one item below the other in the first session, but not in
the second; one that asks for all sees the phase in both. -/
theorem policy_shows_in_parents_alone_below_phase :
    ∃ (s₀ s₀' : Session) (steps : List Step),
      Session.new (Config.under default .nearestEnabledAncestor) .builtIn = .ok s₀ ∧
      Session.new (Config.under default .ownParentOnly) .builtIn = .ok s₀' ∧
      (∀ i, Ordered (steps.filterMap (Step.start? i))) ∧
      ((offeredTo 0 (s₀.calls .inOrder steps)).filterMap Message.event?).map (·.descriptor.parent) =
        [none, some ⟨1⟩, some ⟨1⟩] ∧
      ((offeredTo 0 (s₀'.calls .inOrder steps)).filterMap Message.event?).map (·.descriptor.parent) =
        [none, none, none] ∧
      Agree (Forall₂ Advance.LooksPlainer) (s₀.run .inOrder steps) (s₀'.run .inOrder steps) := by
  let s₀ := sampleSession .nearestEnabledAncestor 1024
  let s₀' := sampleSession .ownParentOnly 1024
  let steps : List Step := [.connect ⟨"a"⟩ (.ofList [.workItem]), .connect ⟨"b"⟩ .all, .begin ⟨"x"⟩,
    .start 0 (sampleItem 1 none), .start 0 (samplePhase 2 (some ⟨1⟩)),
    .start 0 (sampleItem 3 (some ⟨2⟩)), .finish 0 ⟨⟨3⟩, default, .success⟩, .drain 0, .dropBuild 0]
  have h₀ : Session.new (Config.under default .nearestEnabledAncestor) .builtIn = .ok s₀ := rfl
  have h₀' : Session.new (Config.under default .ownParentOnly) .builtIn = .ok s₀' := rfl
  have hord : ∀ i, Ordered (steps.filterMap (Step.start? i)) := by
    intro i
    by_cases hi : i = 0
    · subst hi
      decide
    · have hnone : steps.filterMap (Step.start? i) = [] := by
        simp [steps, Step.start?, Ne.symm hi]
      rw [hnone]
      exact .nil
  obtain ⟨hagree, -, -⟩ :=
    policy_shows_in_parents_alone h₀ h₀' (fun _ hmem => hmem) hord .inOrder .inOrder
  exact ⟨s₀, s₀', steps, h₀, h₀', hord, by decide, by decide, hagree⟩

end BuildFeed
