/-
# A build as one connection sees it

A slot sees of the live operations their ids, the parents that the scheduler
gave, and what it was shown of them (`LiveTable.view`). That is enough to tell
what becomes of the connection of the slot: two builds that look alike to a
connection of each (`Build.Alike`), in hubs where the two connections are
equal, answer the same calls alike. Whether an operation was published to
other connections or suppressed makes no difference.

Key definitions: `LiveTable.view`, `Build.Alike`, `Turn.Alike`.
Key theorems: `Build.resolve_congr`, `Build.Alike.start`, `Build.Alike.finish`,
`Build.Alike.close`.
-/
import BuildFeed.Proofs.Build.Turns

namespace BuildFeed

namespace LiveTable

/-- What a slot sees of the live operations. -/
def view (slot : Nat) (t : LiveTable) : List (OperationId × Option OperationId × Option Showing) :=
  t.map fun x => (x.1, x.2.parent, x.2.shown slot)

variable {slot slot' : Nat} {t t' : LiveTable}

/-- Looking up in what is kept of the entries. -/
theorem lookup_map {β : Type} (g : Entry → β) (x : OperationId) : ∀ t : LiveTable,
    (t.map fun y => (y.1, g y.2)).lookup x = (t.get? x).map g
  | [] => rfl
  | (y, e) :: t => by
    have hget : get? ((y, e) :: t) x = if x = y then some e else get? t x := get?_insert t y x e
    rw [List.map_cons, hget, List.lookup_cons]
    by_cases h : x = y
    · simp [h]
    · simp [h, lookup_map g x t, beq_eq_false_iff_ne.mpr h]

theorem lookup_view (slot : Nat) (x : OperationId) (t : LiveTable) :
    (t.view slot).lookup x = (t.get? x).map fun e => (e.parent, e.shown slot) :=
  lookup_map (fun e => (e.parent, e.shown slot)) x t

theorem map_erase {β : Type} (g : Entry → β) (t : LiveTable) (x : OperationId) :
    ((t.erase x).map fun y => (y.1, g y.2)) =
      (t.map fun y => (y.1, g y.2)).filter fun y => y.1 ≠ x := by
  rw [erase, List.filter_map]
  rfl

/-- Operations are live in both tables or in none, with the same parents and
showings. -/
theorem get?_congr (h : t'.view slot' = t.view slot) (x : OperationId) :
    (t'.get? x).map (fun e => (e.parent, e.shown slot')) =
      (t.get? x).map fun e => (e.parent, e.shown slot) := by
  rw [← lookup_view, ← lookup_view, h]

theorem length_congr (h : t'.view slot' = t.view slot) : t'.length = t.length := by
  have hlen := congrArg List.length h
  rwa [view, view, List.length_map, List.length_map] at hlen

theorem get?_eq_none_congr (h : t'.view slot' = t.view slot) {x : OperationId} :
    t'.get? x = none ↔ t.get? x = none := by
  have hx := get?_congr h x
  cases hl : t.get? x <;> cases hl' : t'.get? x <;> simp_all

theorem get?_eq_some_congr (h : t'.view slot' = t.view slot) {x : OperationId} {e : Entry}
    (he : t.get? x = some e) :
    ∃ e', t'.get? x = some e' ∧ e'.parent = e.parent ∧ e'.shown slot' = e.shown slot := by
  have hx := get?_congr h x
  rw [he, Option.map_some, Option.map_eq_some_iff] at hx
  obtain ⟨e', he', heq⟩ := hx
  obtain ⟨hpar, hshown⟩ := Prod.mk.inj heq
  exact ⟨e', he', hpar, hshown⟩

theorem view_insert (slot : Nat) (t : LiveTable) (x : OperationId) (e : Entry) :
    (t.insert x e).view slot = (x, e.parent, e.shown slot) :: t.view slot := rfl

theorem view_erase (slot : Nat) (t : LiveTable) (x : OperationId) :
    (t.erase x).view slot = (t.view slot).filter fun y => y.1 ≠ x :=
  map_erase (fun e => (e.parent, e.shown slot)) t x

end LiveTable

namespace Build

variable {slot slot' : Nat} {t t' : LiveTable}

theorem nearest_congr (h : t'.view slot' = t.view slot) : ∀ (n : Nat) (p : Option OperationId),
    nearest t' slot' n p = nearest t slot n p
  | n, none => by cases n <;> rfl
  | n, some x => by
    unfold nearest
    cases hx : t.get? x with
    | none => rw [(LiveTable.get?_eq_none_congr h).mpr hx]
    | some e =>
      obtain ⟨e', he', hpar, hshown⟩ := LiveTable.get?_eq_some_congr h hx
      rw [he']
      simp only [Entry.reached_eq, hshown, hpar]
      cases n with
      | zero => rfl
      | succ n => simp only [nearest_congr h n]

/-- Slots with the same view see the same parents. -/
theorem resolve_congr (h : t'.view slot' = t.view slot) (policy : ParentPolicy) (p : Option OperationId) :
    resolve policy t' slot' p = resolve policy t slot p := by
  cases policy with
  | nearestEnabledAncestor =>
    show nearest t' slot' t'.length p = nearest t slot t.length p
    rw [LiveTable.length_congr h, nearest_congr h]
  | ownParentOnly =>
    show some (ownParent t' slot' p) = some (ownParent t slot p)
    cases p with
    | none => rfl
    | some x =>
      rw [ownParent, ownParent]
      cases hx : t.get? x with
      | none =>
        rw [(LiveTable.get?_eq_none_congr h).mpr hx]
        rfl
      | some e =>
        obtain ⟨e', he', -, hshown⟩ := LiveTable.get?_eq_some_congr h hx
        rw [he', Option.any_some, Option.any_some, Entry.reached_eq, Entry.reached_eq, hshown]

/-- Two builds look alike, each to a connection. -/
structure Alike (c : Nat) (b : Build) (c' : Nat) (b' : Build) : Prop where
  id_eq : b'.id = b.id
  closed_eq : b'.closed = b.closed
  audience : c' ∈ b'.audience ↔ c ∈ b.audience
  view_eq : b'.live.view (b'.slotOf c') = b.live.view (b.slotOf c)

end Build

/-- Two calls answer alike, each for a connection. -/
structure Turn.Alike (c : Nat) (t : Turn) (c' : Nat) (t' : Turn) : Prop where
  build : t.build.Alike c c' t'.build
  result_eq : t'.result = t.result
  messages_eq : messagesTo c' t'.offers = messagesTo c t.offers

namespace Build.Alike

variable {c c' : Nat} {b b' : Build} {hub hub' : Hub}

theorem quiet (ha : b.Alike c c' b') (r : Except Error Unit) :
    (b.quiet r).Alike c c' (b'.quiet r) := ⟨ha, rfl, rfl⟩

theorem isAttached_eq (hc : hub'.connections[c']? = hub.connections[c]?) :
    hub'.isAttached c' = hub.isAttached c := by
  rw [Hub.isAttached, Hub.isAttached, hc]

theorem mem_targets_iff (ha : b.Alike c c' b') (hc : hub'.connections[c']? = hub.connections[c]?)
    (m : Mapper) : b'.slotOf c' ∈ b'.targets hub' m ↔ b.slotOf c ∈ b.targets hub m := by
  rw [slotOf_mem_targets, slotOf_mem_targets, ha.audience, Hub.subscriptions?, Hub.subscriptions?, hc]

theorem shows_iff (ha : b.Alike c c' b') (hc : hub'.connections[c']? = hub.connections[c]?)
    {registry : Registry} {policy : ParentPolicy} {op : StartSignal} {sh : Showing} :
    Shows registry policy hub' b' op (b'.slotOf c') sh ↔
      Shows registry policy hub b op (b.slotOf c) sh := by
  constructor
  · rintro ⟨hrouted, htarget, hop, p, hp, hd⟩
    exact ⟨hrouted, (ha.mem_targets_iff hc _).mp htarget, hop, p, resolve_congr ha.view_eq policy _ ▸ hp, hd⟩
  · rintro ⟨hrouted, htarget, hop, p, hp, hd⟩
    refine ⟨hrouted, (ha.mem_targets_iff hc _).mpr htarget, hop, p, ?_, hd⟩
    rw [resolve_congr ha.view_eq]
    exact hp

section Start

variable {registry : Registry} {policy : ParentPolicy} {op : StartSignal} {t t' : Turn}

/-- An operation that is recorded in both builds. -/
theorem records (ha : b.Alike c c' b') (hc : hub'.connections[c']? = hub.connections[c]?)
    (hu : ∀ m ∈ registry.mappers, m.Uniform) {e e' : Entry}
    (hr : Records registry policy hub b op t e) (hr' : Records registry policy hub' b' op t' e') :
    t.Alike c c' t' := by
  have hshown : e'.shown (b'.slotOf c') = e.shown (b.slotOf c) := by
    refine Option.ext fun sh => ?_
    rw [hr'.shows_iff hu, hr.shows_iff hu, ha.shows_iff hc]
  refine ⟨?_, hr'.result.trans hr.result.symm, ?_⟩
  · rw [hr.build, hr'.build]
    refine ⟨ha.id_eq, ha.closed_eq, ha.audience, ?_⟩
    show (b'.live.insert op.id e').view (b'.slotOf c') = (b.live.insert op.id e).view (b.slotOf c)
    rw [LiveTable.view_insert, LiveTable.view_insert, ha.view_eq, hshown, hr.parent, hr'.parent]
  · rw [hr.offers, hr'.offers, hshown, ha.id_eq]

/-- The start of an operation that no mapper refuses, in a hub that has no
connection but the one. -/
theorem start (ha : b.Alike c c' b') (hc : hub'.connections[c']? = hub.connections[c]?)
    (honly : ∀ n, hub'.isAttached n = true → n = c')
    (hu : ∀ m ∈ registry.mappers, m.Uniform) (hs : b.Sound) (hs' : b'.Sound)
    (ht : b.start registry policy hub op = some t)
    (haccept : ∀ e, ¬ Refuses registry hub b op t e) :
    ∃ t', b'.start registry policy hub' op = some t' ∧ t.Alike c c' t' := by
  have hf : ∀ m ∈ registry.mappers, m.Faithful := fun m hm => (hu m hm).faithful
  cases hclosed : b.closed with
  | true =>
    rw [start_of_closed _ _ _ _ hclosed, Option.some.injEq] at ht
    exact ⟨_, start_of_closed _ _ _ _ (ha.closed_eq.trans hclosed), ht ▸ ha.quiet _⟩
  | false =>
    have hclosed' := ha.closed_eq.trans hclosed
    cases hl : b.live.get? op.id with
    | some e =>
      obtain ⟨e', hl', -⟩ := LiveTable.get?_eq_some_congr ha.view_eq hl
      rw [start_of_live _ _ _ hclosed hl, Option.some.injEq] at ht
      refine ⟨_, start_of_live _ _ _ hclosed' hl', ht ▸ ?_⟩
      rw [startedTwice_congr ha.id_eq]
      exact ha.quiet _
    | none =>
      have hl' := (LiveTable.get?_eq_none_congr ha.view_eq).mpr hl
      obtain ⟨e, hr⟩ := (start_outcome hf hs hclosed hl ht).resolve_left fun ⟨e, h⟩ => haccept e h
      -- whoever wants the operation in the second hub is the one connection
      have htarget : ∀ m, ∀ slot ∈ b'.targets hub' m,
          slot = b'.slotOf c' ∧ b.slotOf c ∈ b.targets hub m := by
        intro m slot hslot
        obtain ⟨n, rfl, hn⟩ := exists_slotOf_of_mem_targets hs'.audience hslot
        obtain rfl := honly n (isAttached_of_mem_targets hslot (connection?_slotOf hn))
        exact ⟨rfl, (ha.mem_targets_iff hc m).mp hslot⟩
      obtain ⟨t', ht'⟩ : ∃ t', b'.start registry policy hub' op = some t' := by
        refine exists_start registry hub' fun m hm slot hslot => ?_
        obtain ⟨rfl, hmem⟩ := htarget m slot hslot
        rw [resolve_congr ha.view_eq]
        exact exists_resolve_of_start ht hclosed hl hm hmem
      refine ⟨t', ht', ?_⟩
      rcases start_outcome hf hs' hclosed' hl' ht' with ⟨e', href⟩ | ⟨e', hr'⟩
      · obtain ⟨m, p, hm, hne, herr, -⟩ := href.refused
        obtain ⟨slot, hslot⟩ := List.exists_mem_of_ne_nil _ hne
        exact absurd herr (hr.accepts hu m hm (List.ne_nil_of_mem (htarget m slot hslot).2) p e')
      · exact ha.records hc hu hr hr'

end Start

/-- The finish of an operation. -/
theorem finish (ha : b.Alike c c' b') (hc : hub'.connections[c']? = hub.connections[c]?)
    (hs : b.Sound) (hs' : b'.Sound) (f : FinishSignal) :
    (b.finish hub f).Alike c c' (b'.finish hub' f) := by
  cases hclosed : b.closed with
  | true =>
    rw [finish_of_closed hclosed, finish_of_closed (ha.closed_eq.trans hclosed)]
    exact ha.quiet _
  | false =>
    have hclosed' := ha.closed_eq.trans hclosed
    cases hl : b.live.get? f.id with
    | none =>
      rw [finish_of_unknown hl, finish_of_unknown ((LiveTable.get?_eq_none_congr ha.view_eq).mpr hl)]
      exact ha.quiet _
    | some e =>
      obtain ⟨e', hl', -, hshown⟩ := LiveTable.get?_eq_some_congr ha.view_eq hl
      obtain ⟨hbuild, hresult, -, hmsg⟩ := finish_of_live hub hs hclosed hl
      obtain ⟨hbuild', hresult', -, hmsg'⟩ := finish_of_live hub' hs' hclosed' hl'
      refine ⟨?_, hresult'.trans hresult.symm, ?_⟩
      · rw [hbuild, hbuild']
        refine ⟨ha.id_eq, ha.closed_eq, ha.audience, ?_⟩
        show (b'.live.erase f.id).view (b'.slotOf c') = (b.live.erase f.id).view (b.slotOf c)
        rw [LiveTable.view_erase, LiveTable.view_erase, ha.view_eq]
      · rw [hmsg c, hmsg' c', hshown, isAttached_eq hc, ha.id_eq]

/-- The end of a build. -/
theorem close (ha : b.Alike c c' b') (hc : hub'.connections[c']? = hub.connections[c]?)
    (hs : b.Sound) (hs' : b'.Sound) (reason : EndReason) :
    (b.close hub reason).Alike c c' (b'.close hub' reason) := by
  refine ⟨?_, ?_, ?_⟩
  · unfold Build.close
    rw [ha.closed_eq]
    cases b.closed with
    | true => exact ha
    | false => exact ⟨ha.id_eq, rfl, ha.audience, rfl⟩
  · unfold Build.close
    rw [ha.closed_eq]
    split <;> rfl
  · simp only [messagesTo_close hs, messagesTo_close hs', ha.closed_eq, ha.id_eq, ha.audience,
      isAttached_eq hc]

end Build.Alike

end BuildFeed
