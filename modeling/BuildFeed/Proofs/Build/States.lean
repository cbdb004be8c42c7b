/-
# How the operations of a build stand

The live operations of a build are those that were published and those that
were suppressed; no id is in both parts, because no id is in the table twice
(`LiveTable.Keyed.apart`). What becomes of a new operation depends on what its
mapper answers when it is asked for a descriptor (`Build.Asks`): the operation
is recorded as published exactly if there is such an answer with a descriptor
(`Build.Publishes`), it leaves no trace if the answer is an error, and it is
recorded as suppressed otherwise.

From one call to the next an operation that is live stands as it stood, or it
is not live any more.

Key definitions: `LiveTable.Keyed`, `LiveTable.published`, `LiveTable.hidden`,
`Build.Asks`, `Build.FirstStart`, `Build.Publishes`.
Key theorems: `LiveTable.Keyed.apart`, `Build.exists_started`,
`Build.firstStart_of_start`, `Build.FirstStart.recorded`, `Build.start_outcomes`,
`Build.error_of_start`.
-/
import BuildFeed.Proofs.Build.Turns

namespace BuildFeed

/-! ### Live operations by their ids -/

namespace LiveTable

variable {t : LiveTable} {x : OperationId} {e : Entry}

/-- No operation is in the table twice. -/
def Keyed (t : LiveTable) : Prop := (t.map (·.1)).Nodup

theorem Keyed.insert (h : t.Keyed) (hx : t.get? x = none) (e : Entry) : (t.insert x e).Keyed := by
  refine List.nodup_cons.mpr ⟨fun hmem => ?_, h⟩
  obtain ⟨y, hy, rfl⟩ := List.mem_map.mp hmem
  have hne : (y.1 != y.1) = true := List.lookup_eq_none_iff.mp hx y hy
  exact absurd hne (by simp)

theorem Keyed.erase (h : t.Keyed) (x : OperationId) : (t.erase x).Keyed :=
  List.Nodup.sublist (List.filter_sublist.map _) h

theorem mem_of_get? (h : t.get? x = some e) : (x, e) ∈ t := by
  obtain ⟨t₁, t₂, rfl, -⟩ := List.lookup_eq_some_iff.mp h
  simp

theorem Keyed.get?_eq_some_iff (h : t.Keyed) : t.get? x = some e ↔ (x, e) ∈ t := by
  refine ⟨mem_of_get?, fun hmem => ?_⟩
  obtain ⟨t₁, t₂, rfl⟩ := List.append_of_mem hmem
  refine List.lookup_eq_some_iff.mpr ⟨t₁, t₂, rfl, fun y hy => ?_⟩
  rw [Keyed, List.map_append, List.nodup_append] at h
  have hne : y.1 ≠ x := h.2.2 y.1 (List.mem_map.mpr ⟨y, hy, rfl⟩) x (by simp)
  simpa using hne.symm

/-- The operations of the table that were published. -/
def published (t : LiveTable) : LiveTable := t.filter fun y => y.2.isPublished

/-- The operations of the table that are suppressed. -/
def hidden (t : LiveTable) : LiveTable := t.filter fun y => !y.2.isPublished

/-- A part of the table has the operations whose entries are in it. -/
theorem Keyed.contains_filter_iff (h : t.Keyed) (P : Entry → Bool) (x : OperationId) :
    contains (t.filter fun y => P y.2) x = true ↔ ∃ e, t.get? x = some e ∧ P e = true := by
  rw [contains, Option.isSome_iff_exists]
  constructor
  · rintro ⟨e, he⟩
    obtain ⟨hmem, hp⟩ := List.mem_filter.mp (mem_of_get? he)
    exact ⟨e, h.get?_eq_some_iff.mpr hmem, hp⟩
  · rintro ⟨e, he, hp⟩
    have hpart : Keyed (t.filter fun y => P y.2) := List.Nodup.sublist (List.filter_sublist.map _) h
    exact ⟨e, hpart.get?_eq_some_iff.mpr (List.mem_filter.mpr ⟨mem_of_get? he, hp⟩)⟩

/-- No operation is both published and suppressed. -/
theorem Keyed.apart (h : t.Keyed) (x : OperationId) :
    ¬ (t.published.contains x = true ∧ t.hidden.contains x = true) := by
  rintro ⟨hpub, hhid⟩
  obtain ⟨e, he, hyes⟩ := (h.contains_filter_iff Entry.isPublished x).mp hpub
  obtain ⟨e', he', hno⟩ := (h.contains_filter_iff (!·.isPublished) x).mp hhid
  obtain rfl := Option.some.inj (he.symm.trans he')
  simp [hyes] at hno

end LiveTable

namespace Build

section State

variable {b : Build} {x : OperationId}

theorem state_eq_none_iff : b.state x = .none ↔ b.live.get? x = none := by
  unfold state
  cases b.live.get? x with
  | none => simp
  | some e => cases e <;> simp

theorem state_eq_started_iff :
    b.state x = .started ↔ ∃ e, b.live.get? x = some e ∧ e.isPublished = true := by
  unfold state
  cases b.live.get? x with
  | none => simp
  | some e => cases e <;> simp [Entry.isPublished]

theorem state_eq_suppressed_iff :
    b.state x = .suppressed ↔ ∃ e, b.live.get? x = some e ∧ e.isPublished = false := by
  unfold state
  cases b.live.get? x with
  | none => simp
  | some e => cases e <;> simp [Entry.isPublished]

/-- The operations that stand as started are those of the one part of the table, -/
theorem contains_published_iff (hk : b.live.Keyed) (x : OperationId) :
    b.live.published.contains x = true ↔ b.state x = .started :=
  (hk.contains_filter_iff Entry.isPublished x).trans state_eq_started_iff.symm

/-- and those that stand as suppressed are those of the other. -/
theorem contains_hidden_iff (hk : b.live.Keyed) (x : OperationId) :
    b.live.hidden.contains x = true ↔ b.state x = .suppressed := by
  rw [state_eq_suppressed_iff]
  refine (hk.contains_filter_iff (!·.isPublished) x).trans ?_
  simp

/-- How an operation stands is read off the table alone. -/
theorem state_congr {b' : Build} {y : OperationId} (h : b'.live.get? y = b.live.get? x) :
    b'.state y = b.state x := by
  rw [state, state, h]

/-- The number of operations in flight is the number of those that stand as started. -/
theorem exists_started (hk : b.live.Keyed) :
    ∃ xs : List OperationId, xs.Nodup ∧ (∀ x, x ∈ xs ↔ b.state x = .started) ∧
      xs.length = b.inFlight := by
  refine ⟨b.live.published.map (·.1), ?_, fun x => ?_, ?_⟩
  · exact List.Nodup.sublist (List.filter_sublist.map _) hk
  · rw [state_eq_started_iff, List.mem_map]
    constructor
    · rintro ⟨⟨y, e⟩, hy, rfl⟩
      obtain ⟨hmem, hpub⟩ := List.mem_filter.mp hy
      exact ⟨e, hk.get?_eq_some_iff.mpr hmem, hpub⟩
    · rintro ⟨e, he, hpub⟩
      have hmem : (x, e) ∈ b.live := LiveTable.mem_of_get? he
      exact ⟨(x, e), List.mem_filter.mpr ⟨hmem, hpub⟩, rfl⟩
  · rw [List.length_map, inFlight, List.countP_eq_length_filter, LiveTable.published]

end State

/-! ### What the mapper of a new operation answers -/

section Start

variable {registry : Registry} {policy : ParentPolicy} {hub : Hub} {b : Build} {op : StartSignal}
  {t : Turn} {m m' : Mapper} {p p' : Option OperationId} {e : Error}

/-- A mapper has targets if it serves a connection of the audience that is attached. -/
theorem targets_ne_nil_iff : b.targets hub m ≠ [] ↔
    ∃ c ∈ b.audience, ∃ subs ∈ hub.subscriptions? c, m.isEnabled subs = true := by
  constructor
  · intro hne
    obtain ⟨slot, hslot⟩ := List.exists_mem_of_ne_nil _ hne
    obtain ⟨c, hc, hserves⟩ := mem_targets.mp hslot
    exact ⟨c, mem_audience_of_connection? hc, hserves⟩
  · rintro ⟨c, haudience, hserves⟩
    exact List.ne_nil_of_mem (slotOf_mem_targets.mpr ⟨haudience, hserves⟩)

/-- The mapper of a new operation is asked for a descriptor under a parent: it
serves some of the audience that is still attached, and the first slot of these
sees that parent. -/
structure Asks (registry : Registry) (policy : ParentPolicy) (hub : Hub) (b : Build)
    (op : StartSignal) (m : Mapper) (p : Option OperationId) : Prop where
  routed : registry.lookup op.details.kind = some m
  first : ∃ slot slots, b.targets hub m = slot :: slots ∧ resolve policy b.live slot op.parent = some p

/-- One mapper is asked, for one parent. -/
theorem Asks.unique (h : Asks registry policy hub b op m p) (h' : Asks registry policy hub b op m' p') :
    m' = m ∧ p' = p := by
  obtain ⟨hm, slot, slots, htargets, hp⟩ := h
  obtain ⟨hm', slot', slots', htargets', hp'⟩ := h'
  obtain rfl := Option.some.inj (hm.symm.trans hm')
  obtain ⟨rfl, -⟩ := List.cons.inj (htargets.symm.trans htargets')
  exact ⟨rfl, Option.some.inj (hp'.symm.trans hp)⟩

/-- A new operation has a mapper that serves some of the audience and makes a
descriptor of it. -/
def Publishes (registry : Registry) (policy : ParentPolicy) (hub : Hub) (b : Build)
    (op : StartSignal) : Prop :=
  ∃ m p d, Asks registry policy hub b op m p ∧ (m.consult op p).1 = .ok (some d)

/-- What a first start in an open build can do. -/
inductive FirstStart (registry : Registry) (policy : ParentPolicy) (hub : Hub) (b : Build)
    (op : StartSignal) : Turn → Prop
  /-- No mapper is asked. -/
  | unasked (hn : ∀ m p, ¬ Asks registry policy hub b op m p) :
    FirstStart registry policy hub b op ((b.suppress op).quiet (.ok ()))
  | refused {m : Mapper} {p : Option OperationId} {e : Error} (ha : Asks registry policy hub b op m p)
      (he : (m.consult op p).1 = .error e) :
    FirstStart registry policy hub b op ⟨b, .error e, [], (m.consult op p).2⟩
  | declined {m : Mapper} {p : Option OperationId} (ha : Asks registry policy hub b op m p)
      (he : (m.consult op p).1 = .ok none) :
    FirstStart registry policy hub b op ⟨b.suppress op, .ok (), [], (m.consult op p).2⟩
  | published {m : Mapper} {p : Option OperationId} {d : Descriptor} {ds : List Delivery}
      {offers : List Offer} (ha : Asks registry policy hub b op m p)
      (he : (m.consult op p).1 = .ok (some d)) :
    FirstStart registry policy hub b op
      ⟨{ b with live := b.live.insert op.id (.published m op ds) }, .ok (), offers,
        (m.consult op p).2⟩

/-- A first start does what the answer of the mapper says. -/
theorem firstStart_of_start (ho : b.closed = false) (hl : b.live.get? op.id = none)
    (h : b.start registry policy hub op = some t) : FirstStart registry policy hub b op t := by
  have hn : b.live.contains op.id = false := by rw [LiveTable.contains, hl]; rfl
  unfold start at h
  simp only [ho, hn, Bool.false_eq_true, if_false] at h
  cases hm : registry.lookup op.details.kind with
  | none =>
    simp only [hm, Option.some.injEq] at h
    refine h ▸ .unasked fun m p ha => ?_
    have hrouted := ha.routed
    rw [hm] at hrouted
    exact absurd hrouted (by simp)
  | some m =>
    simp only [hm] at h
    cases hps : resolveAll policy b.live op.parent (b.targets hub m) with
    | none => simp [hps] at h
    | some ps =>
      simp only [hps] at h
      cases htargets : b.targets hub m with
      | nil =>
        rw [htargets] at hps
        obtain rfl : [] = ps := Option.some.inj hps
        refine Option.some.inj h ▸ .unasked fun m' p ha => ?_
        obtain ⟨hm', slot, slots, htargets', -⟩ := ha
        obtain rfl := Option.some.inj (hm.symm.trans hm')
        simp [htargets] at htargets'
      | cons slot slots =>
        rw [htargets] at hps
        obtain ⟨p, qs, hp, -, rfl⟩ := resolveAll_cons.mp hps
        have ha : Asks registry policy hub b op m p := ⟨hm, slot, slots, htargets, hp⟩
        obtain ⟨slots', rest, hg⟩ := exists_group_cons p slot qs
        simp only [hg, Option.some.injEq] at h
        subst h
        unfold publish
        cases hr : m.consult op p with
        | mk r consulted =>
          have hr1 : (m.consult op p).1 = r := by rw [hr]
          have hr2 : (m.consult op p).2 = consulted := by rw [hr]
          cases r with
          | error e => exact hr2 ▸ .refused ha hr1
          | ok o =>
            cases o with
            | none => exact hr2 ▸ .declined ha hr1
            | some d =>
              obtain ⟨data, hd⟩ := dataOf_of_consult hr1
              simp only [startedOffers_of_dataOf b hd, hn, Bool.false_eq_true, if_false]
              exact hr2 ▸ .published ha hr1

namespace FirstStart

/-- A first start is refused by the mapper and leaves no trace, or its operation is
recorded, as published exactly if the mapper made a descriptor. -/
theorem recorded (h : FirstStart registry policy hub b op t) :
    (∃ m p e, Asks registry policy hub b op m p ∧ (m.consult op p).1 = .error e ∧ t.build = b ∧
      t.result = .error e) ∨
    ∃ e, t.build = { b with live := b.live.insert op.id e } ∧ t.result = .ok () ∧
      (e.isPublished = true ↔ Publishes registry policy hub b op) := by
  cases h with
  | unasked hn =>
    refine Or.inr ⟨.suppressed op.parent, rfl, rfl, fun h => absurd h (by simp [Entry.isPublished]), ?_⟩
    rintro ⟨m, p, d, ha, -⟩
    exact absurd ha (hn m p)
  | refused ha he => exact Or.inl ⟨_, _, _, ha, he, rfl, rfl⟩
  | declined ha he =>
    refine Or.inr ⟨.suppressed op.parent, rfl, rfl, fun h => absurd h (by simp [Entry.isPublished]), ?_⟩
    rintro ⟨m', p', d, ha', hd⟩
    obtain ⟨rfl, rfl⟩ := ha.unique ha'
    rw [he] at hd
    exact absurd hd (by simp)
  | published ha he => exact Or.inr ⟨_, rfl, rfl, fun _ => ⟨_, _, _, ha, he⟩, fun _ => rfl⟩

/-- The error that the mapper answers is the answer. -/
theorem result_of_error (h : FirstStart registry policy hub b op t)
    (ha : Asks registry policy hub b op m p) (he : (m.consult op p).1 = .error e) :
    t.result = .error e := by
  cases h with
  | unasked hn => exact absurd ha (hn m p)
  | refused ha' he' =>
    obtain ⟨rfl, rfl⟩ := ha.unique ha'
    obtain rfl := Except.error.inj (he'.symm.trans he)
    rfl
  | declined ha' he' =>
    obtain ⟨rfl, rfl⟩ := ha.unique ha'
    rw [he] at he'
    exact absurd he' (by simp)
  | published ha' he' =>
    obtain ⟨rfl, rfl⟩ := ha.unique ha'
    rw [he] at he'
    exact absurd he' (by simp)

/-- What the mapper is asked is all that is asked. -/
theorem consulted_of_asks (h : FirstStart registry policy hub b op t)
    (ha : Asks registry policy hub b op m p) : t.consulted = (m.consult op p).2 := by
  cases h with
  | unasked hn => exact absurd ha (hn m p)
  | refused ha' =>
    obtain ⟨rfl, rfl⟩ := ha.unique ha'
    rfl
  | declined ha' =>
    obtain ⟨rfl, rfl⟩ := ha.unique ha'
    rfl
  | published ha' =>
    obtain ⟨rfl, rfl⟩ := ha.unique ha'
    rfl

theorem consulted_of_not_asks (h : FirstStart registry policy hub b op t)
    (hn : ∀ m p, ¬ Asks registry policy hub b op m p) : t.consulted = [] := by
  cases h with
  | unasked => rfl
  | refused ha => exact absurd ha (hn _ _)
  | declined ha => exact absurd ha (hn _ _)
  | published ha => exact absurd ha (hn _ _)

end FirstStart

/-- What a start records is one entry. -/
theorem Records.entry_eq {e e' : Entry} (hr : Records registry policy hub b op t e)
    (h : t.build = { b with live := b.live.insert op.id e' }) : e' = e := by
  rw [hr.build, Build.mk.injEq] at h
  obtain ⟨-, -, hlive, -⟩ := h
  obtain ⟨hentry, -⟩ := List.cons.inj hlive
  exact (Prod.mk.inj hentry).2.symm

/-- What a first start records is published exactly if the mapper made a descriptor. -/
theorem Records.isPublished_iff {e : Entry} (hr : Records registry policy hub b op t e)
    (h : FirstStart registry policy hub b op t) :
    e.isPublished = true ↔ Publishes registry policy hub b op := by
  rcases h.recorded with ⟨m, p, e', -, -, -, hresult⟩ | ⟨e', hbuild, -, hpub⟩
  · rw [hr.result] at hresult
    exact absurd hresult (by simp)
  · obtain rfl := hr.entry_eq hbuild
    exact hpub

/-- If a first start returns, a mapper that serves somebody has been asked. -/
theorem exists_asks (h : b.start registry policy hub op = some t) (ho : b.closed = false)
    (hl : b.live.get? op.id = none) (hm : registry.lookup op.details.kind = some m)
    (hw : b.targets hub m ≠ []) : ∃ p, Asks registry policy hub b op m p := by
  obtain ⟨slot, slots, htargets⟩ := List.exists_cons_of_ne_nil hw
  obtain ⟨p, hp⟩ := exists_resolve_of_start h ho hl hm (by rw [htargets]; exact List.mem_cons_self)
  exact ⟨p, hm, slot, slots, htargets, hp⟩

/-- What is published in one build is published in another, if its mapper serves
somebody there too. -/
theorem Publishes.elsewhere {policy' : ParentPolicy} {hub' : Hub} {b' : Build} {t' : Turn}
    (h : Publishes registry policy hub b op) (hu : ∀ m ∈ registry.mappers, m.Uniform)
    (hw : ∀ m, b.targets hub m ≠ [] → b'.targets hub' m ≠ [])
    (ht' : b'.start registry policy' hub' op = some t') (ho' : b'.closed = false)
    (hl' : b'.live.get? op.id = none) : Publishes registry policy' hub' b' op := by
  obtain ⟨m, p, d, ⟨hm, slot, slots, htargets, -⟩, hd⟩ := h
  have hne : b.targets hub m ≠ [] := by simp [htargets]
  obtain ⟨q, hq⟩ := exists_asks ht' ho' hl' hm (hw m hne)
  refine ⟨m, q, d.withParent q, hq, ?_⟩
  rw [(hu m (lookup_mem hm)).consult_eq op p q, hd]
  rfl

/-- Two first starts of one operation, in builds in which the same mappers serve
somebody, have one outcome: one mapper refuses both with one error, or both are
recorded, both as published or both as suppressed. -/
theorem start_outcomes {policy' : ParentPolicy} {hub' : Hub} {b' : Build} {t' : Turn}
    (hu : ∀ m ∈ registry.mappers, m.Uniform) (hs : b.Sound) (hs' : b'.Sound)
    (ho : b.closed = false) (ho' : b'.closed = false) (hl : b.live.get? op.id = none)
    (hl' : b'.live.get? op.id = none) (ht : b.start registry policy hub op = some t)
    (ht' : b'.start registry policy' hub' op = some t')
    (hw : ∀ m, b'.targets hub' m ≠ [] ↔ b.targets hub m ≠ []) :
    (∃ e, Refuses registry hub b op t e ∧ Refuses registry hub' b' op t' e) ∨
      ∃ e e', Records registry policy hub b op t e ∧ Records registry policy' hub' b' op t' e' ∧
        e'.isPublished = e.isPublished := by
  have hf : ∀ m ∈ registry.mappers, m.Faithful := fun m hm => (hu m hm).faithful
  rcases start_outcome hf hs ho hl ht with ⟨e, href⟩ | ⟨e, hr⟩ <;>
    rcases start_outcome hf hs' ho' hl' ht' with ⟨e', href'⟩ | ⟨e', hr'⟩
  · obtain ⟨m, p, hm, -, herr, -⟩ := href.refused
    obtain ⟨m', p', hm', -, herr', -⟩ := href'.refused
    obtain rfl := Option.some.inj (hm.symm.trans hm')
    rw [(hu m (lookup_mem hm)).consult_eq op p p', herr] at herr'
    obtain rfl := Except.error.inj herr'
    exact Or.inl ⟨e, href, href'⟩
  · obtain ⟨m, p, hm, hne, herr, -⟩ := href.refused
    exact absurd herr (hr'.accepts hu m hm ((hw m).mpr hne) p e)
  · obtain ⟨m, p, hm, hne, herr, -⟩ := href'.refused
    exact absurd herr (hr.accepts hu m hm ((hw m).mp hne) p e')
  · refine Or.inr ⟨e, e', hr, hr', ?_⟩
    rw [Bool.eq_iff_iff, hr.isPublished_iff (firstStart_of_start ho hl ht),
      hr'.isPublished_iff (firstStart_of_start ho' hl' ht')]
    exact ⟨fun hp => hp.elsewhere hu (fun m => (hw m).mp) ht ho hl,
      fun hp => hp.elsewhere hu (fun m => (hw m).mpr) ht' ho' hl'⟩

/-- A start fails if its operation is live already, or if the mapper refuses it. -/
theorem error_of_start (h : b.start registry policy hub op = some t) (he : t.result = .error e) :
    b.closed = false ∧ ((b.state op.id ≠ .none ∧ e = b.startedTwice op.id) ∨
      (b.state op.id = .none ∧ ∃ m p, Asks registry policy hub b op m p ∧
        (m.consult op p).1 = .error e)) := by
  cases hc : b.closed with
  | true =>
    rw [start_of_closed _ _ _ _ hc, Option.some.injEq] at h
    rw [← h] at he
    simp [quiet] at he
  | false =>
    refine ⟨rfl, ?_⟩
    cases hl : b.live.get? op.id with
    | some e' =>
      rw [start_of_live _ _ _ hc hl, Option.some.injEq] at h
      rw [← h] at he
      refine Or.inl ⟨fun hstate => ?_, (Except.error.inj he).symm⟩
      rw [state_eq_none_iff, hl] at hstate
      exact absurd hstate (by simp)
    | none =>
      refine Or.inr ⟨state_eq_none_iff.mpr hl, ?_⟩
      rcases (firstStart_of_start hc hl h).recorded with ⟨m, p, e', ha, hm, -, hr⟩ | ⟨e', -, hr, -⟩
      · rw [hr, Except.error.injEq] at he
        exact ⟨m, p, ha, he ▸ hm⟩
      · rw [hr] at he
        exact absurd he (by simp)

end Start

/-! ### From one call to the next -/

section Change

variable {registry : Registry} {policy : ParentPolicy} {hub : Hub} {b : Build} {op : StartSignal}
  {t : Turn} {x : OperationId}

/-- A start changes nothing of an operation that is live. -/
theorem state_start (h : b.start registry policy hub op = some t) (hx : b.state x ≠ .none) :
    t.build.state x = b.state x := by
  rcases live_start h with hl | ⟨hnone, e, -, hl⟩
  · exact state_congr (by rw [hl])
  · have hne : x ≠ op.id := by
      rintro rfl
      exact hx (state_eq_none_iff.mpr hnone)
    apply state_congr
    rw [hl, LiveTable.get?_insert, if_neg hne]

/-- A finish changes nothing but its own operation, which is not live any more. -/
theorem state_finish (hub : Hub) (f : FinishSignal) (hs : b.Sound) (x : OperationId) :
    (b.finish hub f).build.state x = b.state x ∨
      (x = f.id ∧ (b.finish hub f).build.state x = .none) := by
  rcases live_finish hub f hs with hl | hl
  · exact Or.inl (state_congr (by rw [hl]))
  · by_cases hx : x = f.id
    · refine Or.inr ⟨hx, state_eq_none_iff.mpr ?_⟩
      rw [hl, LiveTable.get?_erase, if_pos hx]
    · apply Or.inl (state_congr _)
      rw [hl, LiveTable.get?_erase, if_neg hx]

theorem state_close (hub : Hub) (reason : EndReason) (b : Build) (x : OperationId) :
    (b.close hub reason).build.state x = b.state x ∨ (b.close hub reason).build.state x = .none := by
  rcases live_close hub reason b with hl | hl
  · exact Or.inl (state_congr (by rw [hl]))
  · exact Or.inr (state_eq_none_iff.mpr (by rw [hl]; rfl))

end Change

end Build

end BuildFeed
