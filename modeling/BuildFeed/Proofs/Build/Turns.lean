/-
# What a call on a build does

Each call on a build is told in full once: `Build.startCase_of_start` lists
what a start can do, and `Build.start_outcome` says the same from the side of
the slots. What a slot is shown of a new operation does not depend on the other
slots (`Build.Shows`), although they share descriptors with it, and the
connection of the slot is sent that. When the operation finishes, it is sent
the same descriptor again (`Build.finish_of_live`).

A call offers at most one message to a connection, and only to attached
connections of the audience (`Turn.Proper`). It leaves the build its id and its
audience (`Build.Kept`).

Key definitions: `Showing`, `Entry.shown`, `Build.Sound`, `Build.Shows`,
`Build.StartCase`, `Build.Records`, `Turn.Proper`, `Build.Kept`.
Key theorems: `Build.startCase_of_start`, `Build.start_outcome`,
`Build.finish_of_live`, `Build.sound_start`, `Build.proper_start`.
-/
import BuildFeed.Proofs.Build.Groups
import BuildFeed.Proofs.Mapper.Uniform

namespace BuildFeed

/-! ### What is shown of an operation -/

/-- What a slot was shown of an operation. -/
structure Showing where
  mapper : Mapper
  op : StartSignal
  descriptor : Descriptor

namespace Showing

/-- The message that the operation started. -/
def started (s : Showing) (build : BuildId) : Message :=
  .event build (.started s.op.startTime s.descriptor)

/-- The message that the operation finished, if its mapper reports that. -/
def finished (s : Showing) (build : BuildId) (f : FinishSignal) : Option Message :=
  match s.mapper.finishedEvent s.descriptor s.op f with
  | .ok (some e) => some (.event build e)
  | _ => none

/-- What is shown of an operation is what a mapper of the registry makes of it. -/
structure Made (s : Showing) (registry : Registry) (op : StartSignal) : Prop where
  op_eq : s.op = op
  mapper_mem : s.mapper ∈ registry.mappers
  consult_eq : (∀ m ∈ registry.mappers, m.Uniform) →
    (s.mapper.consult op s.descriptor.parent).1 = .ok (some s.descriptor)

end Showing

namespace Entry

/-- What a slot was shown of a live operation. -/
def shown (slot : Nat) : Entry → Option Showing
  | published m op ds => (descriptorFor slot ds).map (⟨m, op, ·⟩)
  | suppressed _ => none

theorem reached_eq (slot : Nat) (e : Entry) : e.reached slot = (e.shown slot).isSome := by
  cases e with
  | published m op ds => rw [reached, shown, Option.isSome_map, descriptorFor_isSome]
  | suppressed p => rfl

/-- What holds of a live operation: its mapper knows how to read it, and no
slot is in two of its deliveries. -/
def Sound (audience : List Nat) : Entry → Prop
  | published m op ds => (∃ data, m.dataOf op = .ok data) ∧
      (ds.flatMap (·.slots)).Nodup ∧ ∀ slot ∈ ds.flatMap (·.slots), slot < audience.length
  | suppressed _ => True

end Entry

/-- The messages of a call: at most one for a connection, and only for
attached connections of the audience. -/
structure Turn.Proper (hub : Hub) (b : Build) (t : Turn) : Prop where
  once : (t.offers.map (·.connection)).Nodup
  attached : ∀ o ∈ t.offers, hub.isAttached o.connection = true
  audience : ∀ o ∈ t.offers, o.connection ∈ b.audience

/-- A call that offers nothing offers it properly. -/
theorem Turn.proper_of_nil {hub : Hub} {b : Build} {t : Turn} (h : t.offers = []) :
    t.Proper hub b := by
  constructor
  · rw [h]
    exact List.nodup_nil
  · intro o ho
    rw [h] at ho
    exact absurd ho (by simp)
  · intro o ho
    rw [h] at ho
    exact absurd ho (by simp)

namespace Build

/-- What holds of every build. -/
structure Sound (b : Build) : Prop where
  audience : b.audience.Nodup
  entries : ∀ x ∈ b.live, x.2.Sound b.audience

/-! ### Targets -/

theorem isAttached_of_subscriptions {hub : Hub} {c : Nat} {subs : SubscriptionSet}
    (h : hub.subscriptions? c = some subs) : hub.isAttached c = true := by
  unfold Hub.subscriptions? at h
  unfold Hub.isAttached
  cases hx : hub.connections[c]? with
  | none => simp [hx] at h
  | some x =>
    by_cases ha : x.attached
    · simp [ha]
    · simp [hx, ha] at h

/-- The connection of a target is attached. -/
theorem isAttached_of_mem_targets {b : Build} {hub : Hub} {m : Mapper} {slot c : Nat}
    (h : slot ∈ b.targets hub m) (hc : b.connection? slot = some c) : hub.isAttached c = true := by
  obtain ⟨c', hc', subs, hs, -⟩ := mem_targets.mp h
  obtain rfl := Option.some.inj (hc.symm.trans hc')
  exact isAttached_of_subscriptions hs

/-! ### Starting -/

section Start

variable {registry : Registry} {policy : ParentPolicy} {hub : Hub} {b : Build} {op : StartSignal}
  {t : Turn}

theorem lookup_mem {kind : DetailsKind} {m : Mapper} (h : registry.lookup kind = some m) :
    m ∈ registry.mappers := List.mem_of_find?_eq_some h

/-- The messages that an operation started, if its mapper can read it. -/
theorem startedOffers_of_dataOf (b : Build) {m : Mapper} {data : m.Data}
    (hd : m.dataOf op = .ok data) : ∀ ds : List Delivery,
    b.startedOffers m op ds =
      .ok (b.fanOut (fun _ => true) (fun d => some (.event b.id (m.started d data op))) ds)
  | [] => rfl
  | d :: ds => by
    have he : m.startedEvent d.descriptor op = .ok (m.started d.descriptor data op) := by
      rw [Mapper.startedEvent, hd]
      rfl
    rw [startedOffers, he, startedOffers_of_dataOf b hd ds, fanOut_cons]
    simp

/-- What a start can do. -/
inductive StartCase (registry : Registry) (policy : ParentPolicy) (hub : Hub) (b : Build)
    (op : StartSignal) : Turn → Prop
  /-- The build has ended. -/
  | closed (hc : b.closed = true) : StartCase registry policy hub b op (b.quiet (.ok ()))
  /-- An operation of that id is live. -/
  | again (ho : b.closed = false) (hl : b.live.contains op.id = true) :
    StartCase registry policy hub b op (b.quiet (.error (b.startedTwice op.id)))
  /-- No connection wants the operation. -/
  | unwanted (ho : b.closed = false) (hl : b.live.contains op.id = false)
      (hw : ∀ m, registry.lookup op.details.kind = some m → b.targets hub m = []) :
    StartCase registry policy hub b op ((b.suppress op).quiet (.ok ()))
  /-- The mapper refuses the operation. -/
  | refused {m : Mapper} {first : Option OperationId} {e : Error}
      (ho : b.closed = false) (hl : b.live.contains op.id = false)
      (hm : registry.lookup op.details.kind = some m) (hw : b.targets hub m ≠ [])
      (he : (m.consult op first).1 = .error e) :
    StartCase registry policy hub b op ⟨b, .error e, [], (m.consult op first).2⟩
  /-- The mapper declines the operation. -/
  | declined {m : Mapper} {first : Option OperationId}
      (ho : b.closed = false) (hl : b.live.contains op.id = false)
      (hm : registry.lookup op.details.kind = some m) (hw : b.targets hub m ≠ [])
      (he : (m.consult op first).1 = .ok none) :
    StartCase registry policy hub b op ⟨b.suppress op, .ok (), [], (m.consult op first).2⟩
  /-- The operation is published. -/
  | published {m : Mapper} {ps : List (Option OperationId × Nat)} {first : Option OperationId}
      {data : m.Data} {d : Descriptor}
      (ho : b.closed = false) (hl : b.live.contains op.id = false)
      (hm : registry.lookup op.details.kind = some m)
      (hp : resolveAll policy b.live op.parent (b.targets hub m) = some ps)
      (hd : m.dataOf op = .ok data) (he : (m.consult op first).1 = .ok (some d)) :
    StartCase registry policy hub b op
      ⟨{ b with live := b.live.insert op.id (.published m op (deliveries d first (group ps))) },
        .ok (),
        b.fanOut (fun _ => true) (fun d => some (.event b.id (m.started d data op)))
          (deliveries d first (group ps)),
        (m.consult op first).2⟩

theorem dataOf_of_consult {m : Mapper} {p : Option OperationId} {o : Option Descriptor}
    (h : (m.consult op p).1 = .ok o) : ∃ data, m.dataOf op = .ok data := by
  unfold Mapper.consult at h
  cases hd : m.dataOf op with
  | error e => simp [hd] at h
  | ok data => exact ⟨data, rfl⟩

/-- A start does one of the six things. -/
theorem startCase_of_start (h : b.start registry policy hub op = some t) :
    StartCase registry policy hub b op t := by
  unfold start at h
  cases hc : b.closed with
  | true =>
    simp only [hc, if_true, Option.some.injEq] at h
    exact h ▸ .closed hc
  | false =>
    cases hl : b.live.contains op.id with
    | true =>
      simp only [hc, hl, Bool.false_eq_true, if_false, if_true, Option.some.injEq] at h
      exact h ▸ .again hc hl
    | false =>
      simp only [hc, hl, Bool.false_eq_true, if_false] at h
      cases hm : registry.lookup op.details.kind with
      | none =>
        simp only [hm, Option.some.injEq] at h
        exact h ▸ .unwanted hc hl fun m hm' => by simp [hm] at hm'
      | some m =>
        simp only [hm] at h
        cases hp : resolveAll policy b.live op.parent (b.targets hub m) with
        | none => simp [hp] at h
        | some ps =>
          simp only [hp] at h
          have hmap := (resolveAll_eq_some hp).1
          cases hg : group ps with
          | nil =>
            simp only [hg, Option.some.injEq] at h
            refine h ▸ .unwanted hc hl fun m' hm' => ?_
            obtain rfl : m = m' := Option.some.inj (hm.symm.trans hm')
            rw [← hmap, group_eq_nil.mp hg]
            rfl
          | cons g rest =>
            obtain ⟨first, cs⟩ := g
            simp only [hg, Option.some.injEq] at h
            have hw : b.targets hub m ≠ [] := fun hn => by
              rw [← hmap, List.map_eq_nil_iff] at hn
              rw [hn] at hg
              simp [group] at hg
            rw [← hg] at h
            subst h
            unfold publish
            cases hr : m.consult op first with
            | mk r consulted =>
              have hr1 : (m.consult op first).1 = r := by rw [hr]
              have hr2 : (m.consult op first).2 = consulted := by rw [hr]
              cases r with
              | error e => exact hr2 ▸ .refused hc hl hm hw hr1
              | ok o =>
                cases o with
                | none => exact hr2 ▸ .declined hc hl hm hw hr1
                | some d =>
                  obtain ⟨data, hd⟩ := dataOf_of_consult hr1
                  simp only [startedOffers_of_dataOf b hd, hl, Bool.false_eq_true, if_false]
                  exact hr2 ▸ .published hc hl hm hp hd hr1

/-- A start does not end a build. -/
theorem closed_start (h : b.start registry policy hub op = some t) : t.build.closed = b.closed := by
  cases startCase_of_start h <;> rfl

/-- A start that offers anything returns without an error. -/
theorem result_of_offers (h : b.start registry policy hub op = some t) (ho : t.offers ≠ []) :
    t.result = .ok () := by
  cases startCase_of_start h with
  | published => rfl
  | _ => exact absurd rfl ho

/-- The slots of the deliveries are the targets. -/
theorem perm_targets {m : Mapper} {ps : List (Option OperationId × Nat)}
    (hp : resolveAll policy b.live op.parent (b.targets hub m) = some ps) (d : Descriptor)
    (first : Option OperationId) :
    ((deliveries d first (group ps)).flatMap (·.slots)).Perm (b.targets hub m) := by
  rw [flatMap_deliveries, ← (resolveAll_eq_some hp).1]
  exact perm_group ps

/-- Deliveries that are made to the targets have valid slots, and none of them twice. -/
theorem slots_deliveries {m : Mapper} {ps : List (Option OperationId × Nat)}
    (hp : resolveAll policy b.live op.parent (b.targets hub m) = some ps) (d : Descriptor)
    (first : Option OperationId) :
    ((deliveries d first (group ps)).flatMap (·.slots)).Nodup ∧
      ∀ slot ∈ (deliveries d first (group ps)).flatMap (·.slots), slot < b.audience.length := by
  have hperm := perm_targets hp d first
  exact ⟨hperm.nodup_iff.mpr (nodup_targets b hub m),
    fun slot hslot => lt_of_mem_targets (hperm.mem_iff.mp hslot)⟩

/-- A start in a build that has ended does nothing. -/
theorem start_of_closed (registry : Registry) (policy : ParentPolicy) (hub : Hub) (op : StartSignal)
    (hc : b.closed = true) : b.start registry policy hub op = some (b.quiet (.ok ())) := by
  simp [start, hc]

/-- The error of a second start names the build by its id. -/
theorem startedTwice_congr {b b' : Build} (h : b'.id = b.id) (x : OperationId) :
    b'.startedTwice x = b.startedTwice x := by
  rw [startedTwice, startedTwice, h]

/-- A second start is an error. -/
theorem start_of_live (registry : Registry) (policy : ParentPolicy) (hub : Hub)
    (ho : b.closed = false) {e : Entry} (hl : b.live.get? op.id = some e) :
    b.start registry policy hub op = some (b.quiet (.error (b.startedTwice op.id))) := by
  simp [start, ho, LiveTable.contains, hl]

/-- A start returns if the search for a parent ends for every slot that wants the
operation. -/
theorem exists_start (registry : Registry) (hub : Hub)
    (h : ∀ m, registry.lookup op.details.kind = some m → ∀ slot ∈ b.targets hub m,
      ∃ p, resolve policy b.live slot op.parent = some p) :
    ∃ t, b.start registry policy hub op = some t := by
  unfold start
  split
  · exact ⟨_, rfl⟩
  · split
    · exact ⟨_, rfl⟩
    · cases hm : registry.lookup op.details.kind with
      | none => exact ⟨_, rfl⟩
      | some m =>
        obtain ⟨ps, hps⟩ := exists_resolveAll (h m hm)
        simp only [hps]
        split <;> exact ⟨_, rfl⟩

/-- If a first start returns, the search has ended for every slot that wants the
operation. -/
theorem exists_resolve_of_start (h : b.start registry policy hub op = some t) (ho : b.closed = false)
    (hl : b.live.get? op.id = none) {m : Mapper} (hm : registry.lookup op.details.kind = some m)
    {slot : Nat} (hslot : slot ∈ b.targets hub m) :
    ∃ p, resolve policy b.live slot op.parent = some p := by
  have hn : b.live.contains op.id = false := by rw [LiveTable.contains, hl]; rfl
  unfold start at h
  simp only [ho, hn, hm, Bool.false_eq_true, if_false] at h
  cases hp : resolveAll policy b.live op.parent (b.targets hub m) with
  | none => simp [hp] at h
  | some ps =>
    obtain ⟨hmap, hres⟩ := resolveAll_eq_some hp
    rw [← hmap] at hslot
    obtain ⟨x, hx, rfl⟩ := List.mem_map.mp hslot
    exact ⟨x.1, hres x hx⟩

/-- A start offers its messages properly. -/
theorem proper_start (hs : b.Sound) (h : b.start registry policy hub op = some t) :
    t.Proper hub b := by
  cases startCase_of_start h with
  | closed => exact Turn.proper_of_nil rfl
  | again => exact Turn.proper_of_nil rfl
  | unwanted => exact Turn.proper_of_nil rfl
  | refused => exact Turn.proper_of_nil rfl
  | declined => exact Turn.proper_of_nil rfl
  | @published m ps first data d _ _ _ hp =>
    have hperm := perm_targets hp d first
    have hsub := b.fanOut_sublist (fun _ => true) (fun d => some (.event b.id (m.started d data op)))
      (deliveries d first (group ps))
    rw [List.filter_true] at hsub
    have hmem : ∀ o ∈ b.fanOut (fun _ => true) (fun d => some (.event b.id (m.started d data op)))
        (deliveries d first (group ps)),
        ∃ slot ∈ b.targets hub m, b.connection? slot = some o.connection := by
      intro o ho
      obtain ⟨d', hd', hc⟩ := List.mem_flatMap.mp (hsub.subset (List.mem_map.mpr ⟨o, ho, rfl⟩))
      obtain ⟨slot, hslot, hc⟩ := List.mem_filterMap.mp hc
      exact ⟨slot, hperm.mem_iff.mp (List.mem_flatMap.mpr ⟨d', hd', hslot⟩), hc⟩
    refine ⟨(nodup_flatMap_connections hs.audience (slots_deliveries hp d first).1).sublist hsub,
      fun o ho => ?_, fun o ho => ?_⟩
    · obtain ⟨slot, hslot, hc⟩ := hmem o ho
      exact isAttached_of_mem_targets hslot hc
    · obtain ⟨slot, -, hc⟩ := hmem o ho
      exact mem_audience_of_connection? hc

/-- A start keeps a build sound. -/
theorem sound_start (hs : b.Sound) (h : b.start registry policy hub op = some t) : t.build.Sound := by
  have hsuppress : (b.suppress op).Sound := by
    refine ⟨hs.audience, fun x hx => ?_⟩
    rcases List.mem_cons.mp hx with rfl | hx
    · trivial
    · exact hs.entries x hx
  cases startCase_of_start h with
  | closed => exact hs
  | again => exact hs
  | unwanted => exact hsuppress
  | refused => exact hs
  | declined => exact hsuppress
  | @published m ps first data d _ _ _ hp hd =>
    refine ⟨hs.audience, fun x hx => ?_⟩
    rcases List.mem_cons.mp hx with rfl | hx
    · exact ⟨⟨data, hd⟩, slots_deliveries hp d first⟩
    · exact hs.entries x hx

/-! ### Starting, as one slot sees it -/

/-- What one slot is to be shown of a new operation: it wants the operation, and
the mapper makes a descriptor for the parent it sees. The other slots do not
come into it. -/
structure Shows (registry : Registry) (policy : ParentPolicy) (hub : Hub) (b : Build)
    (op : StartSignal) (slot : Nat) (s : Showing) : Prop where
  routed : registry.lookup op.details.kind = some s.mapper
  target : slot ∈ b.targets hub s.mapper
  op_eq : s.op = op
  described : ∃ p, resolve policy b.live slot op.parent = some p ∧
    (s.mapper.consult op p).1 = .ok (some s.descriptor)

/-- A start records its operation with an entry. -/
structure Records (registry : Registry) (policy : ParentPolicy) (hub : Hub) (b : Build)
    (op : StartSignal) (t : Turn) (e : Entry) : Prop where
  build : t.build = { b with live := b.live.insert op.id e }
  result : t.result = .ok ()
  parent : e.parent = op.parent
  offers : ∀ c, messagesTo c t.offers = ((e.shown (b.slotOf c)).map (·.started b.id)).toList
  made : ∀ slot s, e.shown slot = some s → s.Made registry op
  /-- What a slot is shown names the parent that it sees. -/
  sees : ∀ slot s, e.shown slot = some s →
    resolve policy b.live slot op.parent = some s.descriptor.parent
  shows_iff : (∀ m ∈ registry.mappers, m.Uniform) →
    ∀ slot s, e.shown slot = some s ↔ Shows registry policy hub b op slot s
  /-- A mapper that is asked does not refuse the operation under any parent. -/
  accepts : (∀ m ∈ registry.mappers, m.Uniform) → ∀ m, registry.lookup op.details.kind = some m →
    b.targets hub m ≠ [] → ∀ p e, (m.consult op p).1 ≠ .error e

/-- The mapper of an operation refuses it. -/
structure Refuses (registry : Registry) (hub : Hub) (b : Build) (op : StartSignal) (t : Turn)
    (e : Error) : Prop where
  refused : ∃ m p, registry.lookup op.details.kind = some m ∧ b.targets hub m ≠ [] ∧
    (m.consult op p).1 = .error e ∧ t.consulted = (m.consult op p).2
  unchanged : t.build = b
  result : t.result = .error e
  offers : t.offers = []

/-- The descriptor for a slot names the parent that the slot sees. -/
theorem descriptorFor_published {m : Mapper} (hf : m.Faithful)
    {ps : List (Option OperationId × Nat)} {first : Option OperationId} {d : Descriptor}
    (hp : resolveAll policy b.live op.parent (b.targets hub m) = some ps)
    (he : (m.consult op first).1 = .ok (some d)) {slot : Nat} (hslot : slot ∈ b.targets hub m) :
    ∃ p, resolve policy b.live slot op.parent = some p ∧
      descriptorFor slot (deliveries d first (group ps)) = some (d.withParent p) := by
  obtain ⟨hmap, hres⟩ := resolveAll_eq_some hp
  obtain ⟨⟨p, slot⟩, hx, rfl⟩ : ∃ x ∈ ps, x.2 = slot := by
    rw [← hmap] at hslot
    exact List.mem_map.mp hslot
  have hrp : resolve policy b.live slot op.parent = some p := hres _ hx
  have huniq : ∀ q, (q, slot) ∈ ps → q = p := fun q hq =>
    Option.some.inj ((hres _ hq).symm.trans hrp)
  refine ⟨p, hrp, ?_⟩
  rw [descriptorFor_deliveries d first (List.mem_map.mpr ⟨_, hx, rfl⟩) huniq]
  by_cases hpf : p = first
  · rw [if_pos hpf, hpf, ← hf.consult_parent he, Descriptor.withParent_parent]
  · rw [if_neg hpf]

theorem descriptorFor_not_target {m : Mapper} {ps : List (Option OperationId × Nat)}
    {first : Option OperationId} {d : Descriptor}
    (hp : resolveAll policy b.live op.parent (b.targets hub m) = some ps) {slot : Nat}
    (hslot : slot ∉ b.targets hub m) : descriptorFor slot (deliveries d first (group ps)) = none := by
  rw [← (resolveAll_eq_some hp).1] at hslot
  exact descriptorFor_deliveries_of_not_mem d first hslot

/-- The entry of a published operation shows each slot what it is to be shown,
although the mapper was asked for one parent only. -/
theorem shown_published_iff {m : Mapper} (hu : m.Uniform)
    {ps : List (Option OperationId × Nat)} {first : Option OperationId} {d : Descriptor}
    (hm : registry.lookup op.details.kind = some m)
    (hp : resolveAll policy b.live op.parent (b.targets hub m) = some ps)
    (he : (m.consult op first).1 = .ok (some d)) (slot : Nat) (s : Showing) :
    (Entry.published m op (deliveries d first (group ps))).shown slot = some s ↔
      Shows registry policy hub b op slot s := by
  by_cases hslot : slot ∈ b.targets hub m
  · obtain ⟨p, hrp, hdesc⟩ := descriptorFor_published hu.faithful hp he hslot
    have hcons : (m.consult op p).1 = .ok (some (d.withParent p)) := by
      rw [hu.consult_eq op first p, he]
      rfl
    rw [Entry.shown, hdesc, Option.map_some, Option.some.injEq]
    constructor
    · rintro rfl
      exact ⟨hm, hslot, rfl, p, hrp, hcons⟩
    · rintro ⟨hm', -, hop, q, hq, hd'⟩
      obtain ⟨m', op', d'⟩ := s
      obtain rfl : m = m' := Option.some.inj (hm.symm.trans hm')
      obtain rfl : p = q := Option.some.inj (hrp.symm.trans hq)
      obtain rfl : op' = op := hop
      rw [hcons, Except.ok.injEq, Option.some.injEq] at hd'
      rw [hd']
  · rw [Entry.shown, descriptorFor_not_target hp hslot]
    constructor
    · intro h
      simp at h
    · rintro ⟨hm', htarget, -⟩
      obtain rfl : m = s.mapper := Option.some.inj (hm.symm.trans hm')
      exact absurd htarget hslot

/-- An operation that is recorded as suppressed is shown to nobody. -/
theorem records_suppressed (b : Build) (op : StartSignal) (consulted : List Consultation)
    (h : (∀ m ∈ registry.mappers, m.Uniform) → ∀ slot s, ¬ Shows registry policy hub b op slot s)
    (ha : (∀ m ∈ registry.mappers, m.Uniform) → ∀ m, registry.lookup op.details.kind = some m →
      b.targets hub m ≠ [] → ∀ p e, (m.consult op p).1 ≠ .error e) :
    Records registry policy hub b op ⟨b.suppress op, .ok (), [], consulted⟩ (.suppressed op.parent) where
  build := rfl
  result := rfl
  parent := rfl
  offers _ := rfl
  made _ _ h := by simp [Entry.shown] at h
  sees _ _ h := by simp [Entry.shown] at h
  shows_iff hu slot s := ⟨fun he => by simp [Entry.shown] at he, fun hs => absurd hs (h hu slot s)⟩
  accepts := ha

/-- The entry of a published operation names for each slot the parent that the
slot sees. -/
theorem shown_published {m : Mapper} (hf : m.Faithful) {ps : List (Option OperationId × Nat)}
    {first : Option OperationId} {d : Descriptor}
    (hp : resolveAll policy b.live op.parent (b.targets hub m) = some ps)
    (he : (m.consult op first).1 = .ok (some d)) {slot : Nat} {s : Showing}
    (hsh : (Entry.published m op (deliveries d first (group ps))).shown slot = some s) :
    ∃ p, resolve policy b.live slot op.parent = some p ∧ s = ⟨m, op, d.withParent p⟩ := by
  by_cases hslot : slot ∈ b.targets hub m
  · obtain ⟨p, hrp, hdesc⟩ := descriptorFor_published hf hp he hslot
    rw [Entry.shown, hdesc, Option.map_some, Option.some.injEq] at hsh
    exact ⟨p, hrp, hsh.symm⟩
  · rw [Entry.shown, descriptorFor_not_target hp hslot] at hsh
    exact absurd hsh (by simp)

/-- An operation that is recorded as published. -/
theorem records_published {m : Mapper} (hf : m.Faithful) (hs : b.Sound)
    {ps : List (Option OperationId × Nat)} {first : Option OperationId} {data : m.Data}
    {d : Descriptor} (hm : registry.lookup op.details.kind = some m)
    (hp : resolveAll policy b.live op.parent (b.targets hub m) = some ps)
    (he : (m.consult op first).1 = .ok (some d)) (consulted : List Consultation) :
    Records registry policy hub b op
      ⟨{ b with live := b.live.insert op.id (.published m op (deliveries d first (group ps))) },
        .ok (),
        b.fanOut (fun _ => true) (fun d => some (.event b.id (m.started d data op)))
          (deliveries d first (group ps)),
        consulted⟩
      (.published m op (deliveries d first (group ps))) where
  build := rfl
  result := rfl
  parent := rfl
  offers c := by
    obtain ⟨hnd, hslots⟩ := slots_deliveries hp d first
    simp only [messagesTo_fanOut b _ _ c hs.audience _ hnd hslots, if_true, Entry.shown, hf.started_eq]
    cases descriptorFor (b.slotOf c) (deliveries d first (group ps)) <;> rfl
  made slot s hsh := by
    obtain ⟨p, -, rfl⟩ := shown_published hf hp he hsh
    refine ⟨rfl, lookup_mem hm, fun hu => ?_⟩
    rw [Descriptor.parent_withParent, (hu m (lookup_mem hm)).consult_eq op first p, he]
    rfl
  sees slot s hsh := by
    obtain ⟨p, hrp, rfl⟩ := shown_published hf hp he hsh
    exact hrp
  shows_iff hu := shown_published_iff (hu m (lookup_mem hm)) hm hp he
  accepts hu m' hm' _ p e := by
    obtain rfl : m = m' := Option.some.inj (hm.symm.trans hm')
    rw [(hu m (lookup_mem hm)).consult_eq op first p, he]
    simp [Except.map]

/-- A first start in an open build is refused by the mapper, or recorded so
that each slot is shown what it is to be shown. -/
theorem start_outcome (hf : ∀ m ∈ registry.mappers, m.Faithful) (hs : b.Sound)
    (ho : b.closed = false) (hl : b.live.get? op.id = none)
    (h : b.start registry policy hub op = some t) :
    (∃ e, Refuses registry hub b op t e) ∨ ∃ e, Records registry policy hub b op t e := by
  have hn : b.live.contains op.id = false := by rw [LiveTable.contains, hl]; rfl
  cases startCase_of_start h with
  | closed hc =>
    rw [ho] at hc
    exact absurd hc (by simp)
  | again _ hc =>
    rw [hn] at hc
    exact absurd hc (by simp)
  | unwanted _ _ hw =>
    have hnot : ∀ slot s, ¬ Shows registry policy hub b op slot s := by
      intro slot s hsh
      have htarget := hsh.target
      rw [hw _ hsh.routed] at htarget
      exact absurd htarget (by simp)
    exact Or.inr ⟨_, records_suppressed b op [] (fun _ => hnot) fun _ m hm hne => absurd (hw m hm) hne⟩
  | refused _ _ hm hw he => exact Or.inl ⟨_, ⟨_, _, hm, hw, he, rfl⟩, rfl, rfl, rfl⟩
  | @declined m first _ _ hm _ he =>
    have hdeclines : (∀ m ∈ registry.mappers, m.Uniform) → ∀ p, (m.consult op p).1 = .ok none := by
      intro hu p
      rw [(hu m (lookup_mem hm)).consult_eq op first p, he]
      rfl
    have hnot : (∀ m ∈ registry.mappers, m.Uniform) → ∀ slot s,
        ¬ Shows registry policy hub b op slot s := by
      intro hu slot s hsh
      obtain ⟨p, -, hd⟩ := hsh.described
      obtain hms : m = s.mapper := Option.some.inj (hm.symm.trans hsh.routed)
      rw [← hms, hdeclines hu] at hd
      exact absurd hd (by simp)
    refine Or.inr ⟨_, records_suppressed b op _ hnot fun hu m' hm' _ p e => ?_⟩
    obtain rfl : m = m' := Option.some.inj (hm.symm.trans hm')
    rw [hdeclines hu]
    simp
  | published _ _ hm hp hd he =>
    exact Or.inr ⟨_, records_published (hf _ (lookup_mem hm)) hs hm hp he _⟩

end Start

/-! ### Finishing -/

section Finish

variable {hub : Hub} {b : Build} {f : FinishSignal}

theorem finishedEvent_of_dataOf {m : Mapper} {op : StartSignal} {data : m.Data}
    (hd : m.dataOf op = .ok data) (d : Descriptor) :
    m.finishedEvent d op f = .ok (m.finished d data op f) := by
  rw [Mapper.finishedEvent, hd]
  rfl

theorem finishedOffers_of_dataOf (b : Build) (hub : Hub) {m : Mapper} {op : StartSignal}
    {data : m.Data} (hd : m.dataOf op = .ok data) (f : FinishSignal) :
    ∀ ds : List Delivery, b.finishedOffers hub m op f ds =
      (b.fanOut hub.isAttached (fun d => (m.finished d data op f).map (.event b.id)) ds, .ok ())
  | [] => rfl
  | d :: ds => by
    rw [finishedOffers, finishedEvent_of_dataOf hd, finishedOffers_of_dataOf b hub hd f ds, fanOut_cons]
    cases m.finished d.descriptor data op f <;> rfl

theorem entry_sound (hs : b.Sound) {id : OperationId} {e : Entry} (h : b.live.get? id = some e) :
    e.Sound b.audience := by
  obtain ⟨l₁, l₂, hl, -⟩ := List.lookup_eq_some_iff.mp h
  exact hs.entries (id, e) (by rw [hl]; simp)

/-- The finish of a live operation: it is forgotten, and each attached
connection whose slot was shown it is sent what the slot was shown. -/
theorem finish_of_live (hub : Hub) (hs : b.Sound) (ho : b.closed = false) {e : Entry}
    (hl : b.live.get? f.id = some e) :
    (b.finish hub f).build = { b with live := b.live.erase f.id } ∧
    (b.finish hub f).result = .ok () ∧
    ((b.finish hub f).offers.map (·.connection)).Nodup ∧
    ∀ c, messagesTo c (b.finish hub f).offers =
      if hub.isAttached c then ((e.shown (b.slotOf c)).bind (·.finished b.id f)).toList else [] := by
  cases e with
  | suppressed p =>
    have hf : b.finish hub f = ({ b with live := b.live.erase f.id } : Build).quiet (.ok ()) := by
      simp [finish, ho, hl]
    rw [hf]
    exact ⟨rfl, rfl, List.nodup_nil, fun c => by simp [quiet, Entry.shown]⟩
  | published m op ds =>
    obtain ⟨⟨data, hd⟩, hnd, hslots⟩ := entry_sound hs hl
    have hf : b.finish hub f = ⟨{ b with live := b.live.erase f.id }, .ok (),
        b.fanOut hub.isAttached (fun d => (m.finished d data op f).map (.event b.id)) ds, []⟩ := by
      simp [finish, ho, hl, finishedOffers_of_dataOf b hub hd f ds]
    have hsub := b.fanOut_sublist hub.isAttached
      (fun d => (m.finished d data op f).map (.event b.id)) ds
    rw [hf]
    have hconnections := nodup_flatMap_connections hs.audience hnd
    refine ⟨rfl, rfl, (hconnections.filter hub.isAttached).sublist hsub, fun c => ?_⟩
    rw [messagesTo_fanOut b _ _ c hs.audience ds hnd hslots, Entry.shown]
    cases hdesc : descriptorFor (b.slotOf c) ds with
    | none => rfl
    | some d =>
      simp only [Option.map_some, Option.bind_some, Showing.finished, finishedEvent_of_dataOf hd]
      cases m.finished d data op f <;> rfl

theorem finish_of_closed (hc : b.closed = true) : b.finish hub f = b.quiet (.ok ()) := by
  simp [finish, hc]

theorem finish_of_unknown (hl : b.live.get? f.id = none) : b.finish hub f = b.quiet (.ok ()) := by
  simp [finish, hl]

/-- A finish offers its messages properly. -/
theorem proper_finish (hub : Hub) (f : FinishSignal) (hs : b.Sound) : (b.finish hub f).Proper hub b := by
  cases hc : b.closed with
  | true =>
    rw [finish_of_closed hc]
    exact Turn.proper_of_nil rfl
  | false =>
    cases hl : b.live.get? f.id with
    | none =>
      rw [finish_of_unknown hl]
      exact Turn.proper_of_nil rfl
    | some e =>
      obtain ⟨-, -, hnd, hmsg⟩ := finish_of_live hub hs hc hl
      have hmem : ∀ o ∈ (b.finish hub f).offers, hub.isAttached o.connection = true ∧
          ∃ s, e.shown (b.slotOf o.connection) = some s := by
        intro o ho
        have hm := hmsg o.connection ▸ mem_messagesTo.mpr ho
        by_cases ha : hub.isAttached o.connection
        · refine ⟨ha, ?_⟩
          cases hsh : e.shown (b.slotOf o.connection) with
          | none => rw [hsh] at hm; simp [ha] at hm
          | some s => exact ⟨s, rfl⟩
        · simp [ha] at hm
      refine ⟨hnd, fun o ho => (hmem o ho).1, fun o ho => ?_⟩
      obtain ⟨-, s, hsh⟩ := hmem o ho
      have hes := entry_sound hs hl
      cases e with
      | suppressed p => simp [Entry.shown] at hsh
      | published m op ds =>
        refine slotOf_lt_iff.mp (hes.2.2 _ ?_)
        by_contra hn
        rw [Entry.shown, descriptorFor_eq_none.mpr hn] at hsh
        simp at hsh

theorem sound_erase (hs : b.Sound) (id : OperationId) :
    Sound { b with live := b.live.erase id } :=
  ⟨hs.audience, fun x hx => hs.entries x (List.mem_filter.mp hx).1⟩

theorem sound_finish (hs : b.Sound) : (b.finish hub f).build.Sound := by
  cases hc : b.closed with
  | true => rw [finish_of_closed hc]; exact hs
  | false =>
    cases hl : b.live.get? f.id with
    | none => rw [finish_of_unknown hl]; exact hs
    | some e =>
      rw [(finish_of_live hub hs hc hl).1]
      exact sound_erase hs f.id

theorem closed_finish (hub : Hub) (f : FinishSignal) (hs : b.Sound) :
    (b.finish hub f).build.closed = b.closed := by
  cases hc : b.closed with
  | true => rw [finish_of_closed hc]; exact hc
  | false =>
    cases hl : b.live.get? f.id with
    | none => rw [finish_of_unknown hl]; exact hc
    | some e => rw [(finish_of_live hub hs hc hl).1, hc]

theorem finish_result (hs : b.Sound) : (b.finish hub f).result = .ok () := by
  cases hc : b.closed with
  | true => rw [finish_of_closed hc]; rfl
  | false =>
    cases hl : b.live.get? f.id with
    | none => rw [finish_of_unknown hl]; rfl
    | some e => exact (finish_of_live hub hs hc hl).2.1

end Finish

/-! ### Beginning and ending -/

theorem sound_begin (id : BuildId) {audience : List Nat} (h : audience.Nodup) :
    (begin id audience).Sound := ⟨h, fun x hx => absurd hx (by simp [begin])⟩

section Close

variable {hub : Hub} {b : Build} {reason : EndReason}

theorem close_of_closed (hc : b.closed = true) : b.close hub reason = b.quiet (.ok ()) := by
  simp [close, hc]

theorem close_of_open (ho : b.closed = false) : b.close hub reason =
    ⟨{ b with live := [], closed := true }, .ok (),
      (b.present hub).map (⟨·, .endOfStream b.id reason⟩), []⟩ := by
  simp [close, ho]

/-- The end of a build: every attached connection of the audience is told. -/
theorem messagesTo_close (hs : b.Sound) (c : Nat) :
    messagesTo c (b.close hub reason).offers =
      if b.closed = false ∧ c ∈ b.audience ∧ hub.isAttached c = true then
        [.endOfStream b.id reason] else [] := by
  cases hc : b.closed with
  | true =>
    rw [close_of_closed hc]
    simp [quiet]
  | false =>
    have hp : (b.present hub).Nodup := hs.audience.filter _
    rw [close_of_open hc, messagesTo_map c _ _ hp]
    simp [present]

theorem proper_close (hub : Hub) (reason : EndReason) (hs : b.Sound) : (b.close hub reason).Proper hub b := by
  cases hc : b.closed with
  | true =>
    rw [close_of_closed hc]
    exact Turn.proper_of_nil rfl
  | false =>
    rw [close_of_open hc]
    have hmem : ∀ o ∈ (b.present hub).map (Offer.mk · (.endOfStream b.id reason)),
        o.connection ∈ b.present hub := by
      intro o ho
      obtain ⟨c, hc, rfl⟩ := List.mem_map.mp ho
      exact hc
    constructor
    · show (((b.present hub).map (Offer.mk · (.endOfStream b.id reason))).map (·.connection)).Nodup
      rw [List.map_map, Function.comp_def, List.map_id']
      exact hs.audience.filter _
    · intro o ho
      exact (List.mem_filter.mp (hmem o ho)).2
    · intro o ho
      exact (List.mem_filter.mp (hmem o ho)).1

theorem closed_close (hub : Hub) (reason : EndReason) (b : Build) :
    (b.close hub reason).build.closed = true := by
  cases hc : b.closed with
  | true =>
    rw [close_of_closed hc]
    exact hc
  | false => rw [close_of_open hc]

theorem sound_close (hs : b.Sound) : (b.close hub reason).build.Sound := by
  cases hc : b.closed with
  | true =>
    rw [close_of_closed hc]
    exact hs
  | false =>
    rw [close_of_open hc]
    exact ⟨hs.audience, fun x hx => absurd hx (by simp)⟩

end Close

/-! ### Live operations -/

section Live

variable {registry : Registry} {policy : ParentPolicy} {hub : Hub} {b : Build} {op : StartSignal}
  {t : Turn}

/-- A start leaves the live operations, or adds its own, which was not live. -/
theorem live_start (h : b.start registry policy hub op = some t) : t.build.live = b.live ∨
    (b.live.get? op.id = none ∧
      ∃ e, e.parent = op.parent ∧ t.build.live = b.live.insert op.id e) := by
  have hnone : b.live.contains op.id = false → b.live.get? op.id = none := by
    intro hl
    rw [LiveTable.contains, Option.isSome_eq_false_iff] at hl
    exact Option.isNone_iff_eq_none.mp hl
  cases startCase_of_start h with
  | closed => exact Or.inl rfl
  | again => exact Or.inl rfl
  | unwanted _ hl => exact Or.inr ⟨hnone hl, _, rfl, rfl⟩
  | refused => exact Or.inl rfl
  | declined _ hl => exact Or.inr ⟨hnone hl, _, rfl, rfl⟩
  | published _ hl => exact Or.inr ⟨hnone hl, _, rfl, rfl⟩

/-- A finish in an open build forgets its operation. -/
theorem live_finish_of_open (hub : Hub) (f : FinishSignal) (hs : b.Sound) (ho : b.closed = false) :
    (b.finish hub f).build.live = b.live.erase f.id := by
  cases hl : b.live.get? f.id with
  | none =>
    rw [finish_of_unknown hl]
    refine (List.filter_eq_self.mpr fun x hx => ?_).symm
    have hne := List.lookup_eq_none_iff.mp hl x hx
    rw [bne_iff_ne] at hne
    exact decide_eq_true hne.symm
  | some e => rw [(finish_of_live hub hs ho hl).1]

theorem live_finish (hub : Hub) (f : FinishSignal) (hs : b.Sound) :
    (b.finish hub f).build.live = b.live ∨
      (b.finish hub f).build.live = b.live.erase f.id := by
  cases hc : b.closed with
  | true =>
    rw [finish_of_closed hc]
    exact Or.inl rfl
  | false => exact Or.inr (live_finish_of_open hub f hs hc)

/-- A finish asks no mapper for a descriptor. -/
theorem consulted_finish (hub : Hub) (f : FinishSignal) (b : Build) :
    (b.finish hub f).consulted = [] := by
  unfold finish
  split
  · rfl
  · split <;> rfl

theorem live_close (hub : Hub) (reason : EndReason) (b : Build) :
    (b.close hub reason).build.live = b.live ∨ (b.close hub reason).build.live = [] := by
  unfold close
  split
  · exact Or.inl rfl
  · exact Or.inr rfl

end Live

/-! ### What a call keeps -/

/-- What a call leaves of a build: its id and its audience, and that it has ended. -/
structure Kept (b b' : Build) : Prop where
  id_eq : b'.id = b.id
  audience_eq : b'.audience = b.audience
  closed : b.closed = true → b'.closed = true

section Kept

variable {registry : Registry} {policy : ParentPolicy} {hub : Hub} {b : Build} {op : StartSignal}
  {t : Turn}

theorem kept_start (h : b.start registry policy hub op = some t) : b.Kept t.build := by
  cases startCase_of_start h <;> exact ⟨rfl, rfl, fun hc => hc⟩

theorem kept_finish (hub : Hub) (f : FinishSignal) (hs : b.Sound) :
    b.Kept (b.finish hub f).build := by
  cases hc : b.closed with
  | true =>
    rw [finish_of_closed hc]
    exact ⟨rfl, rfl, fun hc => hc⟩
  | false =>
    cases hl : b.live.get? f.id with
    | none =>
      rw [finish_of_unknown hl]
      exact ⟨rfl, rfl, fun hc => hc⟩
    | some e =>
      rw [(finish_of_live hub hs hc hl).1]
      exact ⟨rfl, rfl, fun hc => hc⟩

theorem kept_close (hub : Hub) (reason : EndReason) (b : Build) :
    b.Kept (b.close hub reason).build := by
  refine ⟨?_, ?_, fun _ => closed_close hub reason b⟩ <;> (unfold close; split <;> rfl)

end Kept

end Build

end BuildFeed
