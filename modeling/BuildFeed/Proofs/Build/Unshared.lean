/-
# Asking the mapper for each slot

A start asks the mapper once and puts the other parents into the descriptor. The
plain way is to ask it for each slot that wants the operation, under the parent
that the slot sees (`Build.startEach`). If the mapper treats all parents alike,
nobody can tell the two ways apart (`Build.startEach_same`): they return for the
same operations with the same result, leave the operation in the same state, and
show each connection the same. Only the record of the mappers that were asked
differs.

Key definitions: `Build.describeEach`, `Build.publishEach`, `Build.startEach`,
`Turn.unasked`.
Key theorems: `Build.describeEach_of_described`, `Build.publishEach_same`,
`Build.startEach_same`.
-/
import BuildFeed.Proofs.Build.Order

namespace BuildFeed

/-- What a call answers and offers, without the record of the mappers that were asked. -/
def Turn.unasked (t : Turn) : Turn := { t with consulted := [] }

namespace Build

/-! ### The plain way -/

/-- A descriptor for each slot, for which the mapper is asked under the parent that the
slot sees, or the first error. -/
def describeEach (m : Mapper) (op : StartSignal) :
    List (Option OperationId × Nat) → Except Error (List Delivery) × List Consultation
  | [] => (.ok [], [])
  | (p, slot) :: rest =>
    match m.consult op p with
    | (.error e, asked) => (.error e, asked)
    | (.ok o, asked) =>
      match describeEach m op rest with
      | (.error e, asked') => (.error e, asked ++ asked')
      | (.ok ds, asked') => (.ok (o.toList.map (⟨·, [slot]⟩) ++ ds), asked ++ asked')

/-- Publishes an operation to slots with the parents that they see. -/
def publishEach (b : Build) (m : Mapper) (op : StartSignal) (ps : List (Option OperationId × Nat)) :
    Turn :=
  match describeEach m op ps with
  | (.error e, asked) => ⟨b, .error e, [], asked⟩
  | (.ok [], asked) => ⟨b.suppress op, .ok (), [], asked⟩
  | (.ok (d :: ds), asked) =>
    match b.startedOffers m op (d :: ds) with
    | .error e => ⟨b, .error e, [], asked⟩
    | .ok offers =>
      ⟨{ b with live := b.live.insert op.id (.published m op (d :: ds)) }, .ok (), offers, asked⟩

/-- An operation starts, and its mapper is asked for each slot. -/
def startEach (registry : Registry) (policy : ParentPolicy) (hub : Hub) (op : StartSignal)
    (b : Build) : Option Turn :=
  if b.closed then some (b.quiet (.ok ()))
  else if b.live.contains op.id then some (b.quiet (.error (b.startedTwice op.id)))
  else
    match registry.lookup op.details.kind with
    | none => some ((b.suppress op).quiet (.ok ()))
    | some m => (resolveAll policy b.live op.parent (b.targets hub m)).map (b.publishEach m op)

/-! ### What the mapper answers for each slot -/

section Describe

variable {m : Mapper} {op : StartSignal} {ps : List (Option OperationId × Nat)} {d : Descriptor}

theorem describeEach_of_error {e : Error} (h : ∀ p, (m.consult op p).1 = .error e) (hps : ps ≠ []) :
    (describeEach m op ps).1 = .error e := by
  cases ps with
  | nil => exact absurd rfl hps
  | cons x rest =>
    have hx := h x.1
    rw [describeEach]
    cases hr : m.consult op x.1 with
    | mk r asked =>
      obtain rfl : r = .error e := by rw [← hx, hr]
      rfl

theorem describeEach_of_declined (h : ∀ p, (m.consult op p).1 = .ok none) :
    ∀ ps, (describeEach m op ps).1 = .ok []
  | [] => rfl
  | x :: rest => by
    have hx := h x.1
    have ih := describeEach_of_declined h rest
    rw [describeEach]
    cases hr : m.consult op x.1 with
    | mk r asked =>
      cases hd : describeEach m op rest with
      | mk r' asked' =>
        obtain rfl : r = .ok none := by rw [← hx, hr]
        obtain rfl : r' = .ok [] := by rw [← ih, hd]
        rfl

/-- The descriptors differ in the parents alone. -/
theorem describeEach_of_described (h : ∀ p, (m.consult op p).1 = .ok (some (d.withParent p))) :
    ∀ ps, (describeEach m op ps).1 = .ok (ps.map fun x => ⟨d.withParent x.1, [x.2]⟩)
  | [] => rfl
  | x :: rest => by
    have hx := h x.1
    have ih := describeEach_of_described h rest
    rw [describeEach]
    cases hr : m.consult op x.1 with
    | mk r asked =>
      cases hd : describeEach m op rest with
      | mk r' asked' =>
        obtain rfl : r = .ok (some (d.withParent x.1)) := by rw [← hx, hr]
        obtain rfl : r' = .ok (rest.map fun x => ⟨d.withParent x.1, [x.2]⟩) := by rw [← ih, hd]
        rfl

theorem slots_each (d : Descriptor) : ∀ ps : List (Option OperationId × Nat),
    (ps.map fun x => (⟨d.withParent x.1, [x.2]⟩ : Delivery)).flatMap (·.slots) = ps.map (·.2)
  | [] => rfl
  | x :: rest => by
    rw [List.map_cons, List.flatMap_cons, slots_each d rest]
    rfl

/-- A slot gets the descriptor that names the parent it sees. -/
theorem descriptorFor_each (d : Descriptor) {p : Option OperationId} {slot : Nat} :
    ∀ {ps : List (Option OperationId × Nat)}, slot ∈ ps.map (·.2) → (∀ q, (q, slot) ∈ ps → q = p) →
      descriptorFor slot (ps.map fun x => ⟨d.withParent x.1, [x.2]⟩) = some (d.withParent p)
  | [], hslot, _ => absurd hslot (by simp)
  | (q, slot') :: rest, hslot, hp => by
    rw [List.map_cons, descriptorFor_cons]
    by_cases hx : slot = slot'
    · subst hx
      rw [if_pos (List.mem_singleton_self _), hp q List.mem_cons_self]
    · rw [if_neg (by simpa using hx)]
      refine descriptorFor_each d ?_ fun r hr => hp r (List.mem_cons_of_mem _ hr)
      rw [List.map_cons, List.mem_cons] at hslot
      exact hslot.resolve_left hx

end Describe

/-! ### The two ways -/

theorem Same.refl (b : Build) : b.Same b := ⟨fun _ => ⟨rfl, rfl, Iff.rfl, rfl⟩, rfl⟩

section Start

variable {registry : Registry} {policy : ParentPolicy} {hub : Hub} {b : Build} {op : StartSignal}
  {m : Mapper} {ps : List (Option OperationId × Nat)} {first : Option OperationId} {d : Descriptor}

/-- Each slot finds the same descriptor in the deliveries to groups and in those to
single slots. -/
theorem descriptorFor_each_eq (hu : m.Uniform)
    (hp : resolveAll policy b.live op.parent (b.targets hub m) = some ps)
    (he : (m.consult op first).1 = .ok (some d)) (slot : Nat) :
    descriptorFor slot (ps.map fun x => ⟨d.withParent x.1, [x.2]⟩) =
      descriptorFor slot (deliveries d first (group ps)) := by
  obtain ⟨hmap, hres⟩ := resolveAll_eq_some hp
  by_cases hslot : slot ∈ b.targets hub m
  · obtain ⟨p, hrp, hdesc⟩ := descriptorFor_published hu.faithful hp he hslot
    have hparent : ∀ q, (q, slot) ∈ ps → q = p := fun q hq =>
      Option.some.inj ((hres _ hq).symm.trans hrp)
    rw [hdesc, descriptorFor_each d (by rw [hmap]; exact hslot) hparent]
  · rw [descriptorFor_not_target hp hslot, descriptorFor_eq_none, slots_each, hmap]
    exact hslot

/-- Publishing to groups and to single slots. -/
theorem publishEach_same (hu : m.Uniform) (hs : b.Sound) (hl : b.live.contains op.id = false)
    (hp : resolveAll policy b.live op.parent (b.targets hub m) = some ps) (hps : ps ≠ [])
    (first : Option OperationId) :
    (b.publish m op first (group ps)).unasked.Same (b.publishEach m op ps).unasked ∧
      ((b.publish m op first (group ps)).build.Sound → (b.publishEach m op ps).build.Sound) := by
  unfold publish publishEach
  have hothers := hu.consult_eq op first
  cases hr : m.consult op first with
  | mk r asked =>
    rw [hr] at hothers
    cases hd : describeEach m op ps with
    | mk r' asked' =>
      cases r with
      | error e =>
        have hr' : (describeEach m op ps).1 = .error e := describeEach_of_error hothers hps
        rw [hd] at hr'
        subst hr'
        exact ⟨⟨Same.refl b, rfl, fun _ => rfl, rfl⟩, fun h => h⟩
      | ok o =>
        cases o with
        | none =>
          have hr' : (describeEach m op ps).1 = .ok [] := describeEach_of_declined hothers ps
          rw [hd] at hr'
          subst hr'
          exact ⟨⟨Same.refl _, rfl, fun _ => rfl, rfl⟩, fun h => h⟩
        | some d =>
          have he : (m.consult op first).1 = .ok (some d) := by rw [hr]
          have hr' : (describeEach m op ps).1 = .ok (ps.map fun x => ⟨d.withParent x.1, [x.2]⟩) :=
            describeEach_of_described hothers ps
          rw [hd] at hr'
          subst hr'
          obtain ⟨data, hdata⟩ := dataOf_of_consult he
          obtain ⟨x, rest, rfl⟩ := List.exists_cons_of_ne_nil hps
          have heach := descriptorFor_each_eq hu hp he
          obtain ⟨hnodup, hslots⟩ := slots_deliveries hp d first
          have heachSlots := slots_each d (x :: rest)
          rw [(resolveAll_eq_some hp).1] at heachSlots
          have hnodupEach := heachSlots ▸ nodup_targets b hub m
          have hslotsEach : ∀ slot ∈ ((x :: rest).map fun x =>
              (⟨d.withParent x.1, [x.2]⟩ : Delivery)).flatMap (·.slots), slot < b.audience.length :=
            fun slot hslot => lt_of_mem_targets (heachSlots ▸ hslot)
          simp only [List.map_cons] at heach hnodupEach hslotsEach ⊢
          simp only [startedOffers_of_dataOf b hdata, hl, Bool.false_eq_true, if_false]
          refine ⟨⟨⟨fun c => ⟨rfl, rfl, Iff.rfl, ?_⟩, rfl⟩, rfl, fun c => ?_, rfl⟩, fun _ => ?_⟩
          · show LiveTable.view (b.slotOf c) (b.live.insert _ _) =
              LiveTable.view (b.slotOf c) (b.live.insert _ _)
            rw [LiveTable.view_insert, LiveTable.view_insert, Entry.shown, Entry.shown, heach]
            rfl
          · simp only [Turn.unasked]
            rw [messagesTo_fanOut b _ _ c hs.audience _ hnodupEach hslotsEach,
              messagesTo_fanOut b _ _ c hs.audience _ hnodup hslots, heach]
          · refine ⟨hs.audience, fun y hy => ?_⟩
            rcases List.mem_cons.mp hy with rfl | hy
            · exact ⟨⟨data, hdata⟩, hnodupEach, hslotsEach⟩
            · exact hs.entries y hy

/-- Starting in the two ways: both return, or none, and nobody can tell them apart. -/
theorem startEach_same (policy : ParentPolicy) (hub : Hub) (op : StartSignal)
    (hu : ∀ m ∈ registry.mappers, m.Uniform) (hs : b.Sound) :
    Option.Rel (fun t t' => t.unasked.Same t'.unasked ∧ t'.build.Sound)
      (b.start registry policy hub op) (b.startEach registry policy hub op) := by
  have hsound : ∀ {t}, b.start registry policy hub op = some t → t.build.Sound := sound_start hs
  unfold startEach
  unfold start at hsound ⊢
  split
  · exact .some ⟨⟨Same.refl b, rfl, fun _ => rfl, rfl⟩, hs⟩
  · rename_i ho
    split
    · exact .some ⟨⟨Same.refl b, rfl, fun _ => rfl, rfl⟩, hs⟩
    · rename_i hl
      simp only [ho, hl] at hsound
      cases hm : registry.lookup op.details.kind with
      | none =>
        simp only [hm] at hsound
        exact .some ⟨⟨Same.refl _, rfl, fun _ => rfl, rfl⟩, hsound rfl⟩
      | some m =>
        simp only [hm] at hsound ⊢
        cases hp : resolveAll policy b.live op.parent (b.targets hub m) with
        | none => exact .none
        | some ps =>
          simp only [hp] at hsound
          cases ps with
          | nil => exact .some ⟨⟨Same.refl _, rfl, fun _ => rfl, rfl⟩, hsound rfl⟩
          | cons x rest =>
            obtain ⟨slots, gs, hg⟩ := exists_group_cons x.1 x.2 rest
            obtain ⟨hsame, hkeeps⟩ := publishEach_same (hu m (lookup_mem hm)) hs
              (Bool.eq_false_iff.mpr hl) hp (List.cons_ne_nil x rest) x.1
            simp only [hg] at hsound hsame hkeeps ⊢
            exact .some ⟨hsame, hkeeps (hsound rfl)⟩

end Start

end Build

end BuildFeed
