/-
# What is kept of published operations

A build keeps of an operation that it published the mapper, the start signal
and the deliveries: descriptors, each with the slots that it was made for. The
deliveries come of grouping the slots that want the operation by the parents
that they see, so each has a slot, no two name one parent, and their
descriptors differ in nothing else (`Deliveries`). That is so when they are
made (`Build.Records.deliveries`), and no call changes it, because connections
keep their subscriptions, the build keeps its audience, and it keeps the entry
as it is.

Publishing tears down whoever has no room for the news, and the entry has
their slots still. Of the connections that are attached it has the slots of
those that the news was queued for, and only those
(`History.accepted_of_attached`).

Key definitions: `Deliveries`, `Represents`.
Key theorems: `Build.deliveries_of_group`, `Build.Records.deliveries`,
`History.accepted_of_attached`, `History.deliveries_follow`,
`entries_represent_publications`.
-/
import BuildFeed.Proofs.Session.FanOut
import BuildFeed.Proofs.Session.Fates

namespace BuildFeed

/-! ### Deliveries -/

/-- The deliveries of an operation, made by its mapper for slots of an audience. -/
structure Deliveries (hub : Hub) (audience : List Nat) (m : Mapper) (op : StartSignal)
    (ds : List Delivery) : Prop where
  some_delivery : ds ≠ []
  inhabited : ∀ d ∈ ds, d.slots ≠ []
  described : ∀ d ∈ ds, d.descriptor.id = op.id
  enabled : ∀ d ∈ ds, ∀ slot ∈ d.slots, ∃ c x, audience[slot]? = some c ∧
    hub.connections[c]? = some x ∧ m.isEnabled x.subscriptions = true
  /-- No two descriptors name one parent, -/
  parents : (ds.map (·.descriptor.parent)).Nodup
  /-- and the parent is all that they differ in. -/
  alike : ∀ d ∈ ds, ∀ d' ∈ ds, d'.descriptor = d.descriptor.withParent d'.descriptor.parent

/-- Connections keep their subscriptions, so deliveries made once stay what they are. -/
theorem Deliveries.mono {hub hub' : Hub} {audience : List Nat} {m : Mapper} {op : StartSignal}
    {ds : List Delivery} (h : Deliveries hub audience m op ds)
    (hkept : ∀ {c : Nat} {x}, hub.connections[c]? = some x →
      ∃ y, hub'.connections[c]? = some y ∧ y.subscriptions = x.subscriptions) :
    Deliveries hub' audience m op ds := by
  refine { h with enabled := fun d hd slot hslot => ?_ }
  obtain ⟨c, x, hc, hx, henabled⟩ := h.enabled d hd slot hslot
  obtain ⟨y, hy, hsubs⟩ := hkept hx
  exact ⟨c, y, hc, hy, hsubs ▸ henabled⟩

/-- A slot finds the descriptor of the delivery that it is in. -/
theorem descriptorFor_of_mem {slot : Nat} {d : Delivery} : ∀ {ds : List Delivery},
    (ds.flatMap (·.slots)).Nodup → d ∈ ds → slot ∈ d.slots →
      descriptorFor slot ds = some d.descriptor
  | [], _, hd, _ => absurd hd (by simp)
  | d' :: ds, hn, hd, hslot => by
    rw [List.flatMap_cons, List.nodup_append] at hn
    obtain ⟨-, hds, hdisj⟩ := hn
    rw [descriptorFor_cons]
    rcases List.mem_cons.mp hd with rfl | hd
    · rw [if_pos hslot]
    · have hnot : slot ∉ d'.slots := fun hslot' =>
        hdisj slot hslot' slot (List.mem_flatMap.mpr ⟨d, hd, hslot⟩) rfl
      rw [if_neg hnot]
      exact descriptorFor_of_mem hds hd hslot

namespace Build

variable {registry : Registry} {policy : ParentPolicy} {hub : Hub} {b : Build} {op : StartSignal}
  {t : Turn} {m : Mapper} {ps : List (Option OperationId × Nat)} {first : Option OperationId}
  {d : Descriptor} {e : Entry} {ds : List Delivery}

theorem exists_connection_of_mem_targets {slot : Nat} (h : slot ∈ b.targets hub m) :
    ∃ c x, b.audience[slot]? = some c ∧ hub.connections[c]? = some x ∧
      m.isEnabled x.subscriptions = true := by
  obtain ⟨c, hc, subs, hsubs, henabled⟩ := mem_targets.mp h
  obtain ⟨x, hx, hsome⟩ := Option.bind_eq_some_iff.mp hsubs
  by_cases ha : x.attached = true
  · rw [if_pos ha, Option.some.injEq] at hsome
    exact ⟨c, x, hc, hx, hsome ▸ henabled⟩
  · rw [if_neg ha] at hsome
    exact absurd hsome (by simp)

/-- The descriptor of a group is the one that was made, under the parent of the group. -/
theorem deliveries_eq_map (hparent : d.parent = first) (gs : List Group) :
    deliveries d first gs = gs.map fun g => ⟨d.withParent g.1, g.2⟩ := by
  refine List.map_congr_left fun g _ => ?_
  obtain ⟨p, slots⟩ := g
  by_cases hp : p = first
  · simp only [if_pos hp]
    rw [hp, ← hparent, Descriptor.withParent_parent]
  · simp only [if_neg hp]

/-- A descriptor for each group of slots that see one parent. -/
theorem deliveries_of_group (hu : m.Uniform) (hw : b.targets hub m ≠ [])
    (hp : resolveAll policy b.live op.parent (b.targets hub m) = some ps)
    (he : (m.consult op first).1 = .ok (some d)) :
    Deliveries hub b.audience m op (deliveries d first (group ps)) := by
  have hperm := perm_targets hp d first
  have hgrouped := grouped_group ps
  rw [deliveries_eq_map (hu.faithful.consult_parent he)] at hperm ⊢
  constructor
  case some_delivery =>
    intro hnil
    rw [hnil] at hperm
    exact hw hperm.nil_eq.symm
  case inhabited =>
    intro x hx
    obtain ⟨g, hg, rfl⟩ := List.mem_map.mp hx
    exact hgrouped.inhabited g hg
  case described =>
    intro x hx
    obtain ⟨g, -, rfl⟩ := List.mem_map.mp hx
    rw [Descriptor.id_withParent, hu.consult_id he]
  case enabled =>
    intro x hx slot hslot
    have htarget : slot ∈ b.targets hub m :=
      hperm.mem_iff.mp (List.mem_flatMap.mpr ⟨x, hx, hslot⟩)
    exact exists_connection_of_mem_targets htarget
  case parents =>
    rw [List.map_map]
    exact hgrouped.apart
  case alike =>
    intro x hx y hy
    obtain ⟨g, -, rfl⟩ := List.mem_map.mp hx
    obtain ⟨g', -, rfl⟩ := List.mem_map.mp hy
    rfl

/-- What a start records as published. -/
theorem Records.deliveries (hr : Records registry policy hub b op t (.published m op ds))
    (hu : ∀ m ∈ registry.mappers, m.Uniform) (ho : b.closed = false)
    (hl : b.live.get? op.id = none) (h : b.start registry policy hub op = some t) :
    Deliveries hub b.audience m op ds := by
  obtain ⟨m', p, d, hasks, -⟩ := (hr.isPublished_iff (firstStart_of_start ho hl h)).mp rfl
  obtain ⟨slot, slots, htargets, -⟩ := hasks.first
  cases startCase_of_start h with
  | closed hc => exact absurd (ho.symm.trans hc) (by simp)
  | again _ hlive => simp [LiveTable.contains, hl] at hlive
  | unwanted => exact absurd (hr.entry_eq rfl) (by simp)
  | refused => exact absurd hr.result (by simp)
  | declined => exact absurd (hr.entry_eq rfl) (by simp)
  | published _ _ hm hp _ he =>
    obtain ⟨rfl, -, rfl⟩ := Entry.published.inj (hr.entry_eq rfl)
    obtain rfl := Option.some.inj (hm.symm.trans hasks.routed)
    exact deliveries_of_group (hu _ (lookup_mem hm)) (by simp [htargets]) hp he

end Build

namespace History

variable {listing : Listing} {config : Config} {registry : Registry} {s₀ s : Session}
  {h : List Call} {i c : Nat} {b : Build} {k : Call}

/-- A connection that is still attached has queued all that it was ever offered. -/
theorem accepted_of_attached (h₀ : s₀.Sound) (hist : History listing s₀ h s) (hk : k ∈ h)
    (ha : s.hub.isAttached c = true) : k.accepted c = k.offered c := by
  obtain ⟨pre, post, -, hpre, he, hpost⟩ := hist.exists_split hk
  have hsound := hpre.sound h₀
  cases hc : k.before.hub.connections[c]? with
  | none =>
    have hnone : k.offered c = [] := (he.nothing hsound hc).1
    rw [hnone, Call.accepted, hc]
  | some x =>
    obtain ⟨y, hy, hfate⟩ := he.fate hsound hc
    cases hfate with
    | stays _ _ hq => exact hq
    | abandoned _ _ _ hq => exact hq
    | closed =>
      obtain ⟨-, z, hz, hdetached⟩ := hpost.quiet_of_detached (he.sound hsound) hy rfl
      rw [Session.isAttached_eq hz, hdetached] at ha
      exact absurd ha (by simp)

/-- What is published in an open build are deliveries that its start has made. -/
theorem deliveries_follow (h₀ : s₀.Fresh config registry) (hu : ∀ m ∈ registry.mappers, m.Uniform)
    (hist : History listing s₀ h s) (hb : s.build? i = some b) (ho : b.closed = false) :
    b.live.Follows (fun k op e => ∀ m ds, e = .published m op ds →
      Deliveries k.before.hub b.audience m op ds) i h := by
  refine hist.follows h₀ (Q := fun _ audience k op e => ∀ m ds, e = .published m op ds →
    Deliveries k.before.hub audience m op ds) ?_ hb ho
  intro k _ op b t hk
  have hf : ∀ m ∈ registry.mappers, m.Faithful := fun m hm => (hu m hm).faithful
  rcases Build.start_outcome hf hk.sound hk.opened hk.fresh hk.start_eq with ⟨e, href⟩ | ⟨e, hrec⟩
  · exact Or.inl ⟨e, href.unchanged, href.result⟩
  · refine Or.inr ⟨e, hrec.build, hrec.result, ?_⟩
    rintro m ds rfl
    exact hrec.deliveries hu hk.opened hk.fresh hk.start_eq

end History

/-! ### Whole sessions -/

/-- What a build keeps of an operation that it published. -/
structure Represents (s : Session) (i : Nat) (h : List Call) (b : Build) (x : OperationId)
    (m : Mapper) (op : StartSignal) (ds : List Delivery) : Prop
    extends Deliveries s.hub b.audience m op ds where
  id_eq : op.id = x
  routed : s.registry.lookup op.details.kind = some m
  /-- Every slot is an index into the audience. -/
  valid : ∀ d ∈ ds, ∀ slot ∈ d.slots, slot < b.audience.length
  /-- No slot is there twice. -/
  apart : (ds.flatMap (·.slots)).Nodup
  /-- Of the audience that is still attached those have their slots there whose queues got
  the news that the operation started, each with the descriptor that it carried. -/
  told : ∃ k, Opened i h x k op ∧
    (∀ c y, k.before.hub.connections[c]? = some y →
      ∃ y', k.outcome.session.hub.connections[c]? = some y' ∧ y'.queue = y.queue ++ k.accepted c) ∧
    ∀ slot c, b.connection? slot = some c → s.hub.isAttached c = true →
      (∀ d ∈ ds, slot ∈ d.slots →
        k.accepted c = [.event b.id (.started op.startTime d.descriptor)]) ∧
      ((∃ d ∈ ds, slot ∈ d.slots) ↔ ∃ d, .event b.id (.started op.startTime d) ∈ k.accepted c)

/-- In every session with the built-in mappers, whatever becomes of the connections,
a build has one entry at most for an operation, and what an entry keeps of an
operation that was published is in order. -/
theorem entries_represent_publications {listing : Listing} {config : Config} {registry : Registry}
    {s₀ s : Session} {h : List Call} {i : Nat} {b : Build} (h₀ : Session.new config registry = .ok s₀)
    (hm : ∀ m ∈ registry.mappers, m ∈ Mapper.builtIn) (hist : History listing s₀ h s)
    (hb : s.build? i = some b) :
    b.live.Keyed ∧ b.audience.Nodup ∧
      ∀ x m op ds, (x, .published m op ds) ∈ b.live → Represents s i h b x m op ds := by
  have hfresh := Session.fresh_of_new h₀
  have hu : ∀ m ∈ registry.mappers, m.Uniform := fun m h => Mapper.uniform_of_mem_builtIn (hm m h)
  have hsound := hist.sound hfresh.sound i b hb
  have hkeyed := hist.keyed hfresh hb
  refine ⟨hkeyed, hsound.audience, fun x m op ds hmem => ?_⟩
  have ho : b.closed = false := by
    cases hc : b.closed with
    | false => rfl
    | true =>
      rw [hist.live_of_closed hfresh hb hc] at hmem
      exact absurd hmem (by simp)
  have he := hkeyed.get?_eq_some_iff.mpr hmem
  obtain ⟨-, hapart, hvalid⟩ := hsound.entries _ hmem
  obtain ⟨k, op', hopened, hoffered, hrouted⟩ :=
    (hist.published_follows hfresh (fun m hm => (hu m hm).faithful) hb ho).opened he
  obtain ⟨m', ds', hroute, heq⟩ := hrouted rfl
  obtain ⟨rfl, rfl, rfl⟩ := Entry.published.inj heq
  -- the deliveries are those that the same call has made
  obtain ⟨e', he', hmade⟩ := (hist.deliveries_follow hfresh hu hb ho).kept x k op hopened
  obtain rfl := Option.some.inj (he.symm.trans he')
  obtain ⟨pre, post, -, hpre, heff, hpost⟩ := hist.exists_split hopened.mem
  have hcall : History listing k.before ([k] ++ post) s :=
    (History.single (Session.step_eq_ok.mpr heff)).append hpost
  refine { (hmade m ds rfl).mono fun hx => hcall.keeps_connection (hpre.sound hfresh.sound) hx with
    id_eq := hopened.id_eq
    routed := (hist.settings hfresh).1 ▸ hroute
    valid := fun d hd slot hslot => hvalid slot (List.mem_flatMap.mpr ⟨d, hd, hslot⟩)
    apart := hapart
    told := ⟨k, hopened, fun c y hy => ?_, fun slot c hc hattached => ?_⟩ }
  · obtain ⟨before, step, outcome⟩ := k
    obtain rfl : step = .start i op := hopened.step_eq
    exact heff.queue_of_start hy
  obtain ⟨-, rfl⟩ := (Build.connection?_eq_some_iff hsound.audience).mp hc
  have haccepted := hist.accepted_of_attached hfresh.sound hopened.mem hattached
  rw [hoffered, Entry.shown] at haccepted
  have hlisted : ∀ d ∈ ds, b.slotOf c ∈ d.slots →
      k.accepted c = [.event b.id (.started op.startTime d.descriptor)] := by
    intro d hd hslot
    rw [haccepted, descriptorFor_of_mem hapart hd hslot]
    rfl
  refine ⟨hlisted, ?_, ?_⟩
  · rintro ⟨d, hd, hslot⟩
    exact ⟨d.descriptor, by rw [hlisted d hd hslot]; exact List.mem_singleton_self _⟩
  · rintro ⟨d, hd⟩
    by_contra hnot
    have hnone : descriptorFor (b.slotOf c) ds = none := by
      rw [descriptorFor_eq_none, List.mem_flatMap]
      exact hnot
    rw [haccepted, hnone] at hd
    exact absurd hd (by simp)

/-- An item below a phase is published under two parents, in a build whose slots are not
the numbers of its connections. One of the connections has no room for the news and is
torn down, and the entry has its slot still. -/
theorem entries_represent_publications_of_overflow :
    ∃ (s₀ s : Session) (h : List Call) (b : Build) (m : Mapper) (op : StartSignal)
      (ds : List Delivery), Session.new ⟨⟨1, .nearestEnabledAncestor⟩, default⟩ .builtIn = .ok s₀ ∧
      (∀ m ∈ Registry.builtIn.mappers, m ∈ Mapper.builtIn) ∧ History .inOrder s₀ h s ∧
      s.build? 0 = some b ∧ b.audience = [1, 2, 3] ∧ (⟨2⟩, .published m op ds) ∈ b.live ∧
      [0, 1, 2].map (fun slot => (descriptorFor slot ds).map (·.parent)) =
        [some none, some (some ⟨1⟩), some (some ⟨1⟩)] ∧
      s.hub.attachedNumbers = [1, 2] ∧ Represents s 0 h b ⟨2⟩ m op ds := by
  let s₀ := sampleSession .nearestEnabledAncestor 1
  let steps : List Step := [.connect ⟨"a"⟩ .all, .disconnect ⟨"a"⟩,
    .connect ⟨"b"⟩ (.ofList [.workItem]), .connect ⟨"c"⟩ .all, .connect ⟨"d"⟩ .all, .begin ⟨"x"⟩,
    .start 0 (samplePhase 1 none), .receive 2, .start 0 (sampleItem 2 (some ⟨1⟩))]
  have h₀ : Session.new ⟨⟨1, .nearestEnabledAncestor⟩, default⟩ .builtIn = .ok s₀ := rfl
  have hm : ∀ m ∈ Registry.builtIn.mappers, m ∈ Mapper.builtIn := fun _ h => h
  have hist := Session.history_calls .inOrder steps s₀
  have hshown : ((s₀.after .inOrder steps).build? 0).map (fun b =>
      (b.audience, (b.live.get? ⟨2⟩).map fun e =>
        [0, 1, 2].map fun slot => (e.shown slot).map (·.descriptor.parent))) =
        some ([1, 2, 3], some [some none, some (some ⟨1⟩), some (some ⟨1⟩)]) := by decide
  obtain ⟨b, hb, hshown⟩ := Option.map_eq_some_iff.mp hshown
  obtain ⟨haudience, hshown⟩ := Prod.mk.inj hshown
  obtain ⟨e, he, hshown⟩ := Option.map_eq_some_iff.mp hshown
  obtain ⟨-, -, hentries⟩ := entries_represent_publications h₀ hm hist hb
  cases e with
  | suppressed => exact absurd hshown (by simp [Entry.shown])
  | published m op ds =>
    have hmem := LiveTable.mem_of_get? he
    simp only [Entry.shown, Option.map_map, Function.comp_def] at hshown
    exact ⟨s₀, _, _, b, m, op, ds, h₀, hm, hist, hb, haudience, hmem, hshown, by decide,
      hentries _ m op ds hmem⟩

end BuildFeed
