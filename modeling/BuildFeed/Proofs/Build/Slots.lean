/-
# Slots and connections

A build knows its connections by their slots. No connection is in an audience
twice, so a slot stands for one connection, and a connection of the audience
has one slot (`Build.connection?_eq_some_iff`). What is said of slots, as the
parents they see and the deliveries they are in, is said with that of
connections: a mapper has the slot of a connection for a target if it serves
the connection (`Build.slotOf_mem_targets`), and a delivery reaches the
connections whose slots it has (`Build.mem_connections`).

Key definitions: `Build.slotOf`.
Key theorems: `Build.connection?_eq_some_iff`, `Build.slotOf_mem_targets`,
`Build.exists_slotOf_of_mem_targets`, `Build.mem_connections`,
`Build.nodup_flatMap_connections`.
-/
import BuildFeed.Build
import Mathlib.Data.List.Nodup

namespace BuildFeed
namespace Build

variable {b : Build} {hub : Hub} {m : Mapper} {slot c : Nat}

/-- The slot of a connection of the audience; of another connection it is no slot. -/
def slotOf (b : Build) (c : Nat) : Nat := b.audience.idxOf c

theorem slotOf_lt_iff : b.slotOf c < b.audience.length ↔ c ∈ b.audience := List.idxOf_lt_length_iff

theorem lt_of_connection? (h : b.connection? slot = some c) : slot < b.audience.length :=
  (List.getElem?_eq_some_iff.mp h).1

theorem mem_audience_of_connection? (h : b.connection? slot = some c) : c ∈ b.audience :=
  List.mem_of_getElem? h

theorem connection?_slotOf (h : c ∈ b.audience) : b.connection? (b.slotOf c) = some c :=
  List.getElem?_eq_some_iff.mpr ⟨slotOf_lt_iff.mpr h, List.getElem_idxOf _⟩

/-- A slot stands for one connection, and a connection of the audience has one slot. -/
theorem connection?_eq_some_iff (hn : b.audience.Nodup) :
    b.connection? slot = some c ↔ c ∈ b.audience ∧ b.slotOf c = slot := by
  constructor
  · intro h
    obtain ⟨hlt, rfl⟩ := List.getElem?_eq_some_iff.mp h
    exact ⟨List.getElem_mem hlt, List.Nodup.idxOf_getElem hn slot hlt⟩
  · rintro ⟨hc, rfl⟩
    exact connection?_slotOf hc

/-! ### Targets -/

theorem mem_targets : slot ∈ b.targets hub m ↔
    ∃ c, b.connection? slot = some c ∧
      ∃ subs, hub.subscriptions? c = some subs ∧ m.isEnabled subs = true := by
  simp [targets, List.mem_zipIdx_iff_getElem?, connection?, Option.any_eq_true]

/-- The slot of a connection is a target of the mappers that serve the connection. -/
theorem slotOf_mem_targets : b.slotOf c ∈ b.targets hub m ↔
    c ∈ b.audience ∧ ∃ subs, hub.subscriptions? c = some subs ∧ m.isEnabled subs = true := by
  rw [mem_targets]
  constructor
  · rintro ⟨c', hslot, hserves⟩
    have hc := slotOf_lt_iff.mp (lt_of_connection? hslot)
    obtain rfl := Option.some.inj ((connection?_slotOf hc).symm.trans hslot)
    exact ⟨hc, hserves⟩
  · rintro ⟨hc, hserves⟩
    exact ⟨c, connection?_slotOf hc, hserves⟩

/-- A target is the slot of a connection. -/
theorem exists_slotOf_of_mem_targets (hn : b.audience.Nodup) (h : slot ∈ b.targets hub m) :
    ∃ c, b.slotOf c = slot ∧ c ∈ b.audience := by
  obtain ⟨c, hslot, -⟩ := mem_targets.mp h
  obtain ⟨hc, hslot⟩ := (connection?_eq_some_iff hn).mp hslot
  exact ⟨c, hslot, hc⟩

theorem lt_of_mem_targets (h : slot ∈ b.targets hub m) : slot < b.audience.length := by
  obtain ⟨c, hslot, -⟩ := mem_targets.mp h
  exact lt_of_connection? hslot

theorem nodup_targets (b : Build) (hub : Hub) (m : Mapper) : (b.targets hub m).Nodup := by
  have hslots : (b.audience.zipIdx.map (·.2)).Nodup := by
    rw [List.zipIdx_map_snd]
    exact List.nodup_range'
  exact hslots.sublist (List.filter_sublist.map _)

/-! ### The connections of deliveries -/

/-- The connections that a delivery reaches are those whose slots it has. -/
theorem mem_connections (hn : b.audience.Nodup) {d : Delivery} :
    c ∈ b.connections d ↔ c ∈ b.audience ∧ b.slotOf c ∈ d.slots := by
  rw [connections, List.mem_filterMap]
  constructor
  · rintro ⟨slot, hslot, hconnection⟩
    obtain ⟨hc, rfl⟩ := (connection?_eq_some_iff hn).mp hconnection
    exact ⟨hc, hslot⟩
  · rintro ⟨hc, hslot⟩
    exact ⟨_, hslot, connection?_slotOf hc⟩

/-- Slots that are not repeated stand for connections that are not. -/
theorem nodup_filterMap_connection? (hn : b.audience.Nodup) {slots : List Nat}
    (h : slots.Nodup) : (slots.filterMap b.connection?).Nodup := by
  refine List.Nodup.filterMap (fun i j c hi hj => ?_) h
  exact ((connection?_eq_some_iff hn).mp hi).2.symm.trans ((connection?_eq_some_iff hn).mp hj).2

theorem nodup_connections (hn : b.audience.Nodup) {d : Delivery} (h : d.slots.Nodup) :
    (b.connections d).Nodup := nodup_filterMap_connection? hn h

/-- Deliveries that have no slot twice reach no connection twice. -/
theorem nodup_flatMap_connections (hn : b.audience.Nodup) {ds : List Delivery}
    (h : (ds.flatMap (·.slots)).Nodup) : (ds.flatMap b.connections).Nodup := by
  have hconnections : ds.flatMap b.connections = (ds.flatMap (·.slots)).filterMap b.connection? := by
    rw [List.filterMap_flatMap]
    rfl
  rw [hconnections]
  exact nodup_filterMap_connection? hn h

end Build
end BuildFeed
