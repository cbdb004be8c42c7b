/-
# Where operations are routed

An operation is handed to the mapper that declares the kind of its details,
and the mapper can read it if its shape matches them. A mapper that declares
the kind of its shape, and whose shape matches all details of the kind, reads
whatever is routed to it (`Registry.exists_data_of_lookup`); if a mapper cannot
read what was routed to it, it fails in one of the two
(`Registry.unread_of_lookup`).

Key definitions: `Mapper.ReadsKind`.
Key theorems: `Registry.lookup_eq_some_iff`, `Mapper.exists_data_iff`,
`Mapper.readsKind_of_mem_builtIn`, `Registry.exists_data_of_lookup`,
`Registry.unread_of_lookup`.
-/
import BuildFeed.Proofs.Mapper.Uniform
import BuildFeed.Registry
import Mathlib.Data.List.Nodup

namespace BuildFeed

/-! ### What a mapper can read -/

namespace Mapper

variable {m : Mapper} {op : StartSignal}

/-- The shape of the mapper matches all details of its kind. -/
def ReadsKind (m : Mapper) : Prop := ∀ d : Details, d.kind = m.handles → m.reads d = true

/-- A mapper can read the operations whose details its shape matches. -/
theorem exists_data_iff : (∃ data, m.dataOf op = .ok data) ↔ m.reads op.details = true := by
  unfold dataOf
  by_cases h : m.reads op.details = true <;> simp [h]

/-- A mapper that is written for all details of a kind. -/
theorem readsKind_erase {k : DetailsKind} {t : TypedMapper k.Data} (h : t.shape = .ofKind k) :
    t.erase.ReadsKind := by
  intro d hd
  have hkind : d.kind = k := by simpa [h] using hd
  subst hkind
  simp [h]

/-- A built-in mapper declares the kind of its shape, and can read all details of it. -/
theorem readsKind_of_mem_builtIn (hm : m ∈ builtIn) : m.declares = m.handles ∧ m.ReadsKind := by
  simp only [builtIn, List.mem_cons, List.not_mem_nil, or_false] at hm
  rcases hm with rfl | rfl | rfl | rfl | rfl <;> exact ⟨rfl, readsKind_erase rfl⟩

end Mapper

/-! ### What is routed to a mapper -/

namespace Registry

variable {registry : Registry} {m : Mapper} {op : StartSignal}

/-- A mapper is sent the operations whose details are of the kind that it declares. -/
theorem lookup_eq_some_iff {kind : DetailsKind} :
    registry.lookup kind = some m ↔ m ∈ registry.mappers ∧ m.declares = kind := by
  have hfound : ∀ {m'}, registry.lookup kind = some m' →
      m' ∈ registry.mappers ∧ m'.declares = kind := by
    intro m' h
    have hkind := List.find?_some h
    exact ⟨List.mem_of_find?_eq_some h, of_decide_eq_true hkind⟩
  refine ⟨hfound, ?_⟩
  rintro ⟨hm, hkind⟩
  cases hf : registry.lookup kind with
  | none =>
    have hnone := List.find?_eq_none.mp hf m hm
    simp [hkind] at hnone
  | some m' =>
    obtain ⟨hm', hkind'⟩ := hfound hf
    rw [List.inj_on_of_nodup_map registry.distinct hm' hm (hkind'.trans hkind.symm)]

/-- A mapper that declares the kind of its shape, and can read all details of it, reads
whatever is routed to it. -/
theorem exists_data_of_lookup (h : registry.lookup op.details.kind = some m)
    (hk : m.declares = m.handles) (hr : m.ReadsKind) : ∃ data, m.dataOf op = .ok data :=
  Mapper.exists_data_iff.mpr (hr op.details ((lookup_eq_some_iff.mp h).2.symm.trans hk))

/-- If a mapper cannot read what was routed to it then it declares another kind than
that of its shape, or its shape leaves out details of the kind. -/
theorem unread_of_lookup (h : registry.lookup op.details.kind = some m) {e : Error}
    (hd : m.dataOf op = .error e) :
    m.reads op.details = false ∧ (m.declares = m.handles → ¬ m.ReadsKind) := by
  have hunread : ¬ ∃ data, m.dataOf op = .ok data := by simp [hd]
  exact ⟨Bool.eq_false_iff.mpr (mt Mapper.exists_data_iff.mpr hunread),
    fun hk hr => hunread (exists_data_of_lookup h hk hr)⟩

end Registry

end BuildFeed
