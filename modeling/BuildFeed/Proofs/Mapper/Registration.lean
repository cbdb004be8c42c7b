/-
# Building a registry

A list of mappers makes a registry exactly if no kind is declared twice. Each
kind is then routed to the mapper of the list that declares it, so the order
of the list is of no account. Otherwise every mapper that declares a kind
that was declared before it is reported once, in the order of the list,
against the first mapper of the kind (`Registry.conflicts_report`).

A mapper is compared with the first mapper of each kind before it, not with
all mappers before it. The search for a kind finds the same among both
(`Registry.conflicts_snoc`), which is why a third mapper of a kind is
reported against the first and not against the second.

Key definitions: `FirstOf`, `Clash`, `Reports`.
Key theorems: `Registry.conflicts_snoc`, `Registry.conflicts_report`,
`Registry.build_eq_ok_iff`, `Registry.lookup_of_perm`, `registries_exact`.
-/
import BuildFeed.Mapper.Custom
import BuildFeed.Proofs.Lists
import BuildFeed.Proofs.Mapper.Routing

namespace BuildFeed

open List (Forall₂)

/-! ### Kinds that are declared twice -/

/-- The first mapper of a kind, and its place. -/
structure FirstOf (ms : List Mapper) (kind : DetailsKind) (i : Nat) (e : Mapper) : Prop where
  at_place : ms[i]? = some e
  declares : e.declares = kind
  none_before : ∀ k < i, ∀ x : Mapper, ms[k]? = some x → x.declares ≠ kind

/-- A mapper declares a kind that was declared before, first by another. -/
structure Clash (ms : List Mapper) (i j : Nat) (e m : Mapper) : Prop where
  added : ms[j]? = some m
  before : i < j
  existing : FirstOf ms m.declares i e

/-- Conflicts that report the clashes of a list of mappers: every clash once,
in the order in which the clashing mappers were registered, with the kind and
the names of both. -/
structure Reports (ms : List Mapper) (places : List (Nat × Nat)) (cs : List Conflict) : Prop where
  /-- In the order of registration, and none twice. -/
  ordered : places.Pairwise fun p q => p.2 < q.2
  /-- None is lost. -/
  complete : ∀ {i j e m}, Clash ms i j e m → (i, j) ∈ places
  named : Forall₂ (fun place c => ∃ e m, Clash ms place.1 place.2 e m ∧
    c = ⟨m.declares, e.name, m.name⟩) places cs

namespace FirstOf

variable {ms l : List Mapper} {kind : DetailsKind} {i j : Nat} {e e' : Mapper}

theorem lt_length (h : FirstOf ms kind i e) : i < ms.length :=
  (List.getElem?_eq_some_iff.mp h.at_place).1

/-- There is one first place. -/
theorem unique (h : FirstOf ms kind i e) (h' : FirstOf ms kind j e') : i = j := by
  rcases Nat.lt_trichotomy i j with hlt | heq | hlt
  · exact absurd h.declares (h'.none_before i hlt e h.at_place)
  · exact heq
  · exact absurd h'.declares (h.none_before j hlt e' h'.at_place)

/-- The first of a kind remains the first when the list grows. -/
theorem append_iff (hi : i < ms.length) : FirstOf (ms ++ l) kind i e ↔ FirstOf ms kind i e := by
  have hget : ∀ {k}, k < ms.length → (ms ++ l)[k]? = ms[k]? := List.getElem?_append_left
  constructor
  · rintro ⟨hat, hkind, hbefore⟩
    refine ⟨hget hi ▸ hat, hkind, fun k hk x hx => hbefore k hk x ?_⟩
    rw [hget (Nat.lt_trans hk hi), hx]
  · rintro ⟨hat, hkind, hbefore⟩
    refine ⟨(hget hi).trans hat, hkind, fun k hk x hx => hbefore k hk x ?_⟩
    rw [← hget (Nat.lt_trans hk hi), hx]

end FirstOf

namespace Clash

variable {ms : List Mapper} {m m' e : Mapper} {i j : Nat}

theorem lt_length (h : Clash ms i j e m) : j < ms.length :=
  (List.getElem?_eq_some_iff.mp h.added).1

/-- The clashes of a list that a mapper was added to: those of the list, and
that of the mapper with the first of its kind. -/
theorem snoc_iff : Clash (ms ++ [m]) i j e m' ↔
    Clash ms i j e m' ∨ (j = ms.length ∧ m' = m ∧ FirstOf ms m.declares i e) := by
  constructor
  · rintro ⟨hadded, hlt, hfirst⟩
    by_cases hj : j < ms.length
    · refine Or.inl ⟨(List.getElem?_append_left hj).symm.trans hadded, hlt, ?_⟩
      exact (FirstOf.append_iff (Nat.lt_trans hlt hj)).mp hfirst
    · have hlen := (List.getElem?_eq_some_iff.mp hadded).1
      obtain rfl : j = ms.length := by
        simp only [List.length_append, List.length_singleton] at hlen
        omega
      obtain rfl : m = m' := by simpa using hadded
      exact Or.inr ⟨rfl, rfl, (FirstOf.append_iff hlt).mp hfirst⟩
  · rintro (⟨hadded, hlt, hfirst⟩ | ⟨rfl, rfl, hfirst⟩)
    · have hj := (List.getElem?_eq_some_iff.mp hadded).1
      exact ⟨(List.getElem?_append_left hj).trans hadded, hlt,
        (FirstOf.append_iff (Nat.lt_trans hlt hj)).mpr hfirst⟩
    · exact ⟨by simp, hfirst.lt_length, (FirstOf.append_iff hfirst.lt_length).mpr hfirst⟩

end Clash

namespace Registry

variable {ms ms' : List Mapper} {m : Mapper} {kind : DetailsKind} {registry : Registry}

/-! ### What is reported -/

/-- A mapper that is found is the first of its kind. -/
theorem findKind_eq_some_iff {e : Mapper} : findKind kind ms = some e ↔ ∃ i, FirstOf ms kind i e := by
  unfold findKind
  rw [List.find?_eq_some_iff_getElem]
  constructor
  · rintro ⟨hkind, i, hi, rfl, hbefore⟩
    refine ⟨i, List.getElem?_eq_getElem hi, of_decide_eq_true hkind, fun k hk x hx => ?_⟩
    obtain ⟨hlt, rfl⟩ := List.getElem?_eq_some_iff.mp hx
    simpa using hbefore k hk
  · rintro ⟨i, he, hkind, hbefore⟩
    obtain ⟨hi, rfl⟩ := List.getElem?_eq_some_iff.mp he
    refine ⟨decide_eq_true hkind, i, hi, rfl, fun k hk => ?_⟩
    have hne := hbefore k hk _ (List.getElem?_eq_getElem (Nat.lt_trans hk hi))
    simpa using hne

/-- A mapper of a kind that was found changes no search. -/
theorem findKind_insert {accepted rest : List Mapper} {e : Mapper}
    (h : findKind m.declares accepted = some e) :
    findKind kind (accepted ++ m :: rest) = findKind kind (accepted ++ rest) := by
  unfold findKind at h ⊢
  rw [List.find?_append, List.find?_append, List.find?_cons]
  by_cases hk : m.declares = kind
  · subst hk
    simp [h]
  · simp [hk]

/-- What the last mapper of a list adds to the conflicts: nothing if it is the
first of its kind, and otherwise its conflict with the first. -/
theorem conflicts_snoc (m : Mapper) : ∀ accepted ms : List Mapper,
    conflicts accepted (ms ++ [m]) = conflicts accepted ms ++
      ((findKind m.declares (accepted ++ ms)).map fun e => Conflict.mk m.declares e.name m.name).toList
  | accepted, [] => by
    cases h : findKind m.declares accepted with
    | none => simp [conflicts, h]
    | some e => simp [conflicts, h]
  | accepted, x :: rest => by
    cases h : findKind x.declares accepted with
    | some e =>
      simp only [List.cons_append, conflicts, h, conflicts_snoc m accepted rest, findKind_insert h]
    | none =>
      have ih := conflicts_snoc m (accepted ++ [x]) rest
      rw [List.append_assoc, List.singleton_append] at ih
      simpa [conflicts, h] using ih

/-- The conflicts of a list report its clashes. -/
theorem conflicts_report (ms : List Mapper) : ∃ places, Reports ms places (conflicts [] ms) := by
  induction ms using List.reverseRecOn with
  | nil => exact ⟨[], .nil, fun h => absurd h.added (by simp), .nil⟩
  | append_singleton ms m ih =>
    obtain ⟨places, ordered, complete, named⟩ := ih
    -- What was reported before is reported still.
    have hnamed : Forall₂ (fun place c => ∃ e m', Clash (ms ++ [m]) place.1 place.2 e m' ∧
        c = ⟨m'.declares, e.name, m'.name⟩) places (conflicts [] ms) := by
      refine named.imp ?_
      rintro place c ⟨e, m', hclash, rfl⟩
      exact ⟨e, m', Clash.snoc_iff.mpr (Or.inl hclash), rfl⟩
    rw [conflicts_snoc, List.nil_append]
    cases hf : findKind m.declares ms with
    | none =>
      refine ⟨places, ordered, fun h => ?_, by simpa using hnamed⟩
      rcases Clash.snoc_iff.mp h with h | ⟨-, -, hfirst⟩
      · exact complete h
      · exact absurd (hf.symm.trans (findKind_eq_some_iff.mpr ⟨_, hfirst⟩)) (by simp)
    | some e =>
      obtain ⟨i, hfirst⟩ := findKind_eq_some_iff.mp hf
      refine ⟨places ++ [(i, ms.length)], ?_, fun h => ?_, ?_⟩
      · rw [List.pairwise_append]
        refine ⟨ordered, List.pairwise_singleton _ _, fun p hp q hq => ?_⟩
        rw [List.mem_singleton.mp hq]
        obtain ⟨c, -, e', m', hclash, -⟩ := exists_of_mem_left named hp
        exact hclash.lt_length
      · rcases Clash.snoc_iff.mp h with h | ⟨rfl, -, hfirst'⟩
        · exact List.mem_append_left _ (complete h)
        · simp [hfirst'.unique hfirst]
      · have hlast : Clash (ms ++ [m]) i ms.length e m := Clash.snoc_iff.mpr (Or.inr ⟨rfl, rfl, hfirst⟩)
        exact List.rel_append hnamed (.cons ⟨e, m, hlast, rfl⟩ .nil)

/-- A kind that is declared has a first mapper, none after the one at hand. -/
theorem exists_firstOf {k : Nat} {x : Mapper} (hx : ms[k]? = some x) :
    ∃ i e, i ≤ k ∧ FirstOf ms x.declares i e := by
  have hdeclared : x.declares ∈ ms.map Mapper.declares :=
    List.mem_map.mpr ⟨x, List.mem_of_getElem? hx, rfl⟩
  cases hf : findKind x.declares ms with
  | none => exact absurd hdeclared (findKind_eq_none_iff.mp hf)
  | some e =>
    obtain ⟨i, hfirst⟩ := findKind_eq_some_iff.mp hf
    refine ⟨i, e, Nat.le_of_not_lt fun hlt => ?_, hfirst⟩
    exact hfirst.none_before k hlt x hx rfl

/-! ### What is made -/

theorem build_eq_ok_iff : build ms = .ok registry ↔ conflicts [] ms = [] ∧ registry.mappers = ms := by
  unfold build
  split
  case h_1 h =>
    simp only [h, Except.ok.injEq, true_and]
    exact ⟨fun heq => heq ▸ rfl, fun heq => by subst heq; rfl⟩
  case h_2 hne => simp [show conflicts [] ms ≠ [] from hne]

theorem build_eq_error_iff {e : Error} : build ms = .error e ↔ conflicts [] ms ≠ [] ∧
    e = .configuration (String.intercalate "; " ((conflicts [] ms).map Conflict.render)) := by
  unfold build
  split
  case h_1 h => simp [h]
  case h_2 hne => simp [show conflicts [] ms ≠ [] from hne, eq_comm]

/-- A list of mappers makes a registry exactly if no kind is declared twice. -/
theorem exists_build_iff : (∃ registry, build ms = .ok registry) ↔ (ms.map Mapper.declares).Nodup := by
  have hnodup := conflicts_eq_nil_iff [] ms (by simp)
  rw [List.nil_append] at hnodup
  simp only [build_eq_ok_iff, hnodup]
  exact ⟨fun ⟨_, h, _⟩ => h, fun h => ⟨⟨ms, h⟩, h, rfl⟩⟩

/-- Registries of the same mappers route alike. -/
theorem lookup_of_perm {registry' : Registry} (h : registry'.mappers.Perm registry.mappers) :
    registry'.lookup kind = registry.lookup kind := by
  apply Option.ext
  intro m
  rw [lookup_eq_some_iff, lookup_eq_some_iff, h.mem_iff]

theorem contains_iff : registry.contains kind = true ↔ ∃ m ∈ registry.mappers, m.declares = kind := by
  rw [contains, Option.isSome_iff_exists]
  exact exists_congr fun _ => lookup_eq_some_iff

end Registry

/-- A mapper is reported exactly if a mapper before it declares its kind. -/
theorem Reports.mem_iff {ms : List Mapper} {places : List (Nat × Nat)} {cs : List Conflict}
    (h : Reports ms places cs) {j : Nat} {m : Mapper} (hm : ms[j]? = some m) :
    j ∈ places.map Prod.snd ↔ ∃ k < j, ∃ x : Mapper, ms[k]? = some x ∧ x.declares = m.declares := by
  constructor
  · intro hj
    obtain ⟨⟨i, _⟩, hp, rfl⟩ := List.mem_map.mp hj
    obtain ⟨c, -, e, m', hclash, -⟩ := exists_of_mem_left h.named hp
    obtain rfl : m' = m := Option.some.inj (hclash.added.symm.trans hm)
    exact ⟨i, hclash.before, e, hclash.existing.at_place, hclash.existing.declares⟩
  · rintro ⟨k, hk, x, hx, hkind⟩
    obtain ⟨i, e, hi, hfirst⟩ := Registry.exists_firstOf hx
    have hclash : Clash ms i j e m := ⟨hm, Nat.lt_of_le_of_lt hi hk, hkind ▸ hfirst⟩
    exact List.mem_map.mpr ⟨(i, j), h.complete hclash, rfl⟩

/-- A list of mappers makes a registry exactly if they declare distinct kinds.
The registry routes every kind to the mapper of the list that declares it, in
whatever order they are listed. If there is none, every mapper whose kind was
declared before it is reported in order, and only these are, each with its
kind and the first mapper of it. -/
theorem registries_exact (ms : List Mapper) :
    ((∃ registry, Registry.build ms = .ok registry) ↔ (ms.map Mapper.declares).Nodup) ∧
    (∀ registry, Registry.build ms = .ok registry →
      (∀ kind m, registry.lookup kind = some m ↔ m ∈ ms ∧ m.declares = kind) ∧
      (∀ kind, registry.contains kind = true ↔ ∃ m ∈ ms, m.declares = kind) ∧
      registry.size = ms.length ∧
      ∀ ms' : List Mapper, ms'.Perm ms → ∃ registry', Registry.build ms' = .ok registry' ∧
        ∀ kind, registry'.lookup kind = registry.lookup kind) ∧
    (∀ e, Registry.build ms = .error e → ∃ places cs, Reports ms places cs ∧
      (∀ j m, ms[j]? = some m → (j ∈ places.map Prod.snd ↔
        ∃ k < j, ∃ x : Mapper, ms[k]? = some x ∧ x.declares = m.declares)) ∧
      e = .configuration (String.intercalate "; " (cs.map Conflict.render))) := by
  refine ⟨Registry.exists_build_iff, fun registry h => ?_, fun e h => ?_⟩
  · obtain ⟨-, rfl⟩ := Registry.build_eq_ok_iff.mp h
    refine ⟨fun _ _ => Registry.lookup_eq_some_iff, fun _ => Registry.contains_iff, rfl, fun ms' hperm => ?_⟩
    have hdistinct : (ms'.map Mapper.declares).Nodup := (hperm.map _).nodup_iff.mpr registry.distinct
    obtain ⟨registry', hbuild⟩ := Registry.exists_build_iff.mpr hdistinct
    obtain ⟨-, hmappers⟩ := Registry.build_eq_ok_iff.mp hbuild
    exact ⟨registry', hbuild, fun _ => Registry.lookup_of_perm (hmappers ▸ hperm)⟩
  · obtain ⟨-, rfl⟩ := Registry.build_eq_error_iff.mp h
    obtain ⟨places, hreports⟩ := Registry.conflicts_report ms
    exact ⟨places, _, hreports, fun j m hm => hreports.mem_iff hm, rfl⟩

/-- Three mappers of tasks and two of build work: the third mapper of tasks is
reported against the first, and so is the second. -/
theorem registries_exact_of_contested_kinds : ∃ places cs,
    Reports [.task, .buildPhase, .countingTask, .misroutedTask, .task] places cs ∧
    (Error.configuration (String.intercalate "; " (cs.map Conflict.render))).message = some
      ("configuration error: " ++
        "ExecuteTask details claimed by both TaskOperationMapper and CountingTaskMapper; " ++
        "RunBuildWork details claimed by both BuildPhaseOperationMapper and MisroutedTaskMapper; " ++
        "ExecuteTask details claimed by both TaskOperationMapper and TaskOperationMapper") ∧
    2 ∈ places.map Prod.snd ∧ 1 ∉ places.map Prod.snd := by
  obtain ⟨-, -, hfailed⟩ := registries_exact [.task, .buildPhase, .countingTask, .misroutedTask, .task]
  obtain ⟨places, cs, hreports, hmem, he⟩ := hfailed _ rfl
  refine ⟨places, cs, hreports, ?_, ?_, ?_⟩
  · rw [← he]
    decide +kernel
  · exact (hmem 2 .countingTask rfl).mpr ⟨0, by decide, .task, rfl, rfl⟩
  · rw [hmem 1 .buildPhase rfl]
    rintro ⟨k, hk, x, hx, hkind⟩
    obtain rfl : k = 0 := by omega
    obtain rfl : Mapper.task = x := Option.some.inj hx
    exact absurd hkind (by decide)

end BuildFeed
