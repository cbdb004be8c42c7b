/-
# The registry of mappers

A registry routes an operation to the mapper that declares the kind of its
details. No kind is declared twice: a list of mappers makes a registry if
their kinds are distinct, and otherwise every mapper whose kind an earlier
one has declared is reported, with the first that did.

Key definitions: `Registry`, `Registry.conflicts`, `Registry.build`,
`Registry.lookup`.
Key theorems: `Registry.conflicts_eq_nil_iff`.
-/
import BuildFeed.Mapper.BuiltIn

namespace BuildFeed

/-- Mappers of distinct kinds. -/
structure Registry where
  mappers : List Mapper
  distinct : (mappers.map Mapper.declares).Nodup

/-- Two mappers that declare one kind. -/
structure Conflict where
  kind : DetailsKind
  existing : String
  added : String
  deriving Repr, DecidableEq, Inhabited

/-- The wording of a conflict. -/
def Conflict.render (c : Conflict) : String :=
  c.kind.name ++ " details claimed by both " ++ c.existing ++ " and " ++ c.added

namespace Registry

/-- The first mapper of a list that declares a kind. -/
def findKind (kind : DetailsKind) (ms : List Mapper) : Option Mapper :=
  ms.find? fun m => m.declares = kind

/-- The conflicts of mappers with those before them and those accepted. -/
def conflicts (accepted : List Mapper) : List Mapper → List Conflict
  | [] => []
  | m :: rest =>
    match findKind m.declares accepted with
    | some e => ⟨m.declares, e.name, m.name⟩ :: conflicts accepted rest
    | none => conflicts (accepted ++ [m]) rest

theorem findKind_eq_none_iff {kind : DetailsKind} {ms : List Mapper} :
    findKind kind ms = none ↔ kind ∉ ms.map Mapper.declares := by
  simp [findKind]

/-- Nothing is in conflict exactly if all kinds are distinct. -/
theorem conflicts_eq_nil_iff : ∀ (accepted ms : List Mapper),
    (accepted.map Mapper.declares).Nodup →
    (conflicts accepted ms = [] ↔ ((accepted ++ ms).map Mapper.declares).Nodup)
  | accepted, [], h => by simp [conflicts, h]
  | accepted, m :: rest, h => by
    cases hf : findKind m.declares accepted with
    | some e =>
      have hmem : m.declares ∈ accepted.map Mapper.declares :=
        Classical.byContradiction fun hn => by simp [findKind_eq_none_iff.mpr hn] at hf
      simp only [conflicts, hf, reduceCtorEq, List.map_append, List.map_cons, false_iff]
      intro hn
      exact (List.nodup_append.mp hn).2.2 _ hmem _ (by simp) rfl
    | none =>
      have hn := findKind_eq_none_iff.mp hf
      have ih := conflicts_eq_nil_iff (accepted ++ [m]) rest (by
        rw [List.map_append, List.nodup_append]
        refine ⟨h, by simp, ?_⟩
        rintro a ha b hb rfl
        simp only [List.map_cons, List.map_nil, List.mem_singleton] at hb
        exact hn (hb ▸ ha))
      simpa [conflicts, hf, List.append_assoc] using ih

/-- The registry of a list of mappers. -/
def build (ms : List Mapper) : Except Error Registry :=
  match h : conflicts [] ms with
  | [] => .ok ⟨ms, by simpa using (conflicts_eq_nil_iff [] ms (by simp)).mp h⟩
  | cs => .error (.configuration (String.intercalate "; " (cs.map Conflict.render)))

/-- The registry of the built-in mappers. -/
def builtIn : Registry := ⟨Mapper.builtIn, by decide⟩

/-- The mapper that operations with details of a kind are routed to. -/
def lookup (r : Registry) (kind : DetailsKind) : Option Mapper := findKind kind r.mappers

def contains (r : Registry) (kind : DetailsKind) : Bool := (r.lookup kind).isSome

def size (r : Registry) : Nat := r.mappers.length

/-- A name between quotes, for diagnostics. -/
def quoteName (name : String) : String := "\"" ++ name ++ "\""

/-- The names of mappers between square brackets. -/
def describeNames (ms : List Mapper) : String :=
  "[" ++ String.intercalate ", " (ms.map fun m => quoteName m.name) ++ "]"

/-- The routes of the registry between braces. -/
def describe (r : Registry) : String :=
  "\x7b" ++ String.intercalate ", "
    (r.mappers.map fun m => m.declares.name ++ ": " ++ quoteName m.name) ++ "\x7d"

end Registry

end BuildFeed
