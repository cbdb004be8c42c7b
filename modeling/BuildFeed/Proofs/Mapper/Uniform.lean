/-
# Mappers that treat all parents alike

A mapper is faithful if its descriptors name the parent that it was asked
for and its started events carry the descriptor that they are made of.

The parent of an operation is the one thing in its descriptor that differs
from connection to connection. A mapper is uniform if it makes the same of
an operation whatever the parent, except that the descriptor names the
parent, and if its events carry the descriptor they are made of. Then it is
enough to ask it once and to put the other parents into the descriptor.

A built-in mapper finds a subject in an operation, or declines or refuses it,
without a look at the parent (`Mapper.describe_of_mem_builtIn`). So all built-in
mappers are uniform (`Mapper.uniform_of_mem_builtIn`).

Key definitions: `Mapper.Faithful`, `Mapper.Uniform`, `Mapper.Finds`,
`Event.withParent`, `Mapper.NoTransitionErrors`.
Key theorems: `Mapper.Uniform.faithful`, `Mapper.Uniform.consult_eq`,
`Mapper.describe_of_mem_builtIn`, `Mapper.uniform_of_mem_builtIn`,
`Mapper.finished_eq_none_iff_handles`, `Mapper.finished_of_mem_builtIn`,
`Mapper.isEnabled_of_consult`, `Mapper.noTransitionErrors_of_mem_builtIn`.
-/
import BuildFeed.Mapper.BuiltIn

namespace BuildFeed

/-- The event of the same operation under another parent. -/
def Event.withParent (e : Event) (parent : Option OperationId) : Event :=
  match e with
  | started t d => started t (d.withParent parent)
  | finished t d r task => finished t (d.withParent parent) r task

namespace Mapper

/-- The mapper passes on what it is told. -/
structure Faithful (m : Mapper) : Prop where
  /-- A descriptor names the parent that it was asked for. -/
  parent_eq : ∀ {data op p d}, m.describe data op p = .ok (some d) → d.parent = p
  /-- A started event carries its descriptor. -/
  started_eq : ∀ d data op, m.started d data op = .started op.startTime d

/-- The mapper treats all parents alike. -/
structure Uniform (m : Mapper) : Prop where
  /-- The parent decides about nothing but the parent in the descriptor. -/
  describe_eq : ∀ data op p,
    m.describe data op p = (m.describe data op none).map (Option.map (·.withParent p))
  /-- A descriptor has the id of its operation. -/
  id_eq : ∀ {data op p d}, m.describe data op p = .ok (some d) → d.id = op.id
  /-- A started event carries its descriptor. -/
  started_eq : ∀ d data op, m.started d data op = .started op.startTime d
  /-- A finished event carries its descriptor. -/
  finished_eq : ∀ {d data op f e}, m.finished d data op f = some e →
    ∃ r task, e = .finished f.endTime d r task

theorem Faithful.consult_parent {m : Mapper} (hf : m.Faithful) {op : StartSignal}
    {p : Option OperationId} {d : Descriptor} (h : (m.consult op p).1 = .ok (some d)) :
    d.parent = p := by
  unfold consult at h
  cases hd : m.dataOf op with
  | error e => simp [hd] at h
  | ok data => exact hf.parent_eq (by simpa [hd] using h)

/-- Whether the mapper is asked does not depend on the parent. -/
theorem consult_snd (m : Mapper) (op : StartSignal) (p q : Option OperationId) :
    (m.consult op p).2 = (m.consult op q).2 := by
  unfold consult
  cases m.dataOf op <;> rfl

namespace Uniform

variable {m : Mapper}

/-- The descriptor for another parent. -/
theorem describe_withParent (hu : m.Uniform) {data : m.Data} {op : StartSignal}
    {p : Option OperationId} {d : Descriptor} (h : m.describe data op p = .ok (some d))
    (q : Option OperationId) : m.describe data op q = .ok (some (d.withParent q)) := by
  rw [hu.describe_eq] at h ⊢
  cases hd : m.describe data op none with
  | error e => rw [hd] at h; simp [Except.map] at h
  | ok o =>
    cases o with
    | none => rw [hd] at h; simp [Except.map] at h
    | some d₀ =>
      rw [hd] at h
      simp only [Except.map, Option.map_some, Except.ok.injEq, Option.some.injEq] at h ⊢
      rw [← h, Descriptor.withParent_withParent]

theorem faithful (hu : m.Uniform) : m.Faithful where
  parent_eq {data op p d} h := by
    have hp := hu.describe_withParent h p
    rw [h, Except.ok.injEq, Option.some.injEq] at hp
    rw [hp, Descriptor.parent_withParent]
  started_eq := hu.started_eq

/-- What the mapper answers for one parent it answers for every other. -/
theorem consult_eq (hu : m.Uniform) (op : StartSignal) (p q : Option OperationId) :
    (m.consult op q).1 = (m.consult op p).1.map (Option.map (·.withParent q)) := by
  unfold consult
  cases m.dataOf op with
  | error e => rfl
  | ok data =>
    simp only
    rw [hu.describe_eq data op q, hu.describe_eq data op p]
    cases m.describe data op none with
    | error e => rfl
    | ok o => cases o <;> rfl

theorem consult_id (hu : m.Uniform) {op : StartSignal} {p : Option OperationId} {d : Descriptor}
    (h : (m.consult op p).1 = .ok (some d)) : d.id = op.id := by
  unfold consult at h
  cases hd : m.dataOf op with
  | error e => simp [hd] at h
  | ok data => exact hu.id_eq (by simpa [hd] using h)

end Uniform

/-! ### The built-in mappers -/

/-- What a mapper finds in an operation: a subject, nothing, or an error. -/
structure Finds (m : Mapper) (found : Except Error (Option Subject)) : Prop where
  error : ∀ {e}, found = .error e → ∃ category, e = .unsupportedCategory category m.name
  /-- The mapper serves the clients that ask for the type of the subject. -/
  isEnabled : ∀ {s}, found = .ok (some s) → ∀ subs : SubscriptionSet,
    m.isEnabled subs = subs.requests s.operationType
  problems : ∀ {s}, found = .ok (some s) → (s.operationType = .problems ↔ m.handles = .reportProblem)

section Finds

variable {m : Mapper} {subject : Subject}
  (henabled : ∀ subs, m.isEnabled subs = subs.requests subject.operationType)
  (hproblems : subject.operationType = .problems ↔ m.handles = .reportProblem)

include henabled hproblems

theorem Finds.found : m.Finds (.ok (some subject)) where
  error h := absurd h (by simp)
  isEnabled h := by
    obtain rfl := Option.some.inj (Except.ok.inj h)
    exact henabled
  problems h := by
    obtain rfl := Option.some.inj (Except.ok.inj h)
    exact hproblems

/-- The subject of an operation of the one category that a mapper knows. -/
theorem Finds.checked (known : Category) (c : Option Category) :
    m.Finds ((checkCategory m.name known c).map fun _ => some subject) := by
  cases hc : checkCategory m.name known c with
  | ok u => exact .found henabled hproblems
  | error e =>
    refine ⟨fun h => ?_, fun h => absurd h (by simp [Except.map]),
      fun h => absurd h (by simp [Except.map])⟩
    obtain rfl := Except.error.inj h
    unfold checkCategory at hc
    split at hc
    · exact absurd hc (by simp)
    · split at hc
      · exact absurd hc (by simp)
      · exact ⟨_, (Except.error.inj hc).symm⟩

end Finds

/-- Work of a build phase, if its category is that of a phase. -/
theorem finds_buildPhase (op : StartSignal) : ∃ found, Finds buildPhase found ∧
    ∀ data p, buildPhase.describe data op p = found.map (Option.map (⟨op.identity p, ·⟩)) := by
  cases hc : op.category with
  | none =>
    refine ⟨.ok none, ⟨by simp, by simp, by simp⟩, fun data p => ?_⟩
    simp only [buildPhase, TypedMapper.erase, hc]
    rfl
  | some c =>
    cases hp : phaseOf c with
    | none =>
      refine ⟨.error (.unsupportedCategory c.wireName buildPhase.name),
        ⟨fun h => ⟨_, (Except.error.inj h).symm⟩, by simp, by simp⟩, fun data p => ?_⟩
      simp only [buildPhase, TypedMapper.erase, hc, hp]
      rfl
    | some phase =>
      refine ⟨.ok (some (.buildPhase phase op.totalProgress)),
        .found (fun _ => rfl) (by simp [Subject.operationType, buildPhase]), fun data p => ?_⟩
      simp only [buildPhase, TypedMapper.erase, hc, hp]
      rfl

theorem map_map_checked (r : Except Error Unit) (s : Subject) (op : StartSignal)
    (p : Option OperationId) :
    (r.map fun _ => some (Descriptor.mk (op.identity p) s)) =
      (r.map fun _ => some s).map (Option.map (⟨op.identity p, ·⟩)) := by
  cases r <;> rfl

/-- A built-in mapper finds the same in an operation whatever the parent. -/
theorem describe_of_mem_builtIn {m : Mapper} (hm : m ∈ builtIn) (data : m.Data) (op : StartSignal) :
    ∃ found, m.Finds found ∧
      ∀ p, m.describe data op p = found.map (Option.map (⟨op.identity p, ·⟩)) := by
  simp only [builtIn, List.mem_cons, List.not_mem_nil, or_false] at hm
  rcases hm with rfl | rfl | rfl | rfl | rfl
  · obtain ⟨found, hfound, hdescribe⟩ := finds_buildPhase op
    exact ⟨found, hfound, hdescribe data⟩
  · exact ⟨_, .checked (fun _ => rfl) (by simp [Subject.operationType, task]) .task op.category,
      fun p => map_map_checked _ _ op p⟩
  · exact ⟨_, .checked (fun _ => rfl) (by simp [Subject.operationType, projectConfiguration])
      .configureProject op.category, fun p => map_map_checked _ _ op p⟩
  · exact ⟨_, .found (fun _ => rfl) (by simp [Subject.operationType, workItem]), fun _ => rfl⟩
  · exact ⟨_, .found (fun _ => rfl) (by simp [Subject.operationType, problem]), fun _ => rfl⟩

/-- The subject that a built-in mapper found, if it made a descriptor. -/
theorem exists_subject {m : Mapper} (hm : m ∈ builtIn) {data : m.Data} {op : StartSignal}
    {p : Option OperationId} {d : Descriptor} (h : m.describe data op p = .ok (some d)) :
    ∃ s, d = ⟨op.identity p, s⟩ ∧
      (∀ subs, m.isEnabled subs = subs.requests s.operationType) ∧
      (s.operationType = .problems ↔ m.handles = .reportProblem) := by
  obtain ⟨found, hfound, hdescribe⟩ := describe_of_mem_builtIn hm data op
  rw [hdescribe p] at h
  match found, hfound, h with
  | .ok (some s), hfound, h =>
    obtain rfl := Option.some.inj (Except.ok.inj h)
    exact ⟨s, rfl, hfound.isEnabled rfl, hfound.problems rfl⟩

theorem started_of_mem_builtIn {m : Mapper} (hm : m ∈ builtIn) (d : Descriptor) (data : m.Data)
    (op : StartSignal) : m.started d data op = .started op.startTime d := by
  simp only [builtIn, List.mem_cons, List.not_mem_nil, or_false] at hm
  rcases hm with rfl | rfl | rfl | rfl | rfl <;> rfl

/-- A built-in mapper that reports an end reports it at the time of the signal,
with the result that the operation and the signal make. -/
theorem finished_of_mem_builtIn {m : Mapper} (hm : m ∈ builtIn) {d : Descriptor}
    {data : m.Data} {op : StartSignal} {f : FinishSignal} {e : Event}
    (h : m.finished d data op f = some e) :
    ∃ task, e = .finished f.endTime d (.ofOutcome op.startTime f.endTime f.outcome) task := by
  simp only [builtIn, List.mem_cons, List.not_mem_nil, or_false] at hm
  rcases hm with rfl | rfl | rfl | rfl | rfl
  · exact ⟨_, (Option.some.inj h).symm⟩
  · exact ⟨_, (Option.some.inj h).symm⟩
  · exact ⟨_, (Option.some.inj h).symm⟩
  · exact ⟨_, (Option.some.inj h).symm⟩
  · exact absurd h (by simp [problem, TypedMapper.erase])

theorem uniform_of_mem_builtIn {m : Mapper} (hm : m ∈ builtIn) : m.Uniform where
  describe_eq data op p := by
    obtain ⟨found, -, hdescribe⟩ := describe_of_mem_builtIn hm data op
    rw [hdescribe p, hdescribe none]
    match found with
    | .error e => rfl
    | .ok none => rfl
    | .ok (some s) => rfl
  id_eq h := by
    obtain ⟨s, rfl, -⟩ := exists_subject hm h
    rfl
  started_eq := started_of_mem_builtIn hm
  finished_eq h := by
    obtain ⟨task, rfl⟩ := finished_of_mem_builtIn hm h
    exact ⟨_, _, rfl⟩

/-- A built-in mapper reports the end of everything that it handles, or, if it
handles problems, of nothing. -/
theorem finished_eq_none_iff_handles {m : Mapper} (hm : m ∈ builtIn) (d : Descriptor)
    (data : m.Data) (op : StartSignal) (f : FinishSignal) :
    m.finished d data op f = none ↔ m.handles = .reportProblem := by
  simp only [builtIn, List.mem_cons, List.not_mem_nil, or_false] at hm
  rcases hm with rfl | rfl | rfl | rfl | rfl <;>
    simp [buildPhase, task, projectConfiguration, workItem, problem, TypedMapper.erase]

/-- A built-in mapper reports the end of all operations but problems. -/
theorem finished_eq_none_iff {m : Mapper} (hm : m ∈ builtIn) {data : m.Data}
    {op : StartSignal} {p : Option OperationId} {d : Descriptor}
    (h : m.describe data op p = .ok (some d)) (f : FinishSignal) :
    m.finished d data op f = none ↔ d.operationType = .problems := by
  obtain ⟨s, rfl, -, hproblems⟩ := exists_subject hm h
  exact (finished_eq_none_iff_handles hm _ data op f).trans hproblems.symm

/-- A built-in mapper serves the clients that ask for the type of its descriptors. -/
theorem isEnabled_of_consult {m : Mapper} (hm : m ∈ builtIn) {op : StartSignal}
    {p : Option OperationId} {d : Descriptor} (h : (m.consult op p).1 = .ok (some d))
    (subs : SubscriptionSet) : m.isEnabled subs = subs.requests d.operationType := by
  unfold consult at h
  cases hd : m.dataOf op with
  | error e => simp [hd] at h
  | ok data =>
    obtain ⟨s, rfl, henabled, -⟩ := exists_subject hm (by simpa [hd] using h)
    exact henabled subs

/-- What a built-in mapper reports of an end depends on the parent in the descriptor
for nothing but the parent in the report. -/
theorem finished_withParent_of_mem_builtIn {m : Mapper} (hm : m ∈ builtIn) (d : Descriptor)
    (data : m.Data) (op : StartSignal) (f : FinishSignal) (p : Option OperationId) :
    m.finished (d.withParent p) data op f = (m.finished d data op f).map (·.withParent p) := by
  simp only [builtIn, List.mem_cons, List.not_mem_nil, or_false] at hm
  rcases hm with rfl | rfl | rfl | rfl | rfl <;> rfl

/-- The mapper never answers that an operation was started twice; that is for the
build to say. -/
def NoTransitionErrors (m : Mapper) : Prop :=
  ∀ op p message, (m.consult op p).1 ≠ .error (.stateTransition message)

/-- A built-in mapper that can read an operation refuses it for its category. -/
theorem consult_error_of_mem_builtIn {m : Mapper} (hm : m ∈ builtIn) {data : m.Data}
    {op : StartSignal} {p : Option OperationId} {e : Error} (hd : m.dataOf op = .ok data)
    (h : (m.consult op p).1 = .error e) : ∃ category, e = .unsupportedCategory category m.name := by
  obtain ⟨found, hfound, hdescribe⟩ := describe_of_mem_builtIn hm data op
  have hrefused : m.describe data op p = .error e := by simpa [consult, hd] using h
  rw [hdescribe p] at hrefused
  match found, hfound, hrefused with
  | .error e', hfound, hrefused =>
    obtain rfl := Except.error.inj hrefused
    exact hfound.error rfl

theorem noTransitionErrors_of_mem_builtIn {m : Mapper} (hm : m ∈ builtIn) :
    m.NoTransitionErrors := by
  intro op p message h
  cases hd : m.dataOf op with
  | ok data =>
    obtain ⟨category, hcategory⟩ := consult_error_of_mem_builtIn hm hd h
    exact absurd hcategory (by simp)
  | error e =>
    obtain rfl : e = .stateTransition message := by simpa [consult, hd] using h
    unfold dataOf at hd
    split at hd <;> exact absurd hd (by simp [Error.misrouted])

end Mapper
end BuildFeed
