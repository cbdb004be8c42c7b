/-
# Subscriptions

A client asks for operations of some of five types. A `SubscriptionSet`
holds one bit for each type and is seen through `requests` and `toList`
alone, so neither the order nor the repetition of what was asked for can be
told from it. There is no bit that is not the bit of a type, so a set is
determined by what it requests (`SubscriptionSet.ext_requests`).

Key definitions: `OperationType`, `SubscriptionSet`, `SubscriptionSet.ofList`,
`SubscriptionSet.requests`, `SubscriptionSet.toList`.
Key theorems: `SubscriptionSet.requests_ofList`, `SubscriptionSet.ext_requests`.
-/
import BuildFeed.Json.Value
import BuildFeed.Wire.Decoder

namespace BuildFeed

open Json Wire

/-- The kinds of operation that a client can ask for. -/
inductive OperationType
  | task
  | buildPhase
  | projectConfiguration
  | workItem
  | problems
  deriving Repr, DecidableEq, Inhabited

namespace OperationType

/-- All types, in the order in which they are listed. -/
def all : List OperationType := [task, buildPhase, projectConfiguration, workItem, problems]

/-- The bit of a type in a set. -/
def index : OperationType → Nat
  | task => 0
  | buildPhase => 1
  | projectConfiguration => 2
  | workItem => 3
  | problems => 4

/-- The name on the wire. -/
def wireName : OperationType → String
  | task => "TASK"
  | buildPhase => "BUILD_PHASE"
  | projectConfiguration => "PROJECT_CONFIGURATION"
  | workItem => "WORK_ITEM"
  | problems => "PROBLEMS"

/-- The name in diagnostics. -/
def name : OperationType → String
  | task => "Task"
  | buildPhase => "BuildPhase"
  | projectConfiguration => "ProjectConfiguration"
  | workItem => "WorkItem"
  | problems => "Problems"

def toValue (t : OperationType) : Value := .text t.wireName

def decoder : Decoder OperationType := Decoder.oneOf (all.map fun t => (t.wireName, t))

/-- Every bit of a set is the bit of a type. -/
theorem exists_index {i : Nat} (h : i < 5) : ∃ t : OperationType, t.index = i :=
  match i, h with
  | 0, _ => ⟨task, rfl⟩
  | 1, _ => ⟨buildPhase, rfl⟩
  | 2, _ => ⟨projectConfiguration, rfl⟩
  | 3, _ => ⟨workItem, rfl⟩
  | 4, _ => ⟨problems, rfl⟩

end OperationType

/-- A set of operation types. -/
structure SubscriptionSet where
  bits : BitVec 5
  deriving Repr, DecidableEq

namespace SubscriptionSet

/-- The set without members. -/
def none : SubscriptionSet := ⟨0⟩

instance : Inhabited SubscriptionSet := ⟨none⟩

/-- Adds a type. -/
def insert (s : SubscriptionSet) (t : OperationType) : SubscriptionSet :=
  ⟨s.bits ||| BitVec.twoPow 5 t.index⟩

/-- The set of the types in a list. -/
def ofList (ts : List OperationType) : SubscriptionSet := ts.foldl insert none

/-- The set of all types. -/
def all : SubscriptionSet := ofList OperationType.all

/-- Whether a type is in the set. -/
def requests (s : SubscriptionSet) (t : OperationType) : Bool := s.bits.getLsbD t.index

def isEmpty (s : SubscriptionSet) : Bool := s.bits = 0

/-- The members, in the order of the types. -/
def toList (s : SubscriptionSet) : List OperationType := OperationType.all.filter s.requests

/-- The members between braces, for diagnostics. -/
def describe (s : SubscriptionSet) : String :=
  "\x7b" ++ String.intercalate ", " (s.toList.map OperationType.name) ++ "\x7d"

def toValue (s : SubscriptionSet) : Value := .array (s.toList.map OperationType.toValue)

def decoder : Decoder SubscriptionSet := (Decoder.list OperationType.decoder).map ofList

@[simp] theorem requests_none (t : OperationType) : none.requests t = false := by
  cases t <;> rfl

theorem requests_insert (s : SubscriptionSet) (t u : OperationType) :
    (s.insert t).requests u = (s.requests u || t = u) := by
  cases t <;> cases u <;> simp [requests, insert, OperationType.index]

/-- A set has the members that it was made of. -/
theorem requests_ofList (ts : List OperationType) (t : OperationType) :
    (ofList ts).requests t = ts.contains t := by
  suffices h : ∀ s : SubscriptionSet, (ts.foldl insert s).requests t = (s.requests t || ts.contains t) by
    simpa [ofList] using h none
  induction ts with
  | nil => simp
  | cons u us ih =>
    intro s
    rw [List.foldl_cons, ih, requests_insert, List.contains_cons, Bool.or_assoc]
    congr 2
    exact decide_eq_decide.mpr eq_comm

@[simp] theorem mem_toList (s : SubscriptionSet) (t : OperationType) :
    t ∈ s.toList ↔ s.requests t := by
  cases t <;> simp [toList, OperationType.all]

/-- Sets that request the same types are equal. -/
theorem ext_requests {s s' : SubscriptionSet} (h : ∀ t, s.requests t = s'.requests t) : s = s' := by
  obtain ⟨bits⟩ := s
  obtain ⟨bits'⟩ := s'
  refine congrArg mk (BitVec.eq_of_getLsbD_eq fun i hi => ?_)
  obtain ⟨t, rfl⟩ := OperationType.exists_index hi
  exact h t

/-- A set is made of its members. -/
theorem ofList_toList (s : SubscriptionSet) : ofList s.toList = s := by
  apply ext_requests
  intro t
  rw [requests_ofList, Bool.eq_iff_iff, List.contains_iff_mem, mem_toList]

theorem not_requests_of_isEmpty {s : SubscriptionSet} (h : s.isEmpty = true) (t : OperationType) :
    s.requests t = false := by
  have hbits : s.bits = 0 := of_decide_eq_true h
  rw [requests, hbits]
  exact BitVec.getLsbD_zero

end SubscriptionSet

end BuildFeed
