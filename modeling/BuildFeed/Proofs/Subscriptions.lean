/-
# Subscriptions are sets

What a client asks for is kept as one bit for each type, so of the list that it
gave only the members are left. A set requests the types of its list
(`SubscriptionSet.requests_ofList`) and is determined by what it requests
(`SubscriptionSet.ext_requests`), so two lists make the same set exactly if they
have the same members (`SubscriptionSet.ofList_eq_iff`): order and repetition
are of no account, and lists that are joined request what either of them does.

On the wire a set is the array of the names of its members, each once and in
the order of the types. Every array of names, with whatever blanks and escapes
it is written, is read as the set of its types. What a set is written as is one
such array, and as a set is made of its members it is read as the set again.

Key definitions: `OperationType.Members`, `OperationType.listText`.
Key theorems: `SubscriptionSet.ofList_eq_iff`, `SubscriptionSet.members_toList`,
`OperationType.render_array`, `SubscriptionSet.decode_listText`, `subscriptions_are_sets`.
-/
import BuildFeed.Proofs.Wire.ClientFormat

namespace BuildFeed

open Json Wire

/-! ### Lists of types -/

namespace OperationType

/-- The members of a list of types as a set has them. -/
structure Members (members ts : List OperationType) : Prop where
  mem_iff : ∀ t, t ∈ members ↔ t ∈ ts
  /-- In the order of the types, and none twice. -/
  ordered : members.Pairwise fun t u => t.index < u.index

/-- A name between quotes. -/
def quoted (t : OperationType) : String := "\"" ++ t.wireName ++ "\""

/-- The compact text of an array of names. -/
def listText (ts : List OperationType) : String :=
  "[" ++ String.intercalate "," (ts.map quoted) ++ "]"

/-- No character of a name has to be escaped. -/
theorem print_toValue (t : OperationType) : t.toValue.print = t.quoted.toList := by
  cases t <;> decide +kernel

/-- The names of an array stand between commas, up to the closing bracket. -/
theorem printItems_toValue (t : OperationType) (ts : List OperationType) :
    t.toValue.print ++ Value.printItems (ts.map toValue) =
      (String.intercalate "," ((t :: ts).map quoted)).toList ++ [']'] := by
  induction ts generalizing t with
  | nil =>
    rw [print_toValue, List.map_singleton, String.intercalate_singleton]
    rfl
  | cons u ts ih =>
    have hcomma : String.intercalate "," ((t :: u :: ts).map quoted) =
        t.quoted ++ "," ++ String.intercalate "," ((u :: ts).map quoted) :=
      String.intercalate_cons_cons
    rw [List.map_cons, Value.printItems, ih u, print_toValue, hcomma, String.toList_append,
      String.toList_append, List.append_assoc, List.append_assoc]
    rfl

/-- An array of names is written without a blank. -/
theorem render_array (ts : List OperationType) :
    (Value.array (ts.map toValue)).render = listText ts := by
  apply String.toList_injective
  rw [Value.render, String.toList_ofList]
  cases ts with
  | nil => rfl
  | cons t ts =>
    rw [List.map_cons, Value.print, printItems_toValue]
    simp [listText]

end OperationType

/-! ### Sets of types -/

namespace SubscriptionSet

variable {ts us : List OperationType}

theorem requests_ofList_iff {t : OperationType} : (ofList ts).requests t = true ↔ t ∈ ts := by
  rw [requests_ofList, List.contains_iff_mem]

theorem isEmpty_ofList_iff : (ofList ts).isEmpty = true ↔ ts = [] := by
  constructor
  · intro h
    apply List.eq_nil_iff_forall_not_mem.mpr
    intro t ht
    have hrequested := requests_ofList_iff.mpr ht
    rw [not_requests_of_isEmpty h] at hrequested
    exact absurd hrequested (by decide)
  · rintro rfl
    rfl

/-- Lists with the same members make the same set, and only these do. -/
theorem ofList_eq_iff : ofList ts = ofList us ↔ ∀ t, t ∈ ts ↔ t ∈ us := by
  constructor
  · intro h t
    rw [← requests_ofList_iff, ← requests_ofList_iff, h]
  · intro h
    apply ext_requests
    intro t
    rw [Bool.eq_iff_iff, requests_ofList_iff, requests_ofList_iff]
    exact h t

/-- The members of a set are those of its list. -/
theorem members_toList (ts : List OperationType) : OperationType.Members (ofList ts).toList ts where
  mem_iff t := by rw [mem_toList, requests_ofList_iff]
  ordered := by
    have hall : OperationType.all.Pairwise fun t u => t.index < u.index := by decide
    exact hall.filter _

/-- A text that says an array of names is decoded as the set of their types. -/
theorem decode_of_read {text : String}
    (h : Document.read text = ⟨(Value.array (ts.map OperationType.toValue)).tree, true⟩) :
    decode decoder text = .ok (ofList ts) := by
  have hroom : (Value.array (ts.map OperationType.toValue)).depth ≤ Reading.ofText.room :=
    (OperationType.fits_array ts).2.trans (by decide)
  rw [decode_ok, h]
  exact ⟨decoder_tree ts hroom, rfl⟩

theorem decode_listText (ts : List OperationType) :
    decode decoder (OperationType.listText ts) = .ok (ofList ts) := by
  rw [← OperationType.render_array]
  exact decode_of_read (Document.read_render (OperationType.fits_array ts).1)

end SubscriptionSet

/-- A set of subscriptions that is made of a list is the set of what is in the
list, whatever its length, its order and its repetitions: it requests what is in
the list and is empty only if the list is, it lists its members each once and in
the order of the types, it is equal to the sets of the lists with the same
members, and lists that are joined request what one of them does. Every text of
an array of names is decoded as the set of their types. A set is encoded as the
array of its members, and decoded from that again. -/
theorem subscriptions_are_sets (ts : List OperationType) :
    (∀ t, (SubscriptionSet.ofList ts).requests t = true ↔ t ∈ ts) ∧
    ((SubscriptionSet.ofList ts).isEmpty = true ↔ ts = []) ∧
    OperationType.Members (SubscriptionSet.ofList ts).toList ts ∧
    (∀ us, SubscriptionSet.ofList us = .ofList ts ↔ ∀ t, t ∈ us ↔ t ∈ ts) ∧
    (∀ us t, (SubscriptionSet.ofList (ts ++ us)).requests t = true ↔
      (SubscriptionSet.ofList ts).requests t = true ∨ (SubscriptionSet.ofList us).requests t = true) ∧
    (∀ text, Document.read text = ⟨(Value.array (ts.map OperationType.toValue)).tree, true⟩ →
      decode SubscriptionSet.decoder text = .ok (.ofList ts)) ∧
    decode SubscriptionSet.decoder (OperationType.listText ts) = .ok (.ofList ts) ∧
    (SubscriptionSet.ofList ts).toValue.render =
      OperationType.listText (SubscriptionSet.ofList ts).toList ∧
    decode SubscriptionSet.decoder (SubscriptionSet.ofList ts).toValue.render = .ok (.ofList ts) := by
  have hrender : (SubscriptionSet.ofList ts).toValue.render =
      OperationType.listText (SubscriptionSet.ofList ts).toList := OperationType.render_array _
  refine ⟨fun t => SubscriptionSet.requests_ofList_iff, SubscriptionSet.isEmpty_ofList_iff,
    SubscriptionSet.members_toList ts, fun us => SubscriptionSet.ofList_eq_iff, fun us t => ?_,
    fun text h => SubscriptionSet.decode_of_read h, SubscriptionSet.decode_listText ts, hrender, ?_⟩
  · simp only [SubscriptionSet.requests_ofList_iff, List.mem_append]
  · rw [hrender, SubscriptionSet.decode_listText, SubscriptionSet.ofList_toList]

/-- Three names with blanks between them, one of them twice and once with an
escape: the array is decoded as the set of two types, in their order. -/
theorem subscriptions_are_sets_of_repeats :
    let text := " [ \"WORK_ITEM\" ,\n\"TASK\", \"\\u0057ORK_ITEM\"]\t"
    let s := SubscriptionSet.ofList [.task, .workItem]
    Document.read text =
      ⟨(Value.array ([.workItem, .task, .workItem].map OperationType.toValue)).tree, true⟩ ∧
    decode SubscriptionSet.decoder text = .ok s ∧ s.toList = [.task, .workItem] ∧
    s.toValue.render = "[\"TASK\",\"WORK_ITEM\"]" := by
  intro text s
  have hlex : lex text.toList = [.openArray, .scalar (.text "WORK_ITEM"), .comma,
      .scalar (.text "TASK"), .comma, .scalar (.text "WORK_ITEM"), .closeArray] := by decide +kernel
  have hread : Document.read text =
      ⟨(Value.array ([.workItem, .task, .workItem].map OperationType.toValue)).tree, true⟩ := by
    rw [Document.read, hlex]
    rfl
  obtain ⟨-, -, -, heq, -, hdecode, -, hrender, -⟩ :=
    subscriptions_are_sets [.workItem, .task, .workItem]
  have hs : s = .ofList [.workItem, .task, .workItem] := (heq _).mpr fun t => by cases t <;> decide
  refine ⟨hread, ?_, by decide, ?_⟩
  · rw [hs]
    exact hdecode text hread
  · rw [hs, hrender]
    rfl

end BuildFeed
