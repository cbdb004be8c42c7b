/-
# What is encoded is decoded

A decoder reads back the encoding of a type (`ReadsBack`) if it takes the tree
of every encoded value for that value, as soon as the brackets of the encoding
may be opened. This goes up from the scalars over lists and optional values
(`ReadsBack.list`, `ReadsBack.optional`) to objects, where each slot has to take
its field (`Layout.ReadsObjects.reads_back`), and from trees to texts if the
encoding fits into one (`ReadsBack.roundTrips`).

Key definitions: `ReadsBack`, `Value.Fits`, `RoundTrips`.
Key theorems: `Layout.ReadsObjects.reads_back`, `ReadsBack.roundTrips`.
-/
import BuildFeed.Proofs.Json.Canonical
import BuildFeed.Proofs.Wire.Slots
import BuildFeed.Ident

namespace BuildFeed
namespace Wire

open Json

/-- Whether a decoder reads the encoding of every value as the value. -/
def ReadsBack (d : Decoder α) (encode : α → Value) : Prop :=
  ∀ (r : Reading) (a : α), (encode a).depth ≤ r.room → d r (encode a).tree = .ok a

/-- A value whose integers 64 bits hold is decoded from its text as from its tree. -/
theorem decode_render {d : Decoder α} {v : Value} {a : α} (hin : v.InRange)
    (h : d .ofText v.tree = .ok a) : decode d v.render = .ok a := by
  rw [decode_ok, Document.read_render hin]
  exact ⟨h, rfl⟩

/-! ### Scalars -/

section Scalars

variable {r : Reading}

@[simp] theorem text_tree (s : String) : Decoder.text r (Value.text s).tree = .ok s := rfl

@[simp] theorem bool_tree (b : Bool) : Decoder.bool r (Value.bool b).tree = .ok b := rfl

theorem below_tree {bound n : Nat} (h : n < bound) :
    Decoder.below bound r (Value.nat n).tree = .ok n := by
  have hin : (0 : Int) ≤ n ∧ (n : Int) < bound := by omega
  exact if_pos hin

@[simp] theorem uint32_tree (n : UInt32) : Decoder.uint32 r (Value.uint32 n).tree = .ok n := by
  unfold Decoder.uint32 Decoder.map Value.uint32
  rw [below_tree n.toNat_lt]
  exact congrArg _ n.ofNat_toNat

@[simp] theorem uint64_tree (n : UInt64) : Decoder.uint64 r (Value.nat n.toNat).tree = .ok n := by
  unfold Decoder.uint64 Decoder.map
  rw [below_tree n.toNat_lt]
  exact congrArg _ n.ofNat_toNat

@[simp] theorem operationId_tree (id : OperationId) :
    OperationId.decoder r id.toValue.tree = .ok id := by
  unfold OperationId.decoder OperationId.toValue Decoder.map
  rw [uint64_tree]
  rfl

end Scalars

/-! ### Optional values and lists -/

theorem ReadsBack.optional {d : Decoder α} {encode : α → Value} (h : ReadsBack d encode)
    (hnull : ∀ a, encode a ≠ .null) : ReadsBack d.optional (Value.ofOption encode) := by
  intro r o hroom
  cases o with
  | none => rfl
  | some a =>
    have hread := h r a hroom
    have hne : (encode a).tree ≠ .scalar .null := by
      have := hnull a
      cases hv : encode a <;> simp_all [Value.tree]
    exact optional_ok_some.mpr ⟨hne, hread⟩

theorem ReadsBack.list {d : Decoder α} {encode : α → Value} (h : ReadsBack d encode) :
    ReadsBack d.list fun as => .array (as.map encode) := by
  intro r as hroom
  rw [Value.tree, list_ok, Value.itemTrees_eq, List.map_map]
  refine ⟨rfl, List.forall₂_map_left_iff.mpr (List.forall₂_same.mpr fun a ha => h r.inside a ?_)⟩
  have hdepth : ∀ v ∈ as.map encode, v.depth ≤ r.room - 1 := by
    rw [← Value.itemsDepth_le]
    rw [Value.depth] at hroom
    omega
  exact hdepth _ (List.mem_map_of_mem ha)

/-! ### Fields -/

/-- A field of an object is less deep than the object. -/
theorem depth_le_of_mem {fields : List (String × Value)} {n : Nat}
    (h : (Value.object fields).depth ≤ n) (name : String) {v : Value} (hf : (name, v) ∈ fields) :
    v.depth ≤ n - 1 :=
  Value.fieldsDepth_le.mp (Nat.le_sub_one_of_lt h) (name, v) hf

section Fields

variable {name : String}

@[simp] theorem valuesOf_fieldTrees_nil : valuesOf name (Value.fieldTrees []) = [] := rfl

@[simp] theorem valuesOf_fieldTrees_cons (n : String) (v : Value) (fields : List (String × Value)) :
    valuesOf name (Value.fieldTrees ((n, v) :: fields)) =
      if n = name then v.tree :: valuesOf name (Value.fieldTrees fields)
      else valuesOf name (Value.fieldTrees fields) := by
  rw [Value.fieldTrees, valuesOf_cons]
  by_cases h : n = name <;> simp [h]

theorem valuesOf_fieldTrees_append (fields fields' : List (String × Value)) :
    valuesOf name (Value.fieldTrees (fields ++ fields')) =
      valuesOf name (Value.fieldTrees fields) ++ valuesOf name (Value.fieldTrees fields') := by
  rw [Value.fieldTrees_eq, List.map_append, valuesOf_append, ← Value.fieldTrees_eq,
    ← Value.fieldTrees_eq]

/-- There are no entries of a name that no field has. -/
theorem valuesOf_fieldTrees_of_forall {fields : List (String × Value)}
    (h : ∀ f ∈ fields, f.1 ≠ name) :
    valuesOf name (Value.fieldTrees fields) = [] := by
  rw [List.eq_nil_iff_forall_not_mem]
  intro t ht
  rw [mem_valuesOf, Value.fieldTrees_eq, List.mem_map] at ht
  obtain ⟨f, hf, heq⟩ := ht
  exact h f hf (Option.some.inj (Prod.mk.inj heq).1)

end Fields

/-- What is encoded as an object is read back by the record of its fields. -/
theorem Record.reads_back {record : Record α} {fields : List (String × Value)} {r : Reading} {a : α}
    (hroom : (Value.object fields).depth ≤ r.room)
    (hread : record.ofFields r.inside (Value.fieldTrees fields) = .ok a) :
    record.decoder r (Value.object fields).tree = .ok a := by
  rw [Value.depth] at hroom
  rw [Value.tree, Record.decoder_object_ok]
  refine ⟨by omega, rfl, ?_, hread⟩
  rw [Value.fieldTrees_eq, List.forall_mem_map]
  exact fun f _ => ⟨rfl, f.2.isWhole_tree⟩

@[simp] theorem variantName_tree {names : List String} {r : Reading} {name : String}
    (hnodup : names.Nodup)
    (h : name ∈ names) : variantName names r (Value.text name).tree = .ok name := by
  show Decoder.pick (names.map fun n => (n, n)) name = .ok name
  rw [pick_ok (by simpa [Function.comp_def] using hnodup)]
  exact List.mem_map.mpr ⟨name, h, rfl⟩

/-- What is encoded as an object is read back if each slot takes its field. -/
theorem Layout.ReadsObjects.reads_back {L : Layout α} {d : Decoder α} (h : L.ReadsObjects d)
    {fields : List (String × Value)} {r : Reading} {a : α}
    (hroom : (Value.object fields).depth ≤ r.room)
    (htakes : Takes (L.slots r a) (Value.fieldTrees fields)) :
    d r (Value.object fields).tree = .ok a := by
  rw [Value.depth] at hroom
  have hdepth : ∀ f ∈ fields, f.2.depth ≤ r.room - 1 := by
    rw [← Value.fieldsDepth_le]
    omega
  refine (h ..).mpr ⟨by omega, rfl, ?_, htakes⟩
  rw [Value.fieldTrees_eq, List.forall_mem_map]
  intro f hf
  unfold Layout.Passes
  split
  · exact ⟨rfl, f.2.isWhole_tree⟩
  · exact Or.inr ⟨rfl, (f.2.isSound_tree _).mpr (hdepth f hf)⟩

end Wire

/-! ### Values that fit into a text -/

namespace Json.Value

/-- Whether 64 bits hold the integers of a value and no more brackets than so
many are open at once in its text. -/
def Fits (n : Nat) (v : Value) : Prop := v.InRange ∧ v.depth ≤ n

variable {n m : Nat}

theorem Fits.mono {v : Value} (h : v.Fits n) (hnm : n ≤ m) : v.Fits m := ⟨h.1, h.2.trans hnm⟩

@[simp] theorem fits_text (s : String) : (text s).Fits n := ⟨trivial, Nat.zero_le _⟩

@[simp] theorem fits_bool (b : Bool) : (bool b).Fits n := ⟨trivial, Nat.zero_le _⟩

@[simp] theorem fits_nat (k : UInt64) : (nat k.toNat).Fits n := by
  have := k.toNat_lt
  refine ⟨?_, Nat.zero_le _⟩
  show -0x8000000000000000 ≤ ((k.toNat : Nat) : Int) ∧ ((k.toNat : Nat) : Int) < 0x10000000000000000
  omega

@[simp] theorem fits_uint32 (k : UInt32) : (uint32 k).Fits n := by
  have := k.toNat_lt
  refine ⟨?_, Nat.zero_le _⟩
  show -0x8000000000000000 ≤ ((k.toNat : Nat) : Int) ∧ ((k.toNat : Nat) : Int) < 0x10000000000000000
  omega

theorem fits_ofOption {encode : α → Value} (h : ∀ a, (encode a).Fits n) (o : Option α) :
    (ofOption encode o).Fits n := by
  cases o with
  | none => exact ⟨trivial, Nat.zero_le _⟩
  | some a => exact h a

@[simp] theorem fits_array {items : List Value} :
    (array items).Fits (n + 1) ↔ ∀ v ∈ items, v.Fits n := by
  unfold Fits
  rw [depth, Nat.add_le_add_iff_right, itemsDepth_le]
  show ItemsInRange items ∧ _ ↔ _
  rw [itemsInRange_iff]
  exact forall₂_and.symm

@[simp] theorem fits_object {fields : List (String × Value)} :
    (object fields).Fits (n + 1) ↔ ∀ f ∈ fields, f.2.Fits n := by
  unfold Fits
  rw [depth, Nat.add_le_add_iff_right, fieldsDepth_le]
  show FieldsInRange fields ∧ _ ↔ _
  rw [fieldsInRange_iff]
  exact forall₂_and.symm

end Json.Value

namespace Wire

open Json

/-- Whether every value is decoded from the text that it is encoded as. -/
def RoundTrips (d : Decoder α) (encode : α → Value) : Prop :=
  ∀ a, decode d (encode a).render = .ok a

/-- What is read back from trees is read back from texts if it fits into them. -/
theorem ReadsBack.roundTrips {d : Decoder α} {encode : α → Value} (h : ReadsBack d encode)
    (hfits : ∀ a, (encode a).Fits 127) : RoundTrips d encode :=
  fun a => decode_render (hfits a).1 (h .ofText a (hfits a).2)

end Wire
end BuildFeed
