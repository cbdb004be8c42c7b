/-
# Decoders field by field

What a decoder makes of an object is settled by the entries of each field on
its own. A `Slot` is one field of one value: its name, and whether the trees
of the entries of this name are read as the part of the value that the field
holds; a slot never takes more than one entry. A record reads a value exactly
if all slots of the value take their entries, and a tagged value has one more
slot for its tag (`Layout.ReadsObjects`). Where a value is written as an array,
the items go to the slots in order (`Layout.ReadsArrays`).

Key definitions: `Slot`, `Slot.Becomes`, `Takes`, `Fills`, `Layout`.
Key theorems: `tagged_readsObjects`, `tagged_readsArrays`, `fills_edit`.
-/
import BuildFeed.Proofs.Lists
import BuildFeed.Proofs.Wire.Reads

namespace BuildFeed
namespace Wire

open Json

/-! ### Entries of one name -/

section Entries

variable {name : String} {fields fields' : Fields}

/-- The order of the fields does not show in the entries of a name that has one. -/
theorem valuesOf_perm (h : fields.Perm fields') (hone : (valuesOf name fields).length ≤ 1) :
    valuesOf name fields' = valuesOf name fields := by
  have hperm : (valuesOf name fields).Perm (valuesOf name fields') := h.filterMap _
  match hts : valuesOf name fields, hone with
  | [], _ =>
    rw [hts] at hperm
    exact hperm.nil_eq.symm
  | [t], _ =>
    rw [hts] at hperm
    exact List.perm_singleton.mp hperm.symm

theorem valuesOf_filter_self : valuesOf name (fields.filter fun (n, _) => n ≠ some name) = [] := by
  rw [List.eq_nil_iff_forall_not_mem]
  intro t ht
  have := (List.mem_filter.mp (mem_valuesOf.mp ht)).2
  simp at this

end Entries

/-! ### Slots -/

/-- A field of a value, and which entries are read as what it holds. -/
structure Slot where
  name : String
  takes : List Tree → Prop
  single : ∀ ts, takes ts → ts.length ≤ 1

namespace Slot

/-- The slot of a field that holds the value of a decoder. -/
def field (name : String) (absent : Option β) (d : Decoder β) (r : Reading) (b : β) : Slot where
  name := name
  takes ts := FieldReads absent d r ts b
  single := by
    rintro ts (⟨rfl, -⟩ | ⟨t, rfl, -⟩)
    · exact Nat.zero_le _
    · exact Nat.le_refl _

section Field

variable {β : Type} {name : String} {absent : Option β} {d : Decoder β} {r : Reading} {b b' : β}
  {ts : List Tree} {t : Tree}

@[simp] theorem name_field : (field name absent d r b).name = name := rfl

@[simp] theorem takes_field :
    (field name absent d r b).takes ts ↔ FieldReads absent d r ts b := Iff.rfl

/-- The entries of a field are read as one value only. -/
theorem eq_of_takes (h : (field name absent d r b).takes ts)
    (h' : (field name absent d r b').takes ts) :
    b = b' := by
  rcases h with ⟨rfl, h⟩ | ⟨t, rfl, h⟩
  · rcases h' with ⟨-, h'⟩ | ⟨t, ht, -⟩
    · exact Option.some.inj (h.symm.trans h')
    · exact absurd ht (by simp)
  · rcases h' with ⟨ht, -⟩ | ⟨t', ht, h'⟩
    · exact absurd ht (by simp)
    · obtain ⟨rfl, -⟩ := List.cons.inj ht
      exact Except.ok.inj (h.symm.trans h')

end Field

/-- Whether a slot of another value takes `ts'` where the slot takes `ts`, if it
is the slot of the given name, and is the same if it is not. -/
def Becomes (name : String) (ts ts' : List Tree) (s s' : Slot) : Prop :=
  s'.name = s.name ∧ if s.name = name then s.takes ts → s'.takes ts' else s' = s

theorem Becomes.other {name : String} {ts ts' : List Tree} {s : Slot} (h : s.name ≠ name) :
    Becomes name ts ts' s s := ⟨rfl, by rw [if_neg h]⟩

theorem Becomes.this {name : String} {ts ts' : List Tree} {absent : Option β} {d : Decoder β}
    {r : Reading}
    {b b' : β} (h : FieldReads absent d r ts b → FieldReads absent d r ts' b') :
    Becomes name ts ts' (field name absent d r b) (field name absent d r b') :=
      ⟨rfl, (if_pos (name_field)).mpr h⟩

/-- Whether a slot takes the next item, or none at the end. -/
def TakesNext (s : Slot) (items rest : List Tree) : Prop :=
  (items = [] ∧ rest = [] ∧ s.takes []) ∨ ∃ t, items = t :: rest ∧ s.takes [t]

end Slot

/-- Whether all slots take the entries of their names. -/
def Takes (slots : List Slot) (fields : Fields) : Prop :=
  ∀ s ∈ slots, s.takes (valuesOf s.name fields)

section Takes

variable {s : Slot} {slots slots' : List Slot} {fields : Fields}

@[simp] theorem takes_nil : Takes [] fields := by simp [Takes]

@[simp] theorem takes_cons :
    Takes (s :: slots) fields ↔ s.takes (valuesOf s.name fields) ∧ Takes slots fields :=
  List.forall_mem_cons

@[simp] theorem takes_append :
    Takes (slots ++ slots') fields ↔ Takes slots fields ∧ Takes slots' fields :=
  List.forall_mem_append

theorem Takes.congr {fields' : Fields} (h : Takes slots fields)
    (hsame : ∀ s ∈ slots, valuesOf s.name fields' = valuesOf s.name fields) :
    Takes slots fields' := by
  intro s hs
  rw [hsame s hs]
  exact h s hs

end Takes

/-- Whether items go to slots in order and leave a rest. -/
def Fills : List Slot → List Tree → List Tree → Prop
  | [], items, rest => items = rest
  | s :: slots, items, rest => ∃ mid, s.TakesNext items mid ∧ Fills slots mid rest

section Fills

variable {s : Slot} {slots slots' : List Slot} {items before after : List Tree} {name : String}
  {t t' : Tree}

theorem fills_nil (s : Slot) (slots : List Slot) :
    Fills (s :: slots) [] [] ↔ s.takes [] ∧ Fills slots [] [] := by
  simp [Fills, Slot.TakesNext]

theorem fills_cons (s : Slot) (slots : List Slot) (t : Tree) (items rest : List Tree) :
    Fills (s :: slots) (t :: items) rest ↔ s.takes [t] ∧ Fills slots items rest := by
  simp [Fills, Slot.TakesNext, and_assoc]

/-- Each item is taken by the slot in its place. -/
theorem takes_of_fills (h : Fills slots (before ++ t :: after) []) :
    ∃ s, slots[before.length]? = some s ∧ s.takes [t] := by
  induction before generalizing slots with
  | nil =>
    cases slots with
    | nil => exact absurd h (by simp [Fills])
    | cons s slots => exact ⟨s, rfl, ((fills_cons ..).mp h).1⟩
  | cons u before ih =>
    cases slots with
    | nil => exact absurd h (by simp [Fills])
    | cons s slots =>
      obtain ⟨s', hs', htakes⟩ := ih ((fills_cons ..).mp h).2
      exact ⟨s', hs', htakes⟩

/-- The slots of other names stay the same. -/
theorem eq_of_becomes {ts ts' : List Tree}
    (h : List.Forall₂ (Slot.Becomes name ts ts') slots slots')
    (hname : name ∉ slots.map Slot.name) : slots' = slots := by
  induction h with
  | nil => rfl
  | cons hs _ ih =>
    rw [List.map_cons, List.mem_cons, not_or] at hname
    have hsame := hs.2
    rw [if_neg (Ne.symm hname.1)] at hsame
    rw [hsame, ih hname.2]

/-- An item is replaced where the slot in its place takes the new one, the slots
in all other places being the same. -/
theorem fills_edit (h : Fills slots (before ++ t :: after) [])
    (hslots : List.Forall₂ (Slot.Becomes name [t] [t']) slots slots')
    (hnodup : (slots.map Slot.name).Nodup)
    (hplace : (slots.map Slot.name)[before.length]? = some name) :
    Fills slots' (before ++ t' :: after) [] := by
  induction hslots generalizing before with
  | nil => exact absurd hplace (by simp)
  | @cons s s' slots slots' hs hrest ih =>
    obtain ⟨hname, hbecomes⟩ := hs
    obtain ⟨hnotin, hnodup⟩ := List.nodup_cons.mp hnodup
    cases before with
    | nil =>
      obtain ⟨ht, hfills⟩ := (fills_cons ..).mp h
      have hthis : s.name = name := by simpa using hplace
      rw [if_pos hthis] at hbecomes
      have hsame : slots' = slots := by
        refine eq_of_becomes hrest ?_
        rwa [← hthis]
      exact (fills_cons ..).mpr ⟨hbecomes ht, hsame ▸ hfills⟩
    | cons u before =>
      obtain ⟨hu, hfills⟩ := (fills_cons ..).mp h
      have hplace' : (slots.map Slot.name)[before.length]? = some name := by simpa using hplace
      have hother : s.name ≠ name := by
        rintro rfl
        exact hnotin (List.mem_of_getElem? hplace')
      rw [if_neg hother] at hbecomes
      rw [hbecomes]
      exact (fills_cons ..).mpr ⟨hu, ih hfills hnodup hplace'⟩

end Fills

/-! ### Tags -/

/-- The name of the variant that a tag stands for. -/
def variantName (names : List String) : Decoder String := identify (names.map fun n => (n, n))

section Tags

variable {α : Type} {variants : List (String × α)} {r : Reading} {t : Tree} {a : α}

theorem pick_ok (hnodup : (variants.map Prod.fst).Nodup) {name : String} :
    Decoder.pick variants name = .ok a ↔ (name, a) ∈ variants := by
  rw [← lookup_iff_mem hnodup]
  unfold Decoder.pick
  cases variants.lookup name <;> simp

/-- A tag stands for the variant of the name that it stands for. -/
theorem identify_ok (hnodup : (variants.map Prod.fst).Nodup) :
    identify variants r t = .ok a ↔
      ∃ name, variantName (variants.map Prod.fst) r t = .ok name ∧ (name, a) ∈ variants := by
  unfold variantName identify
  cases t with
  | scalar s =>
    cases s with
    | text s =>
      have hnames : (((variants.map Prod.fst).map fun n => (n, n)).map Prod.fst).Nodup := by
        simpa [Function.comp_def] using hnodup
      simp only [pick_ok hnodup, pick_ok hnames]
      constructor
      · exact fun h => ⟨s, List.mem_map_of_mem (List.mem_map_of_mem h), h⟩
      · rintro ⟨name, hname, h⟩
        obtain ⟨n, -, hn⟩ := List.mem_map.mp hname
        obtain ⟨rfl, rfl⟩ := Prod.mk.inj hn
        exact h
    | int n =>
      by_cases hn : r.held && 0 ≤ n
      · cases hget : variants[n.toNat]? with
        | none => simp [hn, hget]
        | some v =>
          obtain ⟨name, b⟩ := v
          have hmem : (name, b) ∈ variants := List.mem_of_getElem? hget
          have honly : (name, a) ∈ variants ↔ b = a := by
            rw [← lookup_iff_mem hnodup, (lookup_iff_mem hnodup).mpr hmem, Option.some.injEq]
          simp [hn, hget, honly]
      · simp [hn]
    | _ => simp
  | _ => simp

end Tags

/-! ### Layouts -/

/-- The fields of a type: how it is tagged, if it is, with the names of all its
variants and the variant of a value; and the slots of the other fields. -/
structure Layout (α : Type) where
  tag : Option (String × List String)
  variant : α → String
  fields : Reading → α → List Slot

namespace Layout

variable {α : Type}

/-- The slots of a value, that of the tag first. -/
def slots (L : Layout α) (r : Reading) (a : α) : List Slot :=
  match L.tag with
  | none => L.fields r.inside a
  | some (tag, names) => .field tag none (variantName names) r.inside (L.variant a) :: L.fields r.holding a

/-- Whether an entry may stand in an object: where there is a tag to look for,
the entry is read through. -/
def Passes (L : Layout α) (r : Reading) (e : Option String × Tree) : Prop :=
  match L.tag with
  | none => e.1.isSome = true ∧ e.2.isWhole = true
  | some (tag, _) => e.1 = some tag ∨ (e.1.isSome = true ∧ e.2.isSound (r.room - 1) = true)

/-- Whether a decoder reads values of objects slot by slot. -/
def ReadsObjects (L : Layout α) (d : Decoder α) : Prop :=
  ∀ (r : Reading) (fields : Fields) (closed : Bool) (a : α), d r (.object fields closed) = .ok a ↔
    0 < r.room ∧ closed = true ∧ (∀ e ∈ fields, L.Passes r e) ∧ Takes (L.slots r a) fields

/-- Whether a decoder reads values of arrays slot by slot. -/
def ReadsArrays (L : Layout α) (d : Decoder α) : Prop :=
  ∀ (r : Reading) (items : List Tree) (closed : Bool) (a : α), d r (.array items closed) = .ok a ↔
    0 < r.room ∧ closed = true ∧
    (L.tag.isSome = true → Tree.itemsSound (r.room - 1) items.tail = true) ∧
      Fills (L.slots r a) items []

end Layout

section Decoders

variable {α : Type} {fields : Reading → α → List Slot}

theorem Record.readsObjects {record : Record α} {variant : α → String}
    (h : ∀ r fs a, record.ofFields r fs = .ok a ↔ Takes (fields r a) fs) :
    Layout.ReadsObjects ⟨none, variant, fields⟩ record.decoder := by
  intro r fs closed a
  rw [Record.decoder_object_ok, h]
  rfl

theorem Record.readsArrays {record : Record α} {variant : α → String}
    (h : ∀ r items rest a, record.ofItems r items = .ok (a, rest) ↔ Fills (fields r a) items rest) :
    Layout.ReadsArrays ⟨none, variant, fields⟩ record.decoder := by
  intro r items closed a
  rw [Record.decoder_array_ok, h]
  simp [Layout.slots]

variable {tag : String} {variants : List (String × Variant α)} {variant : α → String}

theorem tagged_readsObjects (hnodup : (variants.map Prod.fst).Nodup)
    (htag : ∀ r a, ∀ s ∈ fields r a, s.name ≠ tag)
    (h : ∀ r fs name a, (∃ v ∈ variants, v.1 = name ∧ v.2.ofFields r fs = .ok a) ↔
      variant a = name ∧ Takes (fields r a) fs) :
    Layout.ReadsObjects ⟨some (tag, variants.map Prod.fst), variant, fields⟩
      (tagged tag variants) := by
  intro r fs closed a
  have hothers : Takes (fields r.holding a) (fs.filter fun (n, _) => n ≠ some tag) ↔
      Takes (fields r.holding a) fs :=
    forall₂_congr fun s hs => by rw [valuesOf_filter_ne (htag _ _ s hs)]
  rw [tagged_object_ok]
  refine and_congr_right fun _ => and_congr_right fun _ => and_congr_right fun _ => ?_
  show _ ↔ Takes (Slot.field .. :: _) _
  rw [takes_cons, Slot.takes_field, FieldReads.required]
  constructor
  · rintro ⟨t, v, hts, hid, hread⟩
    obtain ⟨name, hname, hv⟩ := (identify_ok hnodup).mp hid
    obtain ⟨rfl, hslots⟩ := (h ..).mp ⟨(name, v), hv, rfl, hread⟩
    exact ⟨⟨t, hts, hname⟩, hothers.mp hslots⟩
  · rintro ⟨⟨t, hts, hname⟩, hslots⟩
    obtain ⟨⟨name, v⟩, hv, rfl, hread⟩ := (h r.holding _ _ a).mpr ⟨rfl, hothers.mpr hslots⟩
    exact ⟨t, v, hts, (identify_ok hnodup).mpr ⟨_, hname, hv⟩, hread⟩

theorem tagged_readsArrays (hnodup : (variants.map Prod.fst).Nodup)
    (h : ∀ r items name a, (∃ v ∈ variants, v.1 = name ∧ v.2.ofItems r items = .ok a) ↔
      variant a = name ∧ Fills (fields r a) items []) :
    Layout.ReadsArrays ⟨some (tag, variants.map Prod.fst), variant, fields⟩
      (tagged tag variants) := by
  intro r items closed a
  rw [tagged_array_ok]
  refine and_congr_right fun _ => and_congr_right fun _ => ?_
  constructor
  · rintro ⟨t, rest, v, rfl, hid, hsound, hread⟩
    obtain ⟨name, hname, hv⟩ := (identify_ok hnodup).mp hid
    obtain ⟨rfl, hfills⟩ := (h ..).mp ⟨(name, v), hv, rfl, hread⟩
    exact ⟨fun _ => hsound, (fills_cons ..).mpr ⟨FieldReads.required.mpr ⟨t, rfl, hname⟩, hfills⟩⟩
  · rintro ⟨hsound, hfills⟩
    cases items with
    | nil => 
      have := ((fills_nil ..).mp hfills).1
      simp [FieldReads] at this
    | cons t rest =>
      obtain ⟨htag, hfills⟩ := (fills_cons ..).mp hfills
      obtain ⟨_, ⟨⟩, hname⟩ := FieldReads.required.mp htag
      obtain ⟨⟨name, v⟩, hv, rfl, hread⟩ := (h r.holding _ _ a).mpr ⟨rfl, hfills⟩
      exact ⟨t, rest, v, rfl, (identify_ok hnodup).mpr ⟨_, hname, hv⟩, hsound rfl, hread⟩

end Decoders

end Wire
end BuildFeed
