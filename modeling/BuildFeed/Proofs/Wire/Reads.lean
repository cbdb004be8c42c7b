/-
# When decoders succeed

A record reads an object exactly if each of its fields reads the entries of its
name: one entry that decodes, or none in place of which a default stands
(`FieldReads`). A tagged value is read exactly if the object can be read
through, has one tag, and the variant of the tag reads the other fields
(`tagged_object_ok`). The order of the entries does not matter to either.

Key definitions: `valuesOf`, `FieldReads`.
Key theorems: `Record.single_ok`, `Record.decoder_object_ok`, `tagged_object_ok`.
-/
import BuildFeed.Wire.Tagged
import Mathlib.Data.List.Forall2

namespace BuildFeed
namespace Wire

open Json

/-- The trees of the entries of a name, in their order. -/
def valuesOf (name : String) (fields : Fields) : List Tree :=
  fields.filterMap fun (n, t) => if n = some name then some t else none

/-- Whether a field reads a value from the trees of its name. -/
def FieldReads (absent : Option α) (d : Decoder α) (r : Reading) (ts : List Tree) (a : α) : Prop :=
  (ts = [] ∧ absent = some a) ∨ ∃ t, ts = [t] ∧ d r t = .ok a

/-- A text is decoded exactly if its tree is, and nothing follows the value. -/
theorem decode_ok {d : Decoder α} {text : String} {a : α} :
    decode d text = .ok a ↔
      d .ofText (Document.read text).tree = .ok a ∧ (Document.read text).clean = true := by
  unfold decode
  dsimp only
  cases h : d .ofText (Document.read text).tree with
  | error f => simp
  | ok b => cases hc : (Document.read text).clean <;> simp

namespace FieldReads

variable {absent : Option α} {d : Decoder α} {r : Reading} {a : α}

/-- A field without a default reads its one entry. -/
theorem required {ts : List Tree} : FieldReads none d r ts a ↔ ∃ t, ts = [t] ∧ d r t = .ok a := by
  simp [FieldReads]

@[simp] theorem nil : FieldReads absent d r [] a ↔ absent = some a := by simp [FieldReads]

@[simp] theorem single {t : Tree} : FieldReads absent d r [t] a ↔ d r t = .ok a := by
  simp [FieldReads]

end FieldReads

section Fields

variable {name tag : String} {fields : Fields} {r : Reading} {t : Tree}

@[simp] theorem valuesOf_nil : valuesOf name [] = [] := rfl

@[simp] theorem valuesOf_cons (n : Option String) (t : Tree) (fields : Fields) :
    valuesOf name ((n, t) :: fields) =
      if n = some name then t :: valuesOf name fields else valuesOf name fields := by
  by_cases h : n = some name <;> simp [valuesOf, h]

theorem valuesOf_append (fields fields' : Fields) :
    valuesOf name (fields ++ fields') = valuesOf name fields ++ valuesOf name fields' :=
  List.filterMap_append

/-- To leave out the entries of one name leaves those of another. -/
theorem valuesOf_filter_ne (h : name ≠ tag) (fields : Fields) :
    valuesOf name (fields.filter fun (n, _) => n ≠ some tag) = valuesOf name fields := by
  induction fields with
  | nil => rfl
  | cons e fields ih =>
    obtain ⟨n, t⟩ := e
    by_cases htag : n = some tag
    · have hname : n ≠ some name := fun hn => h (Option.some.inj (hn.symm.trans htag))
      rw [List.filter_cons_of_neg (by simpa using htag), ih, valuesOf_cons, if_neg hname]
    · rw [List.filter_cons_of_pos (by simpa using htag), valuesOf_cons, valuesOf_cons, ih]

theorem mem_valuesOf : t ∈ valuesOf name fields ↔ (some name, t) ∈ fields := by
  induction fields with
  | nil => simp
  | cons e fields ih =>
    obtain ⟨n, u⟩ := e
    by_cases hn : n = some name
    · simp [hn, ih]
    · simp [hn, ih, Ne.symm hn]

theorem map_snd_entries : (entries name fields).map Prod.snd = valuesOf name fields := by
  unfold entries
  generalize 0 = place
  induction fields generalizing place with
  | nil => rfl
  | cons e fields ih =>
    obtain ⟨n, t⟩ := e
    by_cases hn : n = some name
    · simp [List.zipIdx_cons, hn, ih]
    · simp [List.zipIdx_cons, hn, ih]

end Fields

/-! ### Optional values and lists -/

/-- A value that may be left out is read where it is not. -/
theorem optional_ok_some {α : Type} {d : Decoder α} {r : Reading} {t : Tree} {a : α} :
    d.optional r t = .ok (some a) ↔ t ≠ .scalar .null ∧ d r t = .ok a := by
  unfold Decoder.optional
  split
  · simp
  · next hne =>
    have hne : t ≠ .scalar .null := hne
    cases d r t <;> simp [Except.map, hne]

theorem optional_ok_none {α : Type} {d : Decoder α} {r : Reading} {t : Tree}
    (h : d.optional r t = .ok none) : t = .scalar .null := by
  unfold Decoder.optional at h
  split at h
  · rfl
  · cases hd : d r t <;> simp [hd, Except.map] at h

theorem mapM_ok {ε α β : Type} {f : α → Except ε β} {l : List α} {bs : List β} :
    l.mapM f = .ok bs ↔ List.Forall₂ (fun a b => f a = .ok b) l bs := by
  induction l generalizing bs with
  | nil =>
    rw [List.mapM_nil, List.forall₂_nil_left_iff]
    constructor
    · exact fun h => (Except.ok.inj h).symm
    · rintro rfl
      rfl
  | cons a l ih =>
    rw [List.mapM_cons, List.forall₂_cons_left_iff]
    cases ha : f a with
    | error e => simp [bind, Except.bind]
    | ok b =>
      cases hl : l.mapM f with
      | error e =>
        have hnot : ∀ bs, ¬ List.Forall₂ (fun a b => f a = .ok b) l bs := fun bs h => by
          rw [ih.mpr h] at hl
          exact absurd hl (by simp)
        simp [bind, Except.bind, hnot]
      | ok bs' =>
        have honly : ∀ bs, List.Forall₂ (fun a b => f a = .ok b) l bs ↔ bs' = bs := fun bs => by
          rw [← ih, hl, Except.ok.injEq]
        simp [bind, Except.bind, pure, Except.pure, honly, eq_comm]

/-- A list is decoded exactly if it is whole and all its items are decoded. -/
theorem list_ok {α : Type} {d : Decoder α} {r : Reading} {items : List Tree} {closed : Bool}
    {as : List α} : Decoder.list d r (.array items closed) = .ok as ↔
      closed = true ∧ List.Forall₂ (fun t a => d r.inside t = .ok a) items as := by
  rw [← mapM_ok, Decoder.list]
  cases h : items.mapM (d r.inside) with
  | error f => simp
  | ok bs => cases closed <;> simp

/-! ### Records -/

section Records

variable {α β γ : Type} {name tag : String} {fields : Fields} {closed : Bool} {r : Reading}

/-- A field is read exactly if its entries are. -/
theorem Record.single_ok {absent : Option α} {d : Decoder α} {a : α} :
    Record.single name absent d r fields = .ok a ↔
      FieldReads absent d r (valuesOf name fields) a := by
  unfold Record.single FieldReads
  rw [← map_snd_entries]
  match entries name fields with
  | [] => cases absent <;> simp
  | [(i, t)] => cases h : d r t <;> simp [h]
  | (i, t) :: (j, u) :: more => cases h : d r t <;> simp [h]

@[simp] theorem Record.required_ok {d : Decoder α} {a : α} :
    (Record.required name d).ofFields r fields = .ok a ↔
      FieldReads none d r (valuesOf name fields) a := by
  show Record.single name none d r fields = .ok a ↔ _
  rw [Record.single_ok]

@[simp] theorem Record.defaulting_ok {absent : α} {d : Decoder α} {a : α} :
    (Record.defaulting name absent d).ofFields r fields = .ok a ↔
      FieldReads (some absent) d r (valuesOf name fields) a := by
  show Record.single name (some absent) d r fields = .ok a ↔ _
  rw [Record.single_ok]

@[simp] theorem Record.optional_ok {d : Decoder α} {a : Option α} :
    (Record.optional name d).ofFields r fields = .ok a ↔
      FieldReads (some none) d.optional r (valuesOf name fields) a := by
  show Record.single name (some none) d.optional r fields = .ok a ↔ _
  rw [Record.single_ok]

@[simp] theorem Record.pure_ok {a b : α} : (Record.pure a).ofFields r fields = .ok b ↔ a = b := by
  simp [Record.pure]

@[simp] theorem Record.seq_ok {f : Record (α → β)} {x : Record α} {b : β} :
    (f <*> x).ofFields r fields = .ok b ↔
      ∃ g a, f.ofFields r fields = .ok g ∧ x.ofFields r fields = .ok a ∧ g a = b := by
  show (Record.app f x).ofFields r fields = .ok b ↔ _
  unfold Record.app
  cases hf : f.ofFields r fields <;> cases hx : x.ofFields r fields <;> simp [hf, hx]

@[simp] theorem Record.map_ok {f : α → β} {x : Record α} {b : β} :
    (f <$> x).ofFields r fields = .ok b ↔ ∃ a, x.ofFields r fields = .ok a ∧ f a = b := by
  show (Record.app (Record.pure f) x).ofFields r fields = .ok b ↔ _
  rw [show Record.app (Record.pure f) x = (Record.pure f <*> x : Record β) from rfl, Record.seq_ok]
  constructor
  · rintro ⟨g, a, hg, ha, rfl⟩
    obtain rfl := Record.pure_ok.mp hg
    exact ⟨a, ha, rfl⟩
  · rintro ⟨a, ha, rfl⟩
    exact ⟨f, a, Record.pure_ok.mpr rfl, ha, rfl⟩

theorem Record.settle_ok {flaw : Option Nat} {x : Except Placed α} {a : α} :
    Record.settle flaw x = .ok a ↔ flaw = none ∧ x = .ok a := by
  unfold Record.settle
  cases x with
  | ok b => cases flaw <;> simp
  | error e =>
    by_cases h : flaw.any (· < e.place) = true
    · simp [h]
    · simp [h]

theorem Record.flaw_eq_none {passes : Option String × Tree → Bool} :
    Record.flaw passes fields closed = none ↔ closed = true ∧ ∀ e ∈ fields, passes e = true := by
  unfold Record.flaw
  cases h : fields.findIdx? fun entry => !passes entry with
  | some i =>
    obtain ⟨hlt, hi, -⟩ := List.findIdx?_eq_some_iff_getElem.mp h
    constructor
    · simp
    · rintro ⟨-, hall⟩
      rw [hall _ (List.getElem_mem hlt)] at hi
      simp at hi
  | none =>
    have hall : ∀ e ∈ fields, passes e = true := by
      simpa using List.findIdx?_eq_none_iff.mp h
    cases closed with
    | true => exact iff_of_true rfl ⟨rfl, hall⟩
    | false => simp

/-- An object is decoded as a record exactly if it is whole and its fields are read. -/
theorem Record.decoder_object_ok {record : Record α} {a : α} :
    record.decoder r (.object fields closed) = .ok a ↔
      0 < r.room ∧ closed = true ∧ (∀ e ∈ fields, e.1.isSome = true ∧ e.2.isWhole = true) ∧
        record.ofFields r.inside fields = .ok a := by
  unfold Record.decoder
  by_cases hroom : r.room = 0
  · simp [hroom]
  · simp only [hroom, if_false, Record.settle_ok, Record.flaw_eq_none, Bool.and_eq_true]
    have : 0 < r.room := Nat.pos_of_ne_zero hroom
    constructor
    · rintro ⟨⟨hclosed, hall⟩, hrec⟩
      exact ⟨this, hclosed, hall, hrec⟩
    · rintro ⟨-, hclosed, hall, hrec⟩
      exact ⟨⟨hclosed, hall⟩, hrec⟩

/-! ### Records written as arrays -/

section Items

variable {items rest : List Tree}

@[simp] theorem Record.required_items_ok {d : Decoder α} {a : α} :
    (Record.required name d).ofItems r items = .ok (a, rest) ↔
      ∃ t, items = t :: rest ∧ d r t = .ok a := by
  unfold Record.required
  cases items with
  | nil => simp
  | cons t items => cases h : d r t <;> simp [h, Except.map, and_comm]

@[simp] theorem Record.defaulting_items_ok {absent : α} {d : Decoder α} {a : α} :
    (Record.defaulting name absent d).ofItems r items = .ok (a, rest) ↔
      (items = [] ∧ rest = [] ∧ absent = a) ∨ ∃ t, items = t :: rest ∧ d r t = .ok a := by
  unfold Record.defaulting
  cases items with
  | nil => simp [eq_comm, and_comm]
  | cons t items => cases h : d r t <;> simp [h, Except.map, and_comm]

@[simp] theorem Record.optional_items_ok {d : Decoder α} {a : Option α} :
    (Record.optional name d).ofItems r items = .ok (a, rest) ↔
      (items = [] ∧ rest = [] ∧ none = a) ∨ ∃ t, items = t :: rest ∧ d.optional r t = .ok a := by
  unfold Record.optional
  rw [Record.defaulting_items_ok]

@[simp] theorem Record.pure_items_ok {a b : α} :
    (Record.pure a).ofItems r items = .ok (b, rest) ↔ a = b ∧ items = rest := by
  simp [Record.pure]

@[simp] theorem Record.seq_items_ok {f : Record (α → β)} {x : Record α} {b : β} :
    (f <*> x).ofItems r items = .ok (b, rest) ↔
      ∃ g mid a, f.ofItems r items = .ok (g, mid) ∧ x.ofItems r mid = .ok (a, rest) ∧ g a = b := by
  show (Record.app f x).ofItems r items = .ok (b, rest) ↔ _
  constructor
  · intro h
    simp only [Record.app] at h
    split at h
    · exact absurd h (by simp)
    · next g mid hg =>
      split at h
      · exact absurd h (by simp)
      · next a rest' hx =>
        obtain ⟨rfl, rfl⟩ := Prod.mk.inj (Except.ok.inj h)
        exact ⟨g, mid, a, hg, hx, rfl⟩
  · rintro ⟨g, mid, a, hg, hx, rfl⟩
    simp only [Record.app, hg, hx]

@[simp] theorem Record.map_items_ok {f : α → β} {x : Record α} {b : β} :
    (f <$> x).ofItems r items = .ok (b, rest) ↔ ∃ a, x.ofItems r items = .ok (a, rest) ∧ f a = b := by
  show (Record.app (Record.pure f) x).ofItems r items = .ok (b, rest) ↔ _
  rw [show Record.app (Record.pure f) x = (Record.pure f <*> x : Record β) from rfl,
    Record.seq_items_ok]
  constructor
  · rintro ⟨g, mid, a, hg, ha, rfl⟩
    obtain ⟨rfl, rfl⟩ := Record.pure_items_ok.mp hg
    exact ⟨a, ha, rfl⟩
  · rintro ⟨a, ha, rfl⟩
    exact ⟨f, items, a, Record.pure_items_ok.mpr ⟨rfl, rfl⟩, ha, rfl⟩

/-- An array is decoded as a record exactly if it is whole and made of its fields. -/
theorem Record.decoder_array_ok {record : Record α} {a : α} :
    record.decoder r (.array items closed) = .ok a ↔
      0 < r.room ∧ closed = true ∧ record.ofItems r.inside items = .ok (a, []) := by
  unfold Record.decoder
  by_cases hroom : r.room = 0
  · simp [hroom]
  · have hpos : 0 < r.room := Nat.pos_of_ne_zero hroom
    simp only [hroom, if_false, hpos, true_and]
    cases h : record.ofItems r.inside items with
    | error f => simp
    | ok p =>
      obtain ⟨b, rest⟩ := p
      cases rest <;> cases closed <;> simp

end Items

/-! ### Tagged values -/

@[simp] theorem Variant.ofRecord_ok {record : Record α} {a : α} :
    (Variant.ofRecord record).ofFields r fields = .ok a ↔ record.ofFields r fields = .ok a := by
  unfold Variant.ofRecord
  cases h : record.ofFields r fields <;> simp [h, Except.mapError]

@[simp] theorem Variant.sharing_ok {shared : Record α} {own : Record β} {combine : α → β → γ}
    {c : γ} :
    (Variant.sharing shared own combine).ofFields r fields = .ok c ↔
      ∃ a b, shared.ofFields r fields = .ok a ∧ own.ofFields r fields = .ok b ∧ combine a b = c := by
  unfold Variant.sharing
  cases ho : own.ofFields r fields <;> cases hs : shared.ofFields r fields <;> simp [ho, hs]

/-- An object is decoded as a tagged value exactly if it can be read through, has
one tag, and the variant of the tag reads its other fields. -/
theorem tagged_object_ok {variants : List (String × Variant α)} {a : α} :
    tagged tag variants r (.object fields closed) = .ok a ↔
      0 < r.room ∧ closed = true ∧
        (∀ e ∈ fields, e.1 = some tag ∨ (e.1.isSome = true ∧ e.2.isSound (r.room - 1) = true)) ∧
        ∃ t variant, valuesOf tag fields = [t] ∧ identify variants r.inside t = .ok variant ∧
          variant.ofFields r.holding (fields.filter fun (n, _) => n ≠ some tag) = .ok a := by
  unfold tagged
  by_cases hroom : r.room = 0
  · simp [hroom]
  · have hpos : 0 < r.room := Nat.pos_of_ne_zero hroom
    simp only [hroom, if_false, hpos, true_and]
    split
    · next f hf =>
      constructor
      · simp
      · rintro ⟨hclosed, hall, t, variant, hts, hid, -⟩
        rw [Record.settle_ok.mpr ⟨Record.flaw_eq_none.mpr ⟨hclosed, by simpa using hall⟩,
          Record.required_ok.mpr (Or.inr ⟨t, hts, hid⟩)⟩] at hf
        exact absurd hf (by simp)
    · next variant hv =>
      obtain ⟨hflaw, hread⟩ := Record.settle_ok.mp hv
      obtain ⟨hclosed, hall⟩ := Record.flaw_eq_none.mp hflaw
      rcases Record.required_ok.mp hread with ⟨-, h⟩ | ⟨t, hts, hid⟩
      · exact absurd h (by simp)
      constructor
      · intro h
        exact ⟨hclosed, by simpa using hall, t, variant, hts, hid, h⟩
      · rintro ⟨-, -, t', variant', hts', hid', h⟩
        obtain ⟨rfl, -⟩ := List.cons.inj (hts.symm.trans hts')
        obtain rfl := Except.ok.inj (hid.symm.trans hid')
        exact h

@[simp] theorem Variant.ofRecord_items_ok {record : Record α} {items : List Tree} {a : α} :
    (Variant.ofRecord record).ofItems r items = .ok a ↔ record.ofItems r items = .ok (a, []) := by
  unfold Variant.ofRecord
  cases h : record.ofItems r items with
  | error f => simp [h]
  | ok p =>
    obtain ⟨b, rest⟩ := p
    cases rest <;> simp [h]

/-- An array is decoded as a tagged value exactly if it can be read through, and
begins with a tag whose variant is made of the other items. -/
theorem tagged_array_ok {variants : List (String × Variant α)} {items : List Tree} {a : α} :
    tagged tag variants r (.array items closed) = .ok a ↔
      0 < r.room ∧ closed = true ∧
        ∃ t rest variant, items = t :: rest ∧ identify variants r.inside t = .ok variant ∧
          Tree.itemsSound (r.room - 1) rest = true ∧ variant.ofItems r.holding rest = .ok a := by
  unfold tagged
  by_cases hroom : r.room = 0
  · simp [hroom]
  · have hpos : 0 < r.room := Nat.pos_of_ne_zero hroom
    simp only [hroom, if_false, hpos, true_and]
    cases items with
    | nil => simp
    | cons t rest =>
      constructor
      · intro h
        dsimp only at h
        split at h
        · exact absurd h (by simp)
        · next variant hid =>
          split at h
          · next hsound =>
            rw [Bool.and_eq_true] at hsound
            exact ⟨hsound.1, t, rest, variant, rfl, hid, hsound.2, h⟩
          · exact absurd h (by simp)
      · rintro ⟨hclosed, t', rest', variant, hcons, hid, hsound, h⟩
        obtain ⟨rfl, rfl⟩ := List.cons.inj hcons
        simp only [hid, hclosed, hsound, Bool.and_self, if_true, h]

end Records

end Wire
end BuildFeed
