/-
# Documents of other versions

A newer version of the program may write fields that this one does not know,
an older one may leave out fields that were added later, and either may write
the fields in another order. `Format.Edit` is one such change of a document:
it takes the tree of one value to the tree of another, or to one that is no
longer the tree of any, as when a known field is repeated. A change may be
made at any depth, in the parts that a value has. A decoder is additive if
every document that comes about by such changes is decoded as they say.

Edits are followed field by field: a layout describes a format if it has its
names, and if leaving out a field or an edit of a part changes the slot of
one field only (`Layout.Describes`).

Key definitions: `Format`, `Format.Edit`, `Format.Edits`, `Format.Additive`, `Layout.Describes`.
Key theorems: `Layout.Describes.governs`, `Format.Governs.additive`.
-/
import BuildFeed.Proofs.Wire.Slots

namespace BuildFeed
namespace Wire

open Json

/-! ### Edits -/

/-- How the documents of a type may vary: the names of the tag and the fields of
a value in their declared order, the fields that have a default, each with the
value that has it there, and what an edit of the part that a field holds makes
of the tree of the field and of the value. The number is that of the brackets
that may be opened; no value is left if the part can no longer be read. -/
structure Format (α : Type) where
  known : α → List String
  defaults : α → List (String × α)
  Part : Nat → String → Tree → α → Tree → Option α → Prop

namespace Format

variable {α : Type}

/-- One edit of the document of a value. -/
inductive Edit (F : Format α) (room : Nat) : Tree → α → Tree → Option α → Prop
  | permuted {fields fields' : Fields} {a : α} (h : fields.Perm fields') :
      Edit F room (.object fields true) a (.object fields' true) (some a)
  /-- A field that is not known is added, with any value that can be read through. -/
  | added {before after : Fields} {a : α} {name : String} {t : Tree} (hname : name ∉ F.known a)
      (ht : t.isSound (room - 1) = true) :
      Edit F room (.object (before ++ after) true) a
        (.object (before ++ (some name, t) :: after) true) (some a)
  /-- A field that has a default is left out. -/
  | removed {fields : Fields} {a a' : α} {name : String} (h : (name, a') ∈ F.defaults a) :
      Edit F room (.object fields true) a
        (.object (fields.filter fun (n, _) => n ≠ some name) true) (some a')
  /-- A known field that is there is repeated, whatever stands in it. -/
  | repeated {before after : Fields} {a : α} {name : String} {t : Tree} (hname : name ∈ F.known a)
      (hthere : valuesOf name (before ++ after) ≠ []) :
      Edit F room (.object (before ++ after) true) a
        (.object (before ++ (some name, t) :: after) true) none
  /-- The part that a field holds is edited. -/
  | inside {before after : Fields} {a : α} {name : String} {t t' : Tree} {o : Option α}
      (hname : name ∈ F.known a) (h : F.Part (room - 1) name t a t' o) :
      Edit F room (.object (before ++ (some name, t) :: after) true) a
        (.object (before ++ (some name, t') :: after) true) o
  /-- The part that a field holds is edited where the value is written as an array. -/
  | item {before after : List Tree} {a : α} {name : String} {t t' : Tree} {o : Option α}
      (hplace : (F.known a)[before.length]? = some name) (h : F.Part (room - 1) name t a t' o) :
      Edit F room (.array (before ++ t :: after) true) a (.array (before ++ t' :: after) true) o

/-- Any number of edits, one after the other. -/
inductive Edits (F : Format α) (room : Nat) (t : Tree) (a : α) : Tree → Option α → Prop
  | done : Edits F room t a t (some a)
  | next {t' t'' : Tree} {a' : α} {o : Option α} (h : Edits F room t a t' (some a'))
      (h' : Edit F room t' a' t'' o) : Edits F room t a t'' o

/-- Whether every edit of a tree that a decoder reads does what it says. -/
def Governs (F : Format α) (d : Decoder α) : Prop :=
  ∀ (r : Reading) (t : Tree) (a : α) (t' : Tree) (o : Option α),
    d r t = .ok a → F.Edit r.room t a t' o → (d r t').toOption = o

/-- Whether every document that comes about by edits of one that is decoded as a
value is decoded as the value that they lead to, or not at all. -/
def Additive (F : Format α) (d : Decoder α) : Prop :=
  ∀ (text text' : String) (a : α) (o : Option α), decode d text = .ok a →
    F.Edits Reading.ofText.room (Document.read text).tree a (Document.read text').tree o →
      (Document.read text').clean = true → (decode d text').toOption = o

end Format

theorem toOption_eq_some {ε α : Type} {x : Except ε α} {a : α} :
    x.toOption = some a ↔ x = .ok a := by
  cases x <;> simp [Except.toOption]

namespace Format

variable {α : Type} {F : Format α} {d : Decoder α}

section Governs

variable {r : Reading} {t t' : Tree} {a a' : α}

theorem Governs.reads (h : F.Governs d) (hread : d r t = .ok a)
    (hedit : F.Edit r.room t a t' (some a')) :
    d r t' = .ok a' := toOption_eq_some.mp (h r t a t' _ hread hedit)

theorem Governs.fails (h : F.Governs d) (hread : d r t = .ok a)
    (hedit : F.Edit r.room t a t' none) :
    d r t' ≠ .ok a' := by
  intro hread'
  have hnone := h r t a t' none hread hedit
  rw [toOption_eq_some.mpr hread'] at hnone
  exact absurd hnone (Option.some_ne_none a')

/-- An edit is one of an array or an object. -/
theorem Edit.ne_null {room : Nat} {o : Option α} (h : F.Edit room t a t' o) :
    t ≠ .scalar .null ∧ t' ≠ .scalar .null := by
  cases h <;> simp

theorem Governs.optional_reads (h : F.Governs d) (hread : d.optional r t = .ok (some a))
    (hedit : F.Edit r.room t a t' (some a')) : d.optional r t' = .ok (some a') := by
  rw [optional_ok_some] at hread ⊢
  exact ⟨hedit.ne_null.2, h.reads hread.2 hedit⟩

theorem Governs.optional_fails {o : Option α} (h : F.Governs d)
    (hread : d.optional r t = .ok (some a))
    (hedit : F.Edit r.room t a t' none) : d.optional r t' ≠ .ok o := by
  intro hread'
  cases o with
  | none => exact hedit.ne_null.2 (optional_ok_none hread')
  | some a' => exact h.fails (optional_ok_some.mp hread).2 hedit (optional_ok_some.mp hread').2

end Governs

theorem Governs.edits (h : F.Governs d) {r : Reading} {t t' : Tree} {a : α} {o : Option α}
    (hread : d r t = .ok a) (hedits : F.Edits r.room t a t' o) : (d r t').toOption = o := by
  induction hedits with
  | done => exact toOption_eq_some.mpr hread
  | next _ hedit ih => exact h r _ _ _ _ (toOption_eq_some.mp ih) hedit

theorem Governs.additive (h : F.Governs d) : F.Additive d := by
  intro text text' a o hread hedits hclean
  have htree := h.edits (decode_ok.mp hread).1 hedits
  unfold decode
  cases ht : d .ofText (Document.read text').tree with
  | error f =>
    rw [ht] at htree
    simpa [ht] using htree
  | ok b =>
    rw [ht] at htree
    simpa [ht, hclean] using htree

end Format

/-! ### What edits keep -/

theorem fieldsSound_iff {fields : Fields} {room : Nat} : Tree.fieldsSound room fields = true ↔
    ∀ e ∈ fields, e.1.isSome = true ∧ e.2.isSound room = true := by
  induction fields with
  | nil => simp [Tree.fieldsSound]
  | cons e fields ih => simp [Tree.fieldsSound, ih, and_assoc]

theorem itemsSound_iff {items : List Tree} {room : Nat} : Tree.itemsSound room items = true ↔
    ∀ t ∈ items, t.isSound room = true := by
  induction items with
  | nil => simp [Tree.itemsSound]
  | cons t items ih => simp [Tree.itemsSound, ih]

theorem isWhole_of_isSound {t : Tree} {room : Nat} (h : t.isSound room = true) :
    t.isWhole = true := by
  cases t <;> simp_all [Tree.isSound, Tree.isWhole]

/-- Whether a new tree can be read through if the old one can, and is whole. -/
def Keeps (room : Nat) (t t' : Tree) : Prop :=
  (t.isSound room = true → t'.isSound room = true) ∧ t'.isWhole = true

/-- An edit keeps to the brackets that may be opened if those of parts do. -/
theorem Format.Edit.keeps {F : Format α} {room : Nat} {t t' : Tree} {a a' : α}
    (hpart : ∀ name u u', F.Part (room - 1) name u a u' (some a') → Keeps (room - 1) u u')
    (h : F.Edit room t a t' (some a')) : Keeps room t t' := by
  refine ⟨fun hsound => ?_, by cases h <;> rfl⟩
  cases h with
  | permuted h =>
    simp only [Tree.isSound, Bool.and_eq_true, fieldsSound_iff] at hsound ⊢
    exact ⟨hsound.1, fun e he => hsound.2 e (h.mem_iff.mpr he)⟩
  | added _ ht =>
    simp only [Tree.isSound, Bool.and_eq_true, fieldsSound_iff] at hsound ⊢
    exact ⟨hsound.1, forall_mem_insert.mpr ⟨hsound.2, rfl, ht⟩⟩
  | removed _ =>
    simp only [Tree.isSound, Bool.and_eq_true, fieldsSound_iff] at hsound ⊢
    exact ⟨hsound.1, fun e he => hsound.2 e (List.mem_of_mem_filter he)⟩
  | inside _ h =>
    simp only [Tree.isSound, Bool.and_eq_true, fieldsSound_iff] at hsound ⊢
    obtain ⟨hopen, hfields⟩ := hsound
    obtain ⟨hothers, -, hu⟩ := forall_mem_insert.mp hfields
    exact ⟨hopen, forall_mem_insert.mpr ⟨hothers, rfl, (hpart _ _ _ h).1 hu⟩⟩
  | item _ h =>
    simp only [Tree.isSound, Bool.and_eq_true, itemsSound_iff] at hsound ⊢
    obtain ⟨hopen, hitems⟩ := hsound
    obtain ⟨hothers, hu⟩ := forall_mem_insert.mp hitems
    exact ⟨hopen, forall_mem_insert.mpr ⟨hothers, (hpart _ _ _ h).1 hu⟩⟩

/-! ### Formats and their layouts -/

section Insert

variable {name n : String} {before after : Fields} {t : Tree}

theorem valuesOf_insert_self : valuesOf name (before ++ (some name, t) :: after) =
    valuesOf name before ++ t :: valuesOf name after := by
  rw [valuesOf_append, valuesOf_cons, if_pos rfl]

theorem valuesOf_insert_ne (h : n ≠ name) :
    valuesOf n (before ++ (some name, t) :: after) = valuesOf n (before ++ after) := by
  rw [valuesOf_append, valuesOf_append, valuesOf_cons, if_neg (by simpa using Ne.symm h)]

end Insert

/-- Whether a layout has the names of a format and changes with the edits of it
in the slot that is edited and no other. -/
structure Layout.Describes (L : Layout α) (F : Format α) (d : Decoder α) : Prop where
  readsObjects : L.ReadsObjects d
  names : ∀ r a, (L.slots r a).map Slot.name = F.known a
  nodup : ∀ a, (F.known a).Nodup
  variant : ∀ a a', (L.tag.isSome = true → L.variant a' = L.variant a) → F.known a' = F.known a
  defaults : ∀ r a name a' ts, (name, a') ∈ F.defaults a →
    List.Forall₂ (Slot.Becomes name ts []) (L.slots r a) (L.slots r a')
  part : ∀ r name t a t' a', F.Part (r.room - 1) name t a t' (some a') →
    List.Forall₂ (Slot.Becomes name [t] [t']) (L.slots r a) (L.slots r a')
  part_none : ∀ r name t a t' a', F.Part (r.room - 1) name t a t' none → F.known a' = F.known a →
    (∃ s ∈ L.slots r a, s.name = name ∧ s.takes [t]) →
      ∀ s ∈ L.slots r a', s.name = name → ¬ s.takes [t']
  part_keeps : ∀ room name t a t' a', F.Part room name t a t' (some a') → Keeps room t t'
  part_tag : ∀ room name t a t' o names, F.Part room name t a t' o → L.tag ≠ some (name, names)

namespace Layout.Describes

/-- An edit keeps to the brackets that may be opened. -/
theorem keeps {α : Type} {L : Layout α} {F : Format α} {d : Decoder α} (h : L.Describes F d)
    {room : Nat}
    {t t' : Tree} {a a' : α} (hedit : F.Edit room t a t' (some a')) : Keeps room t t' :=
  hedit.keeps fun name u u' hpart => h.part_keeps _ name u a u' a' hpart

variable {α : Type} {L : Layout α} {F : Format α} {d : Decoder α} {r : Reading} {a a' : α}
  {fields fields' : Fields} {closed closed' : Bool}

theorem mem_known (h : L.Describes F d) (r : Reading) {n : String} :
    n ∈ F.known a ↔ ∃ s ∈ L.slots r a, s.name = n := by
  rw [← h.names r a, List.mem_map]

/-- The slots of an edited value take the edited entries. -/
theorem takes_of_becomes {slots slots' : List Slot} {name : String}
    (htakes : Takes slots fields)
    (hslots : List.Forall₂
      (Slot.Becomes name (valuesOf name fields) (valuesOf name fields')) slots slots')
    (hothers : ∀ n ≠ name, valuesOf n fields' = valuesOf n fields) :
    Takes slots' fields' := by
  intro s' hs'
  obtain ⟨s, hs, hname, hbecomes⟩ := exists_of_mem_right hslots hs'
  by_cases hthis : s.name = name
  · rw [if_pos hthis] at hbecomes
    rw [hname, hthis]
    exact hbecomes (hthis ▸ htakes s hs)
  · rw [if_neg hthis] at hbecomes
    rw [hbecomes, hothers _ hthis]
    exact htakes s hs

/-- Two objects with one tag have values with the same fields. -/
theorem known_eq (h : L.Describes F d) (hread : d r (.object fields closed) = .ok a)
    (hread' : d r (.object fields' closed') = .ok a')
    (htag : ∀ tag names, L.tag = some (tag, names) → valuesOf tag fields' = valuesOf tag fields) :
    F.known a' = F.known a := by
  refine h.variant a a' fun hsome => ?_
  obtain ⟨⟨tag, names⟩, htagged⟩ := Option.isSome_iff_exists.mp hsome
  have hhead :
    ∀ b, Slot.field tag none (variantName names) r.inside (L.variant b) ∈ L.slots r b := by
    intro b
    rw [slots, htagged]
    exact List.mem_cons_self
  have htakes := ((h.readsObjects ..).mp hread).2.2.2 _ (hhead a)
  have htakes' := ((h.readsObjects ..).mp hread').2.2.2 _ (hhead a')
  rw [Slot.name_field, htag tag names htagged] at htakes'
  exact Slot.eq_of_takes htakes' htakes

/-- Other fields are read as the value if what passes and the entries of known
names stay the same. -/
theorem of_same_known (h : L.Describes F d) (hread : d r (.object fields true) = .ok a)
    (hpasses : (∀ e ∈ fields, L.Passes r e) → ∀ e ∈ fields', L.Passes r e)
    (hsame : ∀ s ∈ L.slots r a, s.takes (valuesOf s.name fields) →
      valuesOf s.name fields' = valuesOf s.name fields) :
    d r (.object fields' true) = .ok a := by
  obtain ⟨hroom, -, hpass, htakes⟩ := (h.readsObjects ..).mp hread
  refine (h.readsObjects ..).mpr ⟨hroom, rfl, hpasses hpass, fun s hs => ?_⟩
  rw [hsame s hs (htakes s hs)]
  exact htakes s hs

theorem permuted (h : L.Describes F d) (hread : d r (.object fields true) = .ok a)
    (hperm : fields.Perm fields') : d r (.object fields' true) = .ok a := by
  refine h.of_same_known hread (fun hpass e he => hpass e (hperm.mem_iff.mpr he)) ?_
  exact fun s _ htakes => valuesOf_perm hperm (s.single _ htakes)

section Inserts

variable {before after : Fields} {name : String} {t t' : Tree}

theorem added (h : L.Describes F d) (hread : d r (.object (before ++ after) true) = .ok a)
    (hname : name ∉ F.known a) (ht : t.isSound (r.room - 1) = true) :
    d r (.object (before ++ (some name, t) :: after) true) = .ok a := by
  refine h.of_same_known hread (fun hpass => forall_mem_insert.mpr ⟨hpass, ?_⟩) fun s hs _ => ?_
  · unfold Layout.Passes
    split
    · exact ⟨rfl, isWhole_of_isSound ht⟩
    · exact Or.inr ⟨rfl, ht⟩
  · apply valuesOf_insert_ne
    rintro rfl
    exact hname ((h.mem_known r).mpr ⟨s, hs, rfl⟩)

/-- A known name has one entry at most. -/
theorem repeated (h : L.Describes F d) (hread : d r (.object (before ++ after) true) = .ok a)
    (hname : name ∈ F.known a) (hthere : valuesOf name (before ++ after) ≠ []) :
    d r (.object (before ++ (some name, t) :: after) true) ≠ .ok a' := by
  intro hread'
  have htakes := ((h.readsObjects ..).mp hread').2.2.2
  have hknown : name ∈ F.known a' := by
    by_cases htag : ∃ names, L.tag = some (name, names)
    · obtain ⟨names, htag⟩ := htag
      refine (h.mem_known r).mpr
        ⟨.field name none (variantName names) r.inside (L.variant a'), ?_, rfl⟩
      rw [Layout.slots, htag]
      exact List.mem_cons_self
    · rw [h.known_eq hread hread' fun tag names htagged => valuesOf_insert_ne ?_]
      · exact hname
      · rintro rfl
        exact htag ⟨names, htagged⟩
  obtain ⟨s, hs, rfl⟩ := (h.mem_known r).mp hknown
  have hone := s.single _ (htakes s hs)
  have hmore : 0 < (valuesOf s.name (before ++ after)).length := List.length_pos_of_ne_nil hthere
  rw [valuesOf_insert_self, List.length_append, List.length_cons] at hone
  rw [valuesOf_append, List.length_append] at hmore
  omega

/-- What stands in the only entry of a name is what is read of it. -/
theorem valuesOf_of_takes {s : Slot}
    (htakes : s.takes (valuesOf s.name (before ++ (some s.name, t) :: after)))
    (u : Tree) : valuesOf s.name (before ++ (some s.name, u) :: after) = [u] := by
  have hone := s.single _ htakes
  rw [valuesOf_insert_self, List.length_append, List.length_cons] at hone
  have hbefore : valuesOf s.name before = [] := List.length_eq_zero_iff.mp (by omega)
  have hafter : valuesOf s.name after = [] := List.length_eq_zero_iff.mp (by omega)
  rw [valuesOf_insert_self, hbefore, hafter, List.nil_append]

theorem inside (h : L.Describes F d)
    (hread : d r (.object (before ++ (some name, t) :: after) true) = .ok a)
    (hname : name ∈ F.known a) (hpart : F.Part (r.room - 1) name t a t' (some a')) :
    d r (.object (before ++ (some name, t') :: after) true) = .ok a' := by
  obtain ⟨hroom, -, hpass, htakes⟩ := (h.readsObjects ..).mp hread
  obtain ⟨hkeeps, hwhole⟩ := h.part_keeps _ _ _ _ _ _ hpart
  refine (h.readsObjects ..).mpr ⟨hroom, rfl, ?_, ?_⟩
  · obtain ⟨hothers, ht⟩ := forall_mem_insert.mp hpass
    refine forall_mem_insert.mpr ⟨hothers, ?_⟩
    unfold Layout.Passes at ht ⊢
    split at ht
    · exact ⟨rfl, hwhole⟩
    · exact ht.imp_right fun hsound => ⟨rfl, hkeeps hsound.2⟩
  · obtain ⟨s, hs, rfl⟩ := (h.mem_known r).mp hname
    have hone := valuesOf_of_takes (htakes s hs)
    have hslots := h.part _ _ _ _ _ _ hpart
    rw [← hone t, ← hone t'] at hslots
    exact takes_of_becomes htakes hslots fun n hn => by
      rw [valuesOf_insert_ne hn, valuesOf_insert_ne hn]

theorem inside_none (h : L.Describes F d)
    (hread : d r (.object (before ++ (some name, t) :: after) true) = .ok a)
    (hname : name ∈ F.known a)
    (hpart : F.Part (r.room - 1) name t a t' none) :
    d r (.object (before ++ (some name, t') :: after) true) ≠ .ok a' := by
  intro hread'
  have htakes := ((h.readsObjects ..).mp hread).2.2.2
  have htakes' := ((h.readsObjects ..).mp hread').2.2.2
  have hknown : F.known a' = F.known a := by
    refine h.known_eq hread hread' fun tag names htagged => ?_
    have hne : tag ≠ name := by
      rintro rfl
      exact h.part_tag _ _ _ _ _ _ names hpart htagged
    rw [valuesOf_insert_ne hne, valuesOf_insert_ne hne]
  have hslot : ∃ s ∈ L.slots r a, s.name = name ∧ s.takes [t] := by
    obtain ⟨s, hs, rfl⟩ := (h.mem_known r).mp hname
    exact ⟨s, hs, rfl, valuesOf_of_takes (htakes s hs) t ▸ htakes s hs⟩
  obtain ⟨s, hs, rfl⟩ := (h.mem_known r).mp (hknown ▸ hname)
  refine h.part_none _ _ _ _ _ _ hpart hknown hslot s hs rfl ?_
  exact valuesOf_of_takes (htakes' s hs) t' ▸ htakes' s hs

end Inserts

theorem removed (h : L.Describes F d) (hread : d r (.object fields true) = .ok a) {name : String}
    (hdefault : (name, a') ∈ F.defaults a) :
    d r (.object (fields.filter fun (n, _) => n ≠ some name) true) = .ok a' := by
  obtain ⟨hroom, -, hpass, htakes⟩ := (h.readsObjects ..).mp hread
  refine (h.readsObjects ..).mpr ⟨hroom, rfl, fun e he => hpass e (List.mem_of_mem_filter he), ?_⟩
  have hgone : valuesOf name (fields.filter fun (n, _) => n ≠ some name) = [] :=
    valuesOf_filter_self
  have hslots := h.defaults r a name a' (valuesOf name fields) hdefault
  rw [← hgone] at hslots
  exact takes_of_becomes htakes hslots fun n hn => valuesOf_filter_ne hn fields

/-! ### Parts in arrays -/

section Items

variable {before after : List Tree} {name : String} {t t' : Tree}

/-- The part that stands in the place of a field goes to its slot. -/
theorem takes_of_place (h : L.Describes F d)
    (hfills : Fills (L.slots r a) (before ++ t :: after) [])
    (hplace : (F.known a)[before.length]? = some name) :
    ∃ s ∈ L.slots r a, s.name = name ∧ s.takes [t] := by
  obtain ⟨s, hs, htakes⟩ := takes_of_fills hfills
  rw [← h.names r a, List.getElem?_map, hs] at hplace
  exact ⟨s, List.mem_of_getElem? hs, Option.some.inj hplace, htakes⟩

theorem item (h : L.Describes F d) (harrays : L.ReadsArrays d)
    (hread : d r (.array (before ++ t :: after) true) = .ok a)
    (hplace : (F.known a)[before.length]? = some name)
    (hpart : F.Part (r.room - 1) name t a t' (some a')) :
    d r (.array (before ++ t' :: after) true) = .ok a' := by
  obtain ⟨hroom, -, hsound, hfills⟩ := (harrays ..).mp hread
  obtain ⟨hkeeps, -⟩ := h.part_keeps _ _ _ _ _ _ hpart
  refine (harrays ..).mpr ⟨hroom, rfl, fun hsome => ?_, ?_⟩
  · have hsound := hsound hsome
    cases before with
    | nil => exact hsound
    | cons u before =>
      rw [List.cons_append, List.tail_cons, itemsSound_iff] at hsound ⊢
      obtain ⟨hothers, ht⟩ := forall_mem_insert.mp hsound
      exact forall_mem_insert.mpr ⟨hothers, hkeeps ht⟩
  · have hnodup : ((L.slots r a).map Slot.name).Nodup := h.names r a ▸ h.nodup a
    exact fills_edit hfills (h.part _ _ _ _ _ _ hpart) hnodup (h.names r a ▸ hplace)

theorem item_none (h : L.Describes F d) (harrays : L.ReadsArrays d)
    (hread : d r (.array (before ++ t :: after) true) = .ok a)
    (hplace : (F.known a)[before.length]? = some name)
    (hpart : F.Part (r.room - 1) name t a t' none) :
    d r (.array (before ++ t' :: after) true) ≠ .ok a' := by
  intro hread'
  obtain ⟨-, -, -, hfills⟩ := (harrays ..).mp hread
  obtain ⟨-, -, -, hfills'⟩ := (harrays ..).mp hread'
  have hknown : F.known a' = F.known a := by
    refine h.variant a a' fun hsome => ?_
    obtain ⟨⟨tag, names⟩, htagged⟩ := Option.isSome_iff_exists.mp hsome
    -- the tag is the first item, so it is not the one that is edited
    cases before with
    | nil =>
      have htag : (F.known a)[0]? = some tag := by
        rw [← h.names r a, Layout.slots, htagged]
        rfl
      obtain rfl := Option.some.inj (htag.symm.trans hplace)
      exact absurd htagged (h.part_tag _ _ _ _ _ _ names hpart)
    | cons u before =>
      rw [Layout.slots, htagged] at hfills hfills'
      exact Slot.eq_of_takes ((fills_cons ..).mp hfills').1 ((fills_cons ..).mp hfills).1
  obtain ⟨s, hs, hname, htakes⟩ := h.takes_of_place hfills' (hknown ▸ hplace)
  exact h.part_none _ _ _ _ _ _ hpart hknown (h.takes_of_place hfills hplace) s hs hname htakes

end Items

/-- Edits do what they say to what a decoder reads slot by slot, if arrays are read
likewise or hold no parts. -/
theorem governs (h : L.Describes F d)
    (harrays : L.ReadsArrays d ∨ ∀ r before t after a name t' o,
      d r (.array (before ++ t :: after) true) = .ok a → ¬ F.Part (r.room - 1) name t a t' o) :
    F.Governs d := by
  intro r t a t' o hread hedit
  have hnone : ∀ {t'}, (∀ a', d r t' ≠ .ok a') → (d r t').toOption = none := by
    intro t' hnot
    cases ht : d r t' with
    | error f => rfl
    | ok a' => exact absurd ht (hnot a')
  cases hedit with
  | permuted hperm => exact toOption_eq_some.mpr (h.permuted hread hperm)
  | added hname ht => exact toOption_eq_some.mpr (h.added hread hname ht)
  | removed hdefault => exact toOption_eq_some.mpr (h.removed hread hdefault)
  | repeated hname hthere => exact hnone fun a' => h.repeated hread hname hthere
  | inside hname hpart =>
    cases o with
    | some a' => exact toOption_eq_some.mpr (h.inside hread hname hpart)
    | none => exact hnone fun a' => h.inside_none hread hname hpart
  | item hplace hpart =>
    rcases harrays with harrays | hnoparts
    · cases o with
      | some a' => exact toOption_eq_some.mpr (h.item harrays hread hplace hpart)
      | none => exact hnone fun a' => h.item_none harrays hread hplace hpart
    · exact absurd hpart (hnoparts _ _ _ _ _ _ _ _ hread)

end Layout.Describes

end Wire
end BuildFeed
