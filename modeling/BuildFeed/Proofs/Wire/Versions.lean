/-
# The client format is additive

The formats of the types that clients are sent: what fields each value has,
which of them have a default, and which hold parts that may be edited in
turn. A part is edited in the place where it stands: the locations of a report
in their list, those of a problem's descriptor among the fields of the
descriptor, and the descriptor, the result and the task section of an event
also where the event is written as an array. Each format has the layout by
which the decoder reads objects, so edits of parts carry over from type to
type, bottom up.

Key definitions: `ProblemReport.format`, `Descriptor.format`, `Event.format`, `Message.format`.
Key theorems: `Location.governs`, `Descriptor.governs`, `Event.governs`, `Message.governs`,
`client_format_additive`.
-/
import BuildFeed.Proofs.Wire.ClientFormat
import BuildFeed.Proofs.Wire.Edits
import BuildFeed.Proofs.Wire.Layouts

namespace BuildFeed

open Json Wire Time

/-! ### Formats -/

def Location.format : Format Location where
  known
    | .file _ => ["type", "path"]
    | .offsetInFile _ _ _ => ["type", "path", "offset", "length"]
    | .lineInFile _ _ _ _ => ["type", "path", "line", "column", "length"]
  defaults
    | .lineInFile path line column length =>
      [("column", .lineInFile path line none length), ("length", .lineInFile path line column none)]
    | _ => []
  Part _ _ _ _ _ _ := False

namespace ProblemReport

/-- An edit of one of the locations of a report. -/
inductive Part (room : Nat) : String → Tree → ProblemReport → Tree → Option ProblemReport → Prop
  | location {before after : List Tree} {t t' : Tree} {label : String} {details : Option String}
      {severity : Severity} {l : Location} {ls ls' : List Location} {o : Option Location}
      (hplace : before.length = ls.length) (h : Location.format.Edit (room - 1) t l t' o) :
      Part room "locations" (.array (before ++ t :: after) true)
        ⟨label, details, severity, ls ++ l :: ls'⟩
        (.array (before ++ t' :: after) true)
        (o.map fun l' => ⟨label, details, severity, ls ++ l' :: ls'⟩)

def format : Format ProblemReport where
  known _ := ["label", "details", "severity", "locations"]
  defaults p :=
    [("details", { p with details := none }), ("severity", { p with severity := .warning }),
      ("locations", { p with locations := [] })]
  Part := Part

end ProblemReport

namespace Descriptor

/-- An edit of a part of the report that a problem is described by. -/
inductive Part (room : Nat) (name : String) (t : Tree) :
    Descriptor → Tree → Option Descriptor → Prop
  | report {i : Identity} {p : ProblemReport} {t' : Tree} {o : Option ProblemReport}
      (h : ProblemReport.Part room name t p t' o) :
      Part room name t ⟨i, .problem p⟩ t' (o.map fun p' => ⟨i, .problem p'⟩)

def format : Format Descriptor where
  known d := ["kind", "id", "name", "display_name", "parent_id"] ++
    match d.subject with
    | .task _ => ["task_path"]
    | .buildPhase _ _ => ["build_phase", "build_item_count"]
    | .projectConfiguration _ _ _ => ["project_path", "build_path", "root_dir"]
    | .workItem _ => ["class_name"]
    | .problem p => ProblemReport.format.known p
  defaults d := ("parent_id", d.withParent none) ::
    match d.subject with
    | .buildPhase phase _ => [("build_item_count", ⟨d.identity, .buildPhase phase 0⟩)]
    | .projectConfiguration projectPath buildPath _ =>
      [("root_dir", ⟨d.identity, .projectConfiguration projectPath buildPath none⟩)]
    | .problem p => (ProblemReport.format.defaults p).map fun (n, p') => (n, ⟨d.identity, .problem p'⟩)
    | _ => []
  Part := Part

end Descriptor

def OperationResult.format : Format OperationResult where
  known o := ["status", "start_time", "end_time"] ++
    match o.conclusion with
    | .success => []
    | .skipped _ => ["reason"]
    | .failure _ => ["message"]
  defaults _ := []
  Part _ _ _ _ _ _ := False

def TaskExecution.format : Format TaskExecution where
  known _ := ["up_to_date", "from_cache"]
  defaults t :=
    [("up_to_date", { t with upToDate := false }), ("from_cache", { t with fromCache := false })]
  Part _ _ _ _ _ _ := False

namespace Event

/-- An edit of the descriptor, the result or the task section of an event. -/
inductive Part (room : Nat) (t : Tree) : String → Event → Tree → Option Event → Prop
  | ofStarted {time : Instant} {d : Descriptor} {t' : Tree} {o : Option Descriptor}
      (h : Descriptor.format.Edit room t d t' o) :
      Part room t "descriptor" (started time d) t' (o.map (started time))
  | ofFinished {time : Instant} {d : Descriptor} {result : OperationResult} {task : Option TaskExecution}
      {t' : Tree} {o : Option Descriptor} (h : Descriptor.format.Edit room t d t' o) :
      Part room t "descriptor" (finished time d result task) t'
        (o.map (finished time · result task))
  | result {time : Instant} {d : Descriptor} {result : OperationResult} {task : Option TaskExecution}
      {t' : Tree} {o : Option OperationResult}
      (h : OperationResult.format.Edit room t result t' o) :
      Part room t "result" (finished time d result task) t' (o.map (finished time d · task))
  | task {time : Instant} {d : Descriptor} {result : OperationResult} {task : TaskExecution}
      {t' : Tree} {o : Option TaskExecution} (h : TaskExecution.format.Edit room t task t' o) :
      Part room t "task" (finished time d result (some task)) t'
        (o.map fun task => finished time d result (some task))

def format : Format Event where
  known
    | started _ _ => ["type", "event_time", "descriptor"]
    | finished _ _ _ _ => ["type", "event_time", "descriptor", "result", "task"]
  defaults
    | finished time d result _ => [("task", finished time d result none)]
    | _ => []
  Part room name t := Part room t name

end Event

namespace Message

/-- An edit of the event of a message. -/
inductive Part (room : Nat) (t : Tree) : String → Message → Tree → Option Message → Prop
  | event {build : BuildId} {e : Event} {t' : Tree} {o : Option Event} (h : Event.format.Edit room t e t' o) :
      Part room t "event" (event build e) t' (o.map (Message.event build))

def format : Format Message where
  known
    | .event _ _ => ["message", "build_id", "event"]
    | .endOfStream _ _ => ["message", "build_id", "reason"]
  defaults _ := []
  Part room name t := Part room t name

end Message

/-! ### Layouts of the formats -/

theorem Location.describes : layout.Describes format decoder where
  readsObjects := readsObjects
  names r l := by cases l <;> rfl
  nodup l := by cases l <;> simp [format]
  variant := by
    rintro (_ | _ | _) (_ | _ | _) h <;>
      first | rfl | exact absurd (h rfl) (by simp [layout, variant])
  defaults := by
    intro r l name l' ts h
    cases l with
    | lineInFile path line column length =>
      rcases List.mem_pair.mp h with h | h <;> obtain ⟨rfl, rfl⟩ := Prod.mk.inj h <;>
        simp [layout, Layout.slots, Slot.Becomes, variant]
    | _ => exact absurd h List.not_mem_nil
  part _ _ _ _ _ _ h := h.elim
  part_none _ _ _ _ _ _ h := h.elim
  part_keeps _ _ _ _ _ _ h := h.elim
  part_tag _ _ _ _ _ _ _ h := h.elim

theorem Location.governs : format.Governs decoder :=
  describes.governs (.inr fun _ _ _ _ _ _ _ _ _ h => h)

section Lists

variable {α : Type} {d : Decoder α} {r : Reading} {before after : List Tree} {t t' : Tree}
  {as as' bs : List α}
  {a a' : α}

/-- One item of a list is replaced where the new one is decoded. -/
theorem list_insert (hplace : before.length = as.length)
    (hread : Decoder.list d r (.array (before ++ t :: after) true) = .ok (as ++ a :: as'))
    (ht : d r.inside t' = .ok a') :
    Decoder.list d r (.array (before ++ t' :: after) true) = .ok (as ++ a' :: as') := by
  rw [list_ok, forall₂_insert hplace] at hread ⊢
  exact ⟨rfl, hread.2.1, ht⟩

/-- Each item of a list is decoded. -/
theorem exists_of_list (hread : Decoder.list d r (.array (before ++ t :: after) true) = .ok bs) :
    ∃ b, d r.inside t = .ok b := by
  obtain ⟨b, -, hb⟩ :=
    exists_of_mem_left (list_ok.mp hread).2 (List.mem_append_right before List.mem_cons_self)
  exact ⟨b, hb⟩

end Lists

namespace ProblemReport

/-- An edit of a location changes the slot of the locations. -/
theorem Part.becomes {r : Reading} {name : String} {t t' : Tree} {p p' : ProblemReport}
    (h : Part r.room name t p t' (some p')) :
    List.Forall₂ (Slot.Becomes name [t] [t']) (slots r p) (slots r p') := by
  generalize ho : some p' = o at h
  cases h with
  | location hplace hedit =>
    obtain ⟨l', rfl, rfl⟩ := Option.map_eq_some_iff.mp ho.symm
    refine .cons (.other (by simp)) (.cons (.other (by simp)) (.cons (.other (by simp))
      (.cons (.this fun hread => ?_) .nil)))
    rw [FieldReads.single] at hread ⊢
    obtain ⟨-, hitems⟩ := list_ok.mp hread
    have hl := ((forall₂_insert hplace).mp hitems).2
    exact list_insert hplace hread (Location.governs.reads hl hedit)

/-- No report has a location that is no longer read. -/
theorem Part.not_takes {r : Reading} {name : String} {t t' : Tree} {p p' : ProblemReport}
    (h : Part r.room name t p t' none) (htakes : ∃ s ∈ slots r p, s.name = name ∧ s.takes [t]) :
    ∀ s ∈ slots r p', s.name = name → ¬ s.takes [t'] := by
  generalize ho : none = o at h
  cases h with
  | @location before after u u' label details severity l ls ls' o hplace hedit =>
    obtain rfl := Option.map_eq_none_iff.mp ho.symm
    have hread : Decoder.list Location.decoder r (.array (before ++ u :: after) true) =
      .ok (ls ++ l :: ls') := by
      simpa [slots] using htakes
    have hu : Location.decoder r.inside u = .ok l :=
      ((forall₂_insert hplace).mp (list_ok.mp hread).2).2
    have hnot : Decoder.list Location.decoder r
        (.array (before ++ u' :: after) true) ≠ .ok p'.locations := by
      intro hread'
      obtain ⟨l', hl'⟩ := exists_of_list hread'
      exact Location.governs.fails hu hedit hl'
    simpa [slots] using hnot

theorem Part.keeps {room : Nat} {name : String} {t t' : Tree} {p p' : ProblemReport}
    (h : Part room name t p t' (some p')) : Keeps room t t' := by
  generalize ho : some p' = o at h
  cases h with
  | location hplace hedit =>
    obtain ⟨l', rfl, rfl⟩ := Option.map_eq_some_iff.mp ho.symm
    refine ⟨fun hsound => ?_, rfl⟩
    simp only [Tree.isSound, Bool.and_eq_true, itemsSound_iff] at hsound ⊢
    obtain ⟨hopen, hitems⟩ := hsound
    obtain ⟨hothers, ht⟩ := forall_mem_insert.mp hitems
    exact ⟨hopen, forall_mem_insert.mpr ⟨hothers, (Location.describes.keeps hedit).1 ht⟩⟩

/-- Only the locations of a report are edited. -/
theorem Part.name_eq {room : Nat} {name : String} {t t' : Tree} {p : ProblemReport}
    {o : Option ProblemReport} (h : Part room name t p t' o) : name = "locations" := by
  cases h
  rfl

theorem defaults_becomes {r : Reading} {p p' : ProblemReport} {name : String} (ts : List Tree)
    (h : (name, p') ∈ format.defaults p) :
    List.Forall₂ (Slot.Becomes name ts []) (slots r p) (slots r p') := by
  simp only [format, List.mem_cons, List.not_mem_nil, or_false, Prod.mk.injEq] at h
  rcases h with ⟨rfl, rfl⟩ | ⟨rfl, rfl⟩ | ⟨rfl, rfl⟩ <;> simp [slots, Slot.Becomes, default]

theorem describes : layout.Describes format decoder where
  readsObjects := readsObjects
  names _ _ := rfl
  nodup _ := by simp [format]
  variant _ _ _ := rfl
  defaults _ _ _ _ ts h := defaults_becomes ts h
  part _ _ _ _ _ _ h := Part.becomes h
  part_none _ _ _ _ _ _ h _ htakes := Part.not_takes h htakes
  part_keeps _ _ _ _ _ _ h := Part.keeps h
  part_tag _ _ _ _ _ _ _ _ := by simp [layout]

theorem governs : format.Governs decoder := describes.governs (.inl readsArrays)

end ProblemReport

namespace Descriptor

theorem Part.keeps {room : Nat} {name : String} {t t' : Tree} {d d' : Descriptor}
    (h : Part room name t d t' (some d')) : Keeps room t t' := by
  generalize ho : some d' = o at h
  cases h with
  | report h =>
    obtain ⟨p', rfl, rfl⟩ := Option.map_eq_some_iff.mp ho.symm
    exact h.keeps

theorem Part.name_eq {room : Nat} {name : String} {t t' : Tree} {d : Descriptor}
    {o : Option Descriptor}
    (h : Part room name t d t' o) : name = "locations" := by
  cases h with
  | report h => exact h.name_eq

theorem mem_subject_slots {r : Reading} {d : Descriptor} {s : Slot} (hs : s ∈ layout.slots r d)
    (hname : s.name ∉ ["kind", "id", "name", "display_name", "parent_id"]) :
    s ∈ d.subject.slots r.holding := by
  rw [List.mem_cons, not_or] at hname
  rcases List.mem_cons.mp hs with rfl | hs
  · exact absurd rfl hname.1
  · exact (List.mem_append.mp hs).resolve_left fun hs => hname.2 (Identity.slot_names _ s hs)

/-- What changes a slot of the subject changes no other of the descriptor. -/
theorem becomes_of_subject {r : Reading} {i : Identity} {s s' : Subject} {name : String}
    {ts ts' : List Tree}
    (hname : name ∉ ["kind", "id", "name", "display_name", "parent_id"]) (htag : s'.tag = s.tag)
    (h : List.Forall₂ (Slot.Becomes name ts ts') (s.slots r.holding) (s'.slots r.holding)) :
    List.Forall₂ (Slot.Becomes name ts ts') (layout.slots r ⟨i, s⟩) (layout.slots r ⟨i, s'⟩) := by
  rw [List.mem_cons, not_or] at hname
  refine .cons ?_ (List.rel_append ?_ h)
  · show Slot.Becomes name ts ts' (.field "kind" none _ _ s.tag) (.field "kind" none _ _ s'.tag)
    rw [htag]
    exact .other (Ne.symm hname.1)
  · refine List.forall₂_same.mpr fun slot hslot => .other ?_
    rintro rfl
    exact hname.2 (i.slot_names slot hslot)

/-- To have no parent changes the slot of the parent. -/
theorem becomes_of_parent {r : Reading} {d : Descriptor} {ts : List Tree} :
    List.Forall₂ (Slot.Becomes "parent_id" ts []) (layout.slots r d)
      (layout.slots r (d.withParent none)) := by
  refine .cons (.other (by simp))
    (List.rel_append ?_ (List.forall₂_same.mpr fun slot hslot => .other ?_))
  · simp [Identity.slots, Slot.Becomes, withParent]
  · intro hname
    exact d.subject.slot_names slot hslot (by simp [hname])

theorem describes : layout.Describes format decoder where
  readsObjects := readsObjects
  names := by rintro r ⟨i, (_ | _ | _ | _ | _)⟩ <;> rfl
  nodup := by rintro ⟨i, (_ | _ | _ | _ | _)⟩ <;> simp [format, ProblemReport.format]
  variant := by
    rintro ⟨i, (_ | _ | _ | _ | _)⟩ ⟨i', (_ | _ | _ | _ | _)⟩ h <;>
      first | rfl | exact absurd (h rfl) (by simp [layout, Subject.tag])
  defaults := by
    intro r d name d' ts h
    rcases List.mem_cons.mp h with h | h
    · obtain ⟨rfl, rfl⟩ := Prod.mk.inj h
      exact becomes_of_parent
    obtain ⟨i, s⟩ := d
    cases s with
    | task _ => exact absurd h List.not_mem_nil
    | workItem _ => exact absurd h List.not_mem_nil
    | buildPhase phase itemCount =>
      obtain ⟨rfl, rfl⟩ := Prod.mk.inj (List.mem_singleton.mp h)
      exact becomes_of_subject (by simp) rfl (by simp [Subject.slots, Slot.Becomes])
    | projectConfiguration projectPath buildPath rootDir =>
      obtain ⟨rfl, rfl⟩ := Prod.mk.inj (List.mem_singleton.mp h)
      exact becomes_of_subject (by simp) rfl (by simp [Subject.slots, Slot.Becomes])
    | problem p =>
      obtain ⟨⟨name, p'⟩, hp', heq⟩ := List.mem_map.mp h
      obtain ⟨rfl, rfl⟩ := Prod.mk.inj heq
      refine becomes_of_subject ?_ rfl (ProblemReport.defaults_becomes ts hp')
      simp only [ProblemReport.format, List.mem_cons, List.not_mem_nil, or_false,
        Prod.mk.injEq] at hp'
      rcases hp' with ⟨rfl, -⟩ | ⟨rfl, -⟩ | ⟨rfl, -⟩ <;> simp
  part := by
    intro r name t d t' d' h
    have hname := Part.name_eq h
    generalize ho : some d' = o at h
    cases h with
    | report h =>
      obtain ⟨p', rfl, rfl⟩ := Option.map_eq_some_iff.mp ho.symm
      exact becomes_of_subject (by simp [hname]) rfl h.becomes
  part_none := by
    intro r name t d t' d' h hknown htakes
    have hname := Part.name_eq h
    generalize ho : none = o at h
    cases h with
    | @report i p _ _ h =>
      obtain rfl := Option.map_eq_none_iff.mp ho.symm
      subst hname
      have htakes : ∃ s ∈ ProblemReport.slots r.holding p, s.name = "locations" ∧ s.takes [t] := by
        obtain ⟨s, hs, hsname, htakes⟩ := htakes
        exact ⟨s, mem_subject_slots hs (by simp [hsname]), hsname, htakes⟩
      intro s hs hsname
      have hs := mem_subject_slots hs (by simp [hsname])
      obtain ⟨i', s'⟩ := d'
      cases s' with
      | problem p' => exact h.not_takes htakes s hs hsname
      | _ => exact absurd hknown (by simp [format, ProblemReport.format])
  part_keeps _ _ _ _ _ _ h := Part.keeps h
  part_tag _ _ _ _ _ _ _ h := by simp [layout, Part.name_eq h]

theorem governs : format.Governs decoder := by
  refine describes.governs (.inr fun r before t after d name t' o hread => ?_)
  -- no variant of a descriptor has an array form
  obtain ⟨-, -, _, _, v, -, hid, -, hv⟩ := tagged_array_ok.mp hread
  obtain ⟨_, -, hmem⟩ := (identify_ok (by decide)).mp hid
  simp only [List.mem_cons, List.not_mem_nil, or_false, Prod.mk.injEq] at hmem
  rcases hmem with ⟨-, rfl⟩ | ⟨-, rfl⟩ | ⟨-, rfl⟩ | ⟨-, rfl⟩ | ⟨-, rfl⟩ <;>
    exact absurd hv (by simp [variant, Variant.sharing])

end Descriptor

theorem OperationResult.describes : layout.Describes format decoder where
  readsObjects := readsObjects
  names := by rintro r ⟨_, _, (_ | _ | _)⟩ <;> rfl
  nodup := by rintro ⟨_, _, (_ | _ | _)⟩ <;> simp [format]
  variant := by
    rintro ⟨_, _, (_ | _ | _)⟩ ⟨_, _, (_ | _ | _)⟩ h <;>
      first | rfl | exact absurd (h rfl) (by simp [layout, variant])
  defaults _ _ _ _ _ h := absurd h List.not_mem_nil
  part _ _ _ _ _ _ h := h.elim
  part_none _ _ _ _ _ _ h := h.elim
  part_keeps _ _ _ _ _ _ h := h.elim
  part_tag _ _ _ _ _ _ _ h := h.elim

theorem OperationResult.governs : format.Governs decoder :=
  describes.governs (.inr fun _ _ _ _ _ _ _ _ _ h => h)

theorem TaskExecution.describes : layout.Describes format decoder where
  readsObjects := readsObjects
  names _ _ := rfl
  nodup _ := by simp [format]
  variant _ _ _ := rfl
  defaults := by
    intro r t name t' ts h
    rcases List.mem_pair.mp h with h | h <;> obtain ⟨rfl, rfl⟩ := Prod.mk.inj h <;>
      simp [layout, Layout.slots, Slot.Becomes]
  part _ _ _ _ _ _ h := h.elim
  part_none _ _ _ _ _ _ h := h.elim
  part_keeps _ _ _ _ _ _ h := h.elim
  part_tag _ _ _ _ _ _ _ h := h.elim

theorem TaskExecution.governs : format.Governs decoder :=
  describes.governs (.inr fun _ _ _ _ _ _ _ _ _ h => h)

namespace Event

/-- An edit of a part changes the slot of the part. -/
theorem Part.becomes {r : Reading} {name : String} {t t' : Tree} {e e' : Event}
    (h : Part (r.room - 1) t name e t' (some e')) :
    List.Forall₂ (Slot.Becomes name [t] [t']) (layout.slots r e) (layout.slots r e') := by
  generalize ho : some e' = o at h
  cases h with
  | ofStarted h =>
    obtain ⟨d', rfl, rfl⟩ := Option.map_eq_some_iff.mp ho.symm
    refine .cons (.other (by simp)) (.cons (.other (by simp)) (.cons (.this fun hread => ?_) .nil))
    rw [FieldReads.single] at hread ⊢
    exact Descriptor.governs.reads hread h
  | ofFinished h =>
    obtain ⟨d', rfl, rfl⟩ := Option.map_eq_some_iff.mp ho.symm
    refine .cons (.other (by simp)) (.cons (.other (by simp)) (.cons (.this fun hread => ?_)
      (.cons (.other (by simp)) (.cons (.other (by simp)) .nil))))
    rw [FieldReads.single] at hread ⊢
    exact Descriptor.governs.reads hread h
  | result h =>
    obtain ⟨result', rfl, rfl⟩ := Option.map_eq_some_iff.mp ho.symm
    refine .cons (.other (by simp)) (.cons (.other (by simp)) (.cons (.other (by simp))
      (.cons (.this fun hread => ?_) (.cons (.other (by simp)) .nil))))
    rw [FieldReads.single] at hread ⊢
    exact OperationResult.governs.reads hread h
  | task h =>
    obtain ⟨task', rfl, rfl⟩ := Option.map_eq_some_iff.mp ho.symm
    refine .cons (.other (by simp)) (.cons (.other (by simp)) (.cons (.other (by simp))
      (.cons (.other (by simp)) (.cons (.this fun hread => ?_) .nil))))
    rw [FieldReads.single] at hread ⊢
    exact TaskExecution.governs.optional_reads hread h

/-- No event has a part that is no longer read. -/
theorem Part.not_takes {r : Reading} {name : String} {t t' : Tree} {e e' : Event}
    (h : Part (r.room - 1) t name e t' none)
    (htakes : ∃ s ∈ layout.slots r e, s.name = name ∧ s.takes [t]) :
    ∀ s ∈ layout.slots r e', s.name = name → ¬ s.takes [t'] := by
  generalize ho : none = o at h
  cases h with
  | @ofStarted time d _ o h =>
    obtain rfl := Option.map_eq_none_iff.mp ho.symm
    have hread : Descriptor.decoder r.holding t = .ok d := by
      simpa [layout, Layout.slots] using htakes
    have hnot : ∀ d', Descriptor.decoder r.holding t' ≠ .ok d' :=
      fun d' => Descriptor.governs.fails hread h
    cases e' <;> simp [layout, Layout.slots, hnot]
  | @ofFinished time d result task _ o h =>
    obtain rfl := Option.map_eq_none_iff.mp ho.symm
    have hread : Descriptor.decoder r.holding t = .ok d := by
      simpa [layout, Layout.slots] using htakes
    have hnot : ∀ d', Descriptor.decoder r.holding t' ≠ .ok d' :=
      fun d' => Descriptor.governs.fails hread h
    cases e' <;> simp [layout, Layout.slots, hnot]
  | @result time d result task _ o h =>
    obtain rfl := Option.map_eq_none_iff.mp ho.symm
    have hread : OperationResult.decoder r.holding t = .ok result := by
      simpa [layout, Layout.slots] using htakes
    have hnot : ∀ result', OperationResult.decoder r.holding t' ≠ .ok result' := fun result' =>
      OperationResult.governs.fails hread h
    cases e' <;> simp [layout, Layout.slots, hnot]
  | @task time d result task _ o h =>
    obtain rfl := Option.map_eq_none_iff.mp ho.symm
    have hread : TaskExecution.decoder.optional r.holding t = .ok (some task) := by
      simpa [layout, Layout.slots] using htakes
    have hnot : ∀ task', TaskExecution.decoder.optional r.holding t' ≠ .ok task' := fun task' =>
      TaskExecution.governs.optional_fails hread h
    cases e' <;> simp [layout, Layout.slots, hnot]

theorem Part.keeps {room : Nat} {name : String} {t t' : Tree} {e e' : Event}
    (h : Part room t name e t' (some e')) : Keeps room t t' := by
  generalize ho : some e' = o at h
  cases h with
  | ofStarted h | ofFinished h =>
    obtain ⟨d', rfl, -⟩ := Option.map_eq_some_iff.mp ho.symm
    exact Descriptor.describes.keeps h
  | result h =>
    obtain ⟨result', rfl, -⟩ := Option.map_eq_some_iff.mp ho.symm
    exact OperationResult.describes.keeps h
  | task h =>
    obtain ⟨task', rfl, -⟩ := Option.map_eq_some_iff.mp ho.symm
    exact TaskExecution.describes.keeps h

theorem describes : layout.Describes format decoder where
  readsObjects := readsObjects
  names := by rintro r (_ | _) <;> rfl
  nodup := by rintro (_ | _) <;> simp [format]
  variant := by
    rintro (_ | _) (_ | _) h <;> first | rfl | exact absurd (h rfl) (by simp [layout, variant])
  defaults := by
    intro r e name e' ts h
    cases e with
    | started time d => exact absurd h List.not_mem_nil
    | finished time d result task =>
      obtain ⟨rfl, rfl⟩ := Prod.mk.inj (List.mem_singleton.mp h)
      simp [layout, Layout.slots, Slot.Becomes, variant]
  part _ _ _ _ _ _ h := Part.becomes h
  part_none _ _ _ _ _ _ h _ htakes := Part.not_takes h htakes
  part_keeps _ _ _ _ _ _ h := Part.keeps h
  part_tag := by
    rintro room name t e t' o names h
    cases h <;> simp [layout]

theorem governs : format.Governs decoder := describes.governs (.inl readsArrays)

end Event

namespace Message

theorem describes : layout.Describes format decoder where
  readsObjects := readsObjects
  names := by rintro r (_ | _) <;> rfl
  nodup := by rintro (_ | _) <;> simp [format]
  variant := by
    rintro (_ | _) (_ | _) h <;> first | rfl | exact absurd (h rfl) (by simp [layout, variant])
  defaults _ _ _ _ _ h := absurd h List.not_mem_nil
  part := by
    intro r name t m t' m' h
    generalize ho : some m' = o at h
    cases h with
    | event h =>
      obtain ⟨e', rfl, rfl⟩ := Option.map_eq_some_iff.mp ho.symm
      refine .cons (.other (by simp))
        (.cons (.other (by simp)) (.cons (.this fun hread => ?_) .nil))
      rw [FieldReads.single] at hread ⊢
      exact Event.governs.reads hread h
  part_none := by
    intro r name t m t' m' h _ htakes
    generalize ho : none = o at h
    cases h with
    | @event build e _ o h =>
      obtain rfl := Option.map_eq_none_iff.mp ho.symm
      have hread : Event.decoder r.holding t = .ok e := by simpa [layout, Layout.slots] using htakes
      have hnot : ∀ e', Event.decoder r.holding t' ≠ .ok e' := fun e' => Event.governs.fails hread h
      cases m' <;> simp [layout, Layout.slots, hnot]
  part_keeps := by
    intro room name t m t' m' h
    generalize ho : some m' = o at h
    cases h with
    | event h =>
      obtain ⟨e', rfl, -⟩ := Option.map_eq_some_iff.mp ho.symm
      exact Event.describes.keeps h
  part_tag := by
    rintro room name t m t' o names h
    cases h
    simp [layout]

theorem governs : format.Governs decoder := describes.governs (.inl readsArrays)

end Message

/-- The client format is additive: however the fields of the objects in a document
are put in another order, joined by fields that are not known and left out where
they have a default, at any depth, the document is decoded as the value that has
these fields at their defaults; and once a known field is repeated somewhere, it
is not decoded. -/
theorem client_format_additive :
    Descriptor.format.Additive Descriptor.decoder ∧ Event.format.Additive Event.decoder ∧
      OperationResult.format.Additive OperationResult.decoder ∧
      Message.format.Additive Message.decoder ∧
      Location.format.Additive Location.decoder ∧
      ProblemReport.format.Additive ProblemReport.decoder :=
  ⟨Descriptor.governs.additive, Event.governs.additive, OperationResult.governs.additive,
    Message.governs.additive, Location.governs.additive, ProblemReport.governs.additive⟩

/-- A line that loses its column, has its length in front and is joined by a field
of a newer version, and the same with the line repeated. -/
theorem client_format_additive_of_line :
    let fields : List (String × Value) :=
      [("type", .text "line_in_file"), ("path", .text "a"), ("line", .uint32 1)]
    let newer : Value := .object (("since", .array [.null]) :: ("length", .null) :: fields)
    let twice : Value :=
      .object (("line", .null) :: ("since", .array [.null]) :: ("length", .null) :: fields)
    let l : Location := .lineInFile "a" 1 (some 2) none
    let l' : Location := .lineInFile "a" 1 none none
    decode Location.decoder l.toValue.render = .ok l ∧
      Location.format.Edits Reading.ofText.room (Document.read l.toValue.render).tree l
        (Document.read newer.render).tree (some l') ∧
      decode Location.decoder newer.render = .ok l' ∧
      Location.format.Edits Reading.ofText.room (Document.read l.toValue.render).tree l
        (Document.read twice.render).tree none ∧
      (decode Location.decoder twice.render).toOption = none := by
  intro fields newer twice l l'
  let line := Value.fieldTrees fields
  let length := (some "length", Value.null.tree)
  let since := (some "since", (Value.array [.null]).tree)
  let column := (some "column", (Value.uint32 2).tree)
  have hremoved : Location.format.Edit 127 l.toValue.tree l
      (.object (line ++ [length]) true) (some l') := by
    have h := @Format.Edit.removed _ Location.format 127
      (line ++ [column, length]) l l' "column" List.mem_cons_self
    show Location.format.Edit 127 (.object (line ++ [column, length]) true) ..
    simpa [line, fields, column, length, Value.fieldTrees] using h
  have hpermuted : Location.format.Edit 127 (.object (line ++ [length]) true) l'
      (.object (length :: line) true) (some l') := .permuted (List.perm_append_singleton ..)
  have hadded :
      Location.format.Edit 127 (.object (length :: line) true) l' newer.tree (some l') := by
    show Location.format.Edit 127 (.object ([] ++ length :: line) true) l'
      (.object ([] ++ since :: length :: line) true) _
    exact .added (by simp [Location.format, l']) rfl
  have hrepeated : Location.format.Edit 127 newer.tree l' twice.tree none := by
    show Location.format.Edit 127 (.object ([] ++ since :: length :: line) true) l'
      (.object ([] ++ (some "line", Value.null.tree) :: since :: length :: line) true) _
    exact .repeated (by simp [Location.format, l']) (by simp [line, fields, length, since])
  have hnull : ∀ n, Value.null.Fits n := fun n => ⟨trivial, Nat.zero_le _⟩
  have hnewer : newer.Fits 2 := by simp [newer, fields, hnull]
  have htwice : twice.Fits 2 := by simp [twice, fields, hnull]
  have hread : Document.read l.toValue.render = ⟨l.toValue.tree, true⟩ :=
    Document.read_render l.fits.1
  have hread' : Document.read newer.render = ⟨newer.tree, true⟩ := Document.read_render hnewer.1
  have hread'' : Document.read twice.render = ⟨twice.tree, true⟩ := Document.read_render htwice.1
  have hl : decode Location.decoder l.toValue.render = .ok l :=
    Location.reads_back.roundTrips (fun l => l.fits.mono (by decide)) l
  have hedits : Location.format.Edits Reading.ofText.room (Document.read l.toValue.render).tree l
      (Document.read newer.render).tree (some l') := by
    rw [hread, hread']
    exact .next (.next (.next .done hremoved) hpermuted) hadded
  have hedits' : Location.format.Edits Reading.ofText.room (Document.read l.toValue.render).tree l
      (Document.read twice.render).tree none := by
    rw [hread, hread'']
    exact .next (.next (.next (.next .done hremoved) hpermuted) hadded) hrepeated
  have hadditive : Location.format.Additive Location.decoder := client_format_additive.2.2.2.2.1
  refine ⟨hl, hedits, ?_, hedits', ?_⟩
  · exact toOption_eq_some.mp (hadditive _ _ _ _ hl hedits (by rw [hread']))
  · exact hadditive _ _ _ _ hl hedits' (by rw [hread''])

end BuildFeed
