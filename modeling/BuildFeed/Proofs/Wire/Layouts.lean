/-
# The layouts of the client format

The slots of every type that clients are sent, and that its decoder reads
objects slot by slot, those that hold further objects also arrays. The slots
of a descriptor are those of its identity and those of its subject, which
stand in one object.

Key definitions: `Location.layout`, `ProblemReport.layout`, `Descriptor.layout`,
`Event.layout`, `Message.layout`.
Key theorems: `Descriptor.readsObjects`, `Event.readsObjects`, `Event.readsArrays`.
-/
import BuildFeed.Event
import BuildFeed.Proofs.Wire.Slots

namespace BuildFeed

open Json Wire Time

/-! ### Locations and reports -/

namespace Location

def variant : Location → String
  | file _ => "file"
  | offsetInFile _ _ _ => "offset_in_file"
  | lineInFile _ _ _ _ => "line_in_file"

def layout : Layout Location where
  tag := some ("type", ["file", "offset_in_file", "line_in_file"])
  variant := variant
  fields r
    | file path => [.field "path" none Decoder.text r path]
    | offsetInFile path offset length =>
      [.field "path" none Decoder.text r path, .field "offset" none Decoder.uint32 r offset,
        .field "length" none Decoder.uint32 r length]
    | lineInFile path line column length =>
      [.field "path" none Decoder.text r path, .field "line" none Decoder.uint32 r line,
        .field "column" (some none) Decoder.uint32.optional r column,
        .field "length" (some none) Decoder.uint32.optional r length]

theorem readsObjects : layout.ReadsObjects decoder := by
  refine tagged_readsObjects (by decide) ?_ ?_
  · rintro r (_ | _ | _) <;> simp
  · intro r fields name l
    cases l <;> simp [variant, and_assoc]

end Location

namespace ProblemReport

/-- The slots of a report, which a descriptor of a problem has too. -/
def slots (r : Reading) (p : ProblemReport) : List Slot :=
  [.field "label" none Decoder.text r p.label,
    .field "details" (some none) Decoder.text.optional r p.details,
    .field "severity" (some default) Severity.decoder r p.severity,
    .field "locations" (some []) (Decoder.list Location.decoder) r p.locations]

def layout : Layout ProblemReport := ⟨none, fun _ => "", slots⟩

theorem record_ofFields_ok (r : Reading) (fields : Fields) (p : ProblemReport) :
    record.ofFields r fields = .ok p ↔ Takes (slots r p) fields := by
  obtain ⟨label, details, severity, locations⟩ := p
  simp [record, slots, and_assoc]

theorem readsObjects : layout.ReadsObjects decoder := Record.readsObjects record_ofFields_ok

theorem readsArrays : layout.ReadsArrays decoder := by
  refine Record.readsArrays fun r items rest p => ?_
  obtain ⟨label, details, severity, locations⟩ := p
  rcases items with _ | ⟨_, _ | ⟨_, _ | ⟨_, _ | ⟨_, _ | ⟨_, items⟩⟩⟩⟩⟩ <;>
    simp [record, slots, Fills, Slot.TakesNext, and_assoc]
  all_goals tauto

end ProblemReport

/-! ### Descriptors -/

def Identity.slots (r : Reading) (i : Identity) : List Slot :=
  [.field "id" none OperationId.decoder r i.id, .field "name" none Decoder.text r i.name,
    .field "display_name" none Decoder.text r i.displayName,
    .field "parent_id" (some none) OperationId.decoder.optional r i.parent]

def Subject.slots (r : Reading) : Subject → List Slot
  | task taskPath => [.field "task_path" none Decoder.text r taskPath]
  | buildPhase phase itemCount =>
    [.field "build_phase" none Decoder.text r phase,
      .field "build_item_count" (some 0) Decoder.uint32 r itemCount]
  | projectConfiguration projectPath buildPath rootDir =>
    [.field "project_path" none Decoder.text r projectPath,
      .field "build_path" none Decoder.text r buildPath,
      .field "root_dir" (some none) Decoder.text.optional r rootDir]
  | workItem className => [.field "class_name" none Decoder.text r className]
  | problem report => ProblemReport.slots r report

theorem Identity.slot_names {r : Reading} (i : Identity) : ∀ s ∈ i.slots r,
    s.name ∈ ["id", "name", "display_name", "parent_id"] := by simp [slots]

/-- The slots of a subject have other names than the tag and those of the identity. -/
theorem Subject.slot_names {r : Reading} (s : Subject) : ∀ slot ∈ s.slots r,
    slot.name ∉ ["kind", "id", "name", "display_name", "parent_id"] := by
  cases s <;> simp [slots, ProblemReport.slots]

theorem Identity.record_ofFields_ok (r : Reading) (fields : Fields) (i : Identity) :
    record.ofFields r fields = .ok i ↔ Takes (slots r i) fields := by
  obtain ⟨id, name, displayName, parent⟩ := i
  simp [record, slots, and_assoc]

namespace Descriptor

def layout : Layout Descriptor where
  tag := some ("kind", ["task", "build_phase", "project_configuration", "work_item", "problem"])
  variant d := d.subject.tag
  fields r d := d.identity.slots r ++ d.subject.slots r

/-- A variant reads the identity and the subject of its kind. -/
theorem variant_ok {record : Record Subject} {r : Reading} {fields : Fields} {d : Descriptor} :
    (variant record).ofFields r fields = .ok d ↔
      Takes (d.identity.slots r) fields ∧ record.ofFields r fields = .ok d.subject := by
  rw [← Identity.record_ofFields_ok]
  obtain ⟨identity, subject⟩ := d
  simp [variant]

theorem readsObjects : layout.ReadsObjects decoder := by
  refine tagged_readsObjects (by decide) ?_ ?_
  · rintro r ⟨i, (_ | _ | _ | _ | _)⟩ <;> simp [Identity.slots, Subject.slots, ProblemReport.slots]
  · rintro r fields name ⟨i, s⟩
    cases s <;>
      simp [variant_ok, Subject.slots, Subject.tag, Subject.taskRecord, Subject.buildPhaseRecord,
        Subject.projectConfigurationRecord, Subject.workItemRecord, Subject.problemRecord,
        ProblemReport.record_ofFields_ok]

end Descriptor

/-! ### Results and events -/

namespace OperationResult

def variant (o : OperationResult) : String :=
  match o.conclusion with
  | .success => "success"
  | .skipped _ => "skipped"
  | .failure _ => "failure"

def layout : Layout OperationResult where
  tag := some ("status", ["success", "skipped", "failure"])
  variant := variant
  fields r o :=
    [.field "start_time" none timeDecoder r o.startTime,
      .field "end_time" none timeDecoder r o.endTime] ++
      match o.conclusion with
      | .success => []
      | .skipped reason => [.field "reason" none Decoder.text r reason]
      | .failure message => [.field "message" none Decoder.text r message]

theorem readsObjects : layout.ReadsObjects decoder := by
  refine tagged_readsObjects (by decide) ?_ ?_
  · rintro r ⟨_, _, (_ | _ | _)⟩ <;> simp
  · rintro r fields name ⟨startTime, endTime, conclusion⟩
    cases conclusion <;> simp [variant, record]

end OperationResult

namespace TaskExecution

def layout : Layout TaskExecution where
  tag := none
  variant _ := ""
  fields r t :=
    [.field "up_to_date" (some false) Decoder.bool r t.upToDate,
      .field "from_cache" (some false) Decoder.bool r t.fromCache]

theorem readsObjects : layout.ReadsObjects decoder := by
  refine Record.readsObjects fun r fields t => ?_
  obtain ⟨upToDate, fromCache⟩ := t
  simp [record, -Bool.exists_bool]

end TaskExecution

namespace Event

def variant : Event → String
  | started _ _ => "started"
  | finished _ _ _ _ => "finished"

def layout : Layout Event where
  tag := some ("type", ["started", "finished"])
  variant := variant
  fields r
    | started time d =>
      [.field "event_time" none timeDecoder r time, .field "descriptor" none Descriptor.decoder r d]
    | finished time d result task =>
      [.field "event_time" none timeDecoder r time, .field "descriptor" none Descriptor.decoder r d,
        .field "result" none OperationResult.decoder r result,
        .field "task" (some none) TaskExecution.decoder.optional r task]

theorem readsObjects : layout.ReadsObjects decoder := by
  refine tagged_readsObjects (by decide) ?_ ?_
  · rintro r (_ | _) <;> simp
  · intro r fields name e
    cases e <;> simp [variant, and_assoc]

theorem readsArrays : layout.ReadsArrays decoder := by
  refine tagged_readsArrays (by decide) fun r items name e => ?_
  rcases items with _ | ⟨_, _ | ⟨_, _ | ⟨_, _ | ⟨_, _ | ⟨_, items⟩⟩⟩⟩⟩ <;> cases e <;>
    simp [variant, Fills, Slot.TakesNext, and_assoc]

end Event

namespace Message

def variant : Message → String
  | event _ _ => "event"
  | endOfStream _ _ => "end_of_stream"

def layout : Layout Message where
  tag := some ("message", ["event", "end_of_stream"])
  variant := variant
  fields r
    | event build e => [.field "build_id" none BuildId.decoder r build, .field "event" none Event.decoder r e]
    | endOfStream build reason =>
      [.field "build_id" none BuildId.decoder r build,
        .field "reason" none EndReason.decoder r reason]

theorem readsObjects : layout.ReadsObjects decoder := by
  refine tagged_readsObjects (by decide) ?_ ?_
  · rintro r (_ | _) <;> simp
  · intro r fields name m
    cases m <;> simp [variant]

theorem readsArrays : layout.ReadsArrays decoder := by
  refine tagged_readsArrays (by decide) fun r items name m => ?_
  rcases items with _ | ⟨_, _ | ⟨_, _ | ⟨_, items⟩⟩⟩ <;> cases m <;>
    simp [variant, Fills, Slot.TakesNext]

end Message

end BuildFeed
