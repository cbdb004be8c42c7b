/-
# The client format is read back

Each type of the client format is read back from its encoding, bottom up: the
scalars, locations, reports, descriptors, results, events, messages. The fields
of a descriptor's identity stand in one object with those of its subject and
have other names, so the slots of each take their fields as if these stood
alone (`Descriptor.takes`). An intermediate model is read back if its payload
is in the form that decoding gives to a value, with sorted fields.

Key theorems: `Descriptor.reads_back`, `Message.reads_back`,
`IntermediateModel.staysDecoded`, `client_format_round_trips`.
-/
import BuildFeed.Proofs.Json.Documents
import BuildFeed.Proofs.Time.Rfc3339
import BuildFeed.Proofs.Wire.Layouts
import BuildFeed.Proofs.Wire.RoundTrip
import BuildFeed.ModelChannel

namespace BuildFeed

open Json Wire Time

/-! ### Parts -/

section Parts

variable {r : Reading}

@[simp] theorem optional_text_tree (o : Option String) :
    Decoder.optional Decoder.text r (Value.ofOption .text o).tree = .ok o := by cases o <;> rfl

@[simp] theorem optional_uint32_tree (o : Option UInt32) :
    Decoder.optional Decoder.uint32 r (Value.ofOption .uint32 o).tree = .ok o := by
  refine ReadsBack.optional (fun r n _ => uint32_tree n) (by simp [Value.uint32, Value.nat]) r o ?_
  cases o <;> simp [Value.ofOption, Value.uint32, Value.nat, Value.depth]

@[simp] theorem optional_operationId_tree (o : Option OperationId) :
    Decoder.optional OperationId.decoder r (Value.ofOption OperationId.toValue o).tree = .ok o := by
  refine ReadsBack.optional (fun r id _ => operationId_tree id)
    (by simp [OperationId.toValue, Value.nat]) r o ?_
  cases o <;> simp [Value.ofOption, OperationId.toValue, Value.nat, Value.depth]

/-- A time is read back from its text. -/
@[simp] theorem timeDecoder_tree (t : Instant) : timeDecoder r (timeValue t).tree = .ok t := by
  show Decoder.narrow Decoder.text _ r (Value.text t.render).tree = _
  unfold Decoder.narrow
  rw [text_tree]
  simp only [Instant.render, String.toList_ofList, t.parse_print]

@[simp] theorem severity_tree (s : Severity) : Severity.decoder r s.toValue.tree = .ok s := by
  cases s <;> rfl

@[simp] theorem endReason_tree (e : EndReason) : EndReason.decoder r e.toValue.tree = .ok e := by
  cases e <;> rfl

@[simp] theorem operationType_tree (t : OperationType) :
    OperationType.decoder r t.toValue.tree = .ok t := by
  cases t <;> rfl

@[simp] theorem buildId_tree (id : BuildId) : BuildId.decoder r id.toValue.tree = .ok id := rfl

@[simp] theorem listenerId_tree (id : ListenerId) :
    ListenerId.decoder r id.toValue.tree = .ok id := rfl

end Parts

/-! ### Values of the client format -/

theorem Location.reads_back : ReadsBack decoder toValue := by
  intro r l hroom
  cases l <;> exact readsObjects.reads_back hroom (by simp [layout, Layout.slots, variant])

/-- The slots of a report take its fields. -/
theorem ProblemReport.takes {r : Reading} (p : ProblemReport)
    (hroom : Value.fieldsDepth p.fields ≤ r.room) :
    Takes (slots r p) (Value.fieldTrees p.fields) := by
  have hlocations : (Decoder.list Location.decoder) r
      (Value.array (p.locations.map Location.toValue)).tree = .ok p.locations := by
    refine Location.reads_back.list r p.locations ?_
    simp [fields, Value.fieldsDepth] at hroom
    show (Value.array (p.locations.map Location.toValue)).depth ≤ r.room
    omega
  simp [slots, fields, hlocations]

theorem ProblemReport.reads_back : ReadsBack decoder toValue := by
  intro r p hroom
  refine readsObjects.reads_back hroom (p.takes ?_)
  have : Value.fieldsDepth p.fields + 1 ≤ r.room := hroom
  show _ ≤ r.room - 1
  omega

theorem TaskExecution.reads_back : ReadsBack decoder toValue := by
  intro r t hroom
  exact readsObjects.reads_back hroom (by simp [layout, Layout.slots])

theorem OperationResult.reads_back : ReadsBack decoder toValue := by
  intro r o hroom
  obtain ⟨startTime, endTime, conclusion⟩ := o
  cases conclusion <;>
    exact readsObjects.reads_back hroom (by simp [layout, Layout.slots, variant, timeFields])

/-! ### Descriptors -/

theorem Identity.fields_eq (i : Identity) : i.fields =
    [("id", i.id.toValue), ("name", .text i.name), ("display_name", .text i.displayName),
      ("parent_id", .ofOption OperationId.toValue i.parent)] := by
  unfold fields
  rfl

theorem Identity.field_names (i : Identity) : ∀ f ∈ i.fields,
    f.1 ∈ ["id", "name", "display_name", "parent_id"] := by
  rw [fields_eq]
  simp

/-- The fields of a subject have other names than the tag and those of the identity. -/
theorem Subject.field_names (s : Subject) : ∀ f ∈ s.fields,
    f.1 ∉ ["kind", "id", "name", "display_name", "parent_id"] := by
  cases s <;> simp [fields, ProblemReport.fields]

theorem Identity.takes {r : Reading} (i : Identity) :
    Takes (i.slots r) (Value.fieldTrees i.fields) := by
  rw [fields_eq]
  simp [slots]

theorem Subject.takes {r : Reading} (s : Subject) (hroom : Value.fieldsDepth s.fields ≤ r.room) :
    Takes (s.slots r) (Value.fieldTrees s.fields) := by
  cases s with
  | problem report => exact report.takes hroom
  | _ => simp [slots, fields]

/-- The identity and the subject take their fields from one object, as they have
other names. -/
theorem Descriptor.takes {r : Reading} (d : Descriptor)
    (hroom : Value.fieldsDepth d.subject.fields ≤ r.holding.room) :
    Takes (layout.slots r d)
      (Value.fieldTrees
        (("kind", .text d.subject.tag) :: (d.identity.fields ++ d.subject.fields))) := by
  have hidentity : ∀ n ∉ ["id", "name", "display_name", "parent_id"],
      valuesOf n (Value.fieldTrees d.identity.fields) = [] := by
    intro n hn
    apply valuesOf_fieldTrees_of_forall
    rintro f hf rfl
    exact hn (d.identity.field_names f hf)
  have hsubject : ∀ n ∈ ["kind", "id", "name", "display_name", "parent_id"],
      valuesOf n (Value.fieldTrees d.subject.fields) = [] := by
    intro n hn
    apply valuesOf_fieldTrees_of_forall
    rintro f hf rfl
    exact d.subject.field_names f hf hn
  refine takes_cons.mpr ⟨?_, takes_append.mpr ⟨?_, ?_⟩⟩
  · have htag : d.subject.tag ∈
        ["task", "build_phase", "project_configuration", "work_item", "problem"] := by
      cases d.subject <;> simp [Subject.tag]
    rw [Slot.takes_field, Slot.name_field, valuesOf_fieldTrees_cons,
      if_pos rfl, valuesOf_fieldTrees_append,
      hidentity _ (by simp), hsubject _ (by simp), List.append_nil, FieldReads.single]
    exact variantName_tree (by simp) htag
  · refine d.identity.takes.congr fun s hs => ?_
    have hname := d.identity.slot_names s hs
    have hkind : "kind" ≠ s.name := by
      intro h
      simp [← h] at hname
    rw [valuesOf_fieldTrees_cons, if_neg hkind, valuesOf_fieldTrees_append,
      hsubject _ (List.mem_cons_of_mem _ hname), List.append_nil]
  · refine (d.subject.takes hroom).congr fun s hs => ?_
    have hname := d.subject.slot_names s hs
    rw [List.mem_cons, not_or] at hname
    rw [valuesOf_fieldTrees_cons, if_neg (Ne.symm hname.1), valuesOf_fieldTrees_append,
      hidentity _ hname.2, List.nil_append]

theorem Descriptor.reads_back : ReadsBack decoder toValue := by
  intro r d hroom
  refine readsObjects.reads_back hroom (d.takes ?_)
  have hall := Value.fieldsDepth_le.mp (Nat.le_sub_one_of_lt hroom)
  refine Value.fieldsDepth_le.mpr fun f hf => hall f ?_
  exact List.mem_cons_of_mem _ (List.mem_append_right _ hf)

/-! ### Events and messages -/

theorem Event.reads_back : ReadsBack decoder toValue := by
  intro r e hroom
  cases e with
  | started time d =>
    have hd : Descriptor.decoder r.holding d.toValue.tree = .ok d :=
      Descriptor.reads_back r.holding d (depth_le_of_mem hroom "descriptor" (by simp))
    exact readsObjects.reads_back hroom (by simp [layout, Layout.slots, variant, hd])
  | finished time d result task =>
    have hd : Descriptor.decoder r.holding d.toValue.tree = .ok d :=
      Descriptor.reads_back r.holding d (depth_le_of_mem hroom "descriptor" (by simp))
    have hr : OperationResult.decoder r.holding result.toValue.tree = .ok result :=
      OperationResult.reads_back r.holding result (depth_le_of_mem hroom "result" (by simp))
    cases task with
    | none => exact readsObjects.reads_back hroom (by simp [layout, Layout.slots, variant, hd, hr])
    | some x =>
      have hx : TaskExecution.decoder.optional r.holding x.toValue.tree = .ok (some x) :=
        optional_ok_some.mpr ⟨by simp [TaskExecution.toValue, Value.tree],
          TaskExecution.reads_back r.holding x (depth_le_of_mem hroom "task" (by simp))⟩
      exact readsObjects.reads_back hroom (by simp [layout, Layout.slots, variant, hd, hr, hx])

theorem Message.reads_back : ReadsBack decoder toValue := by
  intro r m hroom
  cases m with
  | event build e =>
    have he : Event.decoder r.holding e.toValue.tree = .ok e :=
      Event.reads_back r.holding e (depth_le_of_mem hroom "event" (by simp))
    exact readsObjects.reads_back hroom (by simp [layout, Layout.slots, variant, he])
  | endOfStream build reason =>
    exact readsObjects.reads_back hroom (by simp [layout, Layout.slots, variant])

/-! ### Subscriptions -/

/-- An array of names is read as the set of their types. -/
theorem SubscriptionSet.decoder_tree {r : Reading} (ts : List OperationType)
    (hroom : (Value.array (ts.map OperationType.toValue)).depth ≤ r.room) :
    decoder r (Value.array (ts.map OperationType.toValue)).tree = .ok (ofList ts) := by
  have hlist : (Decoder.list OperationType.decoder) r
      (Value.array (ts.map OperationType.toValue)).tree = .ok ts :=
    ReadsBack.list (fun r t _ => operationType_tree t) r ts hroom
  unfold decoder Decoder.map
  rw [hlist]
  rfl

theorem SubscriptionSet.reads_back : ReadsBack decoder toValue := by
  intro r s hroom
  have hread := decoder_tree s.toList hroom
  rw [ofList_toList] at hread
  exact hread

/-! ### Intermediate models -/

/-- Any value is read as its canonical form. -/
theorem opaqueValue_tree {r : Reading} {v : Value} (h : v.depth ≤ r.room) :
    Decoder.opaqueValue r v.tree = .ok v.canonical := by
  unfold Decoder.opaqueValue
  rw [if_pos ((v.isSound_tree _).mpr h), valueOf_tree]

theorem IntermediateModel.reads_back {r : Reading} {m : IntermediateModel}
    (hcanonical : m.payload.canonical = m.payload) (hroom : m.toValue.depth ≤ r.room) :
    decoder r m.toValue.tree = .ok m := by
  have hpayload : Decoder.opaqueValue r.inside m.payload.tree = .ok m.payload := by
    rw [opaqueValue_tree (depth_le_of_mem hroom "payload" (by simp)), hcanonical]
  exact Record.reads_back hroom (by simp [record, hpayload])

/-! ### Texts -/

theorem Location.fits (l : Location) : l.toValue.Fits 1 := by
  cases l <;> simp [toValue, Value.fits_ofOption]

theorem ProblemReport.fits_fields (p : ProblemReport) : ∀ f ∈ p.fields, f.2.Fits 2 := by
  have hlocations : ∀ l ∈ p.locations, l.toValue.Fits 1 := fun l _ => l.fits
  simpa [fields, Value.fits_ofOption, Severity.toValue] using hlocations

theorem TaskExecution.fits (t : TaskExecution) : t.toValue.Fits 1 := by
  simp [toValue]

theorem OperationResult.fits (o : OperationResult) : o.toValue.Fits 1 := by
  obtain ⟨startTime, endTime, conclusion⟩ := o
  cases conclusion <;> simp [toValue, timeFields, timeValue]

theorem Descriptor.fits (d : Descriptor) : d.toValue.Fits 3 := by
  rw [toValue, Value.fits_object]
  intro f hf
  rcases List.mem_cons.mp hf with rfl | hf
  · exact Value.fits_text _
  rcases List.mem_append.mp hf with hf | hf
  · rw [Identity.fields_eq] at hf
    have hid : ∀ id : OperationId, id.toValue.Fits 2 := fun id => Value.fits_nat _
    simp at hf
    rcases hf with rfl | rfl | rfl | rfl <;> simp [hid, Value.fits_ofOption]
  · cases hs : d.subject with
    | problem report =>
      rw [hs] at hf
      exact report.fits_fields f hf
    | _ =>
      rw [hs] at hf
      simp [Subject.fields] at hf
      rcases hf with rfl | rfl | rfl <;> simp [Value.fits_ofOption]

theorem Event.fits (e : Event) : e.toValue.Fits 4 := by
  cases e with
  | started time d => simp [toValue, timeValue, d.fits]
  | finished time d result task =>
    have hresult : result.toValue.Fits 3 := result.fits.mono (by decide)
    have htask : ∀ x : TaskExecution, x.toValue.Fits 3 := fun x => x.fits.mono (by decide)
    simp [toValue, timeValue, d.fits, hresult, htask]

theorem Message.fits (m : Message) : m.toValue.Fits 5 := by
  cases m with
  | event build e => simp [toValue, BuildId.toValue, e.fits]
  | endOfStream build reason => simp [toValue, BuildId.toValue, EndReason.toValue]

theorem OperationType.fits_array (ts : List OperationType) :
    (Value.array (ts.map toValue)).Fits 1 := by
  simp [toValue]

theorem SubscriptionSet.fits (s : SubscriptionSet) : s.toValue.Fits 1 :=
  OperationType.fits_array s.toList

namespace IntermediateModel

theorem fits {m : IntermediateModel} (h : m.payload.Fits 126) : m.toValue.Fits 127 := by
  simp [toValue, ListenerId.toValue, h]

/-- The payload of a model that was decoded stands in the document. -/
theorem payload_of_decoder {r : Reading} {t : Tree} {m : IntermediateModel} (ht : t.InRange)
    (h : decoder r t = .ok m) :
    ∃ u : Tree, u.InRange ∧ Decoder.opaqueValue r.inside u = .ok m.payload := by
  cases t with
  | scalar s => exact absurd h (by simp [decoder, Record.decoder])
  | absent => exact absurd h (by simp [decoder, Record.decoder])
  | array items closed =>
    obtain ⟨-, -, hread⟩ := Record.decoder_array_ok.mp h
    simp [record] at hread
    obtain ⟨payload, u, _, _, _, ⟨⟨_, rfl, -⟩, -⟩, hu, rfl⟩ := hread
    exact ⟨u, Tree.itemsInRange_iff.mp ht u (by simp), hu⟩
  | object fields closed =>
    obtain ⟨-, -, -, hread⟩ := Record.decoder_object_ok.mp h
    simp [record, FieldReads.required] at hread
    obtain ⟨_, -, _, -, payload, ⟨u, hvalues, hu⟩, rfl⟩ := hread
    have hmem : (some "payload", u) ∈ fields := mem_valuesOf.mp (by rw [hvalues]; simp)
    exact ⟨u, Tree.fieldsInRange_iff.mp ht _ hmem, hu⟩

/-- A model that was decoded is decoded from its encoding. -/
theorem staysDecoded {text : String} {m : IntermediateModel} (h : decode decoder text = .ok m) :
    decode decoder m.toValue.render = .ok m := by
  obtain ⟨u, hu, hpayload⟩ := payload_of_decoder (Document.inRange_read text) (decode_ok.mp h).1
  unfold Decoder.opaqueValue at hpayload
  split at hpayload
  · next hsound =>
    split at hpayload
    · next v hv =>
      have hm : v.canonical = m.payload := Except.ok.inj hpayload
      have hdepth : m.payload.depth ≤ 126 := by
        rw [← hm]
        exact v.depth_canonical_le.trans (depth_le_of_isSound hsound hv)
      have hin : m.payload.InRange := hm ▸ Value.inRange_canonical (inRange_valueOf hu hv)
      have hfits : m.toValue.Fits 127 := fits ⟨hin, hdepth⟩
      have hcanonical : m.payload.canonical = m.payload := by rw [← hm, Value.canonical_canonical]
      exact decode_render hfits.1 (reads_back hcanonical hfits.2)
    · exact absurd hpayload (by simp)
  · exact absurd hpayload (by simp)

end IntermediateModel

/-- Every value of the client format is decoded from the text that it is encoded
as: messages, and what they are made of, on their own, sets of subscriptions,
and intermediate models whose payload is in canonical form and fits into the
document. What was decoded from any text is decoded from its encoding again. -/
theorem client_format_round_trips :
    RoundTrips Message.decoder Message.toValue ∧ RoundTrips Event.decoder Event.toValue ∧
      RoundTrips Descriptor.decoder Descriptor.toValue ∧
      RoundTrips OperationResult.decoder OperationResult.toValue ∧
      RoundTrips Location.decoder Location.toValue ∧
      RoundTrips ProblemReport.decoder ProblemReport.toValue ∧
      RoundTrips SubscriptionSet.decoder SubscriptionSet.toValue ∧
      (∀ m : IntermediateModel, m.payload.canonical = m.payload → m.toValue.Fits 127 →
        decode IntermediateModel.decoder m.toValue.render = .ok m) ∧
      ∀ text m, decode IntermediateModel.decoder text = .ok m →
        decode IntermediateModel.decoder m.toValue.render = .ok m := by
  refine ⟨?_, ?_, ?_, ?_, ?_, ?_, ?_, ?_, fun _ _ h => IntermediateModel.staysDecoded h⟩
  · exact Message.reads_back.roundTrips fun m => m.fits.mono (by decide)
  · exact Event.reads_back.roundTrips fun e => e.fits.mono (by decide)
  · exact Descriptor.reads_back.roundTrips fun d => d.fits.mono (by decide)
  · exact OperationResult.reads_back.roundTrips fun o => o.fits.mono (by decide)
  · exact Location.reads_back.roundTrips fun l => l.fits.mono (by decide)
  · refine ProblemReport.reads_back.roundTrips fun p => ?_
    exact (Value.fits_object.mpr p.fits_fields).mono (by decide)
  · exact SubscriptionSet.reads_back.roundTrips fun s => s.fits.mono (by decide)
  · exact fun m hcanonical hfits =>
      decode_render hfits.1 (IntermediateModel.reads_back hcanonical hfits.2)

/-- A model with a payload of every kind. -/
theorem client_format_round_trips_of_model :
    ∃ m : IntermediateModel, m.payload.canonical = m.payload ∧ m.toValue.Fits 127 ∧
      m.payload = .object [("n", .array [.int (-1), .null, .bool true]), ("s", .text "\n")] ∧
      decode IntermediateModel.decoder m.toValue.render = .ok m := by
  let m : IntermediateModel :=
    ⟨⟨"a"⟩, 0, .object [("n", .array [.int (-1), .null, .bool true]), ("s", .text "\n")]⟩
  have hcanonical : m.payload.canonical = m.payload := by rfl
  have hint : (Value.int (-1)).Fits 0 := ⟨⟨by decide, by decide⟩, Nat.zero_le _⟩
  have hnull : Value.null.Fits 0 := ⟨trivial, Nat.zero_le _⟩
  have hpayload : m.payload.Fits 2 := by simp [m, hint, hnull]
  have hfits : m.toValue.Fits 127 := IntermediateModel.fits (hpayload.mono (by decide))
  exact ⟨m, hcanonical, hfits, rfl,
    client_format_round_trips.2.2.2.2.2.2.2.1 m hcanonical hfits⟩

end BuildFeed
