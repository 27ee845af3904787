import EntityLog.Proofs.Json.Results
import EntityLog.Proofs.Record.Valid
import EntityLog.Record.Codec
import EntityLog.Log.Durable
/-!
# Records read back from their JSON text

The JSON text of a well-formed record decodes to the record (`ChangeRecord.decode_encode`): each
part is read back by its decoder wherever it stands in an object, ids and instants through their
text round trips, the change set through `collectSorted`, which leaves sorted entries alone.
The text has no control byte (`noControl_recordEncode`), so a record is one line of the log, and
the lines of records written one after another split back into the records' texts
(`DurableLog.splitLines_recordLines`).

Conversely, every record that decodes is well formed (`ChangeRecord.valid_of_decode`): the
readers of the record's fields keep the invariant that what they stored so far is well formed,
and the entity reference and change set are checked by their constructors after they are read.
The two halves meet at `ChangeRecord.Valid`, which the records the library builds have too.
-/

namespace EntityLog.Record

open EntityLog.Json
open EntityLog.Time
open Read

variable {s : Scope}

/-! ## Parts read back from their text -/

theorem recordIdDecoder_reads {id : RecordId} (hid : id.Valid) :
    ValueReads (recordIdDecoder s) id.encode id :=
  ValueReads.text (by rw [RecordId.parse_render hid])

theorem instantDecoder_reads {t : Instant} (ht : t.Valid) :
    ValueReads (instantDecoder s) (encodeInstant t) t :=
  ValueReads.text (by rw [Instant.parse_render ht])

theorem operationDecoder_reads (op : Operation) : ValueReads (operationDecoder s) op.encode op :=
  ValueReads.variant (by cases op <;> rfl)

theorem changeKindDecoder_reads (k : ChangeKind) : ValueReads (changeKindDecoder s) k.encode k :=
  ValueReads.variant (by cases k <;> rfl)

theorem optionalString_reads (x : String) : ValueReads (optionalString s) (quote x) (some x) :=
  ValueReads.option (Or.inl (textBytes_quote x)) ValueReads.string

/-- A well-formed entity reference is read back, and passes the check after reading. -/
theorem entityDecoder_reads {e : EntityRef} (he : e.Valid) (hdepth : 1 < s.depth) :
    ValueReads (entityDecoder s) e.encode e := by
  have hreads : entityShape.ReadsMembers (s.inner (s.depth - 1)) [] entityShape.start
      [("name", quote e.name), ("id", quote e.id)] ⟨some e.name, some e.id⟩ :=
    Shape.readsMembers_cons rfl rfl (ValueReads.bind_pure ValueReads.string) <|
      Shape.readsMembers_cons rfl rfl (ValueReads.bind_pure ValueReads.string) rfl
  refine ValueReads.convert (ValueReads.struct hdepth hreads rfl) ?_
  simp [EntityRef.make, he.name_nonblank, he.id_nonblank]

/-- Every field change is read back, whichever of its sides are written. -/
theorem fieldChangeDecoder_reads (c : FieldChange) (hdepth : 1 < s.depth) :
    ValueReads (fieldChangeDecoder s) c.encode c := by
  obtain ⟨old, new, kind⟩ := c
  have hkind := ValueReads.bind_pure (f := fun k => ({ old, new, kind := some k } : ChangeDraft))
    (changeKindDecoder_reads (s := s.inner (s.depth - 1)) kind)
  have hreads : fieldChangeShape.ReadsMembers (s.inner (s.depth - 1)) [] fieldChangeShape.start
      (presentMembers [("old_value", old.map quote), ("new_value", new.map quote),
        ("kind", some kind.encode)]) ⟨old, new, some kind⟩ := by
    -- An absent side is not written, and the draft keeps its default `none` for it.
    rcases old with _ | x <;> rcases new with _ | y
    · exact Shape.readsMembers_cons rfl rfl hkind rfl
    · exact Shape.readsMembers_cons rfl rfl (ValueReads.bind_pure (optionalString_reads y)) <|
        Shape.readsMembers_cons rfl rfl hkind rfl
    · exact Shape.readsMembers_cons rfl rfl (ValueReads.bind_pure (optionalString_reads x)) <|
        Shape.readsMembers_cons rfl rfl hkind rfl
    · exact Shape.readsMembers_cons rfl rfl (ValueReads.bind_pure (optionalString_reads x)) <|
        Shape.readsMembers_cons rfl rfl (ValueReads.bind_pure (optionalString_reads y)) <|
        Shape.readsMembers_cons rfl rfl hkind rfl
  exact ValueReads.struct hdepth hreads rfl

/-- A well-formed change set is read back: its entries are already collected. -/
theorem changeSetDecoder_reads {cs : ChangeSet} (hcs : cs.Valid) (hdepth : 2 < s.depth) :
    ValueReads (changeSetDecoder s) cs.encode cs := by
  have hmembers : ∀ entries : List (String × FieldChange),
      Read.MembersRead (fun _ => fieldChangeDecoder (s.inner (s.depth - 1)))
        (presentMembers (entries.map fun e => (e.1, some e.2.encode))) entries := by
    intro entries
    induction entries with
    | nil => exact List.Forall₂.nil
    | cons e rest ih =>
      exact List.Forall₂.cons ⟨rfl, fieldChangeDecoder_reads e.2 (by simp [Scope.inner]; omega)⟩ ih
  refine ValueReads.convert (ValueReads.map (by omega) (hmembers cs.entries)) ?_
  have hsize : ¬cs.entries.length > maxChanges := Nat.not_lt.2 hcs.size_le
  simp only [collectSorted_of_keysSorted hcs.sorted, ChangeSet.make, if_neg hsize]

theorem contextDecoder_reads {c : SubmissionContext} (hc : c.Valid) (hdepth : 1 < s.depth) :
    ValueReads (contextDecoder s) c.encode c := by
  obtain ⟨thread, host, submittedAt⟩ := c
  have hreads : contextShape.ReadsMembers (s.inner (s.depth - 1)) [] contextShape.start
      (presentMembers [("thread_name", thread.map quote), ("hostname", some (quote host)),
        ("submitted_at", some (encodeInstant submittedAt))])
      ⟨thread, some host, some submittedAt⟩ := by
    rcases thread with _ | x
    · exact Shape.readsMembers_cons rfl rfl (ValueReads.bind_pure ValueReads.string) <|
        Shape.readsMembers_cons rfl rfl (ValueReads.bind_pure (instantDecoder_reads hc)) rfl
    · exact Shape.readsMembers_cons rfl rfl (ValueReads.bind_pure (optionalString_reads x)) <|
        Shape.readsMembers_cons rfl rfl (ValueReads.bind_pure ValueReads.string) <|
        Shape.readsMembers_cons rfl rfl (ValueReads.bind_pure (instantDecoder_reads hc)) rfl
  exact ValueReads.struct hdepth hreads rfl

/-- A well-formed record decodes from its JSON text. -/
theorem ChangeRecord.decode_encode {r : ChangeRecord} (hr : r.Valid) :
    ChangeRecord.decode r.encode = .ok r := by
  obtain ⟨id, entity, op, changes, createdAt, context⟩ := r
  -- The record's members are read one level below the top, its change set's members two.
  have hinner : 1 < (({ depth := depthLimit } : Scope).inner (depthLimit - 1)).depth := by decide
  have hreads : recordShape.ReadsMembers (({ depth := depthLimit } : Scope).inner (depthLimit - 1))
      [] recordShape.start
      (presentMembers [("id", some id.encode), ("entity", some entity.encode),
        ("operation", some op.encode), ("changes", some changes.encode),
        ("created_at", some (encodeInstant createdAt)),
        ("context", context.map SubmissionContext.encode)])
      ⟨some id, some entity, some op, some changes, some createdAt, context⟩ := by
    have hid := ValueReads.bind_pure (f := fun x => ({ id := some x } : RecordDraft))
      (recordIdDecoder_reads (s := ({ depth := depthLimit } : Scope).inner (depthLimit - 1)) hr.id)
    rcases context with _ | c
    · exact Shape.readsMembers_cons rfl rfl hid <|
        Shape.readsMembers_cons rfl rfl
          (ValueReads.bind_pure (entityDecoder_reads hr.entity hinner)) <|
        Shape.readsMembers_cons rfl rfl (ValueReads.bind_pure (operationDecoder_reads op)) <|
        Shape.readsMembers_cons rfl rfl
          (ValueReads.bind_pure (changeSetDecoder_reads hr.changes (by decide))) <|
        Shape.readsMembers_cons rfl rfl
          (ValueReads.bind_pure (instantDecoder_reads hr.createdAt)) rfl
    · obtain ⟨rest, hrest⟩ : ∃ rest, textBytes c.encode = 123 :: rest := textBytes_objectText_head _
      have hcontext := ValueReads.option (Or.inr hrest)
        (contextDecoder_reads (hr.context c rfl) hinner)
      exact Shape.readsMembers_cons rfl rfl hid <|
        Shape.readsMembers_cons rfl rfl
          (ValueReads.bind_pure (entityDecoder_reads hr.entity hinner)) <|
        Shape.readsMembers_cons rfl rfl (ValueReads.bind_pure (operationDecoder_reads op)) <|
        Shape.readsMembers_cons rfl rfl
          (ValueReads.bind_pure (changeSetDecoder_reads hr.changes (by decide))) <|
        Shape.readsMembers_cons rfl rfl
          (ValueReads.bind_pure (instantDecoder_reads hr.createdAt)) <|
        Shape.readsMembers_cons rfl rfl (ValueReads.bind_pure hcontext) rfl
  have hruns := Read.Runs.struct (by decide) hreads rfl (spells_whole _)
  refine runText_of_runs (hruns.cast_index ?_)
  simp [textBytes]
  rfl

/-! ## One line of text -/

/-- No byte of the text is a control byte, a line feed or a carriage return among them. -/
def NoControl (t : String) : Prop := ∀ b ∈ textBytes t, 32 ≤ b.toNat

@[simp] theorem noControl_quote (x : String) : NoControl (quote x) := by
  intro b hb
  rw [textBytes_quote] at hb
  simp only [List.cons_append, List.mem_cons, List.mem_append, List.mem_flatMap,
    List.not_mem_nil, or_false] at hb
  rcases hb with rfl | ⟨c, -, hc⟩ | rfl
  · decide
  · exact le_of_mem_escapeBytes c hc
  · decide

theorem mem_bodyBytes {b : UInt8} {ms : List (String × String)} (hb : b ∈ bodyBytes ms) :
    b = 125 ∨ b = 44 ∨ ∃ m ∈ ms, b ∈ memberBytes m := by
  cases ms with
  | nil => simp_all [bodyBytes]
  | cons m rest =>
    simp only [bodyBytes, laterBytes, List.mem_append, List.mem_flatMap, List.mem_cons,
      List.not_mem_nil, or_false] at hb
    rcases hb with (hb | ⟨m', hm', rfl | hb⟩) | rfl
    · exact Or.inr (Or.inr ⟨m, List.mem_cons_self, hb⟩)
    · exact Or.inr (Or.inl rfl)
    · exact Or.inr (Or.inr ⟨m', List.mem_cons_of_mem _ hm', hb⟩)
    · exact Or.inl rfl

/-- An object has no control byte when its values have none: its other bytes are braces,
commas, colons and quoted keys. -/
theorem noControl_objectText {members : List (String × Option String)}
    (h : ∀ m ∈ members, ∀ t ∈ m.2, NoControl t) : NoControl (objectText members) := by
  intro b hb
  rw [textBytes_objectText, List.mem_cons] at hb
  rcases hb with rfl | hb
  · decide
  rcases mem_bodyBytes hb with rfl | rfl | ⟨m, hm, hb⟩
  · decide
  · decide
  obtain ⟨m0, hm0, hmap⟩ := List.mem_filterMap.1 hm
  obtain ⟨t, ht, rfl⟩ := Option.map_eq_some_iff.1 hmap
  simp only [memberBytes, List.mem_append, List.mem_cons] at hb
  rcases hb with hb | rfl | hb
  · exact noControl_quote _ b hb
  · decide
  · exact h m0 hm0 t ht b hb

@[simp] theorem noControl_entityEncode (e : EntityRef) : NoControl e.encode :=
  noControl_objectText (by simp [Option.mem_def])

@[simp] theorem noControl_fieldChangeEncode (c : FieldChange) : NoControl c.encode :=
  noControl_objectText (by simp [Option.mem_def, ChangeKind.encode])

@[simp] theorem noControl_changeSetEncode (cs : ChangeSet) : NoControl cs.encode := by
  refine noControl_objectText ?_
  simp only [List.mem_map, Option.mem_def, forall_exists_index, and_imp]
  intro _ e _ hm t ht
  subst hm
  cases ht
  exact noControl_fieldChangeEncode e.2

@[simp] theorem noControl_contextEncode (c : SubmissionContext) : NoControl c.encode :=
  noControl_objectText (by simp [Option.mem_def, encodeInstant])

theorem noControl_recordEncode (r : ChangeRecord) : NoControl r.encode :=
  noControl_objectText (by simp [Option.mem_def, RecordId.encode, encodeInstant, Operation.encode])

/-! ## Decoded records are well formed -/

theorem recordIdDecoder_yields : Yields (recordIdDecoder s) RecordId.Valid := by
  refine Decoder.yields_text fun t id h => ?_
  split at h
  · cases h
    exact RecordId.valid_of_parse ‹_›
  · contradiction

theorem instantDecoder_yields : Yields (instantDecoder s) Instant.Valid := by
  refine Decoder.yields_text fun t id h => ?_
  split at h
  · cases h
    exact Instant.valid_of_parse ‹_›
  · contradiction

theorem entityDecoder_yields : Yields (entityDecoder s) EntityRef.Valid := by
  refine Decoder.yields_convert ?_
  rintro ⟨name, id⟩ e h
  dsimp only at h
  split at h
  · cases h
    exact EntityRef.valid_of_make ‹_›
  · contradiction

theorem changeSetDecoder_yields : Yields (changeSetDecoder s) ChangeSet.Valid := by
  refine Decoder.yields_convert fun _ cs h => ?_
  split at h
  · cases h
    exact ChangeSet.valid_of_make_collectSorted ‹_›
  · contradiction

/-- The instant of a submission context as read so far is of the calendar. -/
def ContextDraft.Valid (d : ContextDraft) : Prop := ∀ t ∈ d.submittedAt, t.Valid

theorem contextDecoder_yields : Yields (contextDecoder s) SubmissionContext.Valid := by
  refine Decoder.yields_struct (I := ContextDraft.Valid)
    (by simp [ContextDraft.Valid, contextShape]) ?_ ?_
  · intro f hf st s hst
    simp only [contextShape, List.mem_cons, List.not_mem_nil, or_false] at hf
    rcases hf with rfl | rfl | rfl
    · exact Yields.any.bind fun _ _ => Yields.pure hst
    · exact Yields.any.bind fun _ _ => Yields.pure hst
    · exact instantDecoder_yields.bind fun t ht =>
        Yields.pure (by simpa [ContextDraft.Valid] using ht)
  · intro st c hst h
    simp only [contextShape] at h
    obtain ⟨host, -, h⟩ := except_bind_eq_ok.1 h
    obtain ⟨t, ht, h⟩ := except_bind_eq_ok.1 h
    cases h
    exact hst t (required_eq_ok.1 ht)

/-- The fields of a record as read so far are well formed. -/
structure RecordDraft.Valid (d : RecordDraft) : Prop where
  id : ∀ x ∈ d.id, x.Valid
  entity : ∀ e ∈ d.entity, e.Valid
  changes : ∀ cs ∈ d.changes, cs.Valid
  createdAt : ∀ t ∈ d.createdAt, t.Valid
  context : ∀ c ∈ d.context, c.Valid

theorem recordDecoder_yields : Yields (recordDecoder s) ChangeRecord.Valid := by
  refine Decoder.yields_struct (I := RecordDraft.Valid) ?_ ?_ ?_
  · exact ⟨by simp [recordShape], by simp [recordShape], by simp [recordShape],
      by simp [recordShape], by simp [recordShape]⟩
  · intro f hf st s hst
    simp only [recordShape, List.mem_cons, List.not_mem_nil, or_false] at hf
    rcases hf with rfl | rfl | rfl | rfl | rfl | rfl
    · exact recordIdDecoder_yields.bind fun _ hid =>
        Yields.pure { hst with id := by simpa using hid }
    · exact entityDecoder_yields.bind fun _ he =>
        Yields.pure { hst with entity := by simpa using he }
    · exact Yields.any.bind fun _ _ =>
        Yields.pure ⟨hst.id, hst.entity, hst.changes, hst.createdAt, hst.context⟩
    · exact changeSetDecoder_yields.bind fun _ hcs =>
        Yields.pure { hst with changes := by simpa using hcs }
    · exact instantDecoder_yields.bind fun _ ht =>
        Yields.pure { hst with createdAt := by simpa using ht }
    · exact (Decoder.yields_option contextDecoder_yields).bind fun _ hc =>
        Yields.pure { hst with context := hc }
  · -- The record is finished only when every required field was read.
    intro st r hst h
    simp only [recordShape] at h
    obtain ⟨id, hid, h⟩ := except_bind_eq_ok.1 h
    obtain ⟨entity, hentity, h⟩ := except_bind_eq_ok.1 h
    obtain ⟨op, -, h⟩ := except_bind_eq_ok.1 h
    obtain ⟨changes, hchanges, h⟩ := except_bind_eq_ok.1 h
    obtain ⟨createdAt, hcreatedAt, h⟩ := except_bind_eq_ok.1 h
    cases h
    exact ⟨hst.id id (required_eq_ok.1 hid), hst.entity entity (required_eq_ok.1 hentity),
      hst.changes changes (required_eq_ok.1 hchanges),
      hst.createdAt createdAt (required_eq_ok.1 hcreatedAt), hst.context⟩

/-- Decoded records are well formed. -/
theorem ChangeRecord.valid_of_decode {text : String} {r : ChangeRecord}
    (h : ChangeRecord.decode text = .ok r) : r.Valid :=
  recordDecoder_yields.runText h

end EntityLog.Record

/-! ## Records as lines of the log -/

namespace EntityLog.Log.DurableLog

open EntityLog.Json
open EntityLog.Record

theorem flatMap_lines_eq_intercalate (lines : List (List UInt8)) :
    lines.flatMap (· ++ [10]) = [10].intercalate (lines ++ [[]]) := by
  induction lines with
  | nil => rfl
  | cons l rest ih =>
    rw [List.flatMap_cons, ih, List.cons_append]
    cases hrest : rest ++ [[]] with
    | nil => simp at hrest
    | cons l' rest' => simp [List.intercalate_cons_cons, List.append_assoc]

theorem getLast?_flatMap_lines (first : List UInt8) (rest : List (List UInt8)) :
    ((first :: rest).flatMap (· ++ [10])).getLast? = some 10 := by
  induction rest generalizing first with
  | nil => simp
  | cons l rest ih =>
    rw [List.flatMap_cons, List.getLast?_append, ih l]
    rfl

theorem dropReturn_of_getLast? {l : List UInt8} (h : l.getLast? ≠ some 13) : dropReturn l = l := by
  simp [dropReturn, h]

/-- Lines without a line feed, and without a carriage return at their end, each ended by a line
feed, are split back into those lines. -/
theorem splitLines_flatMap {lines : List (List UInt8)} (hfeed : ∀ l ∈ lines, 10 ∉ l)
    (hreturn : ∀ l ∈ lines, l.getLast? ≠ some 13) :
    splitLines (lines.flatMap (· ++ [10])) = lines := by
  cases lines with
  | nil => rfl
  | cons first rest =>
    have hpieces :
        (List.flatMap (· ++ [10]) (first :: rest)).splitOn 10 = first :: rest ++ [[]] := by
      rw [flatMap_lines_eq_intercalate]
      refine List.splitOn_intercalate 10 ?_ (by simp)
      intro l hl
      rcases List.mem_append.1 hl with hl | hl
      · exact hfeed l hl
      · simp at hl
        simp [hl]
    have hnonempty : (List.flatMap (· ++ [10]) (first :: rest)).isEmpty = false := by simp
    unfold splitLines
    simp only [hpieces, getLast?_flatMap_lines, hnonempty, beq_self_eq_true, if_true,
      Bool.false_eq_true, if_false, List.dropLast_concat]
    conv_rhs => rw [← List.map_id (first :: rest)]
    exact List.map_congr_left fun l hl => dropReturn_of_getLast? (hreturn l hl)

theorem textBytes_line (t : String) : textBytes (t ++ "\n") = textBytes t ++ [10] := by
  rw [textBytes_append]
  rfl

/-- The lines of records written one after another are the records' texts. -/
theorem splitLines_recordLines (rs : List ChangeRecord) :
    splitLines (rs.flatMap fun r => textBytes (r.encode ++ "\n")) =
      rs.map fun r => textBytes r.encode := by
  have hlines : (rs.flatMap fun r => textBytes (r.encode ++ "\n")) =
      (rs.map fun r => textBytes r.encode).flatMap (· ++ [10]) := by
    simp only [textBytes_line, List.flatMap_map]
  rw [hlines]
  refine splitLines_flatMap ?_ ?_
  · intro l hl hfeed
    obtain ⟨r, -, rfl⟩ := List.mem_map.1 hl
    exact absurd (noControl_recordEncode r 10 hfeed) (by decide)
  · intro l hl hreturn
    obtain ⟨r, -, rfl⟩ := List.mem_map.1 hl
    exact absurd (noControl_recordEncode r 13 (List.mem_of_getLast? hreturn)) (by decide)

/-- The texts of well-formed records decode, line by line, to the records. -/
theorem decodeLines_recordTexts {rs : List ChangeRecord} (h : ∀ r ∈ rs, r.Valid) :
    decodeLines (rs.map fun r => textBytes r.encode) = .ok rs := by
  induction rs with
  | nil => rfl
  | cons r rest ih =>
    have hbytes : ByteArray.mk (textBytes r.encode).toArray = r.encode.toByteArray := by
      simp [textBytes]
    obtain ⟨tail, htail⟩ : ∃ tail, textBytes r.encode = 123 :: tail := textBytes_objectText_head _
    have hdecode : decodeText recordDecoder r.encode.toByteArray = .ok r :=
      ChangeRecord.decode_encode (h r List.mem_cons_self)
    have hnonempty : (textBytes r.encode).isEmpty = false := by
      rw [htail]
      rfl
    rw [List.map_cons, decodeLines, hnonempty]
    dsimp only
    rw [hbytes, fromUTF8?_toByteArray, hdecode,
      ih fun r' hr' => h r' (List.mem_cons_of_mem _ hr')]
    rfl

end EntityLog.Log.DurableLog

namespace EntityLog.Record

open EntityLog.Json

/-- The JSON text of every record that the library builds or that decodes is one line, which the
log's line splitter gives back intact, and it decodes to the record. Decoding accepts only
records with the invariants that the constructors keep: entity name and id not blank, at most
`maxChanges` changes, one per field. -/
theorem ChangeRecord.encoding_roundTrip :
    (∀ r : ChangeRecord, (r.Built ∨ ∃ text, ChangeRecord.decode text = .ok r) →
      ChangeRecord.decode r.encode = .ok r ∧ (∀ b ∈ textBytes r.encode, b ≠ 10 ∧ b ≠ 13) ∧
        Log.DurableLog.splitLines (textBytes (r.encode ++ "\n")) = [textBytes r.encode]) ∧
    (∀ text r, ChangeRecord.decode text = .ok r → r.Valid) ∧
    ∀ r : ChangeRecord, r.Built → r.Valid := by
  refine ⟨fun r hr => ?_, fun _ _ h => ChangeRecord.valid_of_decode h, fun _ h => h.valid⟩
  have hvalid : r.Valid := by
    rcases hr with hbuilt | ⟨text, htext⟩
    · exact hbuilt.valid
    · exact ChangeRecord.valid_of_decode htext
  have hline := Log.DurableLog.splitLines_recordLines [r]
  simp only [List.flatMap_cons, List.flatMap_nil, List.append_nil, List.map_cons,
    List.map_nil] at hline
  refine ⟨ChangeRecord.decode_encode hvalid, fun b hb => ?_, hline⟩
  have hcontrol := noControl_recordEncode r b hb
  constructor <;> rintro rfl <;> exact absurd hcontrol (by decide)

end EntityLog.Record
