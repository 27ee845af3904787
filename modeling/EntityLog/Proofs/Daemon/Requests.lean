import EntityLog.Daemon.Request
import EntityLog.Proofs.Json.Results
import EntityLog.Proofs.Record.ChangeSets
/-!
# What a request line reads as

A request line is read in three stages: a line blank after trimming asks for nothing; otherwise
its trimmed text is decoded as a request, a decoding failure being a JSON error; and a decoded
request is checked in a fixed order, the operation alias first, then the entity name, then the
entity id as text, then the number of fields whose old and new values read as different texts.
`ChangeRequest.asSpecified` states the checks that way, with the change set written out as the
fields whose sides differ, each mapped to the change of its two sides, and `parseLine` agrees
with it on every line (`parseLine_matchesReference`).

The change set needs no collecting because a decoded request already holds its fields sorted,
each once (`decodeRequest_sorted`): the decoder collects the map of changes as it reads it.
-/

namespace EntityLog.Daemon

open EntityLog.Json EntityLog.Record

/-- A decoded request's field changes are sorted by field, each field once. -/
theorem requestShape_sorted (s : Scope) :
    Read.Yields (Decoder.struct requestShape s) fun req => KeysSorted req.changes := by
  refine Decoder.yields_struct (I := fun d => KeysSorted d.changes) (by exact List.Pairwise.nil)
    ?_ ?_
  · -- only the `changes` field sets the changes, and it collects them sorted
    intro f hf st s hst
    simp only [requestShape, List.mem_cons, List.not_mem_nil, or_false] at hf
    rcases hf with rfl | rfl | rfl | rfl
    · exact Read.Yields.any.bind fun _ _ => Read.Yields.pure hst
    · exact Read.Yields.any.bind fun _ _ => Read.Yields.pure hst
    · exact Read.Yields.any.bind fun _ _ => Read.Yields.pure hst
    · exact Read.Yields.any.bind fun entries _ =>
        Read.Yields.pure (keysSorted_collectSorted entries)
  · intro st req hst hfinish
    simp only [requestShape, bind, Except.bind] at hfinish
    split at hfinish
    · cases hfinish
    · split at hfinish
      · cases hfinish
      · split at hfinish
        · cases hfinish
        · cases hfinish
          exact hst

theorem decodeRequest_sorted {input : ByteArray} {req : ChangeRequest}
    (h : decodeText (Decoder.struct requestShape) input = .ok req) : KeysSorted req.changes :=
  (requestShape_sorted _).runText h

/-- The parts a decoded request asks for, checked as the request format specifies: an unknown
operation alias is refused with the alias as given, then a blank entity name, then an entity id
whose text is blank; then the fields whose old and new values read as different texts (absent
and `null` alike) are counted, more than `maxChanges` of them refused, and otherwise each of them
is mapped to the change of its two sides, in field order. -/
def ChangeRequest.asSpecified (req : ChangeRequest) : Except RecordError RecordParts :=
  match Operation.ofAlias req.operation with
  | none => .error (.unknownOperation req.operation)
  | some op =>
    if isBlankText req.entity then .error (.blankEntity .name)
    else if isBlankText (valueText req.entityId) then .error (.blankEntity .id)
    else
      let changed := req.changes.filter fun e => optionalText e.2.old != optionalText e.2.new
      if maxChanges < changed.length then .error (.tooManyChanges changed.length)
      else .ok ⟨⟨req.entity, valueText req.entityId⟩, op, ⟨changed.map fun e =>
        (e.1, FieldChange.ofSides (optionalText e.2.old) (optionalText e.2.new))⟩⟩

/-- The triples of a request's changes: each field with the texts of its two sides. -/
theorem changeTriples_filter (changes : List (String × FieldValues)) :
    ((changes.map fun (field, v) => (field, optionalText v.old, optionalText v.new)).filter
        fun t => t.2.1 != t.2.2).map ChangeSet.entryOf =
      (changes.filter fun e => optionalText e.2.old != optionalText e.2.new).map fun e =>
        (e.1, FieldChange.ofSides (optionalText e.2.old) (optionalText e.2.new)) := by
  rw [List.filter_map, List.map_map]
  rfl

/-- Checking a request with sorted changes is checking it as specified. -/
theorem toParts_eq_asSpecified {req : ChangeRequest} (hsorted : KeysSorted req.changes) :
    req.toParts = req.asSpecified := by
  have htriples : ((req.changes.map fun (field, v) =>
      (field, optionalText v.old, optionalText v.new)).map (·.1)).Pairwise (· < ·) := by
    rw [List.map_map]
    exact hsorted
  unfold ChangeRequest.toParts ChangeRequest.asSpecified Operation.parse
  cases hop : Operation.ofAlias req.operation with
  | none => rfl
  | some op =>
    simp only [bind, Except.bind, EntityRef.make]
    -- the entity checks come in the same order on both sides
    by_cases hname : isBlankText req.entity
    · simp [hname]
    · by_cases hid : isBlankText (valueText req.entityId)
      · simp [hname, hid]
      · simp only [hname, hid, Bool.false_eq_true, if_false]
        rw [ChangeSet.fromPairs_of_sorted htriples, changeTriples_filter]
        unfold ChangeSet.make
        rw [List.length_map]
        by_cases hmany : maxChanges < (req.changes.filter fun e =>
            optionalText e.2.old != optionalText e.2.new).length
        · simp only [gt_iff_lt, hmany, if_true]
        · simp only [gt_iff_lt, hmany, if_false]
          rfl

/-- A request line is read as specified: blank after trimming, it asks for nothing; otherwise its
trimmed text is decoded as a request, a failure being a JSON error, and the decoded request is
checked as `ChangeRequest.asSpecified` says. -/
theorem parseLine_matchesReference (line : String) :
    parseLine line =
      if (Text.trimBlank line).isEmpty then .ok none
      else match decodeText (Decoder.struct requestShape) (Text.trimBlank line).toUTF8 with
        | .error e => .error (.json e)
        | .ok req =>
          match req.asSpecified with
          | .ok parts => .ok (some parts)
          | .error e => .error (.record e) := by
  unfold parseLine
  dsimp only
  by_cases hblank : (Text.trimBlank line).isEmpty
  · simp [hblank]
  · simp only [hblank, Bool.false_eq_true, if_false]
    cases hdecode : decodeText (Decoder.struct requestShape) (Text.trimBlank line).toUTF8 with
    | error e => rfl
    | ok req =>
      -- the decoded request's changes are sorted, so its check is the specified one
      have hspec := toParts_eq_asSpecified (decodeRequest_sorted hdecode)
      cases hparts : req.asSpecified <;> simp only [hspec, hparts]

end EntityLog.Daemon
