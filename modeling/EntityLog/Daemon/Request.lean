import EntityLog.Record.Codec
/-!
# Change requests

Producers submit one change per line as a JSON object with the entity type, the entity id, an
operation alias and, optionally, a map from field names to old and new values. Any JSON value may
stand for an id or a value: a string stands for itself, anything else for its compact JSON text,
and `null` for an absent value. Unknown keys are refused, at both levels.

A request becomes record parts in a fixed order of checks: the operation alias first, then the
entity name and id, then the change set.
-/

namespace EntityLog.Daemon

open EntityLog.Json
open EntityLog.Record

/-- The old and new value of one field in a request. -/
structure FieldValues where
  old : Option Value := none
  new : Option Value := none

/-- How the values of one field are read. -/
def fieldValuesShape : Shape FieldValues FieldValues where
  name := "struct FieldValues"
  fields := [
    { name := "old", defaulted := true,
      read := fun d s => do return { d with old := ← Decoder.option Decoder.value s } },
    { name := "new", defaulted := true,
      read := fun d s => do return { d with new := ← Decoder.option Decoder.value s } }]
  denyUnknown := true
  start := {}
  finish d := .ok d

/-- One change as a producer submits it. -/
structure ChangeRequest where
  entity : String
  entityId : Value
  operation : String
  changes : List (String × FieldValues)

/-- The fields of a request as read. -/
structure RequestDraft where
  entity : Option String := none
  entityId : Option Value := none
  operation : Option String := none
  changes : List (String × FieldValues) := []

/-- How a request object is read. -/
def requestShape : Shape RequestDraft ChangeRequest where
  name := "struct ChangeRequest"
  fields := [
    { name := "entity", read := fun d s => do return { d with entity := some (← Decoder.string s) } },
    { name := "entity_id", read := fun d s => do return { d with entityId := some (← Decoder.value s) } },
    { name := "operation",
      read := fun d s => do return { d with operation := some (← Decoder.string s) } },
    { name := "changes", defaulted := true,
      read := fun d s => do
        let entries ← Decoder.map "a map" (Decoder.struct fieldValuesShape) s
        return { d with changes := collectSorted entries } }]
  denyUnknown := true
  start := {}
  finish d := do
    return ⟨← required "entity" d.entity, ← required "entity_id" d.entityId,
      ← required "operation" d.operation, d.changes⟩

/-- The text a JSON value stands for: a string itself, anything else its compact JSON. -/
def valueText : Value → String
  | .string s => s
  | v => v.render

/-- An optional value's text, `null` counting as absent. -/
def optionalText : Option Value → Option String
  | none => none
  | some .null => none
  | some v => some (valueText v)

/-- What is wrong with a request line. -/
inductive InputError where
  | json (e : Json.Error)
  | record (e : RecordError)

/-- The message of an input error. -/
def InputError.message : InputError → String
  | .json e => "malformed request: " ++ e.message
  | .record e => "invalid request: " ++ e.message

/-- The parts of a record that a request fixes; id, time and context are added when it is
logged. -/
structure RecordParts where
  entity : EntityRef
  operation : Operation
  changes : ChangeSet

/-- Checks a request: operation, then entity, then changes. -/
def ChangeRequest.toParts (r : ChangeRequest) : Except RecordError RecordParts := do
  let op ← Operation.parse r.operation
  let entity ← EntityRef.make r.entity (valueText r.entityId)
  let changes ← ChangeSet.fromPairs
    (r.changes.map fun (field, v) => (field, optionalText v.old, optionalText v.new))
  return ⟨entity, op, changes⟩

/-- Reads one input line: `none` for a blank line, else the record parts it asks for. -/
def parseLine (line : String) : Except InputError (Option RecordParts) :=
  let text := Text.trimBlank line
  if text.isEmpty then .ok none
  else
    match decodeText (Decoder.struct requestShape) text.toUTF8 with
    | .error e => .error (.json e)
    | .ok req =>
      match req.toParts with
      | .ok parts => .ok (some parts)
      | .error e => .error (.record e)

/-- The record made from request parts with its id, time and context. -/
def RecordParts.toRecord (p : RecordParts) (id : RecordId) (now : Time.Instant)
    (context : SubmissionContext) : ChangeRecord :=
  ⟨id, p.entity, p.operation, p.changes, now, some context⟩

end EntityLog.Daemon
