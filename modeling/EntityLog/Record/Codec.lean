import EntityLog.Record.Basic
import EntityLog.Json.Decode
/-!
# The JSON form of records

Each record part has one compact JSON text, with object keys in a fixed order and absent optional
values left out, and a decoder that accepts that text and the usual variations of JSON: blanks,
escapes, keys in any order, unknown keys (skipped), `null` for an absent optional value.

Entity references and change sets are checked after they are read, so a blank entity name or an
oversized change set is reported as a decoding error.
-/

namespace EntityLog.Record

open EntityLog.Json
open EntityLog.Time

/-! ## Writing -/

/-- A JSON object from members whose values are already JSON text; `none` members are left out. -/
def objectText (members : List (String × Option String)) : String :=
  let present := members.filterMap fun (k, v) => v.map fun t => quote k ++ ":" ++ t
  "\x7b" ++ ",".intercalate present ++ "\x7d"

/-- The JSON text of a record id. -/
def RecordId.encode (id : RecordId) : String := quote id.render

/-- The JSON text of an instant. -/
def encodeInstant (t : Instant) : String := quote t.render

/-- The JSON text of an operation. -/
def Operation.encode (op : Operation) : String := quote op.name

/-- The JSON text of an entity reference. -/
def EntityRef.encode (e : EntityRef) : String :=
  objectText [("name", some (quote e.name)), ("id", some (quote e.id))]

/-- The JSON text of a change kind. -/
def ChangeKind.encode (k : ChangeKind) : String := quote k.name

/-- The JSON text of a field change. -/
def FieldChange.encode (c : FieldChange) : String :=
  objectText [("old_value", c.old.map quote), ("new_value", c.new.map quote),
    ("kind", some c.kind.encode)]

/-- The JSON text of a change set. -/
def ChangeSet.encode (cs : ChangeSet) : String :=
  objectText (cs.entries.map fun (k, c) => (k, some c.encode))

/-- The JSON text of a submission context. -/
def SubmissionContext.encode (c : SubmissionContext) : String :=
  objectText [("thread_name", c.threadName.map quote), ("hostname", some (quote c.hostname)),
    ("submitted_at", some (encodeInstant c.submittedAt))]

/-- The JSON text of a record, on one line. -/
def ChangeRecord.encode (r : ChangeRecord) : String :=
  objectText [("id", some r.id.encode), ("entity", some r.entity.encode),
    ("operation", some r.operation.encode), ("changes", some r.changes.encode),
    ("created_at", some (encodeInstant r.createdAt)),
    ("context", r.context.map SubmissionContext.encode)]

/-- The JSON text of an optional submission context: `null` when absent. -/
def encodeContextOption : Option SubmissionContext → String
  | some c => c.encode
  | none => "null"

/-! ## Reading -/

/-- A record id, from any of its accepted forms. -/
def recordIdDecoder : Decoder RecordId :=
  Decoder.text "a formatted UUID string" fun s =>
    match RecordId.parse s with
    | .ok id => .ok id
    | .error f => .error ("UUID parsing failed: " ++ f.text)

/-- An instant, from an RFC 3339 text. -/
def instantDecoder : Decoder Instant :=
  Decoder.text "an RFC 3339 formatted date and time string" fun s =>
    match Instant.parse s with
    | .ok t => .ok t
    | .error f => .error f.text

/-- An operation, by its canonical name only. -/
def operationDecoder : Decoder Operation :=
  Decoder.variant (Operation.all.map fun op => (op.name, op))

/-- A change kind, by its name. -/
def changeKindDecoder : Decoder ChangeKind :=
  Decoder.variant (ChangeKind.all.map fun k => (k.name, k))

/-- An optional string, `null` meaning absent. -/
def optionalString : Decoder (Option String) := Decoder.option Decoder.string

/-- The fields of an entity reference as read, before the check. -/
structure EntityDraft where
  name : Option String := none
  id : Option String := none

/-- How an entity reference object is read. -/
def entityShape : Shape EntityDraft (String × String) where
  name := "struct RawEntityRef"
  fields := [
    { name := "name", read := fun d s => do return { d with name := some (← Decoder.string s) } },
    { name := "id", read := fun d s => do return { d with id := some (← Decoder.string s) } }]
  start := {}
  finish d := do return (← required "name" d.name, ← required "id" d.id)

/-- An entity reference; a blank name or id is refused after the object is read. -/
def entityDecoder : Decoder EntityRef :=
  Decoder.convert (Decoder.struct entityShape) fun (name, id) =>
    match EntityRef.make name id with
    | .ok e => .ok e
    | .error err => .error err.message

/-- The fields of a field change as read. -/
structure ChangeDraft where
  old : Option String := none
  new : Option String := none
  kind : Option ChangeKind := none

/-- How a field change object is read; both values may be absent. -/
def fieldChangeShape : Shape ChangeDraft FieldChange where
  name := "struct FieldChange"
  fields := [
    { name := "old_value", defaulted := true,
      read := fun d s => do return { d with old := ← optionalString s } },
    { name := "new_value", defaulted := true,
      read := fun d s => do return { d with new := ← optionalString s } },
    { name := "kind", read := fun d s => do return { d with kind := some (← changeKindDecoder s) } }]
  start := {}
  finish d := do return ⟨d.old, d.new, ← required "kind" d.kind⟩

/-- A field change. -/
def fieldChangeDecoder : Decoder FieldChange := Decoder.struct fieldChangeShape

/-- A change set: a map of field changes, sorted, the last of equal keys kept, then checked for
size. Changes are kept as given, significant or not. -/
def changeSetDecoder : Decoder ChangeSet :=
  Decoder.convert (Decoder.map "a map" fieldChangeDecoder) fun entries =>
    match ChangeSet.make (collectSorted entries) with
    | .ok cs => .ok cs
    | .error err => .error err.message

/-- The fields of a submission context as read. -/
structure ContextDraft where
  threadName : Option String := none
  hostname : Option String := none
  submittedAt : Option Instant := none

/-- How a submission context object is read. -/
def contextShape : Shape ContextDraft SubmissionContext where
  name := "struct SubmissionContext"
  fields := [
    { name := "thread_name", defaulted := true,
      read := fun d s => do return { d with threadName := ← optionalString s } },
    { name := "hostname",
      read := fun d s => do return { d with hostname := some (← Decoder.string s) } },
    { name := "submitted_at",
      read := fun d s => do return { d with submittedAt := some (← instantDecoder s) } }]
  start := {}
  finish d := do
    return ⟨d.threadName, ← required "hostname" d.hostname,
      ← required "submitted_at" d.submittedAt⟩

/-- A submission context. -/
def contextDecoder : Decoder SubmissionContext := Decoder.struct contextShape

/-- The fields of a record as read. -/
structure RecordDraft where
  id : Option RecordId := none
  entity : Option EntityRef := none
  operation : Option Operation := none
  changes : Option ChangeSet := none
  createdAt : Option Instant := none
  context : Option SubmissionContext := none

/-- How a record object is read. -/
def recordShape : Shape RecordDraft ChangeRecord where
  name := "struct Record"
  fields := [
    { name := "id", read := fun d s => do return { d with id := some (← recordIdDecoder s) } },
    { name := "entity", read := fun d s => do return { d with entity := some (← entityDecoder s) } },
    { name := "operation",
      read := fun d s => do return { d with operation := some (← operationDecoder s) } },
    { name := "changes",
      read := fun d s => do return { d with changes := some (← changeSetDecoder s) } },
    { name := "created_at",
      read := fun d s => do return { d with createdAt := some (← instantDecoder s) } },
    { name := "context", defaulted := true,
      read := fun d s => do return { d with context := ← Decoder.option contextDecoder s } }]
  start := {}
  finish d := do
    return ⟨← required "id" d.id, ← required "entity" d.entity, ← required "operation" d.operation,
      ← required "changes" d.changes, ← required "created_at" d.createdAt, d.context⟩

/-- A record. -/
def recordDecoder : Decoder ChangeRecord := Decoder.struct recordShape

/-- Reads a record from its JSON text. -/
def ChangeRecord.decode (text : String) : Except Json.Error ChangeRecord :=
  decodeText recordDecoder text.toUTF8

end EntityLog.Record
