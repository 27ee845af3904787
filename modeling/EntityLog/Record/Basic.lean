import EntityLog.Text.Blank
import EntityLog.Time.Instant
import EntityLog.Record.Uuid
/-!
# Change records

A record says that an operation happened to one entity: which fields changed from what to what,
when the record was made, and optionally where it was submitted from.

The parts keep their rules in their constructors: an entity reference has a name and an id that
are not blank; an operation is named by one of its aliases, in any ASCII case and with blanks
around it; a field change takes its kind from which of its two sides are present; a change set
holds only significant changes, sorted by field name, at most `maxChanges` of them, a later change
of a field replacing an earlier one.
-/

namespace EntityLog.Record

open EntityLog.Text
open EntityLog.Time

/-- The most field changes one record may carry. -/
def maxChanges : Nat := 100

/-- Which part of an entity reference is blank. -/
inductive EntityPart where
  | name | id
  deriving Repr, BEq, DecidableEq

/-- Why a record part could not be built. -/
inductive RecordError where
  | tooManyChanges (count : Nat)
  | unknownOperation (text : String)
  | blankEntity (part : EntityPart)
  deriving Repr, BEq

/-- The message of a record error. -/
def RecordError.message : RecordError → String
  | .tooManyChanges n => "too many field changes: " ++ toString n ++ " (max " ++
      toString maxChanges ++ ")"
  | .unknownOperation s => "unknown operation: " ++ s
  | .blankEntity .name => "entity name must not be blank"
  | .blankEntity .id => "entity id must not be blank"

/-- What a record describes happening to its entity. -/
inductive Operation where
  | create | update | delete
  deriving Repr, BEq, DecidableEq

/-- The canonical upper-case name. -/
def Operation.name : Operation → String
  | .create => "CREATE"
  | .update => "UPDATE"
  | .delete => "DELETE"

/-- All operations, in declaration order. -/
def Operation.all : List Operation := [.create, .update, .delete]

/-- The aliases of each operation, upper case. -/
def Operation.aliases : Operation → List String
  | .create => ["CREATE", "INSERT", "SAVE"]
  | .update => ["UPDATE", "MERGE"]
  | .delete => ["DELETE", "REMOVE"]

/-- Upper-cases the ASCII letters only. -/
def asciiUpper (s : String) : String := String.ofList (s.toList.map Char.toUpper)

/-- The operation an alias names: blanks around it are ignored, ASCII case is not significant. -/
def Operation.ofAlias (s : String) : Option Operation :=
  let key := asciiUpper (trimBlank s)
  Operation.all.find? fun op => op.aliases.contains key

/-- Reads an operation from its alias; the error keeps the text as given. -/
def Operation.parse (s : String) : Except RecordError Operation :=
  match Operation.ofAlias s with
  | some op => .ok op
  | none => .error (.unknownOperation s)

/-- Whether a text is empty after trimming blanks. -/
def isBlankText (s : String) : Bool := (trimBlank s).isEmpty

/-- The entity a change applies to: a type name and an id, neither blank. -/
structure EntityRef where
  name : String
  id : String
  deriving Repr, BEq, DecidableEq

/-- Builds an entity reference, checking the name before the id. -/
def EntityRef.make (name id : String) : Except RecordError EntityRef :=
  if isBlankText name then .error (.blankEntity .name)
  else if isBlankText id then .error (.blankEntity .id)
  else .ok ⟨name, id⟩

/-- The display form `name[id]`. -/
def EntityRef.display (e : EntityRef) : String := e.name ++ "[" ++ e.id ++ "]"

/-- How one field changed. -/
inductive ChangeKind where
  | created | modified | deleted | contextual
  deriving Repr, BEq, DecidableEq

/-- The lower-case name of a kind. -/
def ChangeKind.name : ChangeKind → String
  | .created => "created"
  | .modified => "modified"
  | .deleted => "deleted"
  | .contextual => "contextual"

/-- All kinds, in declaration order. -/
def ChangeKind.all : List ChangeKind := [.created, .modified, .deleted, .contextual]

/-- The old and new value of a field, and the kind of change. -/
structure FieldChange where
  old : Option String
  new : Option String
  kind : ChangeKind
  deriving Repr, BEq, DecidableEq

/-- The kind follows from the sides present: only a new value is a creation, only an old value a
deletion, anything else a modification. -/
def FieldChange.ofSides (old new : Option String) : FieldChange :=
  let kind := match old, new with
    | none, some _ => ChangeKind.created
    | some _, none => ChangeKind.deleted
    | _, _ => ChangeKind.modified
  ⟨old, new, kind⟩

/-- Context attached to a change set rather than a field of the entity. -/
def FieldChange.contextual (value : String) : FieldChange := ⟨none, some value, .contextual⟩

/-- A change is significant when it creates or deletes, or modifies to a different value. -/
def FieldChange.isSignificant (c : FieldChange) : Bool :=
  match c.kind with
  | .created | .deleted => true
  | .modified => c.old != c.new
  | .contextual => false

/-- Puts an entry into a list sorted by key, replacing the entry with the same key. -/
def insertSorted {α : Type} (key : String) (v : α) : List (String × α) → List (String × α)
  | [] => [(key, v)]
  | (k, w) :: rest =>
    if key < k then (key, v) :: (k, w) :: rest
    else if key = k then (key, v) :: rest
    else (k, w) :: insertSorted key v rest

/-- Collects entries into a sorted list, a later entry for a key replacing an earlier one. -/
def collectSorted {α : Type} (entries : List (String × α)) : List (String × α) :=
  entries.foldl (fun acc (k, v) => insertSorted k v acc) []

/-- Field changes by field name, sorted, at most `maxChanges` of them. -/
structure ChangeSet where
  entries : List (String × FieldChange)
  deriving Repr, BEq, DecidableEq

/-- The change set with no changes. -/
def ChangeSet.empty : ChangeSet := ⟨[]⟩

/-- Checks the size of sorted entries. -/
def ChangeSet.make (entries : List (String × FieldChange)) : Except RecordError ChangeSet :=
  if entries.length > maxChanges then .error (.tooManyChanges entries.length)
  else .ok ⟨entries⟩

/-- Builds a change set from `(field, old, new)` triples, keeping the significant changes only. -/
def ChangeSet.fromPairs (pairs : List (String × Option String × Option String)) :
    Except RecordError ChangeSet :=
  let changes := pairs.map fun (field, old, new) => (field, FieldChange.ofSides old new)
  ChangeSet.make (collectSorted (changes.filter fun (_, c) => c.isSignificant))

/-- The change of a field. -/
def ChangeSet.get? (cs : ChangeSet) (field : String) : Option FieldChange :=
  (cs.entries.find? (·.1 == field)).map (·.2)

/-- The number of changed fields. -/
def ChangeSet.size (cs : ChangeSet) : Nat := cs.entries.length

/-- Where and when a record was submitted. -/
structure SubmissionContext where
  threadName : Option String
  hostname : String
  submittedAt : Instant
  deriving Repr, BEq, DecidableEq

/-- One change event. -/
structure ChangeRecord where
  id : RecordId
  entity : EntityRef
  operation : Operation
  changes : ChangeSet
  createdAt : Instant
  context : Option SubmissionContext
  deriving Repr, BEq, DecidableEq

/-- The same record with another submission context. -/
def ChangeRecord.withContext (r : ChangeRecord) (c : Option SubmissionContext) : ChangeRecord :=
  { r with context := c }

end EntityLog.Record
