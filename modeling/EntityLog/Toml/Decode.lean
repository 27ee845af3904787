import EntityLog.Toml.Document
import EntityLog.Text.Mismatch
import EntityLog.Decimal.Layout
/-!
# Reading typed values from TOML documents

A reader takes a node of a document to a typed value or to a refusal. A refusal points at the
innermost node that has a span: each reader gives its refusals the span of the node it was given
when they have none yet, and a table entry whose value has no span (a table made implicitly)
lends the span of its key.

Integers are signed 64-bit values, a date or time is seen as a map, and a struct refuses keys it
does not know, pointing at the key.
-/

namespace EntityLog.Toml

open EntityLog.Text

/-- A refusal of a document's content, with the span it is about when known. -/
structure Refusal where
  message : String
  span : Option Span

/-- Reads a typed value from a node. -/
abbrev NodeReader (α : Type) := Node → Except Refusal α

/-- How a node shows in a mismatch message. -/
def Node.found : Node → Found
  | .scalar (.string s) _ => .str s
  | .scalar (.integer i) _ => .signed i
  | .scalar (.float f) _ => .float f
  | .scalar (.bool b) _ => .bool b
  | .scalar (.datetime _) _ => .map
  | .array _ _ => .seq
  | .table _ _ _ _ _ => .map
  | .tables _ _ => .seq

/-- The text of what was found. -/
def foundText (f : Found) : String := f.text Decimal.plainText "unit value"

/-- A refusal with no span yet. -/
def refusal {α : Type} (message : String) : Except Refusal α := .error ⟨message, none⟩

/-- Gives a refusal without a span the span `fallback`. -/
def spanned {α : Type} (fallback : Option Span) (r : Except Refusal α) : Except Refusal α :=
  r.mapError fun e => if e.span.isNone then { e with span := fallback } else e

/-- Runs a reader on a node, its refusals pointing at the node when they point nowhere yet. -/
def within {α : Type} (n : Node) (r : Except Refusal α) : Except Refusal α := spanned n.span? r

/-- The refusal of a node of the wrong kind. -/
def mismatch {α : Type} (n : Node) (expected : String) : Except Refusal α :=
  refusal (invalidType (foundText n.found) expected)

/-- The key a date or time shows when it is read as a struct. -/
def datetimeKey : String := "$__toml_private_datetime"

namespace NodeReader

/-- A string, checked by `visit`. -/
def text {α : Type} (expected : String) (visit : String → Except String α) : NodeReader α :=
  fun n => within n <|
    match n with
    | .scalar (.string s) _ => (visit s).mapError (⟨·, none⟩)
    | _ => mismatch n expected

/-- A non-negative integer. -/
def unsigned (expected : String) : NodeReader Nat := fun n => within n <|
  match n with
  | .scalar (.integer i) _ =>
    if 0 ≤ i then pure i.toNat else refusal (invalidValue (foundText (.signed i)) expected)
  | _ => mismatch n expected

/-- A boolean. -/
def bool : NodeReader Bool := fun n => within n <|
  match n with
  | .scalar (.bool b) _ => pure b
  | _ => mismatch n "a boolean"

/-- The items of an array or an array of tables, each read by `element`. -/
def seq {α : Type} (expected : String) (element : NodeReader α) : NodeReader (List α) :=
  fun n => within n <|
    match n with
    | .array items _ | .tables items _ => items.mapM fun i => within i (element i)
    | _ => mismatch n expected

/-- The variant named by a string. -/
def variantNamed {α : Type} (variants : List (String × α)) (name : String) :
    Except Refusal α :=
  match variants.find? (·.1 == name) with
  | some (_, v) => pure v
  | none => refusal (unknownVariant name (variants.map (·.1)))

/-- The value given with a variant without data: an empty array or table. -/
def unitContent (n : Node) : Except Refusal Unit :=
  match n with
  | .array items sp => if items.isEmpty then pure () else .error ⟨"expected empty array", some sp⟩
  | .tables items sp => if items.isEmpty then pure () else .error ⟨"expected empty array", sp⟩
  | .table es _ _ _ sp => if es.isEmpty then pure () else .error ⟨"expected empty table", sp⟩
  | .scalar _ sp => .error ⟨"expected table, found " ++ n.typeName, some sp⟩

/-- A variant from the first entry of a table: its key names it, its value must be empty. -/
def variantEntry {α : Type} (variants : List (String × α)) :
    List (String × Span × Node) → Option Span → Except Refusal α
  | [], sp => .error ⟨"expected table with exactly 1 entry, found empty table", sp⟩
  | (k, ks, v) :: _, _ => do
    let a ← spanned (some ks) (variantNamed variants k)
    unitContent v
    return a

/-- A variant without data: a string naming it, or a table with one entry. -/
def variant {α : Type} (variants : List (String × α)) : NodeReader α := fun n => within n <|
  match n with
  | .scalar (.string s) _ => variantNamed variants s
  | .table es _ _ true sp =>
    if es.isEmpty then .error ⟨"wanted exactly 1 element, found 0 elements", sp⟩
    else if es.length != 1 then .error ⟨"wanted exactly 1 element, more than 1 element", sp⟩
    else variantEntry variants es sp
  | .table es _ _ false sp => variantEntry variants es sp
  | _ => refusal "wanted string or table"

end NodeReader

/-- A field of a struct: its key and how its value is read into the struct being read. -/
structure Member (σ : Type) where
  name : String
  read : σ → NodeReader σ

/-- How a struct with every field optional and unknown keys refused is read: its name in
messages (`struct ShutdownConfig`), its fields in order, and the value before any field. -/
structure Layout (σ : Type) where
  name : String
  members : List (Member σ)
  start : σ

namespace Layout

/-- The field names, for messages. -/
def names {σ : Type} (l : Layout σ) : List String := l.members.map (·.name)

/-- Reads table entries in order. -/
def readEntries {σ : Type} (l : Layout σ) (st : σ) :
    List (String × Span × Node) → Except Refusal σ
  | [] => pure st
  | (k, ks, v) :: rest =>
    match l.members.find? (·.name == k) with
    | none => .error ⟨unknownField k l.names, some ks⟩
    | some m => do
      let st' ← spanned (some ks) (m.read st v)
      l.readEntries st' rest

/-- Reads the array form: the fields in order, one item each; missing items keep their
defaults. -/
def readItems {σ : Type} (l : Layout σ) (st : σ) : List (Member σ) → List Node → Except Refusal σ
  | m :: ms, i :: is => do
    let st' ← within i (m.read st i)
    l.readItems st' ms is
  | _, _ => pure st

end Layout

/-- A struct, from a table or from an array of its fields in order. -/
def NodeReader.struct {σ : Type} (l : Layout σ) : NodeReader σ := fun n => within n <|
  match n with
  | .table es _ _ _ _ => l.readEntries l.start es
  | .array items _ | .tables items _ => l.readItems l.start l.members items
  | .scalar (.datetime _) _ => refusal (unknownField datetimeKey l.names)
  | _ => mismatch n l.name

end EntityLog.Toml
