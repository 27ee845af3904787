import EntityLog.Toml.Report
/-!
# TOML documents

A parsed TOML document is a tree of nodes. Scalars and arrays carry the byte span of their text;
a table carries the span of its header or inline form when it has one, and whether it was created
implicitly (by a longer header or a dotted key) or by dotted keys. Table entries keep the order in
which they were written, each with the span of its key.

Building the tree checks the rules on keys: a key is defined once per table, a dotted key cannot
extend a value, and a table defined by a header cannot be defined again or extended by dotted
keys.
-/

namespace EntityLog.Toml

/-- A single TOML value. -/
inductive Scalar where
  | string (s : String)
  | integer (i : Int)
  | float (f : Float)
  | bool (b : Bool)
  | datetime (text : String)

/-- A node of a TOML document. -/
inductive Node where
  | scalar (v : Scalar) (span : Span)
  | array (items : List Node) (span : Span)
  /-- A table: entries in order with their key spans; created implicitly; created by dotted
  keys; written inline; its span. -/
  | table (entries : List (String × Span × Node)) (implicit dotted inline : Bool)
      (span : Option Span)
  /-- An array of tables, each given by its own header. -/
  | tables (items : List Node) (span : Option Span)

/-- The span of a node, when it has one. -/
def Node.span? : Node → Option Span
  | .scalar _ s => some s
  | .array _ s => some s
  | .table _ _ _ _ s => s
  | .tables _ s => s

/-- The type name of a value, as messages use it. -/
def Node.typeName : Node → String
  | .scalar (.string _) _ => "string"
  | .scalar (.integer _) _ => "integer"
  | .scalar (.float _) _ => "float"
  | .scalar (.bool _) _ => "boolean"
  | .scalar (.datetime _) _ => "datetime"
  | .array _ _ => "array"
  | .table _ _ _ true _ => "inline table"
  | .table _ _ _ _ _ => "table"
  | .tables _ _ => "array of tables"

/-- An empty table. -/
def Node.emptyTable (implicit dotted inline : Bool) (span : Option Span) : Node :=
  .table [] implicit dotted inline span

/-- The entries of a table node. -/
def Node.entries : Node → List (String × Span × Node)
  | .table es _ _ _ _ => es
  | _ => []

/-- Why a key could not be placed. -/
inductive KeyFault where
  | duplicate (key : String) (table : Option (List String))
  | extendsValue (path : List String) (actual : String)

/-- The message of a key fault. -/
def KeyFault.text : KeyFault → String
  | .duplicate key none => "duplicate key `" ++ key ++ "`"
  | .duplicate key (some []) => "duplicate key `" ++ key ++ "` in document root"
  | .duplicate key (some path) =>
    "duplicate key `" ++ key ++ "` in table `" ++ ".".intercalate path ++ "`"
  | .extendsValue path actual =>
    "dotted key `" ++ ".".intercalate path ++ "` attempted to extend non-table type (" ++
      actual ++ ")"

/-- A key with the span where it was written. -/
structure Key where
  name : String
  span : Span

/-- Replaces the entry for `key`, or appends one. -/
def setEntry (entries : List (String × Span × Node)) (key : String) (span : Span) (n : Node) :
    List (String × Span × Node) :=
  if entries.any (·.1 == key) then
    entries.map fun e => if e.1 == key then (key, e.2.1, n) else e
  else entries ++ [(key, span, n)]

/-- The entry for `key`. -/
def findEntry (entries : List (String × Span × Node)) (key : String) : Option (Span × Node) :=
  (entries.find? (·.1 == key)).map (·.2)

/-- How a walk down a dotted path treats the tables it meets: inside an inline table every table
is inline and may be walked into; in a document an inline table is a value and stops the walk.
Missing tables are created implicit, and dotted when the walk follows a dotted key. -/
structure Walk where
  dotted : Bool
  inline : Bool

/-- Applies `f` to the table at `path` below `node`, creating missing tables; `f` also computes
a result. Walking into an array of tables goes to its last table; walking into a value fails.
`done` is the part of the path already walked, for messages. -/
def Node.descend {β : Type} (mode : Walk) (f : Node → Except KeyFault (Node × β)) :
    Node → List Key → List String → Except KeyFault (Node × β)
  | node, [], _ => f node
  | .table es imp dot inl sp, k :: rest, done => do
    let here := done ++ [k.name]
    let child := match findEntry es k.name with
      | none => Node.emptyTable true mode.dotted mode.inline none
      | some (_, c) => c
    let (child', b) ← match child with
      | .scalar _ _ | .array _ _ => throw (KeyFault.extendsValue here child.typeName)
      | .table _ _ _ true _ =>
        if mode.inline then child.descend mode f rest here
        else throw (KeyFault.extendsValue here child.typeName)
      | .tables items sp2 =>
        match items.reverse with
        | last :: before => do
          let (last', b) ← last.descend mode f rest here
          pure (Node.tables (before.reverse ++ [last']) sp2, b)
        | [] => throw (KeyFault.extendsValue here child.typeName)
      | t => t.descend mode f rest here
    return (.table (setEntry es k.name k.span child') imp dot inl sp, b)
  | node, _ :: _, done => throw (KeyFault.extendsValue done node.typeName)

/-- Whether a node is a table created by dotted keys. -/
def Node.isDotted : Node → Bool
  | .table _ _ d _ _ => d
  | _ => false

/-- Whether a node is a table created implicitly by a longer header, not by dotted keys. -/
def Node.isHeaderImplicit : Node → Bool
  | .table _ i d _ _ => i && !d
  | _ => false

/-- Replaces the entries of a table node. -/
def Node.withEntries (n : Node) (es : List (String × Span × Node)) : Node :=
  match n with
  | .table _ imp dot inl sp => .table es imp dot inl sp
  | other => other

/-- Adds a key-value pair to `table`, under the dotted path `path`. A table reached by a dotted
path must have been made by dotted keys, and a table reached directly must not have been;
`tablePath` names the table in a duplicate message (none inside an inline table). -/
def addKeyValue (mode : Walk) (table : Node) (tablePath : Option (List String)) (path : List Key)
    (key : Key) (value : Node) : Except KeyFault Node := do
  let (t, ()) ← table.descend mode (fun t => do
    if t.isDotted == path.isEmpty then throw (KeyFault.duplicate key.name none)
    match findEntry t.entries key.name with
    | some _ => throw (KeyFault.duplicate key.name tablePath)
    | none => pure (t.withEntries (t.entries ++ [(key.name, key.span, value)]), ())) path []
  return t

/-- The walk of headers: through tables of the document, creating implicit ones. -/
def headerWalk : Walk := ⟨false, false⟩

/-- The parent path of a header and its last key. -/
def splitLast (path : List Key) : List Key × Option Key :=
  match path.reverse with
  | [] => ([], none)
  | last :: before => (before.reverse, some last)

/-- The duplicate fault for a header's last key. -/
def headerDuplicate (path : List Key) : KeyFault :=
  let names := path.map (·.name)
  .duplicate (names.getLast?.getD "") (some (names.take (names.length - 1)))

/-- Starts a table header: the table may only exist already as one created implicitly by a
longer header, in which case it is taken out of the document with its entries and continues as
the header's table. Returns the document and the table to fill. -/
def startTable (root : Node) (path : List Key) (span : Span) : Except KeyFault (Node × Node) :=
  match splitLast path with
  | (_, none) => pure (root, Node.emptyTable false false false (some span))
  | (parent, some last) =>
    root.descend headerWalk (fun t =>
      match findEntry t.entries last.name with
      | none => pure (t, Node.emptyTable false false false (some span))
      | some (_, existing) =>
        if existing.isHeaderImplicit then
          pure (t.withEntries (t.entries.filter (·.1 != last.name)),
            .table existing.entries false false false (some span))
        else throw (headerDuplicate path)) parent []

/-- Starts an array-of-tables header: the key must be free or hold an array of tables. -/
def startArrayTable (root : Node) (path : List Key) (span : Span) :
    Except KeyFault (Node × Node) :=
  match splitLast path with
  | (_, none) => pure (root, Node.emptyTable false false false (some span))
  | (parent, some last) =>
    root.descend headerWalk (fun t =>
      match findEntry t.entries last.name with
      | none => pure (t.withEntries (t.entries ++ [(last.name, last.span, .tables [] none)]),
          Node.emptyTable false false false (some span))
      | some (_, .tables _ _) => pure (t, Node.emptyTable false false false (some span))
      | some _ => throw (headerDuplicate path)) parent []

/-- The span from the first to the last of some tables. -/
def tablesSpan (items : List Node) : Option Span :=
  match items.head?.bind Node.span?, items.getLast?.bind Node.span? with
  | some a, some b => some ⟨a.start, b.stop⟩
  | _, _ => none

/-- Puts a finished header table back into the document: appended to its array of tables, or
set at its key, where only an implicit table may be in the way. -/
def finishTable (root : Node) (path : List Key) (table : Node) (asArray : Bool) :
    Except KeyFault Node :=
  match splitLast path with
  | (_, none) => pure table
  | (parent, some last) => do
    let (r, ()) ← root.descend headerWalk (fun t =>
      if asArray then
        match findEntry t.entries last.name with
        | none =>
          pure (t.withEntries (t.entries ++ [(last.name, last.span, .tables [table] table.span?)]), ())
        | some (_, .tables items _) =>
          let items' := items ++ [table]
          pure (t.withEntries (setEntry t.entries last.name last.span
            (.tables items' (tablesSpan items'))), ())
        | some _ => throw (headerDuplicate path)
      else
        match findEntry t.entries last.name with
        | none => pure (t.withEntries (t.entries ++ [(last.name, last.span, table)]), ())
        | some (_, .table _ true _ _ _) =>
          pure (t.withEntries (setEntry t.entries last.name last.span table), ())
        | some _ => throw (headerDuplicate path)) parent []
    return r

end EntityLog.Toml
