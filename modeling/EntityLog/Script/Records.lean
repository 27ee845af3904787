import EntityLog.Script.Basic
import EntityLog.Record.Codec
/-!
# Records in scripts

A step names a record either in full, as its JSON object, or by the shorthand `{"n": k}` with
optional `entity`, `operation` and `changes`. The shorthand stands for the record with the
numbered id `k`, entity `T` (or the one given) with id `k` in decimal, operation `CREATE` (or the
one given), the changes given (or none), created at the start of 2026. Either form is then read
as a record, so a bad shorthand is refused just as a bad record is.
-/

namespace EntityLog.Script

open EntityLog.Json EntityLog.Record

/-- The full form of a record spec. -/
def expandSpec (r : Value) : Value :=
  match r.get? "n" with
  | some (.number (.unsigned k)) =>
    obj [("id", str (RecordId.numbered k).render),
      ("entity", obj [("name", (r.get? "entity").getD (str "T")), ("id", str (toString k))]),
      ("operation", (r.get? "operation").getD (str "CREATE")),
      ("changes", (r.get? "changes").getD (obj [])),
      ("created_at", str "2026-01-01T00:00:00Z")]
  | _ => r

/-- The record a spec stands for. -/
def specRecord (r : Value) : Outcome ChangeRecord :=
  match decodeValue recordDecoder (expandSpec r) with
  | .ok c => .ok c
  | .error e => jsonErr e

/-- The shorthand record numbered `k`. -/
def shorthand (k : Nat) : Outcome ChangeRecord :=
  specRecord (obj [("n", nat k)])

/-- The shorthand records numbered from `first` up to, not including, `stop`. -/
def shorthandRange (first stop : Nat) : Outcome (List ChangeRecord) :=
  (List.range' first (stop - first)).mapM shorthand

end EntityLog.Script
