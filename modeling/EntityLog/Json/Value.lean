/-!
# JSON values

A JSON value as the change requests carry it: numbers keep whether they were read as an unsigned
64-bit integer, a negative 64-bit integer or a double, and objects keep their members sorted by
key, a later member replacing an earlier one with the same key.
-/

namespace EntityLog.Json

/-- A JSON number: an integer that fits 64 bits keeps its exact value, anything else is a double. -/
inductive Number where
  /-- An integer in `0 .. 2^64 - 1`. -/
  | unsigned (n : Nat)
  /-- A negative integer in `-2^63 .. -1`. -/
  | negative (n : Int)
  | double (f : Float)

/-- A JSON value. Object members are sorted by key and keys are unique. -/
inductive Value where
  | null
  | bool (b : Bool)
  | number (n : Number)
  | string (s : String)
  | array (items : List Value)
  | object (members : List (String × Value))

/-- Puts a member into a sorted member list, replacing the member with the same key. Keys are
compared by their UTF-8 bytes, which is the order of their code points. -/
def insertMember (key : String) (v : Value) : List (String × Value) → List (String × Value)
  | [] => [(key, v)]
  | (k, w) :: rest =>
    if key < k then (key, v) :: (k, w) :: rest
    else if key = k then (key, v) :: rest
    else (k, w) :: insertMember key v rest

end EntityLog.Json
