import EntityLog.Json.Value
import EntityLog.Json.Reader
/-!
# Scripts

A script drives one part of the pipeline through a list of steps, each a JSON object naming its
step in the member `op`. A step is answered by a JSON value, or refused with a kind and a
message; some refusals end the whole script.

This module holds the reading of step members and the shapes shared by every answer.
-/

namespace EntityLog.Script

open EntityLog.Json

/-- Why a step or a script was refused: the kind of the error and its message. -/
structure Refusal where
  kind : String
  message : String
  deriving Repr, BEq

/-- A result of a script, or its refusal. -/
abbrev Outcome (α : Type) := Except Refusal α

/-- A refusal of the input itself. -/
def bad {α : Type} (msg : String) : Outcome α := .error ⟨"BadInput", msg⟩

/-- The refusal for a JSON error. -/
def jsonErr {α : Type} (e : Json.Error) : Outcome α := .error ⟨"Json", e.message⟩

end EntityLog.Script

namespace EntityLog.Json

open EntityLog.Script

/-- A member of an object. -/
def Value.get? (v : Value) (k : String) : Option Value :=
  match v with
  | .object ms => (ms.find? (·.1 == k)).map (·.2)
  | _ => none

/-- A number member, or a default. -/
def Value.natD (v : Value) (k : String) (d : Nat) : Nat :=
  match v.get? k with
  | some (.number (.unsigned n)) => n
  | _ => d

/-- A boolean member, false when absent. -/
def Value.flag (v : Value) (k : String) : Bool :=
  match v.get? k with
  | some (.bool b) => b
  | _ => false

/-- A string member. -/
def Value.str? (v : Value) (k : String) : Outcome String :=
  match v.get? k with
  | some (.string s) => .ok s
  | _ => bad ("missing field " ++ k)

/-- A string member that may be null or absent. -/
def Value.optStr? (v : Value) (k : String) : Outcome (Option String) :=
  match v.get? k with
  | some (.string s) => .ok (some s)
  | some .null | none => .ok none
  | _ => bad ("bad field " ++ k)

/-- A number member. -/
def Value.nat? (v : Value) (k : String) : Outcome Nat :=
  match v.get? k with
  | some (.number (.unsigned n)) => .ok n
  | _ => bad ("missing field " ++ k)

/-- An array member. -/
def Value.arr? (v : Value) (k : String) : Outcome (List Value) :=
  match v.get? k with
  | some (.array xs) => .ok xs
  | _ => bad ("missing field " ++ k)

end EntityLog.Json

namespace EntityLog.Script

open EntityLog.Json

/-- A string. -/
def str (s : String) : Value := .string s

/-- A whole number. -/
def nat (n : Nat) : Value := .number (.unsigned n)

/-- A boolean. -/
def boolV (b : Bool) : Value := .bool b

/-- An object. -/
def obj (ms : List (String × Value)) : Value := .object ms

/-- An array. -/
def arr (xs : List Value) : Value := .array xs

/-- A string, or null. -/
def optStr : Option String → Value
  | some s => str s
  | none => .null

/-- The error object of a kind and a message. -/
def errObj (kind msg : String) : Value := obj [("error", str kind), ("message", str msg)]

/-- The error object of a refusal. -/
def Refusal.toValue (r : Refusal) : Value := errObj r.kind r.message

/-- A successful answer. -/
def okV (v : Value) : Value := obj [("ok", v)]

/-- The answer of a whole script. -/
def answerObj : Outcome Value → Value
  | .ok v => okV v
  | .error r => r.toValue

/-- The name of a step. -/
def stepName (o : Value) : String :=
  match o.get? "op" with
  | some (.string n) => n
  | _ => ""

/-- The refusal of a step with an unknown name, which ends the script. -/
def unknownStep {α : Type} (o : Value) : Outcome α := bad ("unknown step " ++ stepName o)

/-- The answer of a step, or its error object. -/
def resultOr (r : Outcome Value) : Value :=
  match r with
  | .ok v => v
  | .error e => e.toValue

/-- Runs the steps in order from a state; a refused step ends the script. -/
def runSteps {σ : Type} (step : σ → Value → Outcome (σ × Value)) (s : σ) :
    List Value → Outcome (List Value)
  | [] => .ok []
  | o :: rest => do
    let (s', v) ← step s o
    return v :: (← runSteps step s' rest)

end EntityLog.Script
