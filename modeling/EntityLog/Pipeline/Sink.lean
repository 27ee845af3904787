import EntityLog.Record.Basic
/-!
# Sinks

A sink receives batches of records to persist. Saving either succeeds, is refused with an
error, or crashes; a crash is caught by the processor like a refusal.

The test sink counts its calls and keeps the batches it accepted; it can be told to accept,
refuse or crash. The discarding sink accepts everything and keeps nothing.
-/

namespace EntityLog.Pipeline

open EntityLog.Record

/-- How a save ended. -/
inductive SaveOutcome where
  | saved
  /-- Refused, with the error's message. -/
  | refused (message : String)
  /-- Crashed, with the crash message. -/
  | crashed (message : String)
  deriving Repr, BEq

/-- Whether a save succeeded. -/
def SaveOutcome.ok : SaveOutcome → Bool
  | .saved => true
  | _ => false

/-- How the test sink answers. -/
inductive Behavior where
  | accept
  | fail
  | panic
  deriving Repr, BEq, DecidableEq

/-- The test sink: the batches it accepted, in order, the number of calls, and how it answers. -/
structure TestSink where
  saved : List (List ChangeRecord) := []
  attempts : Nat := 0
  behavior : Behavior := .accept

/-- Saves a batch with the test sink: every call counts; an accepted batch is kept. -/
def TestSink.save (s : TestSink) (batch : List ChangeRecord) : TestSink × SaveOutcome :=
  let s := { s with attempts := s.attempts + 1 }
  match s.behavior with
  | .accept => ({ s with saved := s.saved ++ [batch] }, .saved)
  | .fail => (s, .refused "batch rejected: injected failure")
  | .panic => (s, .crashed "injected panic")

/-- All records the test sink accepted, in order. -/
def TestSink.records (s : TestSink) : List ChangeRecord := s.saved.flatten

/-- A sink used to drive a processor: the test sink, or one that accepts and keeps nothing. -/
inductive BenchSink where
  | test (s : TestSink)
  | discard

/-- Saves a batch. -/
def BenchSink.save : BenchSink → List ChangeRecord → BenchSink × SaveOutcome
  | .test s, batch => let (s, o) := s.save batch; (.test s, o)
  | .discard, _ => (.discard, .saved)

/-- The test sink's record, or an empty one. -/
def BenchSink.view : BenchSink → TestSink
  | .test s => s
  | .discard => {}

end EntityLog.Pipeline
