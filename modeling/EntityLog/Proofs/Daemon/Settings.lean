import EntityLog.Daemon.Cli
/-!
# How the daemon's settings are resolved

Resolving the settings takes three steps, each of which can fail: loading the base
configuration (the file named by `--config`, read and parsed, or the defaults), validating that
configuration, and validating it again once the options are applied over it
(`resolve_eq_steps`). The first validation is part of loading a file: a file that fails it is
refused even when the options would repair the failing field, since the options are only
applied to a configuration that already passed.

So the settings are resolved exactly when all three steps pass, and then hold the base with the
options applied, field by field (`Args.Applied`); otherwise the error is that of the first step
that failed: an `io` or `parse` error from loading, or an `invalid` one from either validation
(`resolve_validatesFileThenOptions`).
-/

namespace EntityLog.Daemon

open EntityLog.Config EntityLog.Files

/-! ## The configuration the options are applied to -/

/-- The configuration the settings start from, before any validation: the file named by the
options, read with `read` and parsed, or the defaults when none is named. -/
def Args.base (read : Path → Except String String) (a : Args) :
    Except ConfigError PipelineConfig :=
  match a.config with
  | some p =>
    match read p with
    | .ok text => PipelineConfig.readToml text
    | .error reason => .error (.io p reason)
  | none => .ok {}

/-- Loading fails only to read (`io`) or to parse (`parse`). -/
theorem Args.base_error {read : Path → Except String String} {a : Args} {e : ConfigError}
    (h : a.base read = .error e) : (∃ p reason, e = .io p reason) ∨ ∃ m, e = .parse m := by
  unfold Args.base at h
  split at h
  · split at h
    · -- the text was read: only parsing can fail
      unfold PipelineConfig.readToml at h
      split at h
      · cases h
        exact Or.inr ⟨_, rfl⟩
      · split at h
        · cases h
        · cases h
          exact Or.inr ⟨_, rfl⟩
    · cases h
      exact Or.inl ⟨_, _, rfl⟩
  · cases h

/-- Validation fails only with an `invalid` error. -/
theorem PipelineConfig.validate_error {c : PipelineConfig} {e : ConfigError}
    (h : c.validate = .error e) : ∃ reason, e = .invalid reason := by
  unfold PipelineConfig.validate at h
  -- each check that fails gives an `invalid` error; passing them all gives no error
  repeat' split at h
  all_goals cases h
  all_goals exact ⟨_, rfl⟩

/-- The defaults pass validation. -/
theorem PipelineConfig.validate_default : PipelineConfig.validate {} = .ok () := rfl

/-! ## Options applied over a configuration -/

/-- `c` is `base` with the options of `a` applied: each field an option sets takes the option's
value, and every other field keeps the value of `base`. -/
structure Args.Applied (a : Args) (base c : PipelineConfig) : Prop where
  walPath : c.walPath = a.wal.getD base.walPath
  batchSize : c.batchSize = a.batchSize.getD base.batchSize
  workerThreads : c.workerThreads = a.workers.getD base.workerThreads
  queueCapacity : c.queueCapacity = a.queueCapacity.getD base.queueCapacity
  flushInterval : c.flushInterval = a.flushInterval.getD base.flushInterval
  workerPollInterval : c.workerPollInterval = base.workerPollInterval
  backup : c.backup = base.backup
  shutdown : c.shutdown = base.shutdown
  capture : c.capture = base.capture

/-- Overriding applies the options, and nothing else does. -/
theorem Args.applied_iff {a : Args} {base c : PipelineConfig} :
    a.Applied base c ↔ c = a.override base := by
  constructor
  · intro h
    cases c
    obtain ⟨h1, h2, h3, h4, h5, h6, h7, h8, h9⟩ := h
    simp only at h1 h2 h3 h4 h5 h6 h7 h8 h9
    subst h1 h2 h3 h4 h5 h6 h7 h8 h9
    rfl
  · rintro rfl
    exact ⟨rfl, rfl, rfl, rfl, rfl, rfl, rfl, rfl, rfl⟩

/-! ## Resolving -/

/-- Resolving is loading the base, validating it, and validating it with the options applied. -/
theorem resolve_eq_steps (read : Path → Except String String) (a : Args) :
    a.resolve read = (do
      let base ← a.base read
      base.validate
      (a.override base).validate
      return ⟨a.override base, a.output, a.log⟩) := by
  unfold Args.resolve Args.base
  cases a.config with
  | none =>
    -- the defaults are not validated on their own, but they pass anyway
    simp only [bind, Except.bind, PipelineConfig.validate_default]
    rfl
  | some p =>
    dsimp only
    cases read p with
    | error reason => rfl
    | ok text =>
      simp only [PipelineConfig.ofToml, bind_assoc, pure_bind]

/-- The settings are resolved exactly when the base configuration loads, passes validation, and
passes it again with the options applied; they then hold the base with the options applied and
the output and log paths given. Otherwise the error is that of the first step that failed: an
`io` or `parse` error from loading the file, an `invalid` one from validating the file's
configuration, or an `invalid` one from validating it with the options applied. -/
theorem resolve_validatesFileThenOptions (read : Path → Except String String) (a : Args) :
    (∀ s : Settings, a.resolve read = .ok s ↔
      ∃ base, a.base read = .ok base ∧ base.validate = .ok () ∧
        (a.override base).validate = .ok () ∧ a.Applied base s.pipeline ∧
        s.output = a.output ∧ s.log = a.log) ∧
    (∀ e : ConfigError, a.resolve read = .error e ↔
      (a.base read = .error e ∧ ((∃ p reason, e = .io p reason) ∨ ∃ m, e = .parse m)) ∨
      (∃ base, a.base read = .ok base ∧ base.validate = .error e ∧ ∃ reason, e = .invalid reason) ∨
      (∃ base, a.base read = .ok base ∧ base.validate = .ok () ∧
        (a.override base).validate = .error e ∧ ∃ reason, e = .invalid reason)) := by
  rw [resolve_eq_steps]
  cases hbase : a.base read with
  | error e₀ =>
    -- loading failed: nothing else runs, and its error is an `io` or a `parse` one
    simp only [bind, Except.bind, reduceCtorEq, false_and, exists_false, or_false, implies_true,
      Except.error.injEq, true_and]
    intro e
    constructor
    · rintro rfl
      exact ⟨rfl, Args.base_error hbase⟩
    · exact And.left
  | ok base =>
    cases hfile : base.validate with
    | error e₁ =>
      -- the file's own configuration is refused before the options are applied
      simp [bind, Except.bind, hfile]
      exact PipelineConfig.validate_error hfile
    | ok u =>
      cases hfinal : (a.override base).validate with
      | error e₂ =>
        simp [bind, Except.bind, hfile, hfinal]
        exact PipelineConfig.validate_error hfinal
      | ok u' =>
        -- every step passed: the settings hold the base with the options applied
        simp [bind, Except.bind, pure, Except.pure, hfile, hfinal, Args.applied_iff]
        intro s
        constructor
        · rintro rfl
          exact ⟨rfl, rfl, rfl⟩
        · rintro ⟨hpipeline, houtput, hlog⟩
          rw [← hpipeline, ← houtput, ← hlog]

/-- A file with a zero batch size is refused even with `--batch-size 5`, although the file's
configuration with that option applied passes validation. -/
theorem resolve_refusesFileRepairedByOption :
    (∃ base, Args.base (fun _ => .ok "batch_size = 0\n")
        { config := some "pipeline.toml", batchSize := some 5 } = .ok base ∧
      (Args.override { config := some "pipeline.toml", batchSize := some 5 } base).validate =
        .ok ()) ∧
    Args.resolve (fun _ => .ok "batch_size = 0\n")
        { config := some "pipeline.toml", batchSize := some 5 } =
      .error (.invalid "batch_size must be positive") := by
  -- the file parses to the defaults with a zero batch size
  have hparse : (PipelineConfig.readToml "batch_size = 0\n").toOption =
      some { batchSize := 0 } := by
    decide +kernel
  have hbase : Args.base (fun _ => .ok "batch_size = 0\n")
      { config := some "pipeline.toml", batchSize := some 5 } = .ok { batchSize := 0 } := by
    unfold Args.base
    dsimp only
    cases h : PipelineConfig.readToml "batch_size = 0\n" <;> simp_all [Except.toOption]
  refine ⟨⟨_, hbase, rfl⟩, ?_⟩
  rw [resolve_eq_steps, hbase]
  rfl

end EntityLog.Daemon
