import EntityLog.Log.Durable
import Mathlib
/-!
# Outcomes of computations that may fail

The computations of the log run on a state and may fail, keeping the changes made before the
failure: `ExceptT ε (StateM S)` with the machine, or the machine and the log, as the state.
`wp x Q E s` says that `x`, run from `s`, ends in a state where `Q` holds of its value or `E`
of its error. One rewriting rule per combinator and per primitive of the log turns the `wp` of a
whole function into the `wp` of the calls it makes, so a function is specified by walking its
definition once, and its callers cite the specification instead of unfolding it.
-/

namespace EntityLog.Files

variable {ε S α β : Type}

/-- The outcome of running `x` from `s` satisfies `Q` (a value) or `E` (an error). -/
def wp (x : ExceptT ε (StateM S) α) (Q : α → S → Prop) (E : ε → S → Prop) (s : S) : Prop :=
  match x.run.run s with
  | (.ok a, s') => Q a s'
  | (.error e, s') => E e s'

section Rules

variable {x : ExceptT ε (StateM S) α} {Q Q' : α → S → Prop} {E E' : ε → S → Prop} {s : S}

theorem wp_of_run_ok {a : α} {s' : S} (h : x.run.run s = (.ok a, s')) (hq : Q a s') :
    wp x Q E s := by
  rw [wp, h]
  exact hq

theorem wp_of_run_error {e : ε} {s' : S} (h : x.run.run s = (.error e, s')) (he : E e s') :
    wp x Q E s := by
  rw [wp, h]
  exact he

/-- What a `wp` says of the run it describes. -/
theorem wp_run (h : wp x Q E s) :
    (∃ a s', x.run.run s = (.ok a, s') ∧ Q a s') ∨
      ∃ e s', x.run.run s = (.error e, s') ∧ E e s' := by
  unfold wp at h
  rcases hrun : x.run.run s with ⟨r, s'⟩
  rw [hrun] at h
  cases r with
  | ok a => exact .inl ⟨a, s', rfl, h⟩
  | error e => exact .inr ⟨e, s', rfl, h⟩

theorem wp_ok {a : α} (h : wp x Q E s) (hrun : (x.run.run s).1 = .ok a) :
    Q a (x.run.run s).2 := by
  unfold wp at h
  rcases hx : x.run.run s with ⟨r, s'⟩
  rw [hx] at h hrun
  subst hrun
  exact h

theorem wp_error {e : ε} (h : wp x Q E s) (hrun : (x.run.run s).1 = .error e) :
    E e (x.run.run s).2 := by
  unfold wp at h
  rcases hx : x.run.run s with ⟨r, s'⟩
  rw [hx] at h hrun
  subst hrun
  exact h

theorem wp_ok_of_run {a : α} {s' : S} (h : wp x Q E s) (hrun : x.run.run s = (.ok a, s')) :
    Q a s' := by
  have hq := wp_ok h (by rw [hrun])
  rwa [hrun] at hq

theorem wp_error_of_run {e : ε} {s' : S} (h : wp x Q E s)
    (hrun : x.run.run s = (.error e, s')) : E e s' := by
  have he := wp_error h (by rw [hrun])
  rwa [hrun] at he

/-- What holds after a computation whatever its outcome. -/
theorem wp_state {P : S → Prop} (h : wp x Q E s) (hq : ∀ a s', Q a s' → P s')
    (he : ∀ e s', E e s' → P s') : P (x.run.run s).2 := by
  rcases wp_run h with ⟨a, s', hrun, hqa⟩ | ⟨e, s', hrun, hee⟩
  · rw [hrun]
    exact hq a s' hqa
  · rw [hrun]
    exact he e s' hee

theorem wp_mono (h : wp x Q E s) (hq : ∀ a s, Q a s → Q' a s) (he : ∀ e s, E e s → E' e s) :
    wp x Q' E' s := by
  revert h
  unfold wp
  rcases x.run.run s with ⟨r, s'⟩
  cases r with
  | ok a => exact hq a s'
  | error e => exact he e s'

theorem wp_and {R : α → S → Prop} {F : ε → S → Prop} (h : wp x Q E s) (h' : wp x R F s) :
    wp x (fun a s => Q a s ∧ R a s) (fun e s => E e s ∧ F e s) s := by
  revert h h'
  unfold wp
  rcases x.run.run s with ⟨r, s'⟩
  cases r <;> exact And.intro

@[simp]
theorem wp_pure (a : α) : wp (pure a : ExceptT ε (StateM S) α) Q E s = Q a s := rfl

@[simp]
theorem wp_throw (e : ε) : wp (throw e : ExceptT ε (StateM S) α) Q E s = E e s := rfl

@[simp]
theorem wp_bind (f : α → ExceptT ε (StateM S) β) {Q : β → S → Prop} :
    wp (x >>= f) Q E s = wp x (fun a => wp (f a) Q E) E s := by
  unfold wp
  rw [ExceptT.run_bind]
  simp only [StateT.run_bind]
  rcases x.run.run s with ⟨r, s'⟩
  cases r <;> rfl

@[simp]
theorem wp_map (f : α → β) {Q : β → S → Prop} :
    wp (f <$> x) Q E s = wp x (fun a => Q (f a)) E s := by
  rw [map_eq_pure_bind, wp_bind]
  rfl

theorem run_tryCatch (h : ε → ExceptT ε (StateM S) α) :
    (tryCatch x h).run.run s = match x.run.run s with
      | (.ok a, s') => (.ok a, s')
      | (.error e, s') => (h e).run.run s' := by
  show (ExceptT.tryCatch x h).run.run s = _
  simp only [ExceptT.tryCatch, ExceptT.run_mk, StateT.run_bind]
  change (do let p ← x.run.run s; _) = _
  rcases x.run.run s with ⟨r, s'⟩
  cases r <;> rfl

@[simp]
theorem wp_tryCatch (h : ε → ExceptT ε (StateM S) α) :
    wp (tryCatch x h) Q E s = wp x Q (fun e => wp (h e) Q E) s := by
  unfold wp
  rw [run_tryCatch]
  rcases x.run.run s with ⟨r, s'⟩
  cases r <;> rfl

@[simp]
theorem wp_ite (c : Prop) [Decidable c] (y z : ExceptT ε (StateM S) α) :
    wp (if c then y else z) Q E s = if c then wp y Q E s else wp z Q E s := by
  split <;> rfl

@[simp]
theorem wp_get {Q : S → S → Prop} : wp (get : ExceptT ε (StateM S) S) Q E s = Q s s := rfl

@[simp]
theorem wp_set (s' : S) {Q : PUnit → S → Prop} :
    wp (set s' : ExceptT ε (StateM S) PUnit) Q E s = Q ⟨⟩ s' := rfl

@[simp]
theorem wp_modify (f : S → S) {Q : PUnit → S → Prop} :
    wp (modify f : ExceptT ε (StateM S) PUnit) Q E s = Q ⟨⟩ (f s) := rfl

end Rules

/-- Every run of `x` ends in a state related to the one it started from, whether it fails or
not: what a computation leaves alone (or only lets grow) along all its runs. -/
def Stays (R : S → S → Prop) (x : ExceptT ε (StateM S) α) : Prop :=
  ∀ s, wp x (fun _ s' => R s s') (fun _ s' => R s s') s

namespace Stays

variable {R : S → S → Prop} {x : ExceptT ε (StateM S) α}

theorem wp (hx : Stays R x) {Q : α → S → Prop} {E : ε → S → Prop} {s : S}
    (hq : ∀ a s', R s s' → Q a s') (he : ∀ e s', R s s' → E e s') : Files.wp x Q E s :=
  wp_mono (hx s) hq he

theorem pure [Std.Refl R] (a : α) : Stays R (pure a : ExceptT ε (StateM S) α) :=
  fun s => Std.Refl.refl s

theorem throw [Std.Refl R] (e : ε) : Stays R (throw e : ExceptT ε (StateM S) α) :=
  fun s => Std.Refl.refl s

theorem bind [Trans R R R] {f : α → ExceptT ε (StateM S) β} (hx : Stays R x)
    (hf : ∀ a, Stays R (f a)) : Stays R (x >>= f) := by
  intro s
  rw [wp_bind]
  exact hx.wp (fun a s' h => (hf a).wp (fun _ _ h' => Trans.trans h h') fun _ _ h' => Trans.trans h h')
    fun _ _ h => h

theorem tryCatch [Trans R R R] {h : ε → ExceptT ε (StateM S) α} (hx : Stays R x)
    (hh : ∀ e, Stays R (h e)) : Stays R (tryCatch x h) := by
  intro s
  rw [wp_tryCatch]
  exact hx.wp (fun _ _ h => h)
    fun e s' h => (hh e).wp (fun _ _ h' => Trans.trans h h') fun _ _ h' => Trans.trans h h'

theorem map {f : α → β} (hx : Stays R x) : Stays R (f <$> x) := by
  intro s
  rw [wp_map]
  exact hx s

theorem ite {c : Prop} [Decidable c] {y z : ExceptT ε (StateM S) α} (hy : Stays R y)
    (hz : Stays R z) : Stays R (if c then y else z) := by
  split
  · exact hy
  · exact hz

theorem get [Std.Refl R] : Stays R (get : ExceptT ε (StateM S) S) :=
  fun s => Std.Refl.refl s

end Stays

/-- A system computation run with a wider error type fails as it did, with its error wrapped. -/
@[simp]
theorem wp_onMachine_io (wrap : IoFault → ε) (x : Io α) {Q : α → Machine → Prop}
    {E : ε → Machine → Prop} {m : Machine} :
    wp (OnMachine.io wrap x) Q E m = wp x Q (fun e => E (wrap e)) m := by
  unfold wp OnMachine.io
  simp only [ExceptT.run_mk, StateT.run_bind]
  rcases x.run.run m with ⟨r, m'⟩
  cases r <;> rfl

theorem Stays.onMachine_io {R : Machine → Machine → Prop} (wrap : IoFault → ε) {x : Io α}
    (hx : Stays R x) : Stays R (OnMachine.io wrap x) := by
  intro m
  rw [wp_onMachine_io]
  exact hx m

end EntityLog.Files

namespace EntityLog.Log

open EntityLog.Files

variable {α : Type} {Q : α → Machine × DurableLog → Prop} {E : WalError → Machine × DurableLog → Prop}
  {m : Machine} {l : DurableLog}

/-- A machine computation leaves the log as it is. -/
theorem run_wal (x : Wal α) :
    (LogIo.wal x).run.run (m, l) = ((x.run.run m).1, ((x.run.run m).2, l)) := rfl

@[simp]
theorem wp_wal (x : Wal α) :
    wp (LogIo.wal x) Q E (m, l) = wp x (fun a m' => Q a (m', l)) (fun e m' => E e (m', l)) m := by
  unfold wp
  rw [run_wal]
  rcases x.run.run m with ⟨r, m'⟩
  cases r <;> rfl

@[simp]
theorem wp_io (x : Io α) :
    wp (LogIo.io x) Q E (m, l) = wp x (fun a m' => Q a (m', l)) (fun e m' => E (.io e) (m', l)) m := by
  simp [LogIo.io, Wal.io]

@[simp]
theorem wp_log {Q : DurableLog → Machine × DurableLog → Prop} :
    wp LogIo.log Q E (m, l) = Q l (m, l) := rfl

@[simp]
theorem wp_update (f : DurableLog → DurableLog) {Q : Unit → Machine × DurableLog → Prop} :
    wp (LogIo.update f) Q E (m, l) = Q () (m, f l) := rfl

theorem run_runOn (x : LogIo α) :
    (LogIo.runOn x l).run.run m =
      (.ok ((x.run.run (m, l)).1, (x.run.run (m, l)).2.2), (x.run.run (m, l)).2.1) := rfl

/-- Running a log computation on a machine never fails: its outcome is the value. -/
@[simp]
theorem wp_runOn (x : LogIo α) {Q : Except WalError α × DurableLog → Machine → Prop}
    {E : WalError → Machine → Prop} :
    wp (LogIo.runOn x l) Q E m =
      wp x (fun a s => Q (.ok a, s.2) s.1) (fun e s => Q (.error e, s.2) s.1) (m, l) := by
  unfold wp
  rw [run_runOn]
  rcases x.run.run (m, l) with ⟨r, m', l'⟩
  cases r <;> rfl

end EntityLog.Log
