import EntityLog.Proofs.Files.Contents
/-!
# Crashes

A process that crashes has made some of its file-system calls and not the rest; what it kept in
memory is gone, and the disk is what those calls left. Calls are numbered, so a crash after the
first `k` calls is a run under the fault plan `stopAt k`, in which every call from the `k`-th on
fails before it has any effect: once the calls stop, a run only goes on to fail, and leaves the
files as they were (`Idle`; only the counter that numbers inodes and lock tokens may move,
`Disk.Later`). A call that writes bytes may also be cut part way; `Torn before after d` says that
`d` is what such a call, taking the disk from `before` to `after`, can leave.

`Traced x s r s' C` follows one computation through every crash point: run from `s` with no call
stopped it gives `r` and `s'`; stopped at any `k` past its last call it gives the same; and
stopped at a `k` among its own calls, the crashed run's result and the disks that the crashes at
`k` and at `k + 1` leave satisfy `C`. `Walk x s C Q E` is the `wp` of `x` together with its
crash points, and is proved the way a `wp` is: call by call along the definition
(`Walk.call`, `Walk.bind`, `Walk.tryCatch`), where the postcondition of each call also says
what a crash at that call leaves (`AtCall`). Where a crashed step succeeds, what follows it is
run from the stopped state and must itself be idle there (`Continues`, `Handles`).

The computations run on a machine or on a machine with more state beside it (`Carries`).
-/

namespace EntityLog.Files

/-- The fault plan under which every call from the `k`-th on fails. -/
def stopAt (k : Nat) (n : Nat) : Option IoFault := if k ≤ n then some .wouldBlock else none

theorem stopAt_of_lt {k n : Nat} (h : n < k) : stopAt k n = none := if_neg (by omega)

theorem stopAt_of_le {k n : Nat} (h : k ≤ n) : stopAt k n = some .wouldBlock := if_pos h

/-- `d'` is `d` with perhaps a later counter and fewer locks: the same names, files and working
directory. Drawing a lock token moves the counter and touches no file, and a process that lets go
of a lock file gives up its lock even when it cannot make the call. -/
structure Disk.Later (d d' : Disk) : Prop where
  names : d'.names = d.names
  inodes : d'.inodes = d.inodes
  cwd : d'.cwd = d.cwd
  locks : d'.locks ⊆ d.locks
  fresh : d.fresh ≤ d'.fresh

namespace Disk.Later

variable {d d' d'' : Disk}

theorem refl (d : Disk) : Later d d := ⟨rfl, rfl, rfl, List.Subset.refl _, le_rfl⟩

theorem trans (h : Later d d') (h' : Later d' d'') : Later d d'' :=
  ⟨h'.names.trans h.names, h'.inodes.trans h.inodes, h'.cwd.trans h.cwd,
    List.Subset.trans h'.locks h.locks, h.fresh.trans h'.fresh⟩

theorem bytesOf (h : Later d d') (i : Nat) : d'.bytesOf i = d.bytesOf i :=
  Disk.bytesOf_of_inodes h.inodes i

theorem newToken (d : Disk) : Later d d.newToken.1 :=
  ⟨rfl, rfl, rfl, List.Subset.refl _, Nat.le_succ _⟩

theorem unlock (d : Disk) (token : Nat) : Later d (d.unlock token) :=
  ⟨rfl, rfl, rfl, List.filter_subset_self _, le_rfl⟩

end Disk.Later

/-- States of a computation that carry the machine it runs on. -/
class Carries (S : Type) where
  machine : S → Machine
  /-- The state with another fault plan. -/
  replan : (Nat → Option IoFault) → S → S
  machine_replan : ∀ f s, machine (replan f s) = { machine s with faults := f }

instance : Carries Machine := ⟨id, fun f m => { m with faults := f }, fun _ _ => rfl⟩

instance {σ : Type} : Carries (Machine × σ) :=
  ⟨Prod.fst, fun f s => ({ s.1 with faults := f }, s.2), fun _ _ => rfl⟩

namespace Carries

variable {S : Type} [Carries S]

/-- The state whose calls fail from the `k`-th on. -/
def stop (k : Nat) (s : S) : S := replan (stopAt k) s

/-- The calls made so far. -/
def calls (s : S) : Nat := (machine s).calls

/-- The disk. -/
def disk (s : S) : Disk := (machine s).disk

/-- Every call from now on fails. -/
def Stopped (s : S) : Prop := ∀ n, calls s ≤ n → (machine s).faults n = some .wouldBlock

@[simp] theorem calls_stop (k : Nat) (s : S) : calls (stop k s) = calls s := by
  simp [calls, stop, machine_replan]

@[simp] theorem disk_stop (k : Nat) (s : S) : disk (stop k s) = disk s := by
  simp [disk, stop, machine_replan]

@[simp] theorem calls_machine (m : Machine) : calls m = m.calls := rfl

@[simp] theorem disk_machine (m : Machine) : disk m = m.disk := rfl

@[simp] theorem stop_machine (k : Nat) (m : Machine) : stop k m = { m with faults := stopAt k } :=
  rfl

theorem stopped_stop {k : Nat} {s : S} (h : k ≤ calls s) : Stopped (stop k s) := by
  intro n hn
  simp only [calls_stop] at hn
  simp only [stop, machine_replan]
  exact stopAt_of_le (by omega)

end Carries

open Carries

/-- `s'` follows the stopped state `s` along a run that only went on to fail: its calls are still
stopped, and the files are as `s` left them. -/
def Idle {S : Type} [Carries S] (s s' : S) : Prop := Stopped s' ∧ Disk.Later (disk s) (disk s')

theorem Idle.refl {S : Type} [Carries S] {s : S} (h : Stopped s) : Idle s s := ⟨h, .refl _⟩

theorem Idle.trans {S : Type} [Carries S] {s s' s'' : S} (h : Idle s s') (h' : Idle s' s'') :
    Idle s s'' :=
  ⟨h'.1, h.2.trans h'.2⟩

/-! ## Tracing a computation through its crash points -/

section Traced

variable {S ε α β : Type} [Carries S]

/-- `x` run from `s` gives `r` and `s'`, and does so too when the calls stop only after its
last; stopped at one of its own calls, the crashed run is stopped, and its result with the disks
the crashes at that call and at the next leave (or any with a later counter) satisfy `C`.
Stopped before its first call it leaves the files alone. -/
structure Traced (x : ExceptT ε (StateM S) α) (s : S) (r : Except ε α) (s' : S)
    (C : Except ε α → Disk → Disk → Prop) : Prop where
  run : x.run.run s = (r, s')
  done : ∀ k, calls s' ≤ k → x.run.run (stop k s) = (r, stop k s')
  crash : ∀ k, calls s ≤ k → k < calls s' → Stopped (x.run.run (stop k s)).2 ∧
    ∀ D D', Disk.Later (disk (x.run.run (stop k s)).2) D →
      Disk.Later (disk (x.run.run (stop (k + 1) s)).2) D' → C (x.run.run (stop k s)).1 D D'
  calls_le : calls s ≤ calls s'
  still : Disk.Later (disk s) (disk (x.run.run (stop (calls s) s)).2)

variable {x : ExceptT ε (StateM S) α} {s s' : S} {r : Except ε α}
  {C C' : Except ε α → Disk → Disk → Prop}

theorem Traced.mono (h : Traced x s r s' C) (hC : ∀ r D D', C r D D' → C' r D D') :
    Traced x s r s' C' :=
  ⟨h.run, h.done, fun k hk hk' => ⟨(h.crash k hk hk').1,
    fun D D' hD hD' => hC _ _ _ ((h.crash k hk hk').2 D D' hD hD')⟩, h.calls_le, h.still⟩

/-- The trace of a run, stated at the run's own outcome. -/
theorem Traced.actual (h : Traced x s r s' C) :
    Traced x s (x.run.run s).1 (x.run.run s).2 C := by
  rw [h.run]
  exact h

/-- A computation that makes no call, leaves the fault plan alone and touches no file has no
crash point. -/
theorem Traced.of_steps (hrun : x.run.run s = (r, s'))
    (hdone : ∀ k, x.run.run (stop k s) = (r, stop k s')) (hcalls : calls s' = calls s)
    (hdisk : Disk.Later (disk s) (disk s')) : Traced x s r s' C :=
  ⟨hrun, fun k _ => hdone k, fun k hk hk' => absurd hk' (by omega), hcalls.ge,
    by rw [hdone, disk_stop]; exact hdisk⟩

theorem Traced.pure (a : α) (s : S) : Traced (pure a : ExceptT ε (StateM S) α) s (.ok a) s C :=
  .of_steps rfl (fun _ => rfl) rfl (.refl _)

theorem Traced.throw (e : ε) (s : S) :
    Traced (throw e : ExceptT ε (StateM S) α) s (.error e) s C :=
  .of_steps rfl (fun _ => rfl) rfl (.refl _)

/-- Runs `x`, then `g` on its outcome: a step and what follows it, whether it failed or not. -/
def onOutcome (x : ExceptT ε (StateM S) α) (g : Except ε α → ExceptT ε (StateM S) β) :
    ExceptT ε (StateM S) β :=
  ExceptT.mk (x.run >>= fun r => (g r).run)

omit [Carries S] in
theorem run_onOutcome (g : Except ε α → ExceptT ε (StateM S) β) (t : S) :
    (onOutcome x g).run.run t = (g (x.run.run t).1).run.run (x.run.run t).2 := rfl

omit [Carries S] in
theorem run_bind_eq_onOutcome (f : α → ExceptT ε (StateM S) β) (t : S) :
    (x >>= f).run.run t = (onOutcome x fun r => match r with
      | .ok a => f a
      | .error e => throw e).run.run t := by
  rw [run_onOutcome, ExceptT.run_bind]
  simp only [StateT.run_bind]
  rcases x.run.run t with ⟨r', t'⟩
  cases r' <;> rfl

omit [Carries S] in
theorem run_tryCatch_eq_onOutcome (h : ε → ExceptT ε (StateM S) α) (t : S) :
    (tryCatch x h).run.run t = (onOutcome x fun r => match r with
      | .ok a => pure a
      | .error e => h e).run.run t := by
  rw [run_onOutcome, run_tryCatch]
  rcases x.run.run t with ⟨r', t'⟩
  cases r' <;> rfl

/-- Two computations that run alike are traced alike. -/
theorem Traced.congr {y : ExceptT ε (StateM S) α} (hxy : ∀ t, y.run.run t = x.run.run t)
    (h : Traced x s r s' C) : Traced y s r s' C :=
  ⟨(hxy s).trans h.run, fun k hk => (hxy _).trans (h.done k hk),
    fun k hk hk' => by rw [hxy, hxy]; exact h.crash k hk hk', h.calls_le,
    by rw [hxy]; exact h.still⟩

/-- A computation that does some bookkeeping, with no call and no file touched, and then runs
`x` from `t`, the same under every fault plan, is traced as `x` is from `t`. -/
theorem Traced.shift {y : ExceptT ε (StateM S) α} {t : S} (hrun : y.run.run s = x.run.run t)
    (hstop : ∀ k, y.run.run (stop k s) = x.run.run (stop k t)) (hcalls : calls t = calls s)
    (hdisk : Disk.Later (disk s) (disk t)) (h : Traced x t r s' C) : Traced y s r s' C where
  run := hrun.trans h.run
  done k hk := (hstop k).trans (h.done k hk)
  crash k hk hk' := by
    rw [hstop, hstop]
    exact h.crash k (by rw [hcalls]; exact hk) hk'
  calls_le := hcalls ▸ h.calls_le
  still := by
    rw [← hcalls, hstop]
    exact hdisk.trans h.still

/-- What follows a crashed step runs from the stopped state on the step's outcome, stays idle
there, and its outcome satisfies `C` with the disks of the crash. -/
def Follows (g : Except ε α → ExceptT ε (StateM S) β) (Cx : Except ε α → Disk → Disk → Prop)
    (C : Except ε β → Disk → Disk → Prop) : Prop :=
  ∀ r D D', Cx r D D' → ∀ t, Stopped t →
    wp (g r) (fun b t' => C (.ok b) D D' ∧ Idle t t') (fun e t' => C (.error e) D D' ∧ Idle t t') t

theorem Follows.run {g : Except ε α → ExceptT ε (StateM S) β}
    {Cx : Except ε α → Disk → Disk → Prop} {C : Except ε β → Disk → Disk → Prop}
    (hg : Follows g Cx C) {r : Except ε α} {D D' : Disk} (hC : Cx r D D') {t : S}
    (ht : Stopped t) : C ((g r).run.run t).1 D D' ∧ Idle t ((g r).run.run t).2 := by
  have hw := hg r D D' hC t ht
  unfold wp at hw
  rcases hrun : (g r).run.run t with ⟨r', t'⟩
  rw [hrun] at hw
  cases r' <;> exact hw

/-- The crashes of a step and of what follows it on its outcome. -/
theorem Traced.followedBy {g : Except ε α → ExceptT ε (StateM S) β} {r₁ : Except ε α} {s₁ s₂ : S}
    {r₂ : Except ε β} {Cx : Except ε α → Disk → Disk → Prop} {Cg C : Except ε β → Disk → Disk → Prop}
    (hx : Traced x s r₁ s₁ Cx) (hg : Traced (g r₁) s₁ r₂ s₂ Cg) (hcx : Follows g Cx C)
    (hcg : ∀ r D D', Cg r D D' → C r D D') : Traced (onOutcome x g) s r₂ s₂ C := by
  -- a run of the step stopped before its end goes on idle
  have hafter : ∀ k, calls s ≤ k → k < calls s₁ →
      Idle (x.run.run (stop k s)).2 ((onOutcome x g).run.run (stop k s)).2 ∧
      ∀ D D', Disk.Later (disk (x.run.run (stop k s)).2) D →
        Disk.Later (disk (x.run.run (stop (k + 1) s)).2) D' →
        C ((onOutcome x g).run.run (stop k s)).1 D D' := by
    intro k hk hk'
    obtain ⟨hstop, hC⟩ := hx.crash k hk hk'
    rw [run_onOutcome]
    exact ⟨(hcx.run (hC _ _ (.refl _) (.refl _)) hstop).2,
      fun D D' hD hD' => (hcx.run (hC D D' hD hD') hstop).1⟩
  -- a crash right at the step's end finds what follows stopped at its start
  have hend : Disk.Later (disk s₁) (disk ((onOutcome x g).run.run (stop (calls s₁) s)).2) := by
    rw [run_onOutcome, hx.done _ le_rfl]
    exact hg.still
  have hnext : ∀ k, calls s ≤ k → k < calls s₁ →
      Disk.Later (disk (x.run.run (stop (k + 1) s)).2)
        (disk ((onOutcome x g).run.run (stop (k + 1) s)).2) := by
    intro k hk hk'
    rcases Nat.lt_or_ge (k + 1) (calls s₁) with hlt | hge
    · exact (hafter (k + 1) (by omega) hlt).1.2
    · have hk1 : k + 1 = calls s₁ := by omega
      rw [hk1, hx.done _ le_rfl, disk_stop]
      exact hend
  refine ⟨?_, fun k hk => ?_, fun k hk hk' => ?_, hx.calls_le.trans hg.calls_le, ?_⟩
  · rw [run_onOutcome, hx.run]
    exact hg.run
  · rw [run_onOutcome, hx.done k (hg.calls_le.trans hk)]
    exact hg.done k hk
  · rcases Nat.lt_or_ge k (calls s₁) with hlt | hge
    · -- the crash falls within the step
      obtain ⟨hidle, hC⟩ := hafter k hk hlt
      exact ⟨hidle.1, fun D D' hD hD' => hC D D' (hidle.2.trans hD) ((hnext k hk hlt).trans hD')⟩
    · -- the crash falls within what follows
      have hk1 : calls s₁ ≤ k + 1 := by omega
      obtain ⟨hc, hC⟩ := hg.crash k hge hk'
      rw [run_onOutcome, run_onOutcome, hx.done k hge, hx.done (k + 1) hk1]
      exact ⟨hc, fun D D' hD hD' => hcg _ _ _ (hC D D' hD hD')⟩
  · rcases Nat.lt_or_ge (calls s) (calls s₁) with hlt | hge
    · -- stopped at its start, the step crashes at its first call
      exact hx.still.trans (hafter _ le_rfl hlt).1.2
    · have hx0 := hx.still
      rw [hx.done _ hge, disk_stop] at hx0
      have hg0 := hg.still
      rw [show calls s₁ = calls s from le_antisymm hge hx.calls_le] at hg0
      rw [run_onOutcome, hx.done _ hge]
      exact hx0.trans hg0

/-- What follows a crashed step of a `bind`: the step's error is kept, and a value goes on to
what follows, run from the stopped state. -/
def Continues (f : α → ExceptT ε (StateM S) β) (Cx : Except ε α → Disk → Disk → Prop)
    (C : Except ε β → Disk → Disk → Prop) : Prop :=
  ∀ r D D', Cx r D D' → (∀ e, r = .error e → C (.error e) D D') ∧
    ∀ a, r = .ok a → ∀ t, Stopped t → wp (f a) (fun b t' => C (.ok b) D D' ∧ Idle t t')
      (fun e t' => C (.error e) D D' ∧ Idle t t') t

/-- A step whose crashed runs all fail needs nothing of what follows. -/
theorem Continues.of_error {f : α → ExceptT ε (StateM S) β}
    {Cx : Except ε α → Disk → Disk → Prop} {C : Except ε β → Disk → Disk → Prop}
    (h : ∀ r D D', Cx r D D' → ∃ e, r = .error e ∧ C (.error e) D D') : Continues f Cx C := by
  intro r D D' hr
  obtain ⟨e, rfl, he⟩ := h r D D' hr
  refine ⟨fun e' he' => ?_, fun a ha => by cases ha⟩
  cases he'
  exact he

theorem Continues.follows {f : α → ExceptT ε (StateM S) β} {Cx : Except ε α → Disk → Disk → Prop}
    {C : Except ε β → Disk → Disk → Prop} (h : Continues f Cx C) :
    Follows (fun r => match r with
      | .ok a => f a
      | .error e => throw e) Cx C := by
  intro r D D' hr t ht
  cases r with
  | ok a => exact (h _ _ _ hr).2 a rfl t ht
  | error e => exact ⟨(h _ _ _ hr).1 e rfl, Idle.refl ht⟩

/-- The crashes of a step that succeeds followed by another. -/
theorem Traced.bind_ok {f : α → ExceptT ε (StateM S) β} {a : α} {s₁ s₂ : S} {r₂ : Except ε β}
    {Cx : Except ε α → Disk → Disk → Prop} {Cf C : Except ε β → Disk → Disk → Prop}
    (hx : Traced x s (.ok a) s₁ Cx) (hf : Traced (f a) s₁ r₂ s₂ Cf) (hcx : Continues f Cx C)
    (hcf : ∀ r D D', Cf r D D' → C r D D') : Traced (x >>= f) s r₂ s₂ C :=
  .congr (run_bind_eq_onOutcome f) (hx.followedBy hf hcx.follows hcf)

/-- The crashes of a step that fails: what follows never runs unless a crash made the step
succeed. -/
theorem Traced.bind_error {f : α → ExceptT ε (StateM S) β} {e : ε} {s₁ : S}
    {Cx : Except ε α → Disk → Disk → Prop} {C : Except ε β → Disk → Disk → Prop}
    (hx : Traced x s (.error e) s₁ Cx) (hcx : Continues f Cx C) :
    Traced (x >>= f) s (.error e) s₁ C :=
  .congr (run_bind_eq_onOutcome f) (hx.followedBy (.throw e s₁) hcx.follows fun _ _ _ h => h)

/-- What follows a crashed step of a `tryCatch`: a value is kept, and an error goes to the
handler, run from the stopped state. -/
def Handles (h : ε → ExceptT ε (StateM S) α) (Cx C : Except ε α → Disk → Disk → Prop) : Prop :=
  ∀ r D D', Cx r D D' → (∀ a, r = .ok a → C (.ok a) D D') ∧
    ∀ e, r = .error e → ∀ t, Stopped t → wp (h e) (fun b t' => C (.ok b) D D' ∧ Idle t t')
      (fun e t' => C (.error e) D D' ∧ Idle t t') t

theorem Handles.follows {h : ε → ExceptT ε (StateM S) α} {Cx C : Except ε α → Disk → Disk → Prop}
    (hh : Handles h Cx C) :
    Follows (fun r => match r with
      | .ok a => pure a
      | .error e => h e) Cx C := by
  intro r D D' hr t ht
  cases r with
  | ok a => exact ⟨(hh _ _ _ hr).1 a rfl, Idle.refl ht⟩
  | error e => exact (hh _ _ _ hr).2 e rfl t ht

/-- The crashes of a caught step that succeeds. -/
theorem Traced.tryCatch_ok {h : ε → ExceptT ε (StateM S) α} {a : α} {s₁ : S}
    {Cx : Except ε α → Disk → Disk → Prop} (hx : Traced x s (.ok a) s₁ Cx)
    (hcx : Handles h Cx C) : Traced (tryCatch x h) s (.ok a) s₁ C :=
  .congr (run_tryCatch_eq_onOutcome h) (hx.followedBy (.pure a s₁) hcx.follows fun _ _ _ h => h)

/-- The crashes of a caught step that fails, and of its handler. -/
theorem Traced.tryCatch_error {h : ε → ExceptT ε (StateM S) α} {e : ε} {s₁ s₂ : S}
    {Cx Ch : Except ε α → Disk → Disk → Prop} (hx : Traced x s (.error e) s₁ Cx)
    (hh : Traced (h e) s₁ r s₂ Ch) (hcx : Handles h Cx C)
    (hch : ∀ r D D', Ch r D D' → C r D D') : Traced (tryCatch x h) s r s₂ C :=
  .congr (run_tryCatch_eq_onOutcome h) (hx.followedBy hh hcx.follows hch)

omit [Carries S] in
/-- A run described by its `wp`. -/
theorem run_eq_of_wp {t : S}
    (h : wp x (fun a s' => (Except.ok a, s') = (r, t)) (fun e s' => (Except.error e, s') = (r, t))
      s) : x.run.run s = (r, t) := by
  unfold wp at h
  rcases hx : x.run.run s with ⟨r', s'⟩
  rw [hx] at h
  cases r' <;> exact h

/-- A computation run on a part of another state, or on a state with a part beside it, crashes
as it does on its own: the runs correspond through `ψ`, which keeps the machine and commutes with
stopping the calls. -/
theorem Traced.map {S' ε' β : Type} [Carries S'] {y : ExceptT ε' (StateM S') β}
    (ρ : Except ε α → S → Except ε' β) (hρ : ∀ k r t, ρ r (stop k t) = ρ r t) (ψ : S → S')
    (hψ : ∀ k t, ψ (stop k t) = stop k (ψ t))
    (hmachine : ∀ t, Carries.machine (ψ t) = Carries.machine t)
    (hrun : y.run.run (ψ s) = (ρ (x.run.run s).1 (x.run.run s).2, ψ (x.run.run s).2))
    (hstop : ∀ k, y.run.run (ψ (stop k s)) =
      (ρ (x.run.run (stop k s)).1 (x.run.run (stop k s)).2, ψ (x.run.run (stop k s)).2))
    {C' : Except ε' β → Disk → Disk → Prop} (hC : ∀ r t D D', C r D D' → C' (ρ r t) D D')
    (h : Traced x s r s' C) : Traced y (ψ s) (ρ r s') (ψ s') C' := by
  have hcalls : ∀ t, calls (ψ t) = calls t := fun t => by simp only [calls, hmachine]
  have hdisk : ∀ t, disk (ψ t) = disk t := fun t => by simp only [disk, hmachine]
  have hstopped : ∀ t, Stopped (ψ t) ↔ Stopped t := fun t => by
    simp only [Stopped, hcalls, hmachine]
  refine ⟨by rw [hrun, h.run], fun k hk => ?_, fun k hk hk' => ?_, ?_, ?_⟩
  · rw [hcalls] at hk
    rw [← hψ, hstop, h.done k hk, hψ, hρ]
  · rw [hcalls] at hk hk'
    obtain ⟨hc, hC'⟩ := h.crash k hk hk'
    rw [← hψ, ← hψ, hstop, hstop, hstopped, hdisk, hdisk]
    exact ⟨hc, fun D D' hD hD' => hC _ _ _ _ (hC' D D' hD hD')⟩
  · rw [hcalls, hcalls]
    exact h.calls_le
  · rw [hcalls, ← hψ, hstop, hdisk, hdisk]
    exact h.still

end Traced

/-! ## Walking a computation through its calls -/

section Walk

variable {S ε α β : Type} [Carries S]

/-- `x` run from `s` ends as `Q` or `E` say, and every crash at one of its calls satisfies `C`. -/
def Walk (x : ExceptT ε (StateM S) α) (s : S) (C : Except ε α → Disk → Disk → Prop)
    (Q : α → S → Prop) (E : ε → S → Prop) : Prop :=
  wp x Q E s ∧ Traced x s (x.run.run s).1 (x.run.run s).2 C

variable {x : ExceptT ε (StateM S) α} {s : S} {C C' : Except ε α → Disk → Disk → Prop}
  {Q Q' : α → S → Prop} {E E' : ε → S → Prop}

theorem Walk.mono (h : Walk x s C Q E) (hC : ∀ r D D', C r D D' → C' r D D')
    (hQ : ∀ a s', Q a s' → Q' a s') (hE : ∀ e s', E e s' → E' e s') : Walk x s C' Q' E' :=
  ⟨wp_mono h.1 hQ hE, h.2.mono hC⟩

/-- A walk together with what else the computation is known to give. -/
theorem Walk.and (h : Walk x s C Q E) (h' : wp x Q' E' s) :
    Walk x s C (fun a s' => Q a s' ∧ Q' a s') (fun e s' => E e s' ∧ E' e s') :=
  ⟨wp_and h.1 h', h.2⟩

theorem Walk.pure {a : α} (h : Q a s) : Walk (pure a : ExceptT ε (StateM S) α) s C Q E :=
  ⟨h, Traced.pure a s⟩

theorem Walk.throw {e : ε} (h : E e s) : Walk (throw e : ExceptT ε (StateM S) α) s C Q E :=
  ⟨h, Traced.throw e s⟩

/-- A computation that makes no call and touches no file, walked by its outcome. -/
theorem Walk.of_steps {r : Except ε α} {s' : S} (hrun : x.run.run s = (r, s'))
    (hdone : ∀ k, x.run.run (stop k s) = (r, stop k s')) (hcalls : calls s' = calls s)
    (hdisk : Disk.Later (disk s) (disk s')) (h : wp x Q E s) : Walk x s C Q E :=
  ⟨h, (Traced.of_steps hrun hdone hcalls hdisk).actual⟩

/-- A computation walked as what it runs after its bookkeeping, as `Traced.shift` says. -/
theorem Walk.shift {y : ExceptT ε (StateM S) α} {t : S} (hrun : y.run.run s = x.run.run t)
    (hstop : ∀ k, y.run.run (stop k s) = x.run.run (stop k t)) (hcalls : calls t = calls s)
    (hdisk : Disk.Later (disk s) (disk t)) (h : Walk x t C Q E) : Walk y s C Q E := by
  obtain ⟨hw, ht⟩ := h
  refine ⟨?_, ?_⟩
  · unfold wp at hw ⊢
    rwa [hrun]
  · rw [hrun]
    exact ht.shift hrun hstop hcalls hdisk

theorem Walk.bind {f : α → ExceptT ε (StateM S) β} {C : Except ε β → Disk → Disk → Prop}
    {Q : β → S → Prop} {Cx : Except ε α → Disk → Disk → Prop}
    (hx : Walk x s Cx (fun a s₁ => Walk (f a) s₁ C Q E) E) (hcx : Continues f Cx C) :
    Walk (x >>= f) s C Q E := by
  obtain ⟨hw, ht⟩ := hx
  refine ⟨by rw [wp_bind]; exact wp_mono hw (fun _ _ h => h.1) fun _ _ h => h, ?_⟩
  unfold wp at hw
  rcases hrun : x.run.run s with ⟨r, s₁⟩
  rw [hrun] at hw ht
  cases r with
  | ok a => exact (ht.bind_ok hw.2 hcx fun _ _ _ h => h).actual
  | error e => exact (ht.bind_error hcx).actual

theorem Walk.tryCatch {h : ε → ExceptT ε (StateM S) α} {Cx : Except ε α → Disk → Disk → Prop}
    (hx : Walk x s Cx Q (fun e s₁ => Walk (h e) s₁ C Q E)) (hcx : Handles h Cx C) :
    Walk (tryCatch x h) s C Q E := by
  obtain ⟨hw, ht⟩ := hx
  refine ⟨by rw [wp_tryCatch]; exact wp_mono hw (fun _ _ h => h) fun _ _ h => h.1, ?_⟩
  unfold wp at hw
  rcases hrun : x.run.run s with ⟨r, s₁⟩
  rw [hrun] at hw ht
  cases r with
  | ok a => exact (ht.tryCatch_ok hcx).actual
  | error e => exact (ht.tryCatch_error hw.2 hcx fun _ _ _ h => h).actual

/-- A walk through a part of another state, as `Traced.map` says. -/
theorem Walk.map {S' ε' β : Type} [Carries S'] {y : ExceptT ε' (StateM S') β}
    (ρ : Except ε α → S → Except ε' β) (hρ : ∀ k r t, ρ r (stop k t) = ρ r t) (ψ : S → S')
    (hψ : ∀ k t, ψ (stop k t) = stop k (ψ t))
    (hmachine : ∀ t, Carries.machine (ψ t) = Carries.machine t)
    (hrun : y.run.run (ψ s) = (ρ (x.run.run s).1 (x.run.run s).2, ψ (x.run.run s).2))
    (hstop : ∀ k, y.run.run (ψ (stop k s)) =
      (ρ (x.run.run (stop k s)).1 (x.run.run (stop k s)).2, ψ (x.run.run (stop k s)).2))
    {C' : Except ε' β → Disk → Disk → Prop} {Q' : β → S' → Prop} {E' : ε' → S' → Prop}
    (hC : ∀ r t D D', C r D D' → C' (ρ r t) D D') (hw : wp x Q E s → wp y Q' E' (ψ s))
    (h : Walk x s C Q E) : Walk y (ψ s) C' Q' E' := by
  refine ⟨hw h.1, ?_⟩
  rw [hrun]
  exact h.2.map ρ hρ ψ hψ hmachine hrun hstop hC

end Walk

/-! ## Calls -/

section Calls

variable {α : Type} {f : Disk → Except IoFault (Disk × α)} {m : Machine}

theorem run_call_ok (hq : m.faults m.calls = none) {d : Disk} {a : α} (hf : f m.disk = .ok (d, a)) :
    (Io.call f).run.run m = (.ok a, { m with calls := m.calls + 1, disk := d }) :=
  run_eq_of_wp (by simp only [Io.call, wp_bind, wp_get, wp_set, hq, hf]; rfl)

theorem run_call_error (hq : m.faults m.calls = none) {e : IoFault} (hf : f m.disk = .error e) :
    (Io.call f).run.run m = (.error e, { m with calls := m.calls + 1 }) :=
  run_eq_of_wp (by simp only [Io.call, wp_bind, wp_get, wp_set, hq, hf]; rfl)

theorem run_call_fault {e : IoFault} (hq : m.faults m.calls = some e) :
    (Io.call f).run.run m = (.error e, { m with calls := m.calls + 1 }) :=
  run_eq_of_wp (by simp only [Io.call, wp_bind, wp_get, wp_set, hq]; rfl)

/-- Once the calls have stopped, a call fails and stays idle. -/
theorem Io.call_stopped (hm : Stopped m) {Q : α → Machine → Prop} {E : IoFault → Machine → Prop}
    (hE : ∀ m', Idle m m' → E .wouldBlock m') : wp (Io.call f) Q E m := by
  have hq : m.faults m.calls = some .wouldBlock := hm _ le_rfl
  unfold Files.wp
  rw [run_call_fault hq]
  exact hE _ ⟨fun n hn => hm n (by simp only [calls_machine] at hn ⊢; omega), .refl _⟩

/-- A call stopped at its own number fails and leaves the disk it found. -/
theorem run_call_stop : (Io.call f).run.run (stop m.calls m) =
    (.error .wouldBlock, { stop m.calls m with calls := m.calls + 1 }) :=
  run_call_fault (stopAt_of_le le_rfl)

/-- A call whose outcome is `r` and leaves `m'`: stopped at it, it fails and leaves the disk it
found, and the next crash point finds the disk it made. -/
theorem Traced.call {r : Except IoFault α} {m' : Machine} (hrun : (Io.call f).run.run m = (r, m'))
    (hdone : ∀ k, m.calls + 1 ≤ k → (Io.call f).run.run (stop k m) = (r, stop k m'))
    (hcalls : m'.calls = m.calls + 1) :
    Traced (Io.call f) m r m'
      (fun r D D' => r = .error .wouldBlock ∧ Disk.Later m.disk D ∧ Disk.Later m'.disk D') := by
  refine ⟨hrun, fun k hk => hdone k (by simpa [hcalls] using hk), fun k hk hk' => ?_,
    by simp [hcalls], by rw [calls_machine, run_call_stop]; exact .refl _⟩
  have hk : k = m.calls := by simp only [calls_machine, hcalls] at hk hk'; omega
  subst hk
  refine ⟨?_, fun D D' hD hD' => ⟨?_, ?_, ?_⟩⟩
  · rw [run_call_stop]
    intro n hn
    exact stopAt_of_le (by simp at hn; omega)
  · rw [run_call_stop]
  · rwa [run_call_stop] at hD
  · rwa [hdone _ le_rfl, disk_stop] at hD'

/-- What every crash at a call from `m` to `m'` must satisfy. -/
def AtCall (C : Except IoFault α → Disk → Disk → Prop) (m m' : Machine) : Prop :=
  ∀ D D', Disk.Later m.disk D → Disk.Later m'.disk D' → C (.error .wouldBlock) D D'

/-- A call is walked by its `wp`, whose postcondition also says what a crash at it leaves. -/
theorem Walk.call (hq : m.faults m.calls = none) {C : Except IoFault α → Disk → Disk → Prop}
    {Q : α → Machine → Prop} {E : IoFault → Machine → Prop}
    (h : wp (Io.call f) (fun a m' => Q a m' ∧ AtCall C m m') (fun e m' => E e m' ∧ AtCall C m m')
      m) : Walk (Io.call f) m C Q E := by
  refine ⟨wp_mono h (fun _ _ h => h.1) fun _ _ h => h.1, ?_⟩
  cases hf : f m.disk with
  | ok p =>
    obtain ⟨d, a⟩ := p
    have hrun := run_call_ok hq hf
    have hat : AtCall C m { m with calls := m.calls + 1, disk := d } := by
      unfold Files.wp at h
      rw [hrun] at h
      exact h.2
    refine (Traced.call hrun (fun k hk => run_call_ok (stopAt_of_lt (by simpa using hk)) hf)
      rfl).actual.mono fun r D D' hc => ?_
    obtain ⟨hr, hD, hD'⟩ := hc
    rw [hr]
    exact hat D D' hD hD'
  | error e =>
    have hrun := run_call_error hq hf
    have hat : AtCall C m { m with calls := m.calls + 1 } := by
      unfold Files.wp at h
      rw [hrun] at h
      exact h.2
    refine (Traced.call hrun (fun k hk => run_call_error (stopAt_of_lt (by simpa using hk)) hf)
      rfl).actual.mono fun r D D' hc => ?_
    obtain ⟨hr, hD, hD'⟩ := hc
    rw [hr]
    exact hat D D' hD hD'

end Calls

/-! ## Wider errors -/

section Wrap

variable {ε α : Type} {wrap : IoFault → ε} {x : Io α}

theorem run_onMachine_io (wrap : IoFault → ε) (x : Io α) (m : Machine) :
    (OnMachine.io wrap x).run.run m = ((x.run.run m).1.mapError wrap, (x.run.run m).2) := by
  refine run_eq_of_wp ?_
  rw [wp_onMachine_io]
  unfold Files.wp
  rcases x.run.run m with ⟨r', m'⟩
  cases r' <;> rfl

/-- A system computation run with a wider error type crashes as it did, its errors wrapped. -/
theorem Walk.io {m : Machine} {C : Except ε α → Disk → Disk → Prop} {Q : α → Machine → Prop}
    {E : ε → Machine → Prop}
    (h : Walk x m (fun r D D' => C (r.mapError wrap) D D') Q (fun e => E (wrap e))) :
    Walk (OnMachine.io wrap x) m C Q E :=
  h.map (fun r _ => r.mapError wrap) (fun _ _ _ => rfl) id (fun _ _ => rfl) (fun _ => rfl)
    (run_onMachine_io wrap x m) (fun _ => run_onMachine_io wrap x _) (fun _ _ _ _ h => h)
    (fun hw => by rw [wp_onMachine_io]; exact hw)

end Wrap

/-! ## What a cut call leaves -/

/-- A disk that a call taking the disk from `before` to `after` can leave when it is cut part
way: the names of `after`, and the bytes of every file those of `after` or, for a file whose
bytes the call changed, any first part of them. -/
structure Torn (before after d : Disk) : Prop where
  names : d.names = after.names
  cwd : d.cwd = after.cwd
  fresh : after.fresh ≤ d.fresh
  bytes : ∀ i, d.bytesOf i = after.bytesOf i ∨
    before.bytesOf i ≠ after.bytesOf i ∧ ∃ n, d.bytesOf i = (after.bytesOf i).extract 0 n

namespace Torn

variable {before after d : Disk}

theorem nodeAt (h : Torn before after d) (s : List String) : d.nodeAt s = after.nodeAt s := by
  simp [Disk.nodeAt, h.names]

theorem locate (h : Torn before after d) (p : Path) : d.locate p = after.locate p :=
  Disk.locate_of_cwd h.cwd p

/-- What a cut call leaves at a place: what the call left there, or a first part of it. -/
theorem fileAt (h : Torn before after d) (s : List String) :
    ∃ n, d.fileAt s = (after.fileAt s).map (·.extract 0 n) := by
  cases hn : after.nodeAt s with
  | none =>
    refine ⟨0, ?_⟩
    rw [Disk.fileAt_eq_none (by simp [h.nodeAt, hn]), Disk.fileAt_eq_none (by simp [hn])]
    rfl
  | some node =>
    cases node with
    | dir =>
      refine ⟨0, ?_⟩
      rw [Disk.fileAt_eq_none (by simp [h.nodeAt, hn]), Disk.fileAt_eq_none (by simp [hn])]
      rfl
    | file i =>
      rw [Disk.fileAt_of_nodeAt ((h.nodeAt s).trans hn), Disk.fileAt_of_nodeAt hn]
      rcases h.bytes i with hb | ⟨-, n, hb⟩
      · exact ⟨(after.bytesOf i).size, by simp [hb]⟩
      · exact ⟨n, by simp [hb]⟩

/-- A file whose bytes the call left alone is whole. -/
theorem fileAt_kept (h : Torn before after d) {s : List String} {i : Nat}
    (hn : after.nodeAt s = some (.file i)) (hb : before.bytesOf i = after.bytesOf i) :
    d.fileAt s = after.fileAt s := by
  rw [Disk.fileAt_of_nodeAt ((h.nodeAt s).trans hn), Disk.fileAt_of_nodeAt hn]
  rcases h.bytes i with hd | ⟨hne, -⟩
  · rw [hd]
  · exact absurd hb hne

/-- A call that changed no bytes cuts nothing. -/
theorem fileAt_of_inodes (h : Torn before after d) (hi : after.inodes = before.inodes)
    (s : List String) : d.fileAt s = after.fileAt s := by
  cases hn : after.nodeAt s with
  | none =>
    rw [Disk.fileAt_eq_none (by simp [h.nodeAt, hn]), Disk.fileAt_eq_none (by simp [hn])]
  | some node =>
    cases node with
    | dir =>
      rw [Disk.fileAt_eq_none (by simp [h.nodeAt, hn]), Disk.fileAt_eq_none (by simp [hn])]
    | file i => exact h.fileAt_kept hn (Disk.bytesOf_of_inodes hi i).symm

theorem sound (h : Torn before after d) (hs : after.Sound) : d.Sound :=
  ⟨fun h1 h2 => hs.unaliased (by rwa [← h.nodeAt]) (by rwa [← h.nodeAt]),
    fun h1 => (hs.lt_fresh (by rwa [← h.nodeAt])).trans_le h.fresh⟩

theorem reach (h : Torn before after d) (p : Path) : d.reach p = after.reach p := by
  simp only [Disk.reach, h.cwd, h.nodeAt]

theorem bare (h : Torn before after d) {P : List String → Prop} (hb : after.Bare P) : d.Bare P :=
  hb.of_nodeAt h.nodeAt

/-- A cut of a call is a cut of any call between the same files. -/
theorem later {D D' : Disk} (h : Torn D D' d) (hD : Disk.Later before D)
    (hD' : Disk.Later after D') : Torn before after d where
  names := h.names.trans hD'.names
  cwd := h.cwd.trans hD'.cwd
  fresh := hD'.fresh.trans h.fresh
  bytes i := by
    rw [← hD.bytesOf, ← hD'.bytesOf]
    exact h.bytes i

end Torn

/-- Every disk a crash can leave while a call takes the disk from `before` to `after` is good. -/
def Survives (Good : Disk → Prop) (before after : Disk) : Prop :=
  ∀ d, Torn before after d → Good d

theorem Survives.later {Good : Disk → Prop} {before after D D' : Disk}
    (h : Survives Good before after) (hD : Disk.Later before D) (hD' : Disk.Later after D') :
    Survives Good D D' :=
  fun d hd => h d (hd.later hD hD')

theorem Survives.mono {Good Good' : Disk → Prop} {before after : Disk}
    (h : Survives Good before after) (hG : ∀ d, Good d → Good' d) : Survives Good' before after :=
  fun d hd => hG d (h d hd)

/-! ## Computations whose crashes fail and leave good disks -/

section Crashes

variable {S ε ε' α β : Type} [Carries S] {Good : Disk → Prop}

/-- A crashed run that fails, at a call whose every cut leaves a good disk. -/
def Crashes (Good : Disk → Prop) (r : Except ε α) (D D' : Disk) : Prop :=
  (∃ e, r = .error e) ∧ Survives Good D D'

@[simp] theorem crashes_mapError (w : ε → ε') (r : Except ε α) (D D' : Disk) :
    Crashes Good (r.mapError w) D D' ↔ Crashes Good r D D' := by
  cases r <;> simp [Crashes, Except.mapError]

/-- What follows a step whose crashes fail never runs on a crash. -/
theorem Crashes.continues {f : α → ExceptT ε (StateM S) β} :
    Continues f (Crashes (ε := ε) (α := α) Good) (Crashes Good) := by
  refine Continues.of_error fun _ _ _ hc => ?_
  obtain ⟨⟨e, he⟩, hs⟩ := hc
  exact ⟨e, he, ⟨e, rfl⟩, hs⟩

/-- What follows a step whose crashes fail runs on no crash, whatever it may give. -/
theorem Crashes.continuesCut {f : α → ExceptT ε (StateM S) β} :
    Continues f (Crashes (ε := ε) (α := α) Good) (fun _ D D' => Survives Good D D') := by
  refine Continues.of_error fun _ _ _ hc => ?_
  obtain ⟨⟨e, he⟩, hs⟩ := hc
  exact ⟨e, he, hs⟩

theorem Crashes.mono {Good' : Disk → Prop} {r : Except ε α} {D D' : Disk}
    (h : Crashes Good r D D') (hG : ∀ d, Good d → Good' d) : Crashes Good' r D D' :=
  ⟨h.1, h.2.mono hG⟩

/-- A walk whose crashes leave good disks leaves disks good in any weaker sense. -/
theorem Walk.crashesMono {Good' : Disk → Prop} {x : ExceptT ε (StateM S) α} {s : S}
    {Q : α → S → Prop} {E : ε → S → Prop} (h : Walk x s (Crashes Good) Q E)
    (hG : ∀ d, Good d → Good' d) : Walk x s (Crashes Good') Q E :=
  h.mono (fun _ _ _ hc => hc.mono hG) (fun _ _ h => h) fun _ _ h => h

theorem Survives.atCall {m m' : Machine} (h : Survives Good m.disk m'.disk) :
    AtCall (Crashes (α := α) Good) m m' :=
  fun _ _ hD hD' => ⟨⟨.wouldBlock, rfl⟩, h.later hD hD'⟩

variable {f : Disk → Except IoFault (Disk × α)} {m : Machine} {Q : β → Machine → Prop}
  {E : IoFault → Machine → Prop}

/-- A call that succeeds, cut anywhere leaving a good disk, and what follows it. -/
theorem Walk.callThen (hq : m.faults m.calls = none) {g : α → Io β}
    (h : wp (Io.call f) (fun a m' => Walk (g a) m' (Crashes Good) Q E ∧
      Survives Good m.disk m'.disk) (fun _ _ => False) m) :
    Walk (Io.call f >>= g) m (Crashes Good) Q E :=
  Walk.bind (Walk.call hq (wp_mono h (fun _ _ h => ⟨h.1, h.2.atCall⟩) fun _ _ h => h.elim))
    Crashes.continues

/-- A call that succeeds, cut anywhere leaving a good disk. -/
theorem Walk.callLast (hq : m.faults m.calls = none) {Q : α → Machine → Prop}
    (h : wp (Io.call f) (fun a m' => Q a m' ∧ Survives Good m.disk m'.disk) (fun _ _ => False) m) :
    Walk (Io.call f) m (Crashes Good) Q E :=
  Walk.call hq (wp_mono h (fun _ _ h => ⟨h.1, h.2.atCall⟩) fun _ _ h => h.elim)

/-- A system computation whose crashes fail, run with a wider error type. -/
theorem Walk.ioCrashes {wrap : IoFault → ε} {x : Io α} {Q : α → Machine → Prop}
    {E : ε → Machine → Prop} (h : Walk x m (Crashes Good) Q (fun e => E (wrap e))) :
    Walk (OnMachine.io wrap x) m (Crashes Good) Q E :=
  Walk.io (h.mono (fun r D D' h => (crashes_mapError wrap r D D').2 h) (fun _ _ h => h)
    fun _ _ h => h)

end Crashes

end EntityLog.Files
