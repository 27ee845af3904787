import EntityLog.Proofs.Log.WriteCrashes
/-!
# Opening an empty log cut anywhere

The first open of a log, in a directory that holds none of its files, takes the lock, stores a
checkpoint at the start, creates the live file and copies it over the backup. Cut at any call,
it leaves a disk that opens at no bytes: the live file is missing or empty, and the checkpoint
file is missing or marks the start (`openLog_walk`). The lock is taken by writing the lock file
only (`acquire_walk`), which keeps whatever the log's files held.

Some steps of the open only look at the machine: whether this process already holds the lock,
and its process id. They make no call, and a stopped run takes them as the actual run does
(`Walk.checkSet`, `Walk.get_of`).
-/

namespace EntityLog.Log

open EntityLog.Files EntityLog.Files.Carries EntityLog.Record EntityLog.Json Path

/-! ## Steps that make no call -/

section Bookkeeping

variable {ε α : Type} {s : Machine} {C : Except ε α → Disk → Disk → Prop}
  {Q : α → Machine → Prop} {E : ε → Machine → Prop}

/-- A step that reads the machine for a value that stopping the calls does not change. -/
theorem Walk.get_of {f : Machine → ExceptT ε (StateM Machine) α}
    (hf : ∀ k, f (stop k s) = f s) (h : Walk (f s) s C Q E) : Walk (get >>= f) s C Q E := by
  refine Walk.shift (x := f s) (t := s) rfl (fun k => ?_) rfl (.refl _) h
  show (f (stop k s)).run.run (stop k s) = _
  rw [hf k]

/-- Marking something on the machine: a check that passes, then a change to the machine that
makes no call and leaves the disk alone. -/
theorem Walk.checkSet {p : Machine → Bool} {g : Machine → Machine}
    {A : Machine → ExceptT ε (StateM Machine) α} {R : ExceptT ε (StateM Machine) α}
    (hp : p s = false) (hpk : ∀ k, p (stop k s) = p s) (hg : ∀ k, g (stop k s) = stop k (g s))
    (hcalls : (g s).calls = s.calls) (hdisk : (g s).disk = s.disk)
    (h : ∀ t, t = g s → Walk R t C Q E) :
    Walk (get >>= fun t => if p t = true then A t else set (g t) >>= fun _ => R) s C Q E := by
  refine Walk.shift (x := R) ?_ (fun k => ?_) hcalls ?_ (h _ rfl)
  · show (if p s = true then A s else set (g s) >>= fun _ => R).run.run s = _
    rw [hp]
    rfl
  · show (if p (stop k s) = true then A (stop k s) else
      set (g (stop k s)) >>= fun _ => R).run.run (stop k s) = _
    rw [hpk, hp, hg]
    rfl
  · show Disk.Later s.disk (g s).disk
    rw [hdisk]
    exact .refl _

end Bookkeeping

/-! ## Calls that only look -/

section Looks

variable {α : Type} {Good : Disk → Prop} {m : Machine} {f : Disk → Except IoFault α}
  {Q : α → Machine → Prop} {E : IoFault → Machine → Prop}

/-- A crashed call: it failed for the stop, at a call whose every cut leaves a good disk. -/
def Blocks (Good : Disk → Prop) (r : Except IoFault α) (D D' : Disk) : Prop :=
  r = .error .wouldBlock ∧ Survives Good D D'

/-- A call that only looks, on a disk whose every cut is good: cut there, it fails for the
stop. It keeps the clock. -/
theorem Walk.look (hq : m.faults m.calls = none) (hG : Survives Good m.disk m.disk)
    (h : wp (Io.look f) (fun a m' => m'.clock = m.clock → Q a m')
      (fun e m' => m'.clock = m.clock → E e m') m) : Walk (Io.look f) m (Blocks Good) Q E := by
  have hat : ∀ m' : Machine, m'.disk = m.disk → AtCall (α := α) (Blocks Good) m m' :=
    fun m' hd D D' hD hD' => ⟨rfl, hG.later hD (hd ▸ hD')⟩
  exact Walk.call hq (wp_mono (wp_and h (Io.look_spec f m))
    (fun _ m' h' => ⟨h'.1 h'.2.1, hat m' h'.2.2.2.1⟩)
    fun _ m' h' => ⟨h'.1 h'.2.1, hat m' h'.2.2.2.1⟩)

theorem Walk.lookCrashes (hq : m.faults m.calls = none) (hG : Survives Good m.disk m.disk)
    (h : wp (Io.look f) (fun a m' => m'.clock = m.clock → Q a m')
      (fun e m' => m'.clock = m.clock → E e m') m) : Walk (Io.look f) m (Crashes Good) Q E :=
  (Walk.look hq hG h).mono (fun _ _ _ hb => ⟨⟨_, hb.1⟩, hb.2⟩) (fun _ _ h => h) fun _ _ h => h

end Looks

/-! ## Taking the lock -/

section Lock

variable {live : Path} {N : String} {V : ByteArray} {m : Machine} (h : Ready live m)
  (hlive : fileName live = some N) (hsep : live.endsInSeparator = false)
include h hlive hsep

/-- Taking the lock writes the lock file only: cut anywhere, the log's files open at the bytes
they opened at before. Not cut, the lock is taken. -/
theorem acquire_walk (hfree : LockFree live m)
    (hr : Restorable V (m.fileOf live) (m.fileOf (LogPaths.forLog live).backup)
      (m.fileOf (LogPaths.forLog live).checkpoint)) {E : WalError → Machine → Prop} :
    Walk (LogLock.acquire (LogPaths.forLog live).lock) m
      (fun _ D D' => Survives (Recoverable live V) D D')
      (fun _ m' => Wrote live (· = m.disk.locate (LogPaths.forLog live).lock) m m' ∧
        m'.clock = m.clock) E := by
  have hkf : (LogPaths.forLog live).IsFile (LogPaths.forLog live).lock :=
    .inr (.inr (.inr (.inr (.inl rfl))))
  have hA := forLog_apart hlive
  have hD := forLog_distinct hlive
  -- every step writes the lock file at most, and it lies apart from the log's files
  have hkeep : ∀ {m₁ m₂ : Machine} {W : List String → Prop}, Wrote live W m₁ m₂ →
      (∀ s, W s → s = m.disk.locate (LogPaths.forLog live).lock) →
      Wrote live (· = m.disk.locate (LogPaths.forLog live).lock) m m₂ →
      Survives (Recoverable live V) m₁.disk m₂.disk := by
    intro m₁ m₂ W hw hW hw₀
    refine survives_elsewhere hw hw₀ hW ?_ hr
    rintro q (rfl | rfl | rfl) he
    · exact hD.lock_live m.disk he.symm
    · exact hD.lock_backup m.disk he.symm
    · exact (hA.checkpoint_lock m.disk).ne he
  obtain ⟨hrk, hs⟩ := reach_isFile hlive hsep h.reach hkf
  obtain ⟨d1, i, hc⟩ := Disk.create_of_reach hrk hs (h.not_dir hkf) false
  have hC := Disk.create_created hc
  have hw1 := h.created hlive hC hkf (m.calls + 1)
  have hn1 : d1.nodeAt (m.disk.locate (LogPaths.forLog live).lock) = some (.file i) := hC.named
  unfold LogLock.acquire Wal.io Io.tryLock Io.setLength Io.append Io.change
  -- the lock file is opened
  refine Walk.bind (Walk.ioCrashes (Walk.callLast (h.quiet _) (Io.wp_call_ok (h.quiet _) hc
    ⟨?_, hkeep hw1 (fun _ h => h) hw1⟩))) Crashes.continuesCut
  -- its canonical path is its place, which this process does not hold
  have hl1 : d1.locate (LogPaths.forLog live).lock = m.disk.locate (LogPaths.forLog live).lock :=
    hw1.locate _
  have hr1 := (reach_isFile hlive hsep hw1.ready.reach hkf).1
  refine Walk.bind (Walk.ioCrashes (Walk.lookCrashes (hw1.ready.quiet _)
    (hkeep (Wrote.refl hw1.ready fun _ => False) (fun _ h => h.elim) hw1)
    (Io.wp_look_ok (f := fun d => d.canonical (LogPaths.forLog live).lock) (hw1.ready.quiet _)
      (Disk.canonical_of_node hr1 hs (by rw [hl1]; exact hn1)) fun _ => ?_))) Crashes.continuesCut
  have hheld : (m.held.contains (d1.locate (LogPaths.forLog live).lock)) = false := by
    rw [hl1]
    simpa using hfree.1
  refine Walk.checkSet hheld (fun _ => rfl) (fun _ => rfl) rfl rfl fun m3 hm3 => ?_
  -- marking the lock held, and drawing the holder's token, change no name and no file
  have hw13 : Wrote live (fun _ => False) { m with calls := m.calls + 1, disk := d1 } m3 := by
    rw [hm3]
    exact hw1.ready.unwritten rfl rfl rfl rfl le_rfl
  refine Walk.bind (Walk.io (C := fun _ _ _ => False)
    (Walk.of_steps rfl (fun _ => rfl) rfl (Disk.Later.newToken _) ?_)) fun _ _ _ h => h.elim
  simp only [Io.token, Disk.newToken, wp_bind, wp_get, wp_set, wp_pure]
  generalize hm4 : ({ m3 with disk := { m3.disk with fresh := m3.disk.fresh + 1 } } : Machine) = m4
  have hw34 : Wrote live (fun _ => False) m3 m4 := by
    rw [← hm4]
    exact hw13.ready.unwritten rfl rfl rfl rfl (Nat.le_succ _)
  have hlocks : m4.disk.locks = m.disk.locks := by
    rw [← hm4, hm3]
    exact hC.grows.locks
  -- the advisory lock is taken: only the locks change
  refine Walk.bind ?_ Crashes.continuesCut
  refine Walk.tryCatch (?_ : Walk _ _ (Crashes (Recoverable live V)) _ _) ?_
  · refine Walk.ioCrashes (Walk.callLast (hw34.ready.quiet _)
      (Io.wp_change_ok (hw34.ready.quiet _) (Disk.tryLock_free fun q hq =>
        LockFree.unlocked h hfree hc q (hlocks ▸ hq)) ?_))
    generalize hm5 : ({ m4 with calls := m4.calls + 1, disk := { m4.disk with
      locks := m4.disk.locks.filter (·.2 != m3.disk.fresh) ++ [(i, m3.disk.fresh)] } } :
        Machine) = m5
    have hw45 : Wrote live (fun _ => False) m4 m5 := by
      rw [← hm5]
      exact hw34.ready.unwritten rfl rfl rfl rfl le_rfl
    have hw15 := ((hw13.trans hw34).trans hw45).mono fun _ hs => hs.elim (fun h => h.elim id id) id
    have hw05 := (hw1.trans hw15).mono fun _ hs => hs.elim id False.elim
    refine ⟨?_, hkeep hw45 (fun _ h => h.elim) hw05⟩
    -- the process id is written into the lock file; a failure there is ignored
    have hn5 : m5.disk.nodeAt (m.disk.locate (LogPaths.forLog live).lock) = some (.file i) :=
      (hw15.nodes _ not_false).trans hn1
    have hc5 : m5.clock = m.clock := by
      rw [← hm5, ← hm4, hm3]
    refine Walk.get_of (fun _ => rfl) ?_
    refine Walk.bind (?_ : Walk _ _ (fun _ D D' => Survives (Recoverable live V) D D') _ _)
      fun r D D' hr => ⟨fun _ _ => hr, fun _ _ t ht => ⟨hr, Idle.refl ht⟩⟩
    refine Walk.tryCatch (?_ : Walk _ _ (Crashes (Recoverable live V)) _ _)
      fun r D D' hr => ⟨fun _ _ => hr.2, fun _ _ t ht => ⟨hr.2, Idle.refl ht⟩⟩
    refine Walk.ioCrashes (Walk.callThen (hw05.ready.quiet _) (Io.call_keepsClock
      (setLength_ready hw05.ready hn5 (Nat.zero_le _) fun m6 hw6 hn6 _ hc6 =>
        ⟨Walk.callLast (hw6.ready.quiet _) (Io.call_keepsClock (append_ready hw6.ready hn6 _
          fun m7 hw7 _ _ hc7 => ⟨?_, ?_⟩)), ?_⟩)))
    · have hw07 := ((hw05.trans hw6).trans hw7).mono fun _ hs => hs.elim (fun h => h.elim id id) id
      exact Walk.pure ⟨hw07, (hc7.trans hc6).trans hc5⟩
    · exact hkeep hw7 (fun _ h => h) (((hw05.trans hw6).trans hw7).mono
        fun _ hs => hs.elim (fun h => h.elim id id) id)
    · exact hkeep hw6 (fun _ h => h) ((hw05.trans hw6).mono fun _ hs => hs.elim id id)
  · -- the advisory lock refused, the mark is taken back and the open fails
    intro r D D' hr
    refine ⟨fun a ha => ?_, fun e _ t ht => ?_⟩
    · obtain ⟨⟨e, rfl⟩, -⟩ := hr
      cases ha
    · simp only [wp_bind, forgetHeld, wp_modify, wp_throw]
      exact ⟨⟨⟨_, rfl⟩, hr.2⟩, fun n hn => ht n hn, .refl _⟩

end Lock

/-! ## Files at the start -/

/-- A checkpoint file that opens at the start: missing, or marking position zero. -/
def AtStart (C : Option ByteArray) : Prop :=
  C = none ∨ ∃ c ck, C = some c ∧ decodeText checkpointDecoder c = .ok ck ∧ ck.position = 0

section Blank

variable {live : Path} {N : String} {m m₁ m₂ : Machine}

/-- A call after which the live file is missing or empty, and the checkpoint file, which the call
did not write, opens at the start: however it is cut, the disk opens at no bytes. -/
theorem survives_blank {W : List String → Prop} (hw : Wrote live W m₁ m₂)
    (hcp : ¬ W (m₁.disk.locate (LogPaths.forLog live).checkpoint))
    (hL : m₂.fileOf live = none ∨ m₂.fileOf live = some .empty)
    (hC : AtStart (m₂.fileOf (LogPaths.forLog live).checkpoint)) :
    Survives (Recoverable live .empty) m₁.disk m₂.disk := by
  refine survives_of_restorable hw.ready fun d ht => restorable_empty ?_ ?_
  · -- a cut keeps a first part of the live file, which has no bytes
    obtain ⟨n, hn⟩ := ht.fileAt (m₂.disk.locate live)
    rcases hL with hL | hL <;>
      simp [hn, show m₂.disk.fileAt (m₂.disk.locate live) = _ from hL, ByteArray.size_extract]
  · rw [Torn.fileAt_unwritten ht hw (by rw [hw.locate]; exact hcp)]
    exact hC

variable (h : Ready live m) (hlive : fileName live = some N) (hsep : live.endsInSeparator = false)
include h hlive hsep

/-- Loading a missing checkpoint finds none and writes nothing; cut at the read, it fails. -/
theorem loadCheckpoint_absentWalk {Good : Disk → Prop}
    (hC : m.fileOf (LogPaths.forLog live).checkpoint = none) (hG : Survives Good m.disk m.disk)
    {E : WalError → Machine → Prop} :
    Walk (loadCheckpoint (LogPaths.forLog live).checkpoint) m (Crashes Good)
      (fun c m' => c = none ∧ Wrote live (fun _ => False) m m' ∧ m'.clock = m.clock) E := by
  unfold loadCheckpoint Wal.io
  rw [map_eq_bind_pure_comp]
  refine Walk.bind ?_ Crashes.continues
  -- cut at the read, the error is the stop's, which the handler passes on
  refine Walk.tryCatch (?_ : Walk _ _
    (fun r D D' => r = .error (.io .wouldBlock) ∧ Survives Good D D') _ _) ?_
  · refine Walk.bind (?_ : Walk _ _
      (fun r D D' => r = .error (.io .wouldBlock) ∧ Survives Good D D') _ _)
      (Continues.of_error fun r D D' hr => ⟨.io .wouldBlock, hr.1, rfl, hr.2⟩)
    refine Walk.io ((Walk.look (h.quiet _) hG
      (read_ready h hlive hsep (.inr (.inl rfl)) (fun b m' hb _ _ => ?_)
        fun m' _ hw hc => ?_)).mono (fun r D D' hr => ⟨by rw [hr.1]; rfl, hr.2⟩)
          (fun _ _ h => h) fun _ _ h => h)
    · cases hC.symm.trans hb
    · exact Walk.pure (Walk.pure ⟨rfl, hw, hc⟩)
  · intro r D D' hr
    refine ⟨fun a ha => ?_, fun e he t ht => ?_⟩
    · cases hr.1.symm.trans ha
    · cases he.symm.trans hr.1
      exact ⟨⟨⟨_, rfl⟩, hr.2⟩, Idle.refl ht⟩

/-- Bringing a missing backup in line with an empty live file copies the live file over it, and
a mirror opens it again; cut anywhere, the disk opens at no bytes. -/
theorem reconcile_absentWalk {b : Backup} (hb : b.path = (LogPaths.forLog live).backup)
    (hL : m.fileOf live = some .empty) (hB : m.fileOf (LogPaths.forLog live).backup = none)
    (hC : AtStart (m.fileOf (LogPaths.forLog live).checkpoint)) {E : WalError → Machine → Prop} :
    Walk (b.reconcile live 0) m (Crashes (Recoverable live .empty))
      (fun _ m' => m'.fileOf (LogPaths.forLog live).backup = some .empty) E := by
  have hA := forLog_apart hlive
  have hbf : (LogPaths.forLog live).IsFile (LogPaths.forLog live).backup :=
    .inr (.inr (.inr (.inl rfl)))
  unfold Backup.reconcile fileLength Wal.io
  simp only [hb]
  -- the backup's length is read: it is missing
  refine Walk.bind (Walk.ioCrashes (Walk.lookCrashes (h.quiet _)
    (survives_blank (Wrote.refl h fun _ => False) not_false (.inr hL) hC)
    (size?_ready h hlive hsep hbf fun m1 hw1 hc1 => ?_))) Crashes.continues
  have hB1 : (m.disk.fileAt (m.disk.locate (LogPaths.forLog live).backup)).map ByteArray.size =
      none := by
    rw [show m.disk.fileAt _ = none from hB]
    rfl
  have hne : ((none : Option Nat) != some 0) = true := rfl
  rw [hB1, if_pos hne]
  unfold Io.copy
  -- the backup is missing: the live file is copied over it
  have hL1 : m1.fileOf live = some .empty := (hw1.fileOf (q := live) not_false).trans hL
  refine Walk.bind (Walk.ioCrashes (Walk.callLast (hw1.ready.quiet _)
    (copy_ready hw1.ready hlive hsep (.inl rfl) hbf hL1 fun m2 hw2 hb2 => ?_))) Crashes.continues
  have hL2 : m2.fileOf live = some .empty :=
    (hw2.fileOf (q := live) (hA.live_backup _).ne).trans hL1
  have hC2 : AtStart (m2.fileOf (LogPaths.forLog live).checkpoint) := by
    rw [hw2.fileOf (q := (LogPaths.forLog live).checkpoint) (hA.checkpoint_backup _).ne,
      hw1.fileOf (q := (LogPaths.forLog live).checkpoint) not_false]
    exact hC
  refine ⟨?_, survives_blank hw2 (hA.checkpoint_backup _).ne (.inr hL2) hC2⟩
  have hB2 : m2.fileOf (LogPaths.forLog live).backup = some .empty := by
    rw [Machine.fileOf, hw2.locate]
    exact hb2
  by_cases hp : (b.policy == Config.BackupPolicy.mirror) = true
  · -- a mirror opens the fresh copy for writing
    rw [if_pos hp]
    obtain ⟨i, hi, -⟩ := Disk.exists_of_fileAt hB2
    refine Walk.bind (Walk.ioCrashes (Walk.lookCrashes (hw2.ready.quiet _)
      (survives_blank (Wrote.refl hw2.ready fun _ => False) not_false (.inr hL2) hC2)
      (openWrite_ready hw2.ready hlive hsep hbf hi fun m3 hw3 _ => ?_))) Crashes.continues
    exact Walk.pure ((hw3.fileOf not_false).trans hB2)
  · rw [if_neg hp]
    exact Walk.pure hB2

/-- With no checkpoint stored and nothing in the live file, a checkpoint at the start is stored;
cut anywhere, the disk opens at no bytes. -/
theorem checkpointFor_absentWalk {l : DurableLog} (hclock : (m.clock m.calls).Valid)
    (hL : m.fileOf live = none)
    (hC : m.fileOf (LogPaths.forLog live).checkpoint = none)
    {E : WalError → Machine × DurableLog → Prop} :
    Walk (DurableLog.checkpointFor (LogPaths.forLog live) none 0) (m, l)
      (Crashes (Recoverable live .empty))
      (fun c s => c.1.position = 0 ∧ c.2 = 0 ∧ s.2 = l ∧
        Wrote live (fun s => s = m.disk.locate (temporaryOf (LogPaths.forLog live).checkpoint) ∨
          s = m.disk.locate (LogPaths.forLog live).checkpoint) m s.1 ∧
        AtStart (s.1.fileOf (LogPaths.forLog live).checkpoint)) E := by
  have hdec : decodeText checkpointDecoder (Checkpoint.at 0 (m.clock m.calls)).encode.toUTF8 =
      .ok (Checkpoint.at 0 (m.clock m.calls)) :=
    Checkpoint.decode_encode (Nat.zero_le _) hclock
  have hL0 : ((m.fileOf live).getD .empty).size = 0 := by
    rw [hL]
    rfl
  unfold DurableLog.checkpointFor
  refine Walk.nowThen (Walk.bind (Walk.wal (Walk.crashesMono (storeCheckpoint_walk h hlive hsep
    (restorable_empty hL0 (.inl hC)) (restorable_empty hL0 (.inr ⟨_, _, rfl, hdec, rfl⟩))
    fun m' hw hcp => ?_) fun _ hd => hd.elim id id)) Crashes.continues)
  exact Walk.pure ⟨rfl, rfl, rfl, hw, .inr ⟨_, _, hcp, hdec, rfl⟩⟩

/-- Opening at a checkpoint at the start creates the missing live file, empty, and copies it over
the missing backup; cut anywhere, the disk opens at no bytes. -/
theorem openAt_absentWalk {l : DurableLog} {ck : Checkpoint} (hpos : ck.position = 0)
    (hb : l.backup.path = (LogPaths.forLog live).backup) (hL : m.fileOf live = none)
    (hB : m.fileOf (LogPaths.forLog live).backup = none)
    (hC : AtStart (m.fileOf (LogPaths.forLog live).checkpoint))
    {E : WalError → Machine × DurableLog → Prop} :
    Walk (DurableLog.openAt (LogPaths.forLog live) ck 0) (m, l) (Crashes (Recoverable live .empty))
      (fun _ _ => True) E := by
  have hA := forLog_apart hlive
  unfold DurableLog.openAt Io.create
  -- the live file is created, empty
  refine Walk.bind (Walk.logIoCrashes (Walk.callLast (h.quiet _)
    (create_ready h hlive hsep (q := live) (.inl rfl) false fun i m1 hw1 _ hf1 => ?_)))
    Crashes.continues
  have hL1 : m1.fileOf live = some .empty := by
    rw [Machine.fileOf, hw1.locate, hf1]
    simp [show m.disk.fileAt (m.disk.locate live) = none from hL]
  have hC1 : AtStart (m1.fileOf (LogPaths.forLog live).checkpoint) := by
    rw [hw1.fileOf (q := (LogPaths.forLog live).checkpoint) (hA.checkpoint_live _).ne]
    exact hC
  have hB1 : m1.fileOf (LogPaths.forLog live).backup = none := by
    rw [hw1.fileOf (q := (LogPaths.forLog live).backup) (hA.live_backup _).ne.symm]
    exact hB
  refine ⟨?_, survives_blank hw1 (hA.checkpoint_live _).ne (.inr hL1) hC1⟩
  -- nothing lies past the checkpoint, so nothing is cut
  dsimp only
  rw [if_neg (by rw [hpos]; exact Nat.lt_irrefl 0), hpos]
  refine Walk.logThen (Walk.bind (Walk.wal ((reconcile_absentWalk hw1.ready hlive hsep hb hL1 hB1
    hC1).mono (fun _ _ _ h => h) (fun _ _ _ => Walk.update trivial) fun _ _ h => h))
    Crashes.continues)

/-- Opening a log none of whose files exist: no checkpoint is found and the live file has no
length, so a checkpoint at the start is stored and the log opened there. Cut anywhere, the disk
opens at no bytes. -/
theorem init_absentWalk {l : DurableLog} (hclock : ∀ n, (m.clock n).Valid)
    (hp : l.paths = LogPaths.forLog live) (hb : l.backup.path = (LogPaths.forLog live).backup)
    (hL : m.fileOf live = none) (hB : m.fileOf (LogPaths.forLog live).backup = none)
    (hC : m.fileOf (LogPaths.forLog live).checkpoint = none)
    {E : WalError → Machine × DurableLog → Prop} :
    Walk DurableLog.init (m, l) (Crashes (Recoverable live .empty)) (fun _ _ => True) E := by
  have hA := forLog_apart hlive
  unfold DurableLog.init
  refine Walk.logThen ?_
  rw [hp]
  -- no checkpoint is stored
  refine Walk.bind (Walk.wal ((loadCheckpoint_absentWalk h hlive hsep hC
    (survives_blank (Wrote.refl h fun _ => False) not_false (.inl hL) (.inl hC))).mono
    (fun _ _ _ h => h) (fun c m1 hq => ?_) fun _ _ h => h)) Crashes.continues
  obtain ⟨rfl, hw1, hc1⟩ := hq
  -- and the live file has no length
  have hL1 : m1.fileOf live = none := (hw1.fileOf not_false).trans hL
  unfold fileLength Wal.io
  refine Walk.bind (Walk.wal (Walk.ioCrashes (Walk.lookCrashes (hw1.ready.quiet _)
    (survives_blank (Wrote.refl hw1.ready fun _ => False) not_false (.inl hL1)
      (.inl ((hw1.fileOf not_false).trans hC)))
    (size?_ready hw1.ready hlive hsep (q := live) (.inl rfl) fun m2 hw2 hc2 => ?_))))
    Crashes.continues
  have hw2' := (hw1.trans hw2).mono fun _ hs => hs.elim id id
  rw [show m1.disk.fileAt (m1.disk.locate live) = none from hL1]
  refine Walk.bind ((checkpointFor_absentWalk hw2.ready hlive hsep
    (by rw [hc2, hc1]; exact hclock _) ((hw2'.fileOf not_false).trans hL)
    ((hw2'.fileOf not_false).trans hC)).mono (fun _ _ _ h => h) (fun c s hq => ?_)
    fun _ _ h => h) Crashes.continues
  obtain ⟨ck, n⟩ := c
  obtain ⟨m3, l3⟩ := s
  obtain ⟨hpos, rfl, rfl, hw3, hC3⟩ := hq
  -- the checkpoint is stored beside the live file and the backup, which stay missing
  have hL3 : m3.fileOf live = none := by
    rw [hw3.fileOf (q := live) ?_, hw2'.fileOf not_false]
    · exact hL
    · rintro (he | he)
      · exact (hA.live_temporary _).ne he
      · exact (hA.checkpoint_live _).ne he.symm
  have hB3 : m3.fileOf (LogPaths.forLog live).backup = none := by
    rw [hw3.fileOf (q := (LogPaths.forLog live).backup) ?_, hw2'.fileOf not_false]
    · exact hB
    · rintro (he | he)
      · exact (hA.backup_temporary _).ne he
      · exact (hA.checkpoint_backup _).ne he.symm
  exact openAt_absentWalk hw3.ready hlive hsep hpos hb hL3 hB3 hC3

end Blank

/-! ## Opening -/

section Opening

variable {live : Path} {N : String} {m : Machine} (h : Ready live m)
  (hlive : fileName live = some N) (hsep : live.endsInSeparator = false)
include h hlive hsep

/-- Opening, with the lock free, a log none of whose files exist: cut anywhere, the disk opens at
no bytes. -/
theorem openLocked_absentWalk (hfree : LockFree live m) (hclock : ∀ n, (m.clock n).Valid)
    (hL : m.fileOf live = none) (hB : m.fileOf (LogPaths.forLog live).backup = none)
    (hC : m.fileOf (LogPaths.forLog live).checkpoint = none) (policy : Config.BackupPolicy)
    {E : WalError → Machine → Prop} :
    Walk (DurableLog.openLocked (LogPaths.forLog live) policy) m (Crashes (Recoverable live .empty))
      (fun _ _ => True) E := by
  have hL0 : ((m.fileOf live).getD .empty).size = 0 := by
    rw [hL]
    rfl
  unfold DurableLog.openLocked
  refine Walk.bind ((acquire_walk h hlive hsep hfree (restorable_empty hL0 (.inl hC))).mono
    (fun _ _ _ h => h) (fun lock m1 hq => ?_) fun _ _ h => h) ?_
  · obtain ⟨hw1, hc1⟩ := hq
    have hA := forLog_apart hlive
    have hD := forLog_distinct hlive
    have hL1 : m1.fileOf live = none := by
      rw [hw1.fileOf (q := live) fun he => hD.lock_live _ he.symm]
      exact hL
    have hB1 : m1.fileOf (LogPaths.forLog live).backup = none := by
      rw [hw1.fileOf (q := (LogPaths.forLog live).backup) fun he => hD.lock_backup _ he.symm]
      exact hB
    have hC1 : m1.fileOf (LogPaths.forLog live).checkpoint = none := by
      rw [hw1.fileOf (q := (LogPaths.forLog live).checkpoint) (hA.checkpoint_lock _).ne]
      exact hC
    refine Walk.bind (Walk.io (C := fun _ _ _ => False) (Walk.now ?_)) fun _ _ _ h => h.elim
    -- the log is opened on the machine; a crashed open fails, whatever log it leaves
    refine Walk.bind (Walk.runOn ((init_absentWalk hw1.ready hlive hsep (hc1 ▸ hclock) rfl rfl
      hL1 hB1 hC1).mono ?_ (fun _ _ _ => ?_) fun _ _ h => h)) (?_ : Continues _
        (fun res D D' => (∃ e l', res = .ok (.error e, l')) ∧
          Survives (Recoverable live .empty) D D') _)
    · intro r D D' hr l'
      obtain ⟨⟨e, rfl⟩, hs⟩ := hr
      exact ⟨⟨e, l', rfl⟩, hs⟩
    · exact Walk.pure trivial
    · intro res D D' hres
      obtain ⟨⟨e, l', rfl⟩, hs⟩ := hres
      refine ⟨fun _ he => ?_, fun a ha t ht => ?_⟩
      · cases he
      cases ha
      simp only [wp_bind, wp_runOn, wp_throw]
      exact DurableLog.close_stopped ht fun m3 l3 h3 => ⟨⟨⟨e, rfl⟩, hs⟩, h3⟩
  · -- cut while the lock is taken, the open that follows fails and closes the log again
    intro r D D' hr
    refine ⟨fun e _ => ⟨⟨e, rfl⟩, hr⟩, fun lock _ t ht => ?_⟩
    simp only [Io.now, Wal.io, wp_bind, wp_onMachine_io, wp_get, wp_pure, wp_runOn]
    refine DurableLog.init_stopped ht fun e m2 h2 => ?_
    exact DurableLog.close_stopped h2.1 fun m3 l3 h3 => ⟨⟨⟨e, rfl⟩, hr⟩, h2.trans h3⟩

/-- Opening a log whose directory is there but holds none of its files: making the directory
changes nothing, and cut anywhere, the disk opens at no bytes. -/
theorem openLog_absentWalk (hfree : LockFree live m) (hclock : ∀ n, (m.clock n).Valid)
    (hL : m.fileOf live = none) (hB : m.fileOf (LogPaths.forLog live).backup = none)
    (hC : m.fileOf (LogPaths.forLog live).checkpoint = none) (policy : Config.BackupPolicy)
    {E : WalError → Machine → Prop} :
    Walk (DurableLog.openLog live policy) m (Crashes (Recoverable live .empty)) (fun _ _ => True)
      E := by
  obtain ⟨r, hr⟩ := h.reach
  obtain ⟨parent, hparent, hdirs⟩ := Disk.createDirAll_parent hlive hr
  rw [DurableLog.openLog, DurableLog.makeParent, hparent]
  dsimp only
  split
  · unfold Wal.io Io.createDirAll Io.change
    have hw := h.looked (m.calls + 1)
    refine Walk.bind (Walk.ioCrashes (Walk.callLast (h.quiet _)
      (Io.wp_change_ok (h.quiet _) hdirs ⟨?_, ?_⟩))) Crashes.continues
    · exact openLocked_absentWalk hw.ready hlive hsep hfree hclock hL hB hC policy
    · exact survives_blank hw not_false (.inl ((hw.fileOf not_false).trans hL))
        (.inl ((hw.fileOf not_false).trans hC))
  · rw [pure_bind]
    exact openLocked_absentWalk h hlive hsep hfree hclock hL hB hC policy

end Opening

end EntityLog.Log
