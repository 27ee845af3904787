import EntityLog.Proofs.Log.Replaying
import EntityLog.Proofs.Log.Stopping
/-!
# Opening the log after a crash

A disk is recoverable to the bytes `V` when the log's files sit on it as an open can use them (a
sound disk, the live file's directory reached, nothing in the way of the log's files) and the
live file, the backup and the checkpoint file open at `V`: the checkpoint marks the end of `V`,
and either the live file begins with `V` and the backup agrees with it as far as it reaches, or
the live file falls short and the backup begins with `V` (`Restorable`). A new process started
on such a disk, the crashed process's locks gone with it, opens the log, and the log then holds
the records whose lines `V` holds: the live file and the backup hold exactly `V`, the checkpoint
marks its end, and replaying reads the records back (`openLog_recovers`).

A call cut part way leaves a recoverable disk when the files it can leave, each written file cut
to any first part, open at `V` (`survives_of_restorable`); a file the call did not write is
found whole (`Torn.fileAt_unwritten`).
-/

namespace EntityLog.Log

open EntityLog.Files EntityLog.Files.Carries EntityLog.Record EntityLog.Json Path

/-! ## The bytes of records -/

/-- The bytes of records written one line each. -/
def logBytes (rs : List ChangeRecord) : ByteArray := (Pipeline.batchLines rs).toUTF8

theorem logBytes_concat (rs : List ChangeRecord) (r : ChangeRecord) :
    logBytes (rs ++ [r]) = logBytes rs ++ (r.encode ++ "\n").toUTF8 := by
  simp [logBytes, Pipeline.batchLines, String.toByteArray_append]

theorem decodeLines_logBytes {rs : List ChangeRecord} (h : ∀ r ∈ rs, r.Valid) :
    DurableLog.decodeLines (DurableLog.splitLines (logBytes rs).toList) = .ok rs := by
  have hlines := DurableLog.decodeLines_afterRecords (D := []) (.inl rfl) h
  rw [List.nil_append] at hlines
  rw [ByteArray.toList_eq]
  exact hlines

/-! ## Files that open at given bytes -/

/-- The live file `L`, the backup `B` and the checkpoint file `C` open at the bytes `V`: the
checkpoint marks the end of `V`, and the live file begins with `V` with the backup brought in
line to it, or falls short of it with a backup that begins with `V`. -/
def Restorable (V : ByteArray) (L B C : Option ByteArray) : Prop :=
  Positioned L C V.size ∧
    (V.size ≤ (L.getD .empty).size ∧ (L.getD .empty).extract 0 V.size = V ∧
        reconciled B V V.size = V ∨
      (L.getD .empty).size < V.size ∧ ∃ b, B = some b ∧ V.size ≤ b.size ∧ b.extract 0 V.size = V)

section Restorable

variable {V x y : ByteArray} {L B C : Option ByteArray}

theorem extract_append_self (V x : ByteArray) : (V ++ x).extract 0 V.size = V :=
  ByteArray.extract_append_eq_left rfl

/-- A first part of `V ++ y` that reaches past `V` begins with `V`. -/
theorem extract_cut_self {n : Nat} (hn : V.size ≤ n) :
    ((V ++ y).extract 0 n).extract 0 V.size = V := by
  simp only [ByteArray.extract_extract, Nat.zero_add, Nat.min_eq_left hn, extract_append_self]

theorem size_cut (V y : ByteArray) (n : Nat) :
    ((V ++ y).extract 0 n).size = min n (V.size + y.size) := by
  simp [ByteArray.size_extract, ByteArray.size_append]

/-- A backup holding a first part of `V ++ y` is brought in line to `V`: cut when it reaches past
`V`, replaced by `V` when it falls short. -/
theorem reconciled_cut (n : Nat) : reconciled (some ((V ++ y).extract 0 n)) V V.size = V := by
  simp only [reconciled]
  split_ifs with hle
  · rw [size_cut] at hle
    exact extract_cut_self (by omega)
  · rfl

/-- A live file cut anywhere in `V ++ x`, with the backup at `V`: it reaches `V`, or the backup is
restored. -/
theorem restorable_liveCut (hC : Positioned L C V.size) {n : Nat}
    (hL : L = some ((V ++ x).extract 0 n)) (hB : B = some V) : Restorable V L B C := by
  subst hL hB
  refine ⟨hC, ?_⟩
  rcases Nat.lt_or_ge n V.size with hn | hn
  · -- the cut falls within `V`: the backup has it
    exact .inr ⟨by simp only [Option.getD_some, size_cut]; omega, V, rfl, le_rfl,
      ByteArray.extract_zero_size⟩
  · refine .inl ⟨by simp only [Option.getD_some, size_cut]; omega, extract_cut_self hn, ?_⟩
    simpa using reconciled_cut (V := V) (y := ByteArray.empty) V.size

/-- A live file holding `V ++ x`, with the backup cut anywhere in `V ++ y`. -/
theorem restorable_backupCut (hC : Positioned L C V.size) (hL : L = some (V ++ x)) {n : Nat}
    (hB : B = some ((V ++ y).extract 0 n)) : Restorable V L B C := by
  subst hL hB
  exact ⟨hC, .inl ⟨by simp [ByteArray.size_append], extract_append_self V x, reconciled_cut n⟩⟩

/-- No bytes: an empty or missing live file with no checkpoint, or a checkpoint at the start. -/
theorem restorable_empty (hL : (L.getD .empty).size = 0)
    (hC : C = none ∨ ∃ c ck, C = some c ∧ decodeText checkpointDecoder c = .ok ck ∧
      ck.position = 0) :
    Restorable .empty L B C := by
  refine ⟨?_, .inl ⟨Nat.zero_le _, ?_, ?_⟩⟩
  · rcases hC with rfl | ⟨c, ck, rfl, hdec, hpos⟩
    · exact .inl ⟨rfl, hL.symm⟩
    · exact .inr ⟨c, ck, rfl, hdec, hpos⟩
  · exact ByteArray.ext (by simp)
  · unfold reconciled
    split
    · exact ByteArray.ext (by simp)
    · rfl

end Restorable

/-- The checkpoint stored on a disk positions the open at its mark. -/
theorem Stored.positioned {paths : LogPaths} {ck : Checkpoint} {d : Disk}
    (hst : Stored paths ck d) (hmax : ck.position ≤ maxPosition) (L : Option ByteArray) :
    Positioned L (d.fileAt (d.locate paths.checkpoint)) ck.position := by
  obtain ⟨i, hi, hdec⟩ := hst
  exact .inr ⟨_, ck, Disk.fileAt_of_nodeAt hi, hdec hmax, rfl⟩

/-- The log's files sit on `d` as an open can use them, and open at the bytes `V`. -/
structure Recoverable (live : Path) (V : ByteArray) (d : Disk) : Prop where
  sound : d.Sound
  reach : ∃ r, d.reach live = .ok r
  bare : d.Bare ((LogPaths.forLog live).Place d)
  restorable : Restorable V (d.fileAt (d.locate live))
    (d.fileAt (d.locate (LogPaths.forLog live).backup))
    (d.fileAt (d.locate (LogPaths.forLog live).checkpoint))

theorem Recoverable.of_ready {live : Path} {V : ByteArray} {m : Machine} (h : Ready live m)
    (hr : Restorable V (m.fileOf live) (m.fileOf (LogPaths.forLog live).backup)
      (m.fileOf (LogPaths.forLog live).checkpoint)) : Recoverable live V m.disk :=
  ⟨h.sound, h.reach, h.bare, hr⟩

/-! ## Restarting on the disk a crash left -/

/-- A machine that runs a new process on the disk `d` a crash left: the crashed process's locks
went with it, its calls do not fail, and its clock gives valid times. -/
structure Restart (d : Disk) (m : Machine) : Prop where
  disk : m.disk = { d with locks := [] }
  held : m.held = []
  quiet : Quiet m
  clock : ∀ n, (m.clock n).Valid

/-- The log opened as `l`, leaving `m'`, holds the records `A`: replaying reads them back, the live
file and the backup hold their lines, and the stored checkpoint marks the end of them. -/
structure Recovered (live : Path) (A : List ChangeRecord) (l : DurableLog) (m' : Machine) :
    Prop where
  replays : ((DurableLog.replay live).run.run m').1 = .ok A
  holds : m'.fileOf live = some (logBytes A)
  backedUp : m'.fileOf (LogPaths.forLog live).backup = some (logBytes A)
  position : l.checkpoint.position = (logBytes A).size
  stored : Stored (LogPaths.forLog live) l.checkpoint m'.disk

section Restart

variable {live : Path} {N : String} {V : ByteArray} {d : Disk} {m : Machine}

theorem Restart.fileOf (hr : Restart d m) (q : Path) : m.fileOf q = d.fileAt (d.locate q) := by
  rw [Machine.fileOf, hr.disk]
  rfl

theorem Restart.ready (hr : Restart d m) (hd : Recoverable live V d) : Ready live m := by
  have hdisk := hr.disk
  refine ⟨hr.quiet, ?_, ?_, ?_⟩ <;> rw [hdisk]
  · exact ⟨fun h1 h2 => hd.sound.unaliased h1 h2, fun h1 => hd.sound.lt_fresh h1⟩
  · exact hd.reach
  · exact ⟨fun hs => hd.bare.not_dir hs, fun hs hb => hd.bare.empty_below hs hb⟩

theorem Restart.lockFree (hr : Restart d m) : LockFree live m := by
  refine ⟨by simp [hr.held], fun q hq => ?_⟩
  rw [hr.disk] at hq
  exact absurd hq List.not_mem_nil

theorem Restart.tokensBelow (hr : Restart d m) : TokensBelow m := by
  intro q hq
  rw [hr.disk] at hq
  exact absurd hq List.not_mem_nil

variable (hlive : fileName live = some N) (hsep : live.endsInSeparator = false)
include hlive hsep

/-- Restarted on a disk recoverable to the lines of the records `A`, opening the log succeeds,
and the log holds `A`. -/
theorem openLog_recovers {A : List ChangeRecord} (hd : Recoverable live (logBytes A) d)
    (hr : Restart d m) (hvalid : ∀ r ∈ A, r.Valid) (hmax : (logBytes A).size ≤ maxPosition)
    (policy : Config.BackupPolicy) :
    wp (DurableLog.openLog live policy) (fun l m' => Recovered live A l m') (fun _ _ => False) m := by
  have h := hr.ready hd
  obtain ⟨hpos, hcase⟩ := hd.restorable
  simp only [← hr.fileOf] at hpos hcase
  refine wp_mono (wp_and (openLog_repairsWithin h hlive hsep hr.lockFree policy)
    (openLog_repairsEveryState hlive hsep h hr.lockFree hr.tokensBelow hr.clock policy))
    (fun l m' hl => ?_) fun e m' he => ?_
  · obtain ⟨⟨hrep, hw⟩, hopen⟩ := hl
    -- the open repaired the live file and the backup to the bytes, by the case it found
    have hfiles : l.checkpoint.position = (logBytes A).size ∧
        m'.fileOf live = some (logBytes A) ∧
        m'.fileOf (LogPaths.forLog live).backup = some (logBytes A) := by
      rcases hcase with ⟨hle, hL, hB⟩ | ⟨hlt, b, hb, hle, hB⟩
      · obtain ⟨log, hlog, hposl, -, hlivel, hbackup⟩ := hrep.reaching _ hpos hle
        cases hlog
        rw [hL] at hlivel hbackup
        exact ⟨hposl, hlivel, hbackup.trans (by rw [hB])⟩
      · obtain ⟨log, hlog, hposl, -, hlivel, hbackup, -⟩ := hrep.restored _ b hpos hlt hb hle
        cases hlog
        rw [hB] at hlivel hbackup
        exact ⟨hposl, hlivel, hbackup⟩
    obtain ⟨hposl, hlivel, hbackup⟩ := hfiles
    have hstored := hopen.stored l rfl
    refine ⟨?_, hlivel, hbackup, hposl, hstored⟩
    rw [replay_stored hw.ready hlive hsep hlivel hstored hposl hmax]
    exact decodeLines_logBytes hvalid
  · -- the files open at the bytes, so the open does not fail
    obtain ⟨hrep, -⟩ := he
    rcases hcase with ⟨hle, -, -⟩ | ⟨hlt, b, hb, hle, -⟩
    · obtain ⟨_, hlog, -⟩ := hrep.reaching _ hpos hle
      cases hlog
    · obtain ⟨_, hlog, -⟩ := hrep.restored _ b hpos hlt hb hle
      cases hlog

end Restart

/-! ## Cut calls -/

section Cuts

variable {live : Path} {V : ByteArray} {m m' : Machine} {d : Disk}

/-- A place a call did not write holds, after any cut of the call, what the call left there. -/
theorem Torn.fileAt_unwritten {W : List String → Prop} (ht : Torn m.disk m'.disk d)
    (hw : Wrote live W m m') {s : List String} (hs : ¬ W s) : d.fileAt s = m'.disk.fileAt s := by
  cases hn : m.disk.nodeAt s with
  | none =>
    rw [Disk.fileAt_eq_none (by simp [ht.nodeAt, hw.nodes s hs, hn]),
      Disk.fileAt_eq_none (by simp [hw.nodes s hs, hn])]
  | some node =>
    cases node with
    | dir =>
      rw [Disk.fileAt_eq_none (by simp [ht.nodeAt, hw.nodes s hs, hn]),
        Disk.fileAt_eq_none (by simp [hw.nodes s hs, hn])]
    | file i => exact ht.fileAt_kept ((hw.nodes s hs).trans hn) (hw.bytesOf hs hn).symm

/-- A call leaves a recoverable disk, however it is cut, when every disk it can leave has the
log's files open at `V`. -/
theorem survives_of_restorable (h : Ready live m')
    (hgood : ∀ d, Torn m.disk m'.disk d → Restorable V (d.fileAt (m'.disk.locate live))
      (d.fileAt (m'.disk.locate (LogPaths.forLog live).backup))
      (d.fileAt (m'.disk.locate (LogPaths.forLog live).checkpoint))) :
    Survives (Recoverable live V) m.disk m'.disk := by
  intro d ht
  obtain ⟨r, hr⟩ := h.reach
  refine ⟨ht.sound h.sound, ⟨r, (ht.reach live).trans hr⟩, ?_, ?_⟩
  · rw [LogPaths.place_of_cwd _ ht.cwd]
    exact ht.bare h.bare
  · rw [ht.locate, ht.locate, ht.locate]
    exact hgood d ht

/-- A call that wrote none of the log's three files, onto a disk recoverable to `V`. -/
theorem survives_unwritten {W : List String → Prop} (hw : Wrote live W m m')
    (hW : ∀ q, q = live ∨ q = (LogPaths.forLog live).backup ∨ q = (LogPaths.forLog live).checkpoint →
      ¬ W (m.disk.locate q))
    (hr : Restorable V (m'.fileOf live) (m'.fileOf (LogPaths.forLog live).backup)
      (m'.fileOf (LogPaths.forLog live).checkpoint)) :
    Survives (Recoverable live V) m.disk m'.disk := by
  refine survives_of_restorable hw.ready fun d ht => ?_
  rw [hw.locate, hw.locate, hw.locate, Torn.fileAt_unwritten ht hw (hW _ (.inl rfl)),
    Torn.fileAt_unwritten ht hw (hW _ (.inr (.inl rfl))),
    Torn.fileAt_unwritten ht hw (hW _ (.inr (.inr rfl))), ← hw.locate, ← hw.locate, ← hw.locate]
  exact hr

/-- A call made on the way from `m`, which so far wrote only places `W₀` apart from the log's
three files: those files still open at `V` as they did on `m`, however the call is cut. -/
theorem survives_elsewhere {m₁ : Machine} {W W₀ : List String → Prop} (hw : Wrote live W m₁ m')
    (hw₀ : Wrote live W₀ m m') (hW : ∀ s, W s → W₀ s)
    (hapart : ∀ q, q = live ∨ q = (LogPaths.forLog live).backup ∨
      q = (LogPaths.forLog live).checkpoint → ¬ W₀ (m.disk.locate q))
    (hr : Restorable V (m.fileOf live) (m.fileOf (LogPaths.forLog live).backup)
      (m.fileOf (LogPaths.forLog live).checkpoint)) :
    Survives (Recoverable live V) m₁.disk m'.disk := by
  have hloc : ∀ q, m₁.disk.locate q = m.disk.locate q := fun q => by
    rw [← hw.locate, hw₀.locate]
  refine survives_unwritten hw (fun q hq hWq => hapart q hq (hW _ (by rwa [← hloc]))) ?_
  rwa [hw₀.fileOf (hapart _ (.inl rfl)), hw₀.fileOf (hapart _ (.inr (.inl rfl))),
    hw₀.fileOf (hapart _ (.inr (.inr rfl)))]

/-- A call that changed no file's bytes, onto a disk recoverable to `V`. -/
theorem survives_of_inodes (h : Ready live m') (hi : m'.disk.inodes = m.disk.inodes)
    (hr : Restorable V (m'.fileOf live) (m'.fileOf (LogPaths.forLog live).backup)
      (m'.fileOf (LogPaths.forLog live).checkpoint)) :
    Survives (Recoverable live V) m.disk m'.disk := by
  refine survives_of_restorable h fun d ht => ?_
  rw [ht.fileAt_of_inodes hi, ht.fileAt_of_inodes hi, ht.fileAt_of_inodes hi]
  exact hr

end Cuts

/-! ## Storing a checkpoint across crashes -/

/-- A rename changes no file's bytes. -/
theorem Io.rename_inodes (src dst : Path) (m : Machine) :
    wp (Io.rename src dst) (fun _ m' => m'.disk.inodes = m.disk.inodes)
      (fun _ m' => m'.disk.inodes = m.disk.inodes) m := by
  refine wp_mono (Io.change_spec _ m) (fun _ m' h => ?_) fun _ m' h => by rw [h.2.2.1]
  obtain ⟨n, -, -, ⟨-, hd⟩ | ⟨-, hd⟩⟩ := Disk.rename_eq h.2.2 <;> rw [hd]

section Store

variable {live : Path} {N : String} {m : Machine} (h : Ready live m)
  (hlive : fileName live = some N) (hsep : live.endsInSeparator = false)
include h hlive hsep

/-- Storing a checkpoint, cut anywhere, leaves the log's files opening at `V` until the rename
puts the new checkpoint in place, and at `V'` once it has. -/
theorem storeCheckpoint_walk {ck : Checkpoint} {V V' : ByteArray} {Q : Unit → Machine → Prop}
    {E : WalError → Machine → Prop}
    (hV : Restorable V (m.fileOf live) (m.fileOf (LogPaths.forLog live).backup)
      (m.fileOf (LogPaths.forLog live).checkpoint))
    (hV' : Restorable V' (m.fileOf live) (m.fileOf (LogPaths.forLog live).backup)
      (some ck.encode.toUTF8))
    (hQ : ∀ m', Wrote live (fun s =>
        s = m.disk.locate (temporaryOf (LogPaths.forLog live).checkpoint) ∨
        s = m.disk.locate (LogPaths.forLog live).checkpoint) m m' →
      m'.fileOf (LogPaths.forLog live).checkpoint = some ck.encode.toUTF8 → Q () m') :
    Walk (storeCheckpoint (LogPaths.forLog live).checkpoint ck) m
      (Crashes fun d => Recoverable live V d ∨ Recoverable live V' d) Q E := by
  have htmp : (LogPaths.forLog live).IsFile (temporaryOf (LogPaths.forLog live).checkpoint) :=
    .inr (.inr (.inl rfl))
  have hck : (LogPaths.forLog live).IsFile (LogPaths.forLog live).checkpoint := .inr (.inl rfl)
  have hA := forLog_apart hlive
  -- the log's three files lie apart from the temporary file
  have hapart : ∀ q, q = live ∨ q = (LogPaths.forLog live).backup ∨
      q = (LogPaths.forLog live).checkpoint →
      ¬ m.disk.locate q = m.disk.locate (temporaryOf (LogPaths.forLog live).checkpoint) := by
    rintro q (rfl | rfl | rfl)
    · exact (hA.live_temporary m.disk).ne
    · exact (hA.backup_temporary m.disk).ne
    · exact (hA.checkpoint_temporary m.disk).ne
  -- a step that wrote the temporary file only keeps the files opening at `V`
  have hkeep : ∀ {m₁ m₂ : Machine},
      Wrote live (· = m.disk.locate (temporaryOf (LogPaths.forLog live).checkpoint)) m₁ m₂ →
      Wrote live (· = m.disk.locate (temporaryOf (LogPaths.forLog live).checkpoint)) m m₂ →
      Survives (fun d => Recoverable live V d ∨ Recoverable live V' d) m₁.disk m₂.disk :=
    fun hw₁ hw₂ => (survives_elsewhere hw₁ hw₂ (fun _ h => h) hapart hV).mono fun _ hd => .inl hd
  unfold storeCheckpoint Wal.io Io.append Io.sync Io.rename Io.change
  -- the temporary file is created, written and synced, then renamed over the checkpoint
  refine Walk.ioCrashes (Walk.callThen (h.quiet _)
    (create_ready h hlive hsep htmp true fun t m1 hw1 hn1 hf1 => ⟨?_, hkeep hw1 hw1⟩))
  refine Walk.callThen (hw1.ready.quiet _)
    (append_ready hw1.ready hn1 _ fun m2 hw2 _ hf2 => ⟨?_, ?_⟩)
  rotate_left
  · exact hkeep hw2 ((hw1.trans hw2).mono fun _ hs => hs.elim id id)
  have hw12 := (hw1.trans hw2).mono fun _ hs => hs.elim id id
  refine Walk.callThen (hw2.ready.quiet _) (sync_ready hw2.ready t fun m3 hw3 => ⟨?_, ?_⟩)
  rotate_left
  · exact hkeep (hw3.mono fun _ hs => hs.elim) ((hw12.trans hw3).mono fun _ hs => hs.elim id False.elim)
  have hw13 := (hw12.trans hw3).mono fun _ hs => hs.elim id False.elim
  have ht1 : m1.disk.bytesOf t = ByteArray.empty := by
    rw [Disk.fileAt_of_nodeAt hn1] at hf1
    exact Option.some.inj hf1
  have ht3 : m3.disk.fileAt (m3.disk.locate (temporaryOf (LogPaths.forLog live).checkpoint)) =
      some ck.encode.toUTF8 := by
    rw [hw13.locate, hw3.others _ not_false, hf2, ht1, ByteArray.empty_append]
  have hne : m3.disk.locate (temporaryOf (LogPaths.forLog live).checkpoint) ≠
      m3.disk.locate (LogPaths.forLog live).checkpoint :=
    (hA.checkpoint_temporary m3.disk).ne.symm
  refine Walk.callLast (hw3.ready.quiet _) (wp_mono (wp_and (rename_ready hw3.ready hlive hsep
    htmp hck hne ht3 (Q := fun _ m4 => m4.disk.inodes = m3.disk.inodes → Q () m4 ∧
      Survives (fun d => Recoverable live V d ∨ Recoverable live V' d) m3.disk m4.disk)
    fun m4 hw4 hcp4 _ hin => ?_) (Io.rename_inodes _ _ m3)) (fun _ _ hm => hm.1 hm.2)
    fun _ _ hm => hm.1)
  have hw14 : Wrote live (fun s =>
      s = m.disk.locate (temporaryOf (LogPaths.forLog live).checkpoint) ∨
      s = m.disk.locate (LogPaths.forLog live).checkpoint) m m4 := by
    refine (hw13.trans hw4).mono fun s hs => ?_
    simp only [hw13.locate] at hs
    rcases hs with hs | hs | hs <;> simp_all
  have hcp : m4.fileOf (LogPaths.forLog live).checkpoint = some ck.encode.toUTF8 := by
    rw [Machine.fileOf, hw4.locate, hcp4, ht3]
  refine ⟨hQ m4 hw14 hcp, (survives_of_inodes hw4.ready hin ?_).mono fun _ hd => .inr hd⟩
  rw [hcp, hw14.fileOf (q := live) ?_, hw14.fileOf (q := (LogPaths.forLog live).backup) ?_]
  · exact hV'
  · rintro (he | he)
    · exact hapart _ (.inr (.inl rfl)) he
    · exact (hA.checkpoint_backup m.disk).ne he.symm
  · rintro (he | he)
    · exact hapart _ (.inl rfl) he
    · exact (hA.checkpoint_live m.disk).ne he.symm

end Store

end EntityLog.Log
