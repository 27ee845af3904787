import EntityLog.Proofs.Log.Repair
import EntityLog.Proofs.Log.Writing
/-!
# A write appends its line

A log open on a machine whose calls succeed, with both handles in place, its live file holding
the bytes `D` and its checkpoint at their end (`Holding`), takes a write as the format says: the
live file then holds `D` followed by the record's line, the checkpoint moves to the new end, and
only the places of the log's files were written (`write_content`). Positions are 64-bit and
saturate, so the checkpoint marks the end of the bytes, or a position past the largest one
once the bytes pass it (`Marks`).

With the clock valid and the checkpoint stored as well (`Appendable`), a write keeps all of it
(`write_appends`), and so does every step that writes none of the log's places and keeps the
clock (`Appendable.wrote`).
-/

namespace EntityLog.Log

open EntityLog.Files EntityLog.Record Path

/-- A checkpoint position marks the end of `n` bytes: it is `n`, or the largest position when
`n` is past it. -/
def Marks (position n : Nat) : Prop := min maxPosition n ≤ position ∧ position ≤ n

theorem Marks.not_exceeds {n : Nat} {c : Checkpoint} (h : Marks c.position n) :
    c.exceeds n = false := by
  simp [Checkpoint.exceeds, h.2]

theorem Marks.advance {p n : Nat} (h : Marks p n) (k : Nat) :
    Marks (advancePosition p k) (n + k) := by
  unfold Marks advancePosition at *
  omega

theorem Marks.eq {p n : Nat} (h : Marks p n) (hn : n ≤ maxPosition) : p = n := by
  unfold Marks at h
  omega

/-- The log at `live` is open on a machine whose calls succeed, with the live file and the
mirror named where they were opened, the live file holding `D`, and the checkpoint marking the
end of `D`. -/
structure Holding (live : Path) (D : ByteArray) (s : Machine × DurableLog) : Prop where
  ready : Ready live s.1
  paths : s.2.paths = LogPaths.forLog live
  backup : s.2.backup.path = (LogPaths.forLog live).backup
  placed : Placed s.2.opened s.1.disk
  file : s.2.file.isSome
  mirror : s.2.MirrorReady
  holds : s.1.fileOf live = some D
  position : Marks s.2.checkpoint.position D.size

/-- A log that holds `D`, on a machine whose clock gives valid times, with its checkpoint
stored: what a write needs and keeps. -/
structure Appendable (live : Path) (D : ByteArray) (s : Machine × DurableLog) : Prop
    extends Holding live D s where
  clock : ∀ n, (s.1.clock n).Valid
  stored : Stored (LogPaths.forLog live) s.2.checkpoint s.1.disk

section Frames

variable {live : Path} {D : ByteArray} {m m' : Machine} {l : DurableLog}
  {W : List String → Prop}

theorem Appendable.settled (h : Appendable live D (m, l)) : Settled live (m, l) :=
  ⟨⟨h.ready.quiet.honest, h.clock, h.paths, h.backup, h.placed⟩, h.stored⟩

/-- The files a log has open are files of the log. -/
theorem Holding.opened_isFile (h : Holding live D (m, l)) {p : Path} {j : Nat}
    (hpj : (p, j) ∈ l.opened) : (LogPaths.forLog live).IsFile p := by
  have hp : l.paths = LogPaths.forLog live := h.paths
  have hb : l.backup.path = (LogPaths.forLog live).backup := h.backup
  simp only [DurableLog.opened, hp, hb, List.mem_append, Option.mem_toList, Option.map_eq_some_iff,
    Prod.mk.injEq] at hpj
  rcases hpj with ⟨_, _, rfl, -⟩ | ⟨_, _, rfl, -⟩
  · exact .inl rfl
  · exact .inr (.inr (.inr (.inl rfl)))

/-- What a step that wrote none of the places of the log's files finds at them. -/
theorem Wrote.keepsPlaces (hw : Wrote live W m m')
    (hW : ∀ s, W s → ¬ (LogPaths.forLog live).Place m.disk s) {q : Path}
    (hq : (LogPaths.forLog live).IsFile q) :
    m'.disk.nodeAt (m'.disk.locate q) = m.disk.nodeAt (m.disk.locate q) ∧
      m'.disk.fileAt (m'.disk.locate q) = m.disk.fileAt (m.disk.locate q) := by
  have hn : ¬ W (m.disk.locate q) := fun hwq => hW _ hwq (place_isFile _ hq)
  rw [hw.locate]
  exact ⟨hw.nodes _ hn, hw.others _ hn⟩

/-- A step that wrote none of the places of the log's files leaves the log holding what it
held. -/
theorem Holding.wrote (h : Holding live D (m, l)) (hw : Wrote live W m m')
    (hW : ∀ s, W s → ¬ (LogPaths.forLog live).Place m.disk s) : Holding live D (m', l) where
  ready := hw.ready
  paths := h.paths
  backup := h.backup
  placed := ⟨hw.ready.sound, fun {p j} hpj => by
    rw [(hw.keepsPlaces hW (h.opened_isFile hpj)).1]
    exact h.placed.named hpj⟩
  file := h.file
  mirror := h.mirror
  holds := by
    show m'.fileOf live = some D
    rw [Machine.fileOf, (hw.keepsPlaces hW (q := live) (.inl rfl)).2]
    exact h.holds
  position := h.position

/-- A stored checkpoint stays stored along a step that wrote none of the log's places. -/
theorem Stored.wrote {ck : Checkpoint} (hst : Stored (LogPaths.forLog live) ck m.disk)
    (hw : Wrote live W m m') (hW : ∀ s, W s → ¬ (LogPaths.forLog live).Place m.disk s) :
    Stored (LogPaths.forLog live) ck m'.disk := by
  obtain ⟨i, hi, hdec⟩ := hst
  have hn : ¬ W (m.disk.locate (LogPaths.forLog live).checkpoint) :=
    fun hwq => hW _ hwq (place_isFile _ (.inr (.inl rfl)))
  exact ⟨i, (hw.keepsPlaces hW (.inr (.inl rfl))).1.trans hi,
    fun hpos => hw.bytesOf hn hi ▸ hdec hpos⟩

/-- The live file of a log that holds `D` is open, and holds `D`. -/
theorem Holding.liveFile (h : Holding live D (m, l)) :
    ∃ i, l.file = some i ∧ m.disk.nodeAt (m.disk.locate live) = some (.file i) ∧
      m.disk.bytesOf i = D := by
  obtain ⟨i, hi⟩ : ∃ i, l.file = some i := Option.isSome_iff_exists.1 h.file
  have hp : l.paths = LogPaths.forLog live := h.paths
  have hnode : m.disk.nodeAt (m.disk.locate live) = some (.file i) := by
    refine h.placed.named (p := live) ?_
    simp [DurableLog.opened, hi, hp, LogPaths.forLog]
  have hl := h.holds
  rw [Machine.fileOf, Disk.fileAt_of_nodeAt hnode] at hl
  exact ⟨i, hi, hnode, Option.some.inj hl⟩

theorem Appendable.wrote (h : Appendable live D (m, l)) (hw : Wrote live W m m')
    (hW : ∀ s, W s → ¬ (LogPaths.forLog live).Place m.disk s) (hc : m'.clock = m.clock) :
    Appendable live D (m', l) :=
  { h.toHolding.wrote hw hW with
    clock := fun n => hc ▸ h.clock n
    stored := h.stored.wrote hw hW }

end Frames

/-! ## Appending a line -/

section Append

variable {live : Path} {N : String} {D : ByteArray} {m : Machine} {l : DurableLog}
  (hlive : fileName live = some N) (hsep : live.endsInSeparator = false)
include hlive hsep

/-- Recording a line in a ready backup: the mirror's handle takes it, or the live file is copied
over the backup. Only the backup's place is written. -/
theorem record_ready (h : Ready live m) {b : Backup}
    (hb : b.path = (LogPaths.forLog live).backup) (hready : b.Ready)
    (hmirror : ∀ k, b.mirror = some k →
      m.disk.nodeAt (m.disk.locate (LogPaths.forLog live).backup) = some (.file k))
    {v : ByteArray} (hv : m.disk.fileAt (m.disk.locate live) = some v) (line : ByteArray)
    {Q : Unit → Machine → Prop} {E : WalError → Machine → Prop}
    (hQ : ∀ m', Wrote live (· = m.disk.locate (LogPaths.forLog live).backup) m m' → Q () m') :
    wp (b.record live line) Q E m := by
  unfold Backup.record
  split
  · rename_i hpol
    obtain ⟨k, hk⟩ := Option.isSome_iff_exists.1 (hready hpol)
    rw [hk]
    simp only [Wal.io, wp_onMachine_io, wp_bind]
    refine append_ready h (hmirror k hk) line fun m1 hw1 _ _ => ?_
    exact sync_ready hw1.ready k fun m2 hw2 =>
      hQ _ ((hw1.trans hw2).mono fun _ hs => hs.elim id False.elim)
  · simp only [Wal.io, wp_onMachine_io, wp_bind]
    refine copy_ready h hlive hsep (.inl rfl) (.inr (.inr (.inr (.inl hb)))) hv fun m1 hw1 _ => ?_
    rw [hb] at hw1
    exact hQ _ hw1

/-- Appending a line to a log that holds `D`: the live file and the backup take it, and the
checkpoint past it is stored. Only the places of the log's files are written. -/
theorem appendLine_content (h : Holding live D (m, l)) (line : ByteArray) :
    wp (DurableLog.appendLine line)
      (fun cp s => s.2 = { l with checkpoint := cp } ∧
        Marks cp.position (D ++ line).size ∧
        s.1.fileOf live = some (D ++ line) ∧
        Wrote live ((LogPaths.forLog live).Place m.disk) m s.1)
      (fun _ _ => False) (m, l) := by
  obtain ⟨i, hi, hnode, hD⟩ := h.liveFile
  have hA := forLog_apart hlive
  have hp : l.paths = LogPaths.forLog live := h.paths
  simp only [DurableLog.appendLine, wp_bind, wp_log, hi, wp_pure, wp_io]
  refine append_ready h.ready hnode line fun m1 hw1 hn1 hl1 => ?_
  refine sync_ready hw1.ready i fun m2 hw2 => ?_
  have hw12 := hw1.trans hw2
  -- the backup's place was not written, so the mirror is still named there
  have hmirror : ∀ k, l.backup.mirror = some k → m2.disk.nodeAt
      (m2.disk.locate (LogPaths.forLog live).backup) = some (.file k) := by
    intro k hk
    have hk0 : m.disk.nodeAt (m.disk.locate (LogPaths.forLog live).backup) = some (.file k) := by
      have hb : l.backup.path = (LogPaths.forLog live).backup := h.backup
      refine h.placed.named (p := (LogPaths.forLog live).backup) ?_
      simp [DurableLog.opened, hk, hb]
    rw [hw12.locate, hw12.nodes _ ?_]
    · exact hk0
    · rintro (he | he)
      · exact (hA.live_backup m.disk).ne he.symm
      · exact he
  have hl2 : m2.disk.fileAt (m2.disk.locate live) = some (D ++ line) := by
    rw [hw12.locate, hw2.others _ not_false, hl1, hD]
  rw [hp]
  simp only [wp_wal]
  refine record_ready hlive hsep hw12.ready h.backup (h.mirror (by simp [hi])) hmirror hl2 line
    fun m3 hw3 => ?_
  simp only [wp_bind, wp_io, Io.now, wp_get, wp_pure, wp_wal]
  refine storeCheckpoint_ready hw3.ready hlive hsep _ fun m4 hw4 => ?_
  simp only [wp_update, wp_pure]
  have hw14 := (hw12.trans hw3).trans hw4
  refine ⟨by rw [hp, hi], ?_, ?_, hw14.mono fun s hs => ?_⟩
  · rw [ByteArray.size_append]
    exact h.position.advance _
  · rw [Machine.fileOf, hw4.locate, hw4.others _ ?_, hw3.locate, hw3.others _ ?_]
    · exact hl2
    · exact (hA.live_backup m2.disk).ne
    · rintro (he | he)
      · exact (hA.live_temporary m3.disk).ne he
      · exact (hA.checkpoint_live m3.disk).ne he.symm
  · rcases hs with (((hs | hs) | hs) | hs | hs)
    · exact LogPaths.place_locate rfl (.inl rfl) hs
    · exact hs.elim
    · exact LogPaths.place_locate hw12.cwd (.inr (.inr (.inr (.inl rfl)))) hs
    · exact LogPaths.place_locate (hw12.cwd.symm ▸ hw3.cwd) (.inr (.inr (.inl rfl))) hs
    · exact LogPaths.place_locate (hw12.cwd.symm ▸ hw3.cwd) (.inr (.inl rfl)) hs

/-- Writing a record to a log that holds `D`: the live file is not taken for damaged, since it
reaches the checkpoint, and the record's line is appended. -/
theorem write_content (h : Holding live D (m, l)) (r : ChangeRecord) :
    wp (DurableLog.write r)
      (fun cp s => s.2 = { l with checkpoint := cp } ∧
        Marks cp.position (D ++ (r.encode ++ "\n").toUTF8).size ∧
        s.1.fileOf live = some (D ++ (r.encode ++ "\n").toUTF8) ∧
        Wrote live ((LogPaths.forLog live).Place m.disk) m s.1)
      (fun _ _ => False) (m, l) := by
  obtain ⟨i, hi⟩ : ∃ i, l.file = some i := Option.isSome_iff_exists.1 h.file
  have hp : l.paths = LogPaths.forLog live := h.paths
  have hL : m.disk.fileAt (m.disk.locate live) = some D := h.holds
  simp only [DurableLog.write, DurableLog.isCorrupted, DurableLog.appendOrUndo, wp_bind, wp_log,
    hi, Option.isNone_some, Bool.false_eq_true, if_false, wp_pure, wp_tryCatch, wp_io, hp]
  refine size?_ready h.ready hlive hsep (.inl rfl) fun m1 hw1 => ?_
  have hsize : Option.map ByteArray.size
      ((m, l).1.disk.fileAt ((m, l).1.disk.locate (LogPaths.forLog live).live)) = some D.size := by
    show Option.map ByteArray.size (m.disk.fileAt (m.disk.locate live)) = _
    rw [hL]
    rfl
  have hreach : l.checkpoint.exceeds D.size = false := Marks.not_exceeds h.position
  rw [hsize]
  simp only [wp_pure, hreach, Bool.false_eq_true, if_false, wp_tryCatch]
  refine wp_mono (appendLine_content hlive hsep (h.wrote hw1 fun _ h => h.elim) _)
    (fun cp s hs => ⟨hs.1.trans (by rw [hp, hi]), hs.2.1, hs.2.2.1,
      (hw1.trans hs.2.2.2).mono fun t ht => ?_⟩)
    fun _ _ h => h.elim
  rcases ht with ht | ht
  · exact ht.elim
  · rwa [LogPaths.place_of_cwd _ hw1.cwd] at ht

/-- A write to an appendable log succeeds and appends the record's line: the log stays
appendable with the line added, only its checkpoint changes, and only the places of its files
were written. -/
theorem write_appends (h : Appendable live D (m, l)) (r : ChangeRecord) :
    wp (DurableLog.write r)
      (fun cp s => Appendable live (D ++ (r.encode ++ "\n").toUTF8) s ∧
        s.2 = { l with checkpoint := cp } ∧ Wrote live ((LogPaths.forLog live).Place m.disk) m s.1)
      (fun _ _ => False) (m, l) := by
  refine wp_mono (wp_and (write_content hlive hsep h.toHolding r)
    (DurableLog.write_settles hlive h.settled r)) (fun cp s hs => ?_) fun _ _ hs => hs.1
  obtain ⟨⟨hl, hpos, hholds, hw⟩, hset⟩ := hs
  obtain ⟨m', l'⟩ := s
  simp only at hl
  subst hl
  exact ⟨⟨⟨hw.ready, h.paths, h.backup, hset.placed, h.file, h.mirror, hholds, hpos⟩, hset.clock,
    hset.stored⟩, rfl, hw⟩

/-- Opening a log whose live file reaches the position it opens at succeeds, and leaves the log
appendable at the live file's bytes up to that position; only the log's files were written. -/
theorem openLog_appendable (h : Ready live m) (hfree : LockFree live m)
    (hclock : ∀ n, (m.clock n).Valid) (policy : Config.BackupPolicy) {q : Nat}
    (hq : Positioned (m.fileOf live) (m.fileOf (LogPaths.forLog live).checkpoint) q)
    (hle : q ≤ ((m.fileOf live).getD ByteArray.empty).size) :
    wp (DurableLog.openLog live policy)
      (fun l m' => Appendable live (((m.fileOf live).getD ByteArray.empty).extract 0 q) (m', l) ∧
        Wrote live ((LogPaths.forLog live).Place m.disk) m m')
      (fun _ _ => False) m := by
  refine wp_mono (wp_and (wp_and (openLog_repairsWithin h hlive hsep hfree policy)
    (DurableLog.openLog_settles hlive policy h.quiet.honest hclock h.sound))
    (DurableLog.openLog_spec live policy)) (fun l m' hl => ?_) fun e m' he => ?_
  · obtain ⟨⟨⟨hrep, hw⟩, hset, -⟩, hmirror, hfile⟩ := hl
    obtain ⟨log, hlog, hpos, -, hholds, -⟩ := hrep.reaching q hq hle
    cases hlog
    have hsize : (((m.fileOf live).getD ByteArray.empty).extract 0 q).size = q := by
      simp [ByteArray.size_extract, hle]
    refine ⟨⟨⟨hw.ready, hset.paths, hset.backup, hset.placed, hfile, hmirror, hholds, ?_⟩,
      hset.clock, hset.stored⟩, hw⟩
    rw [hpos, hsize]
    exact ⟨Nat.min_le_right _ _, le_rfl⟩
  · obtain ⟨log, hlog, -⟩ := he.1.1.reaching q hq hle
    cases hlog

end Append

end EntityLog.Log
