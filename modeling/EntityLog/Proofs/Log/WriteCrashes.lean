import EntityLog.Proofs.Log.Reopening
/-!
# A write cut anywhere

A log whose backup holds what its live file holds (`Backed`) takes a write of the line `x` in
order: the live file takes `x` and is synced, the backup takes it (appended to the mirror, or
copied from the live file), and the checkpoint past it is stored through a temporary file renamed
over the old one. Cut at any call, by a crash that leaves each file it was writing cut to any
first part, the files still open at the old bytes `V`, until the rename puts the new checkpoint
in place, and at `V ++ x` from then on (`write_walk`): the live file reaches `V`, or falls short
of it while the backup still holds `V`; the backup is only written once the live file holds
`V ++ x`. A write that is not cut keeps the log backed, at `V ++ x`.
-/

namespace EntityLog.Log

open EntityLog.Files EntityLog.Files.Carries EntityLog.Record Path

/-- An appendable log whose backup holds what the live file holds. -/
structure Backed (live : Path) (V : ByteArray) (s : Machine × DurableLog) : Prop
    extends Appendable live V s where
  backed : s.1.fileOf (LogPaths.forLog live).backup = some V

/-! ## Files that open at a first part of what they hold -/

section Restorable

variable {V x y : ByteArray} {L B C : Option ByteArray}

/-- A live file and a backup that both hold `V` and more. -/
theorem restorable_extends (hC : Positioned L C V.size) (hL : L = some (V ++ x))
    (hB : B = some (V ++ y)) : Restorable V L B C :=
  restorable_backupCut (n := (V ++ y).size) hC hL (by rw [ByteArray.extract_zero_size]; exact hB)

/-- A live file that holds `V` and more, beside a backup at `V`. -/
theorem restorable_live (hC : Positioned L C V.size) (hL : L = some (V ++ x)) (hB : B = some V) :
    Restorable V L B C :=
  restorable_extends (y := .empty) hC hL (by rw [ByteArray.append_empty]; exact hB)

/-- A live file and a backup at `V`. -/
theorem restorable_whole (hC : Positioned L C V.size) (hL : L = some V) (hB : B = some V) :
    Restorable V L B C :=
  restorable_live (x := .empty) hC (by rw [ByteArray.append_empty]; exact hL) hB

end Restorable

section Backed

variable {live : Path} {V : ByteArray} {m m' : Machine} {l : DurableLog}

/-- The stored checkpoint of a backed log marks the end of its bytes. -/
theorem Backed.positioned (h : Backed live V (m, l)) (hmax : V.size ≤ maxPosition)
    (L : Option ByteArray) : Positioned L (m.fileOf (LogPaths.forLog live).checkpoint) V.size := by
  have hpos : l.checkpoint.position = V.size := h.position.eq hmax
  rw [← hpos]
  exact h.stored.positioned (hpos ▸ hmax) L

theorem Backed.restorable (h : Backed live V (m, l)) (hmax : V.size ≤ maxPosition) :
    Restorable V (m.fileOf live) (m.fileOf (LogPaths.forLog live).backup)
      (m.fileOf (LogPaths.forLog live).checkpoint) :=
  restorable_whole (h.positioned hmax _) h.holds h.backed

/-- A backed log stays backed along a step that wrote none of its places and kept the clock. -/
theorem Backed.wrote {W : List String → Prop} (h : Backed live V (m, l)) (hw : Wrote live W m m')
    (hW : ∀ s, W s → ¬ (LogPaths.forLog live).Place m.disk s) (hc : m'.clock = m.clock) :
    Backed live V (m', l) where
  toAppendable := h.toAppendable.wrote hw hW hc
  backed := by
    rw [hw.fileOf fun hs => hW _ hs (place_isFile _ (.inr (.inr (.inr (.inl rfl)))))]
    exact h.backed

end Backed

/-! ## Cutting one file's write -/

section Cuts

variable {live : Path} {N : String} {V x y : ByteArray} {m m' : Machine}
  (hlive : fileName live = some N)
include hlive

/-- A call that wrote only the live file, leaving it at `V ++ x` beside a backup at `V`: cut
anywhere, the live file reaches `V` or the backup restores it. -/
theorem survives_liveWrite (hw : Wrote live (· = m.disk.locate live) m m')
    (hC : ∀ L, Positioned L (m'.fileOf (LogPaths.forLog live).checkpoint) V.size)
    (hL : m'.fileOf live = some (V ++ x)) (hB : m'.fileOf (LogPaths.forLog live).backup = some V) :
    Survives (Recoverable live V) m.disk m'.disk := by
  have hA := forLog_apart hlive
  refine survives_of_restorable hw.ready fun d ht => ?_
  obtain ⟨n, hn⟩ := ht.fileAt (m'.disk.locate live)
  rw [Torn.fileAt_unwritten ht hw (s := m'.disk.locate (LogPaths.forLog live).backup) ?_,
    Torn.fileAt_unwritten ht hw (s := m'.disk.locate (LogPaths.forLog live).checkpoint) ?_]
  · exact restorable_liveCut (hC _) (hn.trans (congrArg (Option.map _) hL)) hB
  · rw [hw.locate]
    exact (hA.checkpoint_live m.disk).ne
  · rw [hw.locate]
    exact (hA.live_backup m.disk).ne.symm

/-- A call that wrote only the backup, leaving it at `V ++ y` beside a live file at `V ++ x`: cut
anywhere, the live file still reaches `V`. -/
theorem survives_backupWrite (hw : Wrote live (· = m.disk.locate (LogPaths.forLog live).backup) m m')
    (hC : ∀ L, Positioned L (m'.fileOf (LogPaths.forLog live).checkpoint) V.size)
    (hL : m'.fileOf live = some (V ++ x))
    (hB : m'.fileOf (LogPaths.forLog live).backup = some (V ++ y)) :
    Survives (Recoverable live V) m.disk m'.disk := by
  have hA := forLog_apart hlive
  refine survives_of_restorable hw.ready fun d ht => ?_
  obtain ⟨n, hn⟩ := ht.fileAt (m'.disk.locate (LogPaths.forLog live).backup)
  rw [Torn.fileAt_unwritten ht hw (s := m'.disk.locate live) ?_,
    Torn.fileAt_unwritten ht hw (s := m'.disk.locate (LogPaths.forLog live).checkpoint) ?_]
  · exact restorable_backupCut (hC _) hL (hn.trans (congrArg (Option.map _) hB))
  · rw [hw.locate]
    exact (hA.checkpoint_backup m.disk).ne
  · rw [hw.locate]
    exact (hA.live_backup m.disk).ne

end Cuts

/-- A call keeps the clock: what follows it may count on that. -/
theorem Io.call_keepsClock {α : Type} {f : Disk → Except IoFault (Disk × α)} {m : Machine}
    {Q : α → Machine → Prop} {E : IoFault → Machine → Prop}
    (h : wp (Io.call f) (fun a m' => m'.clock = m.clock → Q a m')
      (fun e m' => m'.clock = m.clock → E e m') m) : wp (Io.call f) Q E m :=
  wp_mono (wp_and h (Io.call_spec f m)) (fun _ _ h => h.1 h.2.1) fun _ _ h => h.1 h.2.1

/-- A checkpoint written out positions the open at its mark. -/
theorem positioned_encode {ck : Checkpoint} (hpos : ck.position ≤ maxPosition)
    (hts : ck.timestamp.Valid) (L : Option ByteArray) :
    Positioned L (some ck.encode.toUTF8) ck.position :=
  .inr ⟨_, ck, rfl, Checkpoint.decode_encode hpos hts, rfl⟩

/-! ## Walking a write -/

section Walks

variable {live : Path} {N : String} {V x : ByteArray} {m : Machine} {l : DurableLog}
  (hlive : fileName live = some N) (hsep : live.endsInSeparator = false)
include hlive hsep

/-- Recording the line `x` in the backup once the live file took it: cut anywhere, the live file
still reaches `V`. -/
theorem record_walk (h : Ready live m) {b : Backup} (hb : b.path = (LogPaths.forLog live).backup)
    (hready : b.Ready)
    (hmirror : ∀ k, b.mirror = some k →
      m.disk.nodeAt (m.disk.locate (LogPaths.forLog live).backup) = some (.file k))
    (hC : ∀ L, Positioned L (m.fileOf (LogPaths.forLog live).checkpoint) V.size)
    (hL : m.fileOf live = some (V ++ x)) (hB : m.fileOf (LogPaths.forLog live).backup = some V)
    {Q : Unit → Machine → Prop} {E : WalError → Machine → Prop}
    (hQ : ∀ m', Wrote live (· = m.disk.locate (LogPaths.forLog live).backup) m m' →
      m'.fileOf (LogPaths.forLog live).backup = some (V ++ x) → m'.clock = m.clock → Q () m') :
    Walk (b.record live x) m (Crashes (Recoverable live V)) Q E := by
  have hA := forLog_apart hlive
  -- writing the backup keeps the live file and the checkpoint
  have hkeep : ∀ {m'}, Wrote live (· = m.disk.locate (LogPaths.forLog live).backup) m m' →
      m'.fileOf live = some (V ++ x) ∧
        ∀ L, Positioned L (m'.fileOf (LogPaths.forLog live).checkpoint) V.size := by
    intro m' hw
    rw [hw.fileOf (q := live) (hA.live_backup m.disk).ne,
      hw.fileOf (hA.checkpoint_backup m.disk).ne]
    exact ⟨hL, hC⟩
  unfold Backup.record
  split
  · -- the mirror's handle takes the line and is synced
    rename_i hpol
    obtain ⟨k, hk⟩ := Option.isSome_iff_exists.1 (hready hpol)
    have hbk : m.disk.bytesOf k = V := by
      have hB' := hB
      rw [Machine.fileOf, Disk.fileAt_of_nodeAt (hmirror k hk)] at hB'
      exact Option.some.inj hB'
    simp only [hk]
    unfold Wal.io Io.append Io.sync Io.change
    refine Walk.ioCrashes (Walk.callThen (h.quiet _) (Io.call_keepsClock
      (append_ready h (hmirror k hk) x fun m1 hw1 _ hf1 hc1 => ?_)))
    have hB1 : m1.fileOf (LogPaths.forLog live).backup = some (V ++ x) := by
      rw [Machine.fileOf, hw1.locate, hf1, hbk]
    obtain ⟨hL1, hC1⟩ := hkeep hw1
    refine ⟨Walk.callLast (hw1.ready.quiet _) (Io.call_keepsClock
      (sync_ready hw1.ready k fun m2 hw2 hc2 => ⟨?_, ?_⟩)), survives_backupWrite hlive hw1 hC1 hL1 hB1⟩
    · refine hQ m2 ((hw1.trans hw2).mono fun _ hs => hs.elim id False.elim) ?_ (hc2.trans hc1)
      rw [hw2.fileOf not_false]
      exact hB1
    · refine survives_unwritten hw2 (fun _ _ h => h) ?_
      rw [hw2.fileOf not_false, hw2.fileOf not_false, hw2.fileOf not_false]
      exact restorable_extends (hC1 _) hL1 hB1
  · -- the live file is copied over the backup
    unfold Wal.io
    refine Walk.bind (Walk.ioCrashes (Walk.callLast (h.quiet _) (Io.call_keepsClock
      (copy_ready h hlive hsep (.inl rfl) (.inr (.inr (.inr (.inl hb)))) hL
        fun m1 hw1 hf1 hc1 => ?_)))) Crashes.continues
    rw [hb] at hw1 hf1
    have hB1 : m1.fileOf (LogPaths.forLog live).backup = some (V ++ x) := by
      rw [Machine.fileOf, hw1.locate]
      exact hf1
    obtain ⟨hL1, hC1⟩ := hkeep hw1
    exact ⟨Walk.pure (hQ m1 hw1 hB1 hc1), survives_backupWrite hlive hw1 hC1 hL1 hB1⟩

/-- Appending the line `x` to a backed log: cut before the new checkpoint is in place, the files
open at `V`, and after it at `V ++ x`; not cut, the backup holds `V ++ x`. -/
theorem appendLine_walk (h : Backed live V (m, l)) (hmax : (V ++ x).size ≤ maxPosition)
    {E : WalError → Machine × DurableLog → Prop} :
    Walk (DurableLog.appendLine x) (m, l)
      (Crashes fun d => Recoverable live V d ∨ Recoverable live (V ++ x) d)
      (fun _ s => s.1.fileOf (LogPaths.forLog live).backup = some (V ++ x)) E := by
  have hA := forLog_apart hlive
  have hV : V.size ≤ maxPosition := by
    rw [ByteArray.size_append] at hmax
    omega
  obtain ⟨i, hi, hnode, hD⟩ := h.liveFile
  have hp : l.paths = LogPaths.forLog live := h.paths
  unfold DurableLog.appendLine Io.append Io.sync Io.change
  refine Walk.logThen ?_
  simp only [hi, pure_bind, hp]
  -- the live file takes the line and is synced
  refine Walk.bind (Walk.logIoCrashes (Walk.callThen (h.ready.quiet _) (Io.call_keepsClock
    (append_ready h.ready hnode x fun m1 hw1 _ hf1 hc1 => ?_)))) Crashes.continues
  have hL1 : m1.fileOf live = some (V ++ x) := by
    rw [Machine.fileOf, hw1.locate, hf1, hD]
  have hB1 : m1.fileOf (LogPaths.forLog live).backup = some V := by
    rw [hw1.fileOf (hA.live_backup m.disk).ne.symm]
    exact h.backed
  have hC1 : ∀ L, Positioned L (m1.fileOf (LogPaths.forLog live).checkpoint) V.size := by
    rw [hw1.fileOf (hA.checkpoint_live m.disk).ne]
    exact h.positioned hV
  refine ⟨Walk.callLast (hw1.ready.quiet _) (Io.call_keepsClock
    (sync_ready hw1.ready i fun m2 hw2 hc2 => ⟨?_, ?_⟩)),
    (survives_liveWrite hlive hw1 hC1 hL1 hB1).mono fun _ hd => .inl hd⟩
  rotate_left
  · refine (survives_unwritten hw2 (fun _ _ h => h) ?_).mono fun _ hd => .inl hd
    rw [hw2.fileOf not_false, hw2.fileOf not_false, hw2.fileOf not_false]
    exact restorable_live (hC1 _) hL1 hB1
  have hw12 := (hw1.trans hw2).mono fun _ hs => hs.elim id False.elim
  -- the backup's place was not written, so the mirror is still named there
  have hmirror : ∀ k, l.backup.mirror = some k → m2.disk.nodeAt
      (m2.disk.locate (LogPaths.forLog live).backup) = some (.file k) := by
    intro k hk
    have hk0 : m.disk.nodeAt (m.disk.locate (LogPaths.forLog live).backup) = some (.file k) := by
      have hb : l.backup.path = (LogPaths.forLog live).backup := h.backup
      refine h.placed.named (p := (LogPaths.forLog live).backup) ?_
      simp [DurableLog.opened, hk, hb]
    rw [hw12.locate, hw12.nodes _ (hA.live_backup m.disk).ne.symm]
    exact hk0
  have hL2 : m2.fileOf live = some (V ++ x) := by
    rw [hw2.fileOf not_false]
    exact hL1
  have hB2 : m2.fileOf (LogPaths.forLog live).backup = some V := by
    rw [hw2.fileOf not_false]
    exact hB1
  have hC2 : ∀ L, Positioned L (m2.fileOf (LogPaths.forLog live).checkpoint) V.size := by
    rw [hw2.fileOf not_false]
    exact hC1
  -- the backup takes the line
  refine Walk.bind (Walk.wal ((record_walk hlive hsep hw12.ready h.backup (h.mirror (by simp [hi]))
    hmirror hC2 hL2 hB2 fun m3 hw3 hB3 hc3 => ?_).crashesMono fun _ hd => .inl hd)) Crashes.continues
  have hL3 : m3.fileOf live = some (V ++ x) := by
    rw [hw3.fileOf (q := live) (hA.live_backup m2.disk).ne]
    exact hL2
  have hC3 : ∀ L, Positioned L (m3.fileOf (LogPaths.forLog live).checkpoint) V.size := by
    rw [hw3.fileOf (hA.checkpoint_backup m2.disk).ne]
    exact hC2
  -- the checkpoint past the line is stored
  refine Walk.nowThen ?_
  have hnext : advancePosition l.checkpoint.position x.size = (V ++ x).size := by
    rw [ByteArray.size_append]
    exact (h.position.advance x.size).eq (by rwa [← ByteArray.size_append])
  refine Walk.bind (Walk.wal (storeCheckpoint_walk hw3.ready hlive hsep
    (restorable_extends (hC3 _) hL3 hB3)
    (restorable_whole (hnext ▸ positioned_encode (hnext ▸ hmax)
      (((hc3.trans hc2).trans hc1) ▸ h.clock _) _) hL3 hB3)
    fun m4 hw4 _ => ?_)) Crashes.continues
  refine Walk.updateThen (Walk.pure ?_)
  rw [hw4.fileOf (q := (LogPaths.forLog live).backup) ?_]
  · exact hB3
  · rintro (he | he)
    · exact (hA.backup_temporary m3.disk).ne he
    · exact (hA.checkpoint_backup m3.disk).ne he.symm

/-- Checking the live file of a backed log reads its size, finds the checkpoint reached, and
writes nothing; cut at the read, the check counts the file as damaged. -/
theorem isCorrupted_walk (h : Backed live V (m, l)) (hmax : V.size ≤ maxPosition)
    {E : WalError → Machine × DurableLog → Prop} :
    Walk DurableLog.isCorrupted (m, l)
      (fun r D D' => r = .ok true ∧ Survives (Recoverable live V) D D')
      (fun b s => b = false ∧ s.2 = l ∧ Wrote live (fun _ => False) m s.1 ∧ s.1.clock = m.clock)
      E := by
  have hp : l.paths = LogPaths.forLog live := h.paths
  have hL : m.disk.fileAt (m.disk.locate (LogPaths.forLog live).live) = some V := h.holds
  unfold DurableLog.isCorrupted Io.size? Io.look
  refine Walk.logThen (Walk.tryCatch (?_ : Walk _ _ (Crashes (Recoverable live V)) _ _) ?_)
  · rw [hp]
    refine Walk.bind (Walk.logIoCrashes (Walk.callLast (h.ready.quiet _) (Io.call_keepsClock
      (size?_ready h.ready hlive hsep (.inl rfl) fun m1 hw1 hc1 => ⟨?_, ?_⟩)))) Crashes.continues
    · simp only [hL, Option.map_some]
      exact Walk.pure ⟨h.position.not_exceeds, rfl, hw1, hc1⟩
    · refine survives_unwritten hw1 (fun _ _ h => h) ?_
      rw [hw1.fileOf not_false, hw1.fileOf not_false, hw1.fileOf not_false]
      exact h.restorable hmax
  · -- cut at the read, the size is not known and the file counts as damaged
    rintro r D D' ⟨⟨e, rfl⟩, hs⟩
    refine ⟨fun a ha => ?_, fun e _ t ht => ⟨⟨rfl, hs⟩, Idle.refl ht⟩⟩
    cases ha

/-- Appending with an undo to a backed log. A cut append fails, and once the calls stop the undo
fails too, so a cut leaves the files as the append left them. -/
theorem appendOrUndo_walk (h : Backed live V (m, l)) (hmax : (V ++ x).size ≤ maxPosition)
    {E : WalError → Machine × DurableLog → Prop} :
    Walk (DurableLog.appendOrUndo x) (m, l)
      (Crashes fun d => Recoverable live V d ∨ Recoverable live (V ++ x) d)
      (fun _ s => s.1.fileOf (LogPaths.forLog live).backup = some (V ++ x)) E := by
  unfold DurableLog.appendOrUndo
  refine Walk.tryCatch (appendLine_walk hlive hsep h hmax) fun r D D' hr =>
    ⟨fun a ha => ?_, fun e he t ht => ?_⟩
  · obtain ⟨⟨e, rfl⟩, -⟩ := hr
    cases ha
  · -- the live file counts as damaged, and recovering it fails at once
    obtain ⟨tm, tl⟩ := t
    simp only [wp_bind]
    refine DurableLog.isCorrupted_stopped ht fun m1 h1 => ?_
    rw [if_pos rfl, wp_bind, wp_tryCatch]
    exact DurableLog.recover_stopped h1.1 fun _ m2 _ h2 => ⟨⟨⟨e, rfl⟩, hr.2⟩, h1.trans h2⟩

/-- A write to a backed log: cut before the new checkpoint is in place, the log's files open at
the bytes `V` it held; cut after, at `V` and the record's line. Not cut, the write succeeds and
leaves the log backed at `V` and the line. -/
theorem write_walk (h : Backed live V (m, l)) (r : ChangeRecord)
    (hmax : (V ++ (r.encode ++ "\n").toUTF8).size ≤ maxPosition) :
    Walk (DurableLog.write r) (m, l)
      (Crashes fun d => Recoverable live V d ∨ Recoverable live (V ++ (r.encode ++ "\n").toUTF8) d)
      (fun cp s => Backed live (V ++ (r.encode ++ "\n").toUTF8) s ∧
        s.2 = { l with checkpoint := cp } ∧ Wrote live ((LogPaths.forLog live).Place m.disk) m s.1)
      (fun _ _ => False) := by
  have hV : V.size ≤ maxPosition := by
    rw [ByteArray.size_append] at hmax
    omega
  obtain ⟨i, hi, -, -⟩ := h.liveFile
  refine (Walk.and (E := fun _ _ => False) ?_ (write_appends hlive hsep h.toAppendable r)).mono
    (fun _ _ _ h => h)
    (fun _ _ h => ⟨⟨h.2.1, h.1⟩, h.2.2⟩) fun _ _ h => h.2
  unfold DurableLog.write
  refine Walk.logThen ?_
  simp only [hi, Option.isNone_some, Bool.false_eq_true, if_false]
  refine Walk.bind ((isCorrupted_walk hlive hsep h hV).mono (fun _ _ _ h => h) (fun b s hb => ?_)
    fun _ _ h => h) fun c D D' hc => ⟨fun e he => ?_, fun a ha t ht => ?_⟩
  · -- the check passed: the line is appended
    obtain ⟨rfl, hl, hw, hclock⟩ := hb
    obtain ⟨m1, l1⟩ := s
    cases hl
    simp only [Bool.false_eq_true, if_false]
    exact appendOrUndo_walk hlive hsep (h.wrote hw (fun _ h => h.elim) hclock) hmax
  · cases hc.1.symm.trans he
  · -- cut at the check, the live file counts as damaged, and recovering it fails at once
    obtain ⟨tm, tl⟩ := t
    cases hc.1.symm.trans ha
    rw [if_pos rfl, wp_bind]
    exact DurableLog.recover_stopped ht fun e _ _ h2 =>
      ⟨⟨⟨e, rfl⟩, hc.2.mono fun _ hd => .inl hd⟩, h2⟩

end Walks

end EntityLog.Log
