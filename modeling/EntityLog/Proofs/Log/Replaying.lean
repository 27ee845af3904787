import EntityLog.Proofs.Log.Appending
import EntityLog.Proofs.Record.RoundTrip
import EntityLog.Pipeline.JsonLines
/-!
# Replaying reads back the durable lines

Replaying a log reads its live file up to the stored checkpoint, or whole without one, splits
it into lines and decodes each. On a machine whose calls succeed, where the live file reaches
the position the log opens at, replaying gives the lines of the bytes up to that position,
decoded (`replay_reaching`): what opening the log keeps.

Lines split at line feeds, so bytes that end a line split as two parts do
(`splitLines_append`), and decoding goes line by line (`decodeLines_append`). Records written one
after another in their JSON encoding come back as those records; after a prefix that ends a line,
replaying gives the prefix's records followed by them (`decodeLines_afterRecords`).
-/

namespace EntityLog.Log

open EntityLog.Files EntityLog.Record EntityLog.Json Path

/-! ## Bytes and lines -/

/-- Listing the bytes from index `i` onto the reversed `r` read so far. -/
theorem ByteArray.toList_loop (b : ByteArray) (i : Nat) (r : List UInt8) :
    ByteArray.toList.loop b i r = r.reverse ++ b.data.toList.drop i := by
  fun_induction ByteArray.toList.loop b i r with
  | case1 i r hi ih =>
    -- the byte at `i` moves from the rest to the end of what was read
    have hlen : i < b.data.toList.length := by simpa using hi
    rw [ih, List.drop_eq_getElem_cons hlen]
    simp [ByteArray.get!, hi]
  | case2 i r hi =>
    rw [List.drop_eq_nil_of_le (by simpa using Nat.le_of_not_lt hi)]
    simp

theorem ByteArray.toList_eq (b : ByteArray) : b.toList = b.data.toList := by
  simp [ByteArray.toList, ByteArray.toList_loop]

namespace DurableLog

/-- Bytes that end a line, or no bytes at all. -/
def EndsLine (bytes : List UInt8) : Prop := bytes = [] ∨ bytes.getLast? = some 10

/-- Splitting bytes that end a line, followed by more, splits the two apart. -/
theorem splitLines_append {A : List UInt8} (hA : EndsLine A) (B : List UInt8) :
    splitLines (A ++ B) = splitLines A ++ splitLines B := by
  rcases hA with rfl | hA
  · simp [splitLines]
  obtain ⟨A', rfl⟩ : ∃ A', A = A' ++ [10] := ⟨A.dropLast, (List.dropLast_append_getLast? _ hA).symm⟩
  cases B with
  | nil => simp [splitLines]
  | cons b B =>
    have hpieces : (A' ++ 10 :: b :: B).splitOn 10 = A'.splitOn 10 ++ (b :: B).splitOn 10 :=
      List.splitOn_append_cons_self _ _
    have hended : (A' ++ [10]).splitOn 10 = A'.splitOn 10 ++ [[]] := by
      simpa using List.splitOn_append_cons_self (a := (10 : UInt8)) A' []
    have hne : (b :: B).splitOn 10 ≠ [] := List.splitOn_ne_nil _ _
    unfold splitLines
    rw [List.append_assoc, List.singleton_append, hpieces, hended]
    simp only [List.dropLast_append_of_ne_nil hne, List.dropLast_concat,
      List.getLast?_append_of_ne_nil _ hne, List.getLast?_append, List.map_append]
    by_cases hlast : (b :: B).getLast? = some 10 <;> simp [hlast]

/-- Decoding goes line by line: lines that decode, after others, add their records after
those of the others, and a failure among the others is the failure. -/
theorem decodeLines_append (xs : List (List UInt8)) {ys : List (List UInt8)}
    {rs : List ChangeRecord} (hys : decodeLines ys = .ok rs) :
    decodeLines (xs ++ ys) = (decodeLines xs).map (· ++ rs) := by
  induction xs with
  | nil => simp [decodeLines, hys, Except.map]
  | cons line rest ih =>
    rw [List.cons_append, decodeLines, decodeLines]
    split
    · exact ih
    · dsimp only
      split
      · rfl
      · split
        · rw [ih]
          cases decodeLines rest <;> rfl
        · rfl

/-- The bytes of records written as lines. -/
theorem textBytes_batchLines (rs : List ChangeRecord) :
    textBytes (Pipeline.batchLines rs) = rs.flatMap fun r => textBytes (r.encode ++ "\n") := by
  induction rs with
  | nil => rfl
  | cons r rs ih =>
    simp only [Pipeline.batchLines, List.map_cons, String.join_cons, textBytes_append,
      List.flatMap_cons] at ih ⊢
    rw [ih]

/-- Well-formed records written as lines after bytes that end a line decode, after the records
of those bytes, to themselves. -/
theorem decodeLines_afterRecords {D : List UInt8} (hD : EndsLine D) {rs : List ChangeRecord}
    (hvalid : ∀ r ∈ rs, r.Valid) :
    decodeLines (splitLines (D ++ textBytes (Pipeline.batchLines rs))) =
      (decodeLines (splitLines D)).map (· ++ rs) := by
  rw [splitLines_append hD, textBytes_batchLines, splitLines_recordLines]
  exact decodeLines_append _ (decodeLines_recordTexts hvalid)

end DurableLog

/-- The outcome a specification gives for every end of a run is the run's outcome. -/
theorem result_of_wp {σ ε α : Type} {x : ExceptT ε (StateM σ) α} {s : σ} {R : Except ε α}
    (h : wp x (fun a _ => R = .ok a) (fun e _ => R = .error e) s) : (x.run.run s).1 = R := by
  rcases wp_run h with ⟨a, s', hrun, ha⟩ | ⟨e, s', hrun, he⟩
  · rw [hrun, ha]
  · rw [hrun, he]

/-! ## Closing the log -/

section Close

variable {live : Path} {m : Machine} (h : Ready live m)
include h

theorem release_wrote (lk : LogLock) {Q : Unit → Machine → Prop} {E : WalError → Machine → Prop}
    (hQ : ∀ m', Wrote live (fun _ => False) m m' → Q () m') : wp lk.release Q E m := by
  simp only [LogLock.release, wp_bind, wp_tryCatch, Wal.io, wp_onMachine_io]
  refine Io.wp_change_ok (h.quiet _) rfl ?_
  simp only [forgetHeld, wp_modify]
  exact hQ _ (h.unwritten rfl rfl rfl rfl le_rfl)

theorem closeBackup_wrote (b : Backup) {Q : Backup → Machine → Prop}
    {E : WalError → Machine → Prop}
    (hQ : ∀ m', Wrote live (fun _ => False) m m' → Q { b with mirror := none } m') :
    wp b.close Q E m := by
  unfold Backup.close
  split
  · simp only [wp_bind, wp_tryCatch, Wal.io, wp_onMachine_io]
    exact sync_ready h _ hQ
  · simp only [wp_pure]
    exact hQ m (.refl h _)

/-- Closing syncs and lets go of the handles and the lock: no place is written, and the log's
files can still be read as before. -/
theorem close_wrote (l : DurableLog) :
    wp DurableLog.close (fun _ s => Wrote live (fun _ => False) m s.1) (fun _ _ => False) (m, l) := by
  rw [DurableLog.close, wp_bind]
  have hdrop : wp DurableLog.dropFile (fun _ s => Wrote live (fun _ => False) m s.1)
      (fun _ _ => False) (m, l) := by
    simp only [DurableLog.dropFile, wp_bind, wp_log]
    split
    · simp only [wp_bind, wp_update, wp_tryCatch, wp_io, wp_pure]
      exact sync_ready h _ fun _ hw => hw
    · exact .refl h _
  refine wp_mono hdrop (fun _ s hw1 => ?_) fun _ _ hf => hf.elim
  obtain ⟨m1, l1⟩ := s
  simp only [wp_bind, wp_log, wp_wal, wp_update]
  refine closeBackup_wrote hw1.ready l1.backup fun m2 hw2 => ?_
  have hw12 := (hw1.trans hw2).mono fun _ hs => hs.elim id id
  simp only [DurableLog.dropLock, wp_bind, wp_log]
  split
  · simp only [wp_bind, wp_update, wp_wal]
    exact release_wrote hw12.ready _ fun m3 hw3 => (hw12.trans hw3).mono fun _ hs => hs.elim id id
  · exact hw12

/-- The machine a close leaves. -/
theorem close_run_wrote (l : DurableLog) :
    Wrote live (fun _ => False) m (DurableLog.close.run.run (m, l)).2.1 := by
  rcases wp_run (close_wrote h l) with ⟨_, s, hrun, hw⟩ | ⟨_, _, _, hf⟩
  · rw [hrun]
    exact hw
  · exact hf.elim

end Close

/-! ## Replaying an opened log -/

/-- Reading an open live file `i` whole and decoding its lines up to `limit`, on a machine that
only looked since, decodes the bytes up to `q` when `limit` cuts the file there. -/
theorem read_decodes {live : Path} {m m2 : Machine} {i q limit : Nat}
    (hn : m.disk.nodeAt (m.disk.locate live) = some (.file i))
    (hw : Wrote live (fun _ => False) m m2)
    (htake : (m.disk.bytesOf i).toList.take limit = ((m.disk.bytesOf i).extract 0 q).toList) :
    wp (do
        let bytes ← OnMachine.io WalError.io (Io.contents i)
        match DurableLog.decodeLines (DurableLog.splitLines (bytes.toList.take limit)) with
        | .ok rs => pure rs
        | .error e => throw e)
      (fun a _ => DurableLog.decodeLines (DurableLog.splitLines
        ((m.disk.bytesOf i).extract 0 q).toList) = .ok a)
      (fun e _ => DurableLog.decodeLines (DurableLog.splitLines
        ((m.disk.bytesOf i).extract 0 q).toList) = .error e)
      m2 := by
  have hbytes : m2.disk.bytesOf i = m.disk.bytesOf i := hw.bytesOf not_false hn
  simp only [Io.contents, wp_bind, wp_onMachine_io]
  refine Io.wp_look_ok (hw.ready.quiet _) rfl ?_
  rw [hbytes, htake]
  cases DurableLog.decodeLines (DurableLog.splitLines ((m.disk.bytesOf i).extract 0 q).toList) <;>
    rfl

section Replay

variable {live : Path} {N : String} {m : Machine} (h : Ready live m)
  (hlive : fileName live = some N) (hsep : live.endsInSeparator = false)
include h hlive hsep

/-- Replaying a log whose live file reaches the position it opens at reads the lines of the
bytes up to that position. -/
theorem replay_reaching {q : Nat}
    (hq : Positioned (m.fileOf live) (m.fileOf (LogPaths.forLog live).checkpoint) q)
    (hle : q ≤ ((m.fileOf live).getD ByteArray.empty).size) (hmax : q ≤ maxPosition) :
    ((DurableLog.replay live).run.run m).1 =
      DurableLog.decodeLines (DurableLog.splitLines
        (((m.fileOf live).getD ByteArray.empty).extract 0 q).toList) := by
  apply result_of_wp
  obtain ⟨hr, hs⟩ := reach_isFile hlive hsep h.reach (q := live) (.inl rfl)
  simp only [DurableLog.replay, wp_bind, wp_tryCatch, wp_map, Wal.io, wp_onMachine_io,
    Io.openRead]
  cases hn : m.disk.nodeAt (m.disk.locate live) with
  | none =>
    -- no live file: there is nothing to replay
    have hL : m.fileOf live = none := Disk.fileAt_eq_none (by simp [hn])
    refine Io.wp_look_error (h.quiet _) (e := .notFound) ?_ ?_
    · simp [Disk.openForRead, Disk.stat_of_free hr hs hn, bind, Except.bind]
    · simp [hL, wp_pure, ByteArray.toList_eq, DurableLog.splitLines, DurableLog.decodeLines]
  | some n =>
    cases n with
    | dir => exact absurd hn (h.not_dir (.inl rfl))
    | file i =>
      have hL : m.fileOf live = some (m.disk.bytesOf i) := Disk.fileAt_of_nodeAt hn
      rw [hL] at hq hle ⊢
      have hopen : m.disk.openForRead live = .ok (some i) := by
        simp [Disk.openForRead, Disk.stat_of_node hr hs hn, bind, Except.bind, pure, Except.pure]
      refine Io.wp_look_ok (h.quiet _) hopen ?_
      have hw1 := h.looked (m.calls + 1)
      rw [wp_bind]
      refine loadCheckpoint_ready hw1.ready hlive hsep (fun m2 hC hw2 => ?_)
        (fun c ck m2 hC hdec hw2 => ?_) (fun c e m2 hC hdec hw2 => ?_)
      · -- no checkpoint file: the whole live file is read
        have hw := (hw1.trans hw2).mono fun _ hs => hs.elim id id
        rcases hq with ⟨-, rfl⟩ | ⟨c, ck, hC', -, -⟩
        · refine read_decodes hn hw ?_
          simp only [Option.map_none, Option.getD_none, Option.getD_some, ByteArray.extract_zero_size]
          exact List.take_of_length_le (by simpa [ByteArray.toList_eq] using hmax)
        · exact absurd (hC.symm.trans hC') (by simp)
      · -- the checkpoint file gives the limit
        have hw := (hw1.trans hw2).mono fun _ hs => hs.elim id id
        have hpos : ck.position = q := hq.unique (.inr ⟨c, ck, hC, hdec, rfl⟩) |>.symm
        refine read_decodes hn hw ?_
        simp [hpos, ByteArray.toList_eq, ByteArray.data_extract]
      · exact (hq.decodes hC hdec).elim

/-- Replaying a log whose live file holds `D`, with a checkpoint stored at its end, reads the
lines of `D`. -/
theorem replay_stored {D : ByteArray} (hD : m.fileOf live = some D) {ck : Checkpoint}
    (hst : Stored (LogPaths.forLog live) ck m.disk) (hpos : ck.position = D.size)
    (hmax : D.size ≤ maxPosition) :
    ((DurableLog.replay live).run.run m).1 =
      DurableLog.decodeLines (DurableLog.splitLines D.toList) := by
  obtain ⟨i, hi, hdec⟩ := hst
  have hq : Positioned (m.fileOf live) (m.fileOf (LogPaths.forLog live).checkpoint) D.size :=
    .inr ⟨_, ck, Disk.fileAt_of_nodeAt hi, hdec (hpos ▸ hmax), hpos⟩
  rw [replay_reaching h hlive hsep hq (by simp [hD]) hmax, hD]
  simp

end Replay

end EntityLog.Log
