import EntityLog.Proofs.Log.Placement
import EntityLog.Proofs.Json.Numbers
import EntityLog.Proofs.Record.RoundTrip
/-!
# Checkpoint files

A checkpoint whose position fits 64 bits and whose time is a valid instant decodes from its JSON
text (`Checkpoint.decode_encode`). Storing writes the text to an emptied temporary file beside the
checkpoint file and renames it over the checkpoint: a store that succeeds leaves the checkpoint
stored, and one that fails leaves the files as they were (`storeCheckpoint_spec`). Loading gives
back what the checkpoint file decodes to, and nothing only when no checkpoint is stored or the
checkpoint's directory cannot be reached (`loadCheckpoint_spec`); there the temporary file cannot
be created either, so no checkpoint can be stored in its place (`storeCheckpoint_unreachable`).
-/

/-! ## Files read and created -/

namespace EntityLog.Files.Disk

variable {d d' : Disk}

/-- Opening a file emptied gives an empty file. -/
theorem create_truncate {p : Path} {i : Nat} (h : d.create p true = .ok (d', i)) :
    d'.bytesOf i = ByteArray.empty := by
  unfold Disk.create at h
  cases hreach : d.reach p with
  | error e => simp [hreach, bind, Except.bind] at h
  | ok segs =>
    simp only [hreach, bind, Except.bind] at h
    split at h
    · cases h
    · split at h
      · cases h
      · simp only [if_true, pure, Except.pure, Except.ok.injEq, Prod.mk.injEq] at h
        obtain ⟨rfl, rfl⟩ := h
        simp [Disk.bytesOf_setBytes]
    · split at h
      · cases h
      · simp only [pure, Except.pure, Except.ok.injEq, Prod.mk.injEq] at h
        obtain ⟨rfl, rfl⟩ := h
        simp [Disk.bytesOf_setBytes]

/-- A path whose directories cannot be reached cannot be created. -/
theorem create_unreachable {p : Path} {truncate : Bool} {e : IoFault}
    (h : d.reach p = .error e) : d.create p truncate = .error e := by
  simp [Disk.create, h, bind, Except.bind]

/-- A path read successfully names a file, and what was read is its bytes. -/
theorem readBytes_ok {p : Path} {b : ByteArray} (h : d.readBytes p = .ok b) :
    ∃ i, d.nodeAt (d.locate p) = some (.file i) ∧ b = d.bytesOf i := by
  unfold Disk.readBytes at h
  cases hstat : d.stat p with
  | error e => simp [hstat, bind, Except.bind] at h
  | ok n =>
    obtain ⟨segs, hreach, hnode⟩ := Disk.stat_ok hstat
    rw [reach_eq_locate hreach] at hnode
    cases n with
    | file i =>
      simp only [hstat, bind, Except.bind, pure, Except.pure, Except.ok.injEq] at h
      exact ⟨i, hnode, h.symm⟩
    | dir => simp [hstat, bind, Except.bind, throw, throwThe, MonadExceptOf.throw] at h

/-- A path is read as missing only when its directories cannot be reached or nothing is named
there. -/
theorem readBytes_notFound {p : Path} (h : d.readBytes p = .error .notFound) :
    d.reach p = .error .notFound ∨ d.nodeAt (d.locate p) = none := by
  cases hreach : d.reach p with
  | error e =>
    simp only [Disk.readBytes, Disk.stat, Disk.lookup, hreach, bind, Except.bind] at h
    obtain rfl : e = .notFound := Except.error.inj h
    exact .inl rfl
  | ok segs =>
    have hsegs : segs = d.locate p := reach_eq_locate hreach
    subst hsegs
    right
    cases hnode : d.nodeAt (d.locate p) with
    | none => rfl
    | some n =>
      -- a named path is found, or refused as a directory, never missing
      cases n <;> by_cases hsep : p.endsInSeparator <;>
        simp [Disk.readBytes, Disk.stat, Disk.lookup, hreach, hnode, hsep, bind, Except.bind,
          pure, Except.pure, throw, throwThe, MonadExceptOf.throw] at h

end EntityLog.Files.Disk

namespace EntityLog.Log

open EntityLog.Files EntityLog.Json EntityLog.Record Path

/-- A checkpoint whose position fits 64 bits and whose time is valid is read back from its text. -/
theorem Checkpoint.decode_encode {ck : Checkpoint} (hpos : ck.position ≤ maxPosition)
    (hts : ck.timestamp.Valid) : decodeText checkpointDecoder ck.encode.toUTF8 = .ok ck := by
  obtain ⟨position, timestamp⟩ := ck
  -- the two members are read one level below the top
  have hreads : checkpointShape.ReadsMembers
      (({ depth := depthLimit } : Scope).inner (depthLimit - 1)) [] checkpointShape.start
      (presentMembers [("position", some (toString position)),
        ("timestamp", some (encodeInstant timestamp))])
      ⟨some position, some timestamp⟩ :=
    Shape.readsMembers_cons rfl rfl (ValueReads.bind_pure (ValueReads.unsigned hpos hpos)) <|
      Shape.readsMembers_cons rfl rfl (ValueReads.bind_pure (instantDecoder_reads hts)) rfl
  have hruns := Read.Runs.struct (by decide) hreads rfl (spells_whole _)
  refine runText_of_runs (hruns.cast_index ?_)
  simp [textBytes]
  rfl

/-! ## Storing and loading -/

section Store

variable {live : Path} {N : String}

/-- Storing a checkpoint with a valid time: a store that succeeds leaves the checkpoint stored and
the open files placed; one that fails keeps the files, the checkpoint stored before included. -/
theorem storeCheckpoint_spec (hlive : fileName live = some N) {ck : Checkpoint}
    (hts : ck.timestamp.Valid) {opened : List (Path × Nat)}
    (hopen : ∀ {p j}, (p, j) ∈ opened → ∀ d : Disk,
      d.Apart p (temporaryOf (LogPaths.forLog live).checkpoint) ∧
        d.Apart p (LogPaths.forLog live).checkpoint)
    {m : Machine} (hm : Placed opened m.disk) :
    wp (storeCheckpoint (LogPaths.forLog live).checkpoint ck)
      (fun _ m' => m'.clock = m.clock ∧ m'.faults = m.faults ∧ Placed opened m'.disk ∧
        Stored (LogPaths.forLog live) ck m'.disk)
      (fun _ m' => Keeps (LogPaths.forLog live) opened m m') m := by
  have hA := forLog_apart hlive
  have htmp : ∀ d : Disk, d.locate (temporaryOf (LogPaths.forLog live).checkpoint) ≠
      d.locate (LogPaths.forLog live).checkpoint := fun d => (hA.checkpoint_temporary d).ne.symm
  simp only [storeCheckpoint, Wal.io, wp_onMachine_io, wp_bind]
  -- the temporary file is opened emptied
  refine wp_mono (wp_and (Io.call_spec _ m) (Io.create_keeps htmp true m))
    (fun t m1 h1 => ?_) fun _ _ h => h.2
  obtain ⟨⟨-, -, hcreate⟩, hk1⟩ := h1
  have hC := Disk.create_created hcreate
  have ht : m1.disk.nodeAt (m1.disk.locate (temporaryOf (LogPaths.forLog live).checkpoint)) =
      some (.file t) := by
    rw [Disk.locate_of_cwd hC.grows.cwd]
    exact hC.named
  have hm1 := ((hk1.files hm).1).cons ht
  -- the text is appended to it and synced
  rw [wp_bind]
  refine wp_mono (wp_and (Io.change_spec _ m1) (Io.append_keeps htmp List.mem_cons_self _ m1))
    (fun _ m2 h2 => ?_) fun _ _ h => hk1.trans (h.2.of_cons ht)
  obtain ⟨⟨-, -, happ⟩, hk2⟩ := h2
  have hbytes2 : m2.disk.bytesOf t = ck.encode.toUTF8 := by
    simp only [Except.ok.injEq] at happ
    rw [← happ, Disk.appendBytes, Disk.bytesOf_setBytes, if_pos rfl,
      Disk.create_truncate hcreate, ByteArray.empty_append]
  rw [wp_bind]
  refine wp_mono (wp_and (Io.change_spec _ m2) (Io.sync_keeps t m2)) (fun _ m3 h3 => ?_)
    fun _ _ h => hk1.trans ((hk2.trans h.2).of_cons ht)
  obtain ⟨⟨-, -, hsync⟩, hk3⟩ := h3
  have hd3 : m3.disk = m2.disk := (Except.ok.inj hsync).symm
  have hk13 := hk1.trans ((hk2.trans hk3).of_cons ht)
  have hm3 := (hk3.files (hk2.files hm1).1).1
  -- the temporary file is renamed over the checkpoint
  refine wp_mono (Io.change_spec _ m3) (fun _ m4 h4 => ?_) fun _ m4 h4 => ?_
  · obtain ⟨hc4, hf4, hren⟩ := h4
    have hR := Disk.rename_renamed hren
    obtain ⟨dir, -, hck, -⟩ := forLog_locate hlive m3.disk
    have htarget := hR.target (by rw [hck]; simp)
    rw [hm3.named List.mem_cons_self] at htarget
    refine ⟨by rw [hc4, hk13.clock], by rw [hf4, hk13.faults], ⟨hR.sound hm3.sound, fun {p j} hj => ?_⟩,
      ⟨t, by rw [Disk.locate_of_cwd hR.grows.cwd]; exact htarget, fun hpos => ?_⟩⟩
    · obtain ⟨hpt, hpc⟩ := hopen hj m3.disk
      rw [Disk.locate_of_cwd hR.grows.cwd, hR.others hpt.ne hpc.ne hpt.not_below' hpc.not_below']
      exact hm3.named (List.mem_cons_of_mem _ hj)
    · have hkeep : m4.disk.bytesOf t = m3.disk.bytesOf t := by simp [Disk.bytesOf, hR.inodes]
      rw [hkeep, hd3, hbytes2]
      exact Checkpoint.decode_encode hpos hts
  · obtain ⟨hc4, hf4, hd4, -⟩ := h4
    exact hk13.trans ⟨hc4, hf4, by rw [hd4]; exact FilesKept.refl _⟩

/-- A checkpoint cannot be stored where the checkpoint's directory cannot be reached. -/
theorem storeCheckpoint_unreachable (hlive : fileName live = some N) {ck : Checkpoint}
    {m : Machine} {e : IoFault} (h : m.disk.reach (LogPaths.forLog live).checkpoint = .error e) :
    wp (storeCheckpoint (LogPaths.forLog live).checkpoint ck) (fun _ _ => False)
      (fun _ _ => True) m := by
  obtain ⟨r, hck, htmp⟩ := reach_temporary hlive m.disk
  have hr : r = .error e := by
    cases r with
    | error e' =>
      simp only [hck, Functor.map, Except.map, Except.error.injEq] at h
      rw [h]
    | ok s => simp [hck, Functor.map, Except.map] at h
  rw [hr] at htmp
  simp only [storeCheckpoint, Wal.io, wp_onMachine_io, wp_bind]
  refine wp_mono (Io.call_spec _ m) (fun t m1 h1 => ?_) fun _ _ _ => trivial
  rw [Disk.create_unreachable htmp] at h1
  cases h1.2.2

/-- Loading a checkpoint, on a machine whose next call is not planned to report a missing file,
leaves the machine as it was; a checkpoint it gives back is what the checkpoint file decodes to,
and it gives back none only when no checkpoint is stored or the checkpoint's directory cannot be
reached. -/
theorem loadCheckpoint_spec (paths : LogPaths) {m : Machine}
    (hq : m.faults m.calls ≠ some .notFound) :
    wp (loadCheckpoint paths.checkpoint)
      (fun r m' => m'.clock = m.clock ∧ m'.faults = m.faults ∧ m'.disk = m.disk ∧
        (∀ c, r = some c → ∃ i, m.disk.nodeAt (m.disk.locate paths.checkpoint) = some (.file i) ∧
          decodeText checkpointDecoder (m.disk.bytesOf i) = .ok c) ∧
        (r = none → ∀ ck, Stored paths ck m.disk →
          m.disk.reach paths.checkpoint = .error .notFound))
      (fun _ m' => m'.clock = m.clock ∧ m'.faults = m.faults ∧ m'.disk = m.disk) m := by
  simp only [loadCheckpoint, Wal.io, wp_bind, wp_tryCatch, wp_map, wp_onMachine_io]
  refine wp_mono (wp_and (Io.look_spec _ m) (Io.look_fault _ m)) (fun b m1 h1 => ?_)
    fun e m1 h1 => ?_
  · obtain ⟨⟨hc1, hf1, hd1, hb⟩, -⟩ := h1
    obtain ⟨i, hi, rfl⟩ := Disk.readBytes_ok hb
    cases hdec : decodeText checkpointDecoder (m.disk.bytesOf i) with
    | ok c =>
      refine ⟨hc1, hf1, hd1, fun c' hc' => ⟨i, hi, ?_⟩, fun h => by cases h⟩
      cases hc'
      exact hdec
    | error err => exact ⟨hc1, hf1, hd1⟩
  · obtain ⟨⟨hc1, hf1, hd1, hcause⟩, hplanned⟩ := h1
    -- only a missing file is read as no checkpoint
    cases e with
    | notFound =>
      refine ⟨hc1, hf1, hd1, fun c hc => (by cases hc), fun _ ck hs => ?_⟩
      obtain ⟨i, hi, _⟩ := hs
      rcases Disk.readBytes_notFound (hcause (hplanned.resolve_right hq)) with hreach | hnone
      · exact hreach
      · rw [hi] at hnone
        cases hnone
    | _ => exact ⟨hc1, hf1, hd1⟩

end Store

end EntityLog.Log
