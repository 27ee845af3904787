import EntityLog.Proofs.Log.Layout
import EntityLog.Log.Store
/-!
# The files of a log stay in place

While a log runs, its checkpoint file holds the last checkpoint it stored, and every file it has
open is still named at the path it opened it at. A file call keeps this as long as it writes
another file than the checkpoint and leaves the checkpoint's name alone: only a rename over it
replaces the checkpoint, and the log renames only a complete temporary file there.

`Stored paths ck d` says that the checkpoint file of `paths` decodes to `ck`; `Placed opened d`
that the disk is sound and names each open file at its path. `FilesKept` relates two disks
between which placement and every stored checkpoint are kept; `Keeps` adds the clock and the
fault plan and relates machines, and every file call has it when its target is not the checkpoint.
-/

namespace EntityLog.Files.Io

variable {α : Type}

/-- What a numbered call does: on success the disk is the one `f` gives; on failure the disk is
the one it was, and the error is the one `f` gave unless the call was planned to fail. The clock
and the fault plan are kept either way. -/
theorem call_spec (f : Disk → Except IoFault (Disk × α)) (m : Machine) :
    wp (call f)
      (fun a m' => m'.clock = m.clock ∧ m'.faults = m.faults ∧ f m.disk = .ok (m'.disk, a))
      (fun e m' => m'.clock = m.clock ∧ m'.faults = m.faults ∧ m'.disk = m.disk ∧
        (m.faults m.calls = none → f m.disk = .error e)) m := by
  unfold call
  simp only [wp_bind, wp_get, wp_set]
  split
  · rename_i e hfault
    exact ⟨rfl, rfl, rfl, fun hq => by rw [hq] at hfault; cases hfault⟩
  · split
    · rename_i d a hok
      exact ⟨rfl, rfl, hok⟩
    · rename_i e herr
      exact ⟨rfl, rfl, rfl, fun _ => herr⟩

theorem change_spec (f : Disk → Except IoFault Disk) (m : Machine) :
    wp (change f) (fun _ m' => m'.clock = m.clock ∧ m'.faults = m.faults ∧ f m.disk = .ok m'.disk)
      (fun e m' => m'.clock = m.clock ∧ m'.faults = m.faults ∧ m'.disk = m.disk ∧
        (m.faults m.calls = none → f m.disk = .error e)) m := by
  refine wp_mono (call_spec _ m) (fun _ m' h => ⟨h.1, h.2.1, ?_⟩)
    fun e m' h => ⟨h.1, h.2.1, h.2.2.1, fun hq => ?_⟩
  · obtain ⟨-, -, h⟩ := h
    cases hf : f m.disk with
    | error e => simp [hf, bind, Except.bind] at h
    | ok d =>
      simp only [hf, bind, Except.bind, pure, Except.pure, Except.ok.injEq, Prod.mk.injEq] at h
      rw [h.1]
  · have herr := h.2.2.2 hq
    cases hf : f m.disk with
    | error e' =>
      simp only [hf, bind, Except.bind, Except.error.injEq] at herr
      rw [herr]
    | ok d => simp [hf, bind, Except.bind, pure, Except.pure] at herr

theorem look_spec (f : Disk → Except IoFault α) (m : Machine) :
    wp (look f)
      (fun a m' => m'.clock = m.clock ∧ m'.faults = m.faults ∧ m'.disk = m.disk ∧ f m.disk = .ok a)
      (fun e m' => m'.clock = m.clock ∧ m'.faults = m.faults ∧ m'.disk = m.disk ∧
        (m.faults m.calls = none → f m.disk = .error e)) m := by
  refine wp_mono (call_spec _ m) (fun a m' h => ⟨h.1, h.2.1, ?_⟩)
    fun e m' h => ⟨h.1, h.2.1, h.2.2.1, fun hq => ?_⟩
  · obtain ⟨-, -, h⟩ := h
    cases hf : f m.disk with
    | error e => simp [hf, bind, Except.bind] at h
    | ok b =>
      simp only [hf, bind, Except.bind, pure, Except.pure, Except.ok.injEq, Prod.mk.injEq] at h
      exact ⟨h.1.symm, by rw [h.2]⟩
  · have herr := h.2.2.2 hq
    cases hf : f m.disk with
    | error e' =>
      simp only [hf, bind, Except.bind, Except.error.injEq] at herr
      rw [herr]
    | ok d => simp [hf, bind, Except.bind, pure, Except.pure] at herr

/-- A look that fails fails as planned, or as the disk answers when no failure was planned. -/
theorem look_fault (f : Disk → Except IoFault α) (m : Machine) :
    wp (look f) (fun _ _ => True)
      (fun e _ => m.faults m.calls = none ∨ m.faults m.calls = some e) m := by
  unfold look call
  simp only [wp_bind, wp_get, wp_set]
  split
  · rename_i e hfault
    exact .inr hfault
  · rename_i hfault
    split
    · trivial
    · exact .inl hfault

end EntityLog.Files.Io

namespace EntityLog.Files.Disk

variable {d d' : Disk}

/-- Opening an existing file for writing gives its own inode. -/
theorem create_existing {p : Path} {truncate : Bool} {i k : Nat}
    (hk : d.nodeAt (d.locate p) = some (.file k)) (h : d.create p truncate = .ok (d', i)) :
    i = k := by
  unfold Disk.create at h
  cases hreach : d.reach p with
  | error e => simp [hreach, bind, Except.bind] at h
  | ok segs =>
    have hsegs : segs = d.locate p := reach_eq_locate hreach
    subst hsegs
    simp only [hreach, bind, Except.bind, hk] at h
    split at h
    · cases h
    · simp only [pure, Except.pure, Except.ok.injEq, Prod.mk.injEq] at h
      exact h.2.symm

/-- Creating a file keeps every name: a file that was there keeps its inode. -/
theorem create_names {p : Path} {truncate : Bool} {i : Nat}
    (h : d.create p truncate = .ok (d', i)) {s : List String} {c : Nat}
    (hs : d.nodeAt s = some (.file c)) : d'.nodeAt s = some (.file c) := by
  have hC := create_created h
  by_cases hsp : s = d.locate p
  · subst hsp
    rw [← create_existing hs h]
    exact hC.named
  · rw [hC.others hsp]
    exact hs

end EntityLog.Files.Disk

namespace EntityLog.Log

open EntityLog.Files EntityLog.Json

/-- The checkpoint file of `paths` stores `ck`: the path names a file, whose bytes decode to `ck`
whenever its position fits 64 bits. -/
def Stored (paths : LogPaths) (ck : Checkpoint) (d : Disk) : Prop :=
  ∃ i, d.nodeAt (d.locate paths.checkpoint) = some (.file i) ∧
    (ck.position ≤ maxPosition → decodeText checkpointDecoder (d.bytesOf i) = .ok ck)

/-- The disk is sound, and names every open file at the path it was opened at. -/
structure Placed (opened : List (Path × Nat)) (d : Disk) : Prop where
  sound : d.Sound
  named : ∀ {p j}, (p, j) ∈ opened → d.nodeAt (d.locate p) = some (.file j)

/-- From `d` to `d'` the open files stay placed and every stored checkpoint stays stored. -/
def FilesKept (paths : LogPaths) (opened : List (Path × Nat)) (d d' : Disk) : Prop :=
  Placed opened d → Placed opened d' ∧ ∀ ck, Stored paths ck d → Stored paths ck d'

theorem Placed.cons {opened : List (Path × Nat)} {d : Disk} (h : Placed opened d) {p : Path}
    {j : Nat} (hj : d.nodeAt (d.locate p) = some (.file j)) : Placed ((p, j) :: opened) d := by
  refine ⟨h.sound, fun {q k} hq => ?_⟩
  rcases List.mem_cons.1 hq with hq | hq
  · cases hq
    exact hj
  · exact h.named hq

theorem Placed.nil {opened : List (Path × Nat)} {d : Disk} (h : Placed opened d) : Placed [] d :=
  ⟨h.sound, fun h => nomatch h⟩

theorem Placed.of_cons {opened : List (Path × Nat)} {d : Disk} {e : Path × Nat}
    (h : Placed (e :: opened) d) : Placed opened d :=
  ⟨h.sound, fun hq => h.named (List.mem_cons_of_mem e hq)⟩

namespace FilesKept

variable {paths : LogPaths} {opened : List (Path × Nat)} {d d' d'' : Disk}

theorem refl (d : Disk) : FilesKept paths opened d d := fun h => ⟨h, fun _ hs => hs⟩

theorem trans (h : FilesKept paths opened d d') (h' : FilesKept paths opened d' d'') :
    FilesKept paths opened d d'' := by
  intro hp
  obtain ⟨hp', hs'⟩ := h hp
  obtain ⟨hp'', hs''⟩ := h' hp'
  exact ⟨hp'', fun ck hs => hs'' ck (hs' ck hs)⟩

/-- A step that keeps the working directory, every name and soundness, and writes only files
with a name other than the checkpoint's, keeps the files of a log. -/
theorem of_names (hcwd : d'.cwd = d.cwd) (hsound : d.Sound → d'.Sound)
    (hnames : ∀ {s c}, d.nodeAt s = some (.file c) → d'.nodeAt s = some (.file c))
    (hbytes : ∀ {c}, d'.bytesOf c ≠ d.bytesOf c →
      ∃ s, s ≠ d.locate paths.checkpoint ∧ d'.nodeAt s = some (.file c)) :
    FilesKept paths opened d d' := by
  intro hp
  have hsound' := hsound hp.sound
  refine ⟨⟨hsound', fun hj => ?_⟩, fun ck ⟨i, hi, hdec⟩ => ⟨i, ?_, fun hpos => ?_⟩⟩
  · rw [Disk.locate_of_cwd hcwd]
    exact hnames (hp.named hj)
  · rw [Disk.locate_of_cwd hcwd]
    exact hnames hi
  · -- the checkpoint's file has no other name, so it was not written
    have hkeep : d'.bytesOf i = d.bytesOf i := by
      by_contra hne
      obtain ⟨s, hs, hsi⟩ := hbytes hne
      exact hs (hsound'.unaliased hsi (hnames hi))
    rw [hkeep]
    exact hdec hpos

/-- A step that changes neither names, bytes, counter nor working directory keeps the files. -/
theorem of_same (hnames : d'.names = d.names) (hinodes : d'.inodes = d.inodes)
    (hfresh : d'.fresh = d.fresh) (hcwd : d'.cwd = d.cwd) : FilesKept paths opened d d' := by
  have hnode : ∀ s, d'.nodeAt s = d.nodeAt s := fun s => by simp [Disk.nodeAt, hnames]
  refine of_names hcwd (fun hd => ⟨fun hs hs' => ?_, fun hs => ?_⟩) (fun h => by rw [hnode]; exact h)
    fun hne => absurd (by simp [Disk.bytesOf, hinodes]) hne
  · rw [hnode] at hs hs'
    exact hd.unaliased hs hs'
  · rw [hnode] at hs
    rw [hfresh]
    exact hd.lt_fresh hs

end FilesKept

/-! ## Disk operations that keep the files -/

section Disk

variable {paths : LogPaths} {opened : List (Path × Nat)} {d d' : Disk}

/-- Writing a file that has a name other than the checkpoint's keeps the files. -/
theorem filesKept_setBytes {s : List String} {j : Nat} (hj : d.nodeAt s = some (.file j))
    (hs : s ≠ d.locate paths.checkpoint) (b : ByteArray) :
    FilesKept paths opened d (d.setBytes j b) := by
  refine FilesKept.of_names rfl (fun hd => hd.setBytes j b) (fun h => h) fun {c} hne => ?_
  have hc : c = j := by
    by_contra hcj
    exact hne (Disk.bytesOf_setBytes_ne b hcj)
  subst hc
  exact ⟨s, hs, hj⟩

/-- Writing an open file placed at a path other than the checkpoint keeps the files. -/
theorem filesKept_setBytes_opened {p : Path} {j : Nat} (hj : (p, j) ∈ opened)
    (hp : ∀ d : Disk, d.locate p ≠ d.locate paths.checkpoint) (b : ByteArray) :
    FilesKept paths opened d (d.setBytes j b) :=
  fun hplaced => filesKept_setBytes (hplaced.named hj) (hp d) b hplaced

theorem filesKept_create {p : Path} {truncate : Bool} {i : Nat}
    (hp : d.locate p ≠ d.locate paths.checkpoint) (h : d.create p truncate = .ok (d', i)) :
    FilesKept paths opened d d' := by
  have hC := Disk.create_created h
  refine FilesKept.of_names hC.grows.cwd hC.sound (Disk.create_names h) fun {c} hne => ?_
  have hc : c = i := by
    by_contra hci
    exact hne (hC.bytes hci)
  subst hc
  exact ⟨d.locate p, hp, hC.named⟩

theorem filesKept_copy {src dst : Path} {n : Nat}
    (hdst : d.locate dst ≠ d.locate paths.checkpoint) (h : d.copy src dst = .ok (d', n)) :
    FilesKept paths opened d d' := by
  unfold Disk.copy at h
  cases hopen : d.openForRead src with
  | error e => simp [hopen, bind, Except.bind] at h
  | ok inode =>
    simp only [hopen, bind, Except.bind] at h
    split at h
    · cases h
    · rename_i src_inode _
      unfold Disk.writeFile at h
      cases hcreate : d.create dst true with
      | error e => simp [hcreate, bind, Except.bind] at h
      | ok r =>
        obtain ⟨d1, i⟩ := r
        simp only [hcreate, bind, Except.bind, pure, Except.pure, Except.ok.injEq,
          Prod.mk.injEq] at h
        obtain ⟨rfl, -⟩ := h
        -- the copy is written to the file created at the target
        have hC := Disk.create_created hcreate
        have hne : d1.locate dst ≠ d1.locate paths.checkpoint := by
          rwa [Disk.locate_of_cwd hC.grows.cwd, Disk.locate_of_cwd hC.grows.cwd]
        refine (filesKept_create hdst hcreate).trans (filesKept_setBytes ?_ hne _)
        rw [Disk.locate_of_cwd hC.grows.cwd]
        exact hC.named

theorem filesKept_rename {src dst : Path} (h : d.rename src dst = .ok d')
    (hsrc : d.Apart paths.checkpoint src) (hdst : d.Apart paths.checkpoint dst)
    (hopen : ∀ {p j}, (p, j) ∈ opened → d.Apart p src ∧ d.Apart p dst) :
    FilesKept paths opened d d' := by
  have hR := Disk.rename_renamed h
  have hcwd := hR.grows.cwd
  -- a name apart from both ends of the rename keeps its node
  have hkept : ∀ {q : Path}, d.Apart q src → d.Apart q dst →
      d'.nodeAt (d'.locate q) = d.nodeAt (d.locate q) := by
    intro q hqs hqd
    rw [Disk.locate_of_cwd hcwd]
    exact hR.others hqs.ne hqd.ne hqs.not_below' hqd.not_below'
  have hbytes : ∀ c, d'.bytesOf c = d.bytesOf c := fun c => by simp [Disk.bytesOf, hR.inodes]
  intro hp
  refine ⟨⟨hR.sound hp.sound, fun hj => ?_⟩, fun ck ⟨i, hi, hdec⟩ => ⟨i, ?_, ?_⟩⟩
  · rw [hkept (hopen hj).1 (hopen hj).2]
    exact hp.named hj
  · rw [hkept hsrc hdst]
    exact hi
  · rw [hbytes]
    exact hdec

theorem filesKept_createDirAll {p : Path} (h : d.createDirAll p = .ok d') :
    FilesKept paths opened d d' := by
  have hD := Disk.createDirAll_dirsMade h
  exact FilesKept.of_names hD.grows.cwd hD.sound hD.kept
    fun hne => absurd (by simp [Disk.bytesOf, hD.inodes]) hne

theorem filesKept_tryLock {inode token : Nat} (h : d.tryLock inode token = .ok d') :
    FilesKept paths opened d d' := by
  obtain ⟨hnames, hinodes, hfresh⟩ := Disk.tryLock_names h
  unfold Disk.tryLock at h
  split at h
  · cases h
  · cases h
    exact FilesKept.of_same hnames hinodes hfresh rfl

end Disk

/-! ## Calls that keep the files -/

/-- A step of the machine keeps the clock, the fault plan and the files of a log. -/
structure Keeps (paths : LogPaths) (opened : List (Path × Nat)) (m m' : Machine) : Prop where
  clock : m'.clock = m.clock
  faults : m'.faults = m.faults
  files : FilesKept paths opened m.disk m'.disk

namespace Keeps

variable {paths : LogPaths} {opened : List (Path × Nat)}

theorem refl (m : Machine) : Keeps paths opened m m := ⟨rfl, rfl, FilesKept.refl _⟩

theorem trans {m m' m'' : Machine} (h : Keeps paths opened m m') (h' : Keeps paths opened m' m'') :
    Keeps paths opened m m'' :=
  ⟨h'.clock.trans h.clock, h'.faults.trans h.faults, h.files.trans h'.files⟩

/-- A step that leaves the disk, the clock and the fault plan alone keeps the files. -/
theorem of_disk {m m' : Machine} (hc : m'.clock = m.clock) (hf : m'.faults = m.faults)
    (hd : m'.disk = m.disk) : Keeps paths opened m m' :=
  ⟨hc, hf, by rw [hd]; exact FilesKept.refl _⟩

instance : Std.Refl (Keeps paths opened) := ⟨refl⟩

instance : Trans (Keeps paths opened) (Keeps paths opened) (Keeps paths opened) := ⟨trans⟩

/-- A step that keeps one more open file, placed where it was opened, keeps the others. -/
theorem of_cons {m m' : Machine} {p : Path} {j : Nat} (h : Keeps paths ((p, j) :: opened) m m')
    (hj : m.disk.nodeAt (m.disk.locate p) = some (.file j)) : Keeps paths opened m m' := by
  refine ⟨h.clock, h.faults, fun hp => ?_⟩
  obtain ⟨hp', hs⟩ := h.files (hp.cons hj)
  exact ⟨hp'.of_cons, hs⟩

end Keeps

namespace Io

variable {α : Type} {paths : LogPaths} {opened : List (Path × Nat)}

theorem call_keeps {f : Disk → Except IoFault (Disk × α)}
    (hf : ∀ d d' a, f d = .ok (d', a) → FilesKept paths opened d d') :
    Stays (Keeps paths opened) (Io.call f) := by
  intro m
  unfold Io.call
  simp only [wp_bind, wp_get, wp_set]
  split
  · exact ⟨rfl, rfl, FilesKept.refl _⟩
  · split
    · rename_i d a hok
      exact ⟨rfl, rfl, hf _ _ _ hok⟩
    · exact ⟨rfl, rfl, FilesKept.refl _⟩

theorem look_keeps (f : Disk → Except IoFault α) : Stays (Keeps paths opened) (Io.look f) := by
  refine call_keeps fun d d' a h => ?_
  cases hf : f d with
  | error e => simp [hf, bind, Except.bind] at h
  | ok b =>
    simp only [hf, bind, Except.bind, pure, Except.pure, Except.ok.injEq, Prod.mk.injEq] at h
    rw [← h.1]
    exact FilesKept.refl d

theorem change_keeps {f : Disk → Except IoFault Disk}
    (hf : ∀ d d', f d = .ok d' → FilesKept paths opened d d') :
    Stays (Keeps paths opened) (Io.change f) := by
  refine call_keeps fun d d' a h => ?_
  cases hd : f d with
  | error e => simp [hd, bind, Except.bind] at h
  | ok d1 =>
    simp only [hd, bind, Except.bind, pure, Except.pure, Except.ok.injEq, Prod.mk.injEq] at h
    rw [← h.1]
    exact hf d d1 hd

theorem stat_keeps (p : Path) : Stays (Keeps paths opened) (Io.stat p) := look_keeps _
theorem size?_keeps (p : Path) : Stays (Keeps paths opened) (Io.size? p) := look_keeps _
theorem read_keeps (p : Path) : Stays (Keeps paths opened) (Io.read p) := look_keeps _
theorem openWrite_keeps (p : Path) : Stays (Keeps paths opened) (Io.openWrite p) := look_keeps _
theorem canonical_keeps (p : Path) : Stays (Keeps paths opened) (Io.canonical p) := look_keeps _

theorem exists?_keeps (p : Path) : Stays (Keeps paths opened) (Io.exists? p) :=
  Stays.tryCatch (Stays.bind (stat_keeps p) fun _ => Stays.pure _) fun _ => Stays.pure _

theorem now_keeps : Stays (Keeps paths opened) Io.now := fun m => Keeps.refl m

theorem sync_keeps (inode : Nat) : Stays (Keeps paths opened) (Io.sync inode) :=
  change_keeps fun d _ h => by
    cases h
    exact FilesKept.refl d

/-- A new token only advances the counter. -/
theorem token_keeps : Stays (Keeps paths opened) Io.token := by
  intro m
  refine ⟨rfl, rfl, FilesKept.of_names rfl (fun hd => ⟨hd.unaliased, fun hs => ?_⟩) (fun h => h)
    fun hne => absurd rfl hne⟩
  exact Nat.lt_succ_of_lt (hd.lt_fresh hs)

theorem tryLock_keeps (inode token : Nat) : Stays (Keeps paths opened) (Io.tryLock inode token) :=
  change_keeps fun _ _ h => filesKept_tryLock h

theorem unlock_keeps (token : Nat) : Stays (Keeps paths opened) (Io.unlock token) :=
  change_keeps fun d _ h => by
    cases h
    exact FilesKept.of_same rfl rfl rfl rfl

theorem createDirAll_keeps (p : Path) : Stays (Keeps paths opened) (Io.createDirAll p) :=
  change_keeps fun _ _ h => filesKept_createDirAll h

section Targets

variable {p : Path} (hp : ∀ d : Disk, d.locate p ≠ d.locate paths.checkpoint)
include hp

theorem create_keeps (truncate : Bool) : Stays (Keeps paths opened) (Io.create p truncate) :=
  call_keeps fun d _ _ h => filesKept_create (hp d) h

theorem copy_keeps (src : Path) : Stays (Keeps paths opened) (Io.copy src p) :=
  call_keeps fun d _ _ h => filesKept_copy (hp d) h

variable {j : Nat} (hj : (p, j) ∈ opened)
include hj

theorem append_keeps (bytes : ByteArray) : Stays (Keeps paths opened) (Io.append j bytes) :=
  change_keeps fun d _ h => by
    cases h
    exact filesKept_setBytes_opened hj hp _

theorem setLength_keeps (n : Nat) : Stays (Keeps paths opened) (Io.setLength j n) :=
  change_keeps fun d _ h => by
    cases h
    obtain ⟨b, hb⟩ := Disk.setLength_eq (d := d) j n
    rw [hb]
    exact filesKept_setBytes_opened hj hp _

end Targets

theorem rename_keeps {src dst : Path} (hsrc : ∀ d : Disk, d.Apart paths.checkpoint src)
    (hdst : ∀ d : Disk, d.Apart paths.checkpoint dst)
    (hopen : ∀ {p j}, (p, j) ∈ opened → ∀ d : Disk, d.Apart p src ∧ d.Apart p dst) :
    Stays (Keeps paths opened) (Io.rename src dst) :=
  change_keeps fun d _ h => filesKept_rename h (hsrc d) (hdst d) fun hj => hopen hj d

end Io

theorem Wal.io_keeps {α : Type} {paths : LogPaths} {opened : List (Path × Nat)} {x : Io α}
    (hx : Stays (Keeps paths opened) x) : Stays (Keeps paths opened) (Wal.io x) :=
  hx.onMachine_io _

end EntityLog.Log
