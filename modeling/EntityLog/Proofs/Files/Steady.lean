import EntityLog.Proofs.Log.Outcomes
/-!
# What file calls leave alone

The advisory locks of a disk change only when a lock is taken or released, and the set of lock
files a process holds only when the process says so. Every other call of a program may change
names and bytes, but leaves both alone, keeps the fault plan and the clock, and never takes back
a number it gave out (inodes and lock tokens come from one counter that only grows). This module
states that as the relation `Machine.Steady` and proves it of every file call but taking and
releasing a lock.
-/

namespace EntityLog.Files

/-- A disk that only grew: its advisory locks and working directory as they were, and its
counter no lower. -/
structure Disk.Grows (d d' : Disk) : Prop where
  locks : d'.locks = d.locks
  cwd : d'.cwd = d.cwd
  fresh : d.fresh ≤ d'.fresh

namespace Disk.Grows

theorem refl (d : Disk) : Grows d d := ⟨rfl, rfl, Nat.le_refl _⟩

theorem trans {d d' d'' : Disk} (h : Grows d d') (h' : Grows d' d'') : Grows d d'' :=
  ⟨h'.locks.trans h.locks, h'.cwd.trans h.cwd, Nat.le_trans h.fresh h'.fresh⟩

end Disk.Grows

namespace Disk

variable {d d' : Disk}

theorem grows_setBytes (d : Disk) (inode : Nat) (bytes : ByteArray) : d.Grows (d.setBytes inode bytes) :=
  ⟨rfl, rfl, Nat.le_refl _⟩

theorem grows_setLength (d : Disk) (inode n : Nat) : d.Grows (d.setLength inode n) := by
  unfold setLength
  dsimp only
  split
  · exact grows_setBytes _ _ _
  · exact grows_setBytes _ _ _

theorem grows_link (d : Disk) (segs : List String) (n : Node) : d.Grows (d.link segs n) :=
  ⟨rfl, rfl, Nat.le_refl _⟩

theorem grows_of_create {p : Path} {truncate : Bool} {inode : Nat}
    (h : d.create p truncate = .ok (d', inode)) : d.Grows d' := by
  unfold create at h
  cases hreach : d.reach p with
  | error e => simp [hreach, bind, Except.bind] at h
  | ok segs =>
    simp only [hreach, bind, Except.bind] at h
    split at h
    · cases h
    · split at h
      · cases h
      · simp only [pure, Except.pure, Except.ok.injEq, Prod.mk.injEq] at h
        obtain ⟨rfl, -⟩ := h
        split
        · exact grows_setBytes _ _ _
        · exact Grows.refl d
    · split at h
      · cases h
      · simp only [pure, Except.pure, Except.ok.injEq, Prod.mk.injEq] at h
        obtain ⟨rfl, -⟩ := h
        -- a new file takes the next inode number
        exact ⟨rfl, rfl, Nat.le_succ _⟩

theorem grows_of_writeFile {p : Path} {bytes : ByteArray} (h : d.writeFile p bytes = .ok d') :
    d.Grows d' := by
  unfold writeFile at h
  cases hcreate : d.create p true with
  | error e => simp [hcreate, bind, Except.bind] at h
  | ok r =>
    obtain ⟨d1, i⟩ := r
    simp only [hcreate, bind, Except.bind, pure, Except.pure, Except.ok.injEq] at h
    subst h
    exact (grows_of_create hcreate).trans (grows_setBytes _ _ _)

theorem grows_of_copy {src dst : Path} {n : Nat} (h : d.copy src dst = .ok (d', n)) :
    d.Grows d' := by
  unfold copy at h
  cases hopen : d.openForRead src with
  | error e => simp [hopen, bind, Except.bind] at h
  | ok inode =>
    simp only [hopen, bind, Except.bind] at h
    split at h
    · cases h
    · cases hwrite : d.writeFile dst (d.bytesOf ‹Nat›) with
      | error e => simp [hwrite] at h
      | ok d1 =>
        simp only [hwrite, pure, Except.pure, Except.ok.injEq, Prod.mk.injEq] at h
        obtain ⟨rfl, -⟩ := h
        exact grows_of_writeFile hwrite

theorem grows_of_rename {src dst : Path} (h : d.rename src dst = .ok d') : d.Grows d' := by
  unfold rename at h
  cases hn : d.stat src with
  | error e => simp [hn, bind, Except.bind] at h
  | ok n =>
    cases hs : d.reach src with
    | error e => simp [hn, hs, bind, Except.bind] at h
    | ok source =>
      cases ht : d.reach dst with
      | error e => simp [hn, hs, ht, bind, Except.bind] at h
      | ok target =>
        simp only [hn, hs, ht, bind, Except.bind, throw, throwThe, MonadExceptOf.throw] at h
        -- past the type check the disk is either kept or only has its names moved
        split at h
        · cases h
        · cases h
        · split at h
          · split at h <;> cases h <;> exact ⟨rfl, rfl, Nat.le_refl _⟩
          · cases h
        · split at h <;> cases h <;> exact ⟨rfl, rfl, Nat.le_refl _⟩

/-- A fold whose every step lets the disk grow lets it grow. -/
theorem grows_of_foldlM {β : Type} {f : Disk × β → Nat → Except IoFault (Disk × β)}
    (hf : ∀ s k s', f s k = .ok s' → s.1.Grows s'.1) :
    ∀ (ks : List Nat) (s s' : Disk × β), ks.foldlM f s = .ok s' → s.1.Grows s'.1
  | [], s, s', h => by
    cases h
    exact Grows.refl _
  | k :: ks, s, s', h => by
    rw [List.foldlM_cons] at h
    cases hk : f s k with
    | error e => simp [hk, bind, Except.bind] at h
    | ok s1 =>
      simp only [hk, bind, Except.bind] at h
      exact (hf s k s1 hk).trans (grows_of_foldlM hf ks s1 s' h)

theorem grows_of_createDirAll {p : Path} (h : d.createDirAll p = .ok d') : d.Grows d' := by
  unfold createDirAll at h
  simp only [bind, Except.bind] at h
  split at h
  · cases h
  · rename_i r hfold
    simp only [pure, Except.pure, Except.ok.injEq] at h
    subst h
    refine grows_of_foldlM ?_ _ _ _ hfold
    -- each step keeps the disk or links a directory
    intro s k s' hs
    split at hs
    · cases hs
      exact Grows.refl _
    · split at hs
      · cases hs
        exact Grows.refl _
      · cases hs
      · cases hs
        exact grows_link _ _ _
    · cases hs
      exact Grows.refl _

end Disk

/-- A machine on which only what may grow has grown: the same held lock files, fault plan and
clock, and a disk that grew. -/
structure Machine.Steady (m m' : Machine) : Prop where
  held : m'.held = m.held
  faults : m'.faults = m.faults
  clock : m'.clock = m.clock
  disk : m.disk.Grows m'.disk

namespace Machine.Steady

theorem refl (m : Machine) : Steady m m := ⟨rfl, rfl, rfl, Disk.Grows.refl _⟩

theorem trans {m m' m'' : Machine} (h : Steady m m') (h' : Steady m' m'') : Steady m m'' :=
  ⟨h'.held.trans h.held, h'.faults.trans h.faults, h'.clock.trans h.clock, h.disk.trans h'.disk⟩

instance : Std.Refl Steady := ⟨refl⟩

instance : Trans Steady Steady Steady := ⟨trans⟩

end Machine.Steady

namespace Io

variable {α : Type}

/-- A numbered call is steady when what it does to the disk lets the disk grow; a planned fault
or a refusal changes only the count of calls. -/
theorem call_steady {f : Disk → Except IoFault (Disk × α)}
    (hf : ∀ d d' a, f d = .ok (d', a) → d.Grows d') : Stays Machine.Steady (call f) := by
  intro m
  unfold call
  simp only [wp_bind, wp_get, wp_set]
  split
  · exact ⟨rfl, rfl, rfl, Disk.Grows.refl _⟩
  · split
    · rename_i d a hok
      exact ⟨rfl, rfl, rfl, hf _ _ _ hok⟩
    · exact ⟨rfl, rfl, rfl, Disk.Grows.refl _⟩

theorem look_steady (f : Disk → Except IoFault α) : Stays Machine.Steady (look f) := by
  refine call_steady fun d d' a h => ?_
  cases hf : f d with
  | error e => simp [hf, bind, Except.bind] at h
  | ok b =>
    simp only [hf, bind, Except.bind, pure, Except.pure, Except.ok.injEq, Prod.mk.injEq] at h
    rw [← h.1]
    exact Disk.Grows.refl d

theorem change_steady {f : Disk → Except IoFault Disk} (hf : ∀ d d', f d = .ok d' → d.Grows d') :
    Stays Machine.Steady (change f) := by
  refine call_steady fun d d' a h => ?_
  cases hd : f d with
  | error e => simp [hd, bind, Except.bind] at h
  | ok d1 =>
    simp only [hd, bind, Except.bind, pure, Except.pure, Except.ok.injEq, Prod.mk.injEq] at h
    rw [← h.1]
    exact hf d d1 hd

theorem stat_steady (p : Path) : Stays Machine.Steady (stat p) := look_steady _
theorem size?_steady (p : Path) : Stays Machine.Steady (size? p) := look_steady _
theorem read_steady (p : Path) : Stays Machine.Steady (read p) := look_steady _
theorem openWrite_steady (p : Path) : Stays Machine.Steady (openWrite p) := look_steady _
theorem openRead_steady (p : Path) : Stays Machine.Steady (openRead p) := look_steady _
theorem canonical_steady (p : Path) : Stays Machine.Steady (canonical p) := look_steady _
theorem contents_steady (inode : Nat) : Stays Machine.Steady (contents inode) := look_steady _

theorem exists?_steady (p : Path) : Stays Machine.Steady (exists? p) :=
  Stays.tryCatch (Stays.bind (stat_steady p) fun _ => Stays.pure _) fun _ => Stays.pure _

theorem create_steady (p : Path) (truncate : Bool) : Stays Machine.Steady (create p truncate) :=
  call_steady fun _ _ _ h => Disk.grows_of_create h

theorem copy_steady (src dst : Path) : Stays Machine.Steady (copy src dst) :=
  call_steady fun _ _ _ h => Disk.grows_of_copy h

theorem rename_steady (src dst : Path) : Stays Machine.Steady (rename src dst) :=
  change_steady fun _ _ h => Disk.grows_of_rename h

theorem createDirAll_steady (p : Path) : Stays Machine.Steady (createDirAll p) :=
  change_steady fun _ _ h => Disk.grows_of_createDirAll h

theorem append_steady (inode : Nat) (bytes : ByteArray) : Stays Machine.Steady (append inode bytes) :=
  change_steady fun d _ h => by
    cases h
    exact Disk.grows_setBytes d _ _

theorem overwrite_steady (inode : Nat) (bytes : ByteArray) :
    Stays Machine.Steady (overwrite inode bytes) :=
  change_steady fun d _ h => by
    cases h
    exact Disk.grows_setBytes d _ _

theorem sync_steady (inode : Nat) : Stays Machine.Steady (sync inode) :=
  change_steady fun d _ h => by
    cases h
    exact Disk.Grows.refl d

theorem setLength_steady (inode n : Nat) : Stays Machine.Steady (setLength inode n) :=
  change_steady fun d _ h => by
    cases h
    exact Disk.grows_setLength d _ _

theorem now_steady : Stays Machine.Steady now := fun m => Machine.Steady.refl m

theorem draw_steady : Stays Machine.Steady draw := fun _ => ⟨rfl, rfl, rfl, Disk.Grows.refl _⟩

/-- A new token only advances the counter. -/
theorem token_steady : Stays Machine.Steady token := fun _ => ⟨rfl, rfl, rfl, rfl, rfl, Nat.le_succ _⟩

end Io

end EntityLog.Files
