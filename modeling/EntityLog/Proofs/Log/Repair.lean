import EntityLog.Proofs.Log.Ready
/-!
# Opening a log repairs its files

What opening the log at `live` does depends on three files it finds there: the live file `L`,
the backup `B` and the checkpoint file `C`. A checkpoint file that does not decode is an error.
Otherwise the log opens at the position `q` the checkpoint stores, or at the length of `L` when
there is no checkpoint file. A live file that reaches `q` is cut to it and the backup brought in
line. A shorter one is moved aside and replaced by the backup cut to `q`, unless the backup is
missing or short as well, which are errors (`Repairs`, one field per case).

`openLog_repairsEveryState` proves this of every open on a machine whose calls succeed and where
the lock is free: an opened log also holds the lock and has its checkpoint stored, and a failed
open gives the lock back (`Opens`).
-/

namespace EntityLog.Log

open EntityLog.Files EntityLog.Time EntityLog.Json Path

/-! ## What opening does, case by case -/

/-- The position a log opens at, by the live file `L` and the checkpoint file `C` it finds: the
position the checkpoint file decodes to, or the live file's length when there is no checkpoint
file. -/
def Positioned (L C : Option ByteArray) (q : Nat) : Prop :=
  (C = none ∧ q = (L.getD ByteArray.empty).size) ∨
    ∃ c ck, C = some c ∧ decodeText checkpointDecoder c = .ok ck ∧ ck.position = q

/-- Every file that the live file `L` was moved aside to, at some time, holds it on `m'`. -/
def MovedAside (live : Path) (L : Option ByteArray) (m' : Machine) : Prop :=
  ∀ x, L = some x → ∃ t, m'.fileOf ((LogPaths.forLog live).corrupted t) = some x

/-- What opening the log at `live` gives and leaves, by the live file `L`, the backup `B` and the
checkpoint file `C` it finds (each `none` when missing): the result `r` and the machine `m'`. -/
structure Repairs (live : Path) (L B C : Option ByteArray) (r : Except WalError DurableLog)
    (m' : Machine) : Prop where
  /-- A checkpoint file that does not decode is an error naming it. -/
  undecodable : ∀ c e, C = some c → decodeText checkpointDecoder c = .error e →
    r = .error (.checkpoint (LogPaths.forLog live).checkpoint e.message)
  /-- A live file that reaches the position is cut to it, and the backup brought in line. -/
  reaching : ∀ q, Positioned L C q → q ≤ (L.getD ByteArray.empty).size →
    ∃ log, r = .ok log ∧ log.checkpoint.position = q ∧ log.recoveries = 0 ∧
      m'.fileOf live = some ((L.getD ByteArray.empty).extract 0 q) ∧
      m'.fileOf (LogPaths.forLog live).backup =
        some (reconciled B ((L.getD ByteArray.empty).extract 0 q) q)
  /-- A live file short of the position with no backup cannot be repaired. -/
  noBackup : ∀ q, Positioned L C q → (L.getD ByteArray.empty).size < q → B = none →
    r = .error (.noBackup (LogPaths.forLog live).backup)
  /-- A backup short of the position too is copied into place, and the open fails. -/
  shortBackup : ∀ q b, Positioned L C q → (L.getD ByteArray.empty).size < q → B = some b →
    b.size < q → r = .error (.corrupted live b.size q) ∧ m'.fileOf live = some b ∧
      MovedAside live L m'
  /-- Otherwise the backup, cut to the position, replaces the live file moved aside. -/
  restored : ∀ q b, Positioned L C q → (L.getD ByteArray.empty).size < q → B = some b →
    q ≤ b.size → ∃ log, r = .ok log ∧ log.checkpoint.position = q ∧ log.recoveries = 1 ∧
      m'.fileOf live = some (b.extract 0 q) ∧
      m'.fileOf (LogPaths.forLog live).backup = some (b.extract 0 q) ∧ MovedAside live L m'

section Cases

variable {live : Path} {L B C : Option ByteArray} {r : Except WalError DurableLog} {m' : Machine}

theorem Positioned.unique {q q' : Nat} (h : Positioned L C q) (h' : Positioned L C q') : q = q' := by
  rcases h with ⟨hC, rfl⟩ | ⟨c, ck, hC, hdec, rfl⟩ <;>
    rcases h' with ⟨hC', rfl⟩ | ⟨c', ck', hC', hdec', rfl⟩
  · rfl
  · simp [hC] at hC'
  · simp [hC] at hC'
  · rw [hC, Option.some.injEq] at hC'
    subst hC'
    rw [hdec, Except.ok.injEq] at hdec'
    rw [hdec']

theorem Positioned.decodes {q : Nat} (h : Positioned L C q) {c : ByteArray} {e : Json.Error}
    (hC : C = some c) (he : decodeText checkpointDecoder c = .error e) : False := by
  rcases h with ⟨hC', -⟩ | ⟨c', ck, hC', hdec, -⟩
  · simp [hC] at hC'
  · rw [hC, Option.some.injEq] at hC'
    subst hC'
    simp [he] at hdec

theorem Repairs.of_undecodable {c : ByteArray} {e : Json.Error} (hC : C = some c)
    (he : decodeText checkpointDecoder c = .error e)
    (hr : r = .error (.checkpoint (LogPaths.forLog live).checkpoint e.message)) :
    Repairs live L B C r m' where
  undecodable c' e' hC' he' := by
    rw [hC, Option.some.injEq] at hC'
    subst hC'
    rw [he, Except.error.injEq] at he'
    rw [hr, he']
  reaching _ hq _ := (hq.decodes hC he).elim
  noBackup _ hq _ _ := (hq.decodes hC he).elim
  shortBackup _ _ hq _ _ _ := (hq.decodes hC he).elim
  restored _ _ hq _ _ _ := (hq.decodes hC he).elim

theorem Repairs.of_reaching {q : Nat} (hq : Positioned L C q)
    (hle : q ≤ (L.getD ByteArray.empty).size) {log : DurableLog} (hr : r = .ok log)
    (hpos : log.checkpoint.position = q) (hrec : log.recoveries = 0)
    (hl : m'.fileOf live = some ((L.getD ByteArray.empty).extract 0 q))
    (hb : m'.fileOf (LogPaths.forLog live).backup =
      some (reconciled B ((L.getD ByteArray.empty).extract 0 q) q)) :
    Repairs live L B C r m' where
  undecodable _ _ hC he := (hq.decodes hC he).elim
  reaching q' hq' _ := by
    obtain rfl := hq.unique hq'
    exact ⟨log, hr, hpos, hrec, hl, hb⟩
  noBackup q' hq' hlt _ := by
    obtain rfl := hq.unique hq'
    omega
  shortBackup q' _ hq' hlt _ _ := by
    obtain rfl := hq.unique hq'
    omega
  restored q' _ hq' hlt _ _ := by
    obtain rfl := hq.unique hq'
    omega

theorem Repairs.of_noBackup {q : Nat} (hq : Positioned L C q)
    (hlt : (L.getD ByteArray.empty).size < q) (hB : B = none)
    (hr : r = .error (.noBackup (LogPaths.forLog live).backup)) : Repairs live L B C r m' where
  undecodable _ _ hC he := (hq.decodes hC he).elim
  reaching q' hq' hle := by
    obtain rfl := hq.unique hq'
    omega
  noBackup _ _ _ _ := hr
  shortBackup _ _ _ _ hB' _ := by simp [hB] at hB'
  restored _ _ _ _ hB' _ := by simp [hB] at hB'

theorem Repairs.of_shortBackup {q : Nat} (hq : Positioned L C q)
    (hlt : (L.getD ByteArray.empty).size < q) {b : ByteArray} (hB : B = some b) (hbq : b.size < q)
    (hr : r = .error (.corrupted live b.size q)) (hl : m'.fileOf live = some b)
    (ha : MovedAside live L m') : Repairs live L B C r m' where
  undecodable _ _ hC he := (hq.decodes hC he).elim
  reaching q' hq' hle := by
    obtain rfl := hq.unique hq'
    omega
  noBackup _ _ _ hB' := by simp [hB] at hB'
  shortBackup q' b' hq' _ hB' _ := by
    obtain rfl := hq.unique hq'
    rw [hB, Option.some.injEq] at hB'
    subst hB'
    exact ⟨hr, hl, ha⟩
  restored q' b' hq' _ hB' hqb := by
    obtain rfl := hq.unique hq'
    rw [hB, Option.some.injEq] at hB'
    subst hB'
    omega

theorem Repairs.of_restored {q : Nat} (hq : Positioned L C q)
    (hlt : (L.getD ByteArray.empty).size < q) {b : ByteArray} (hB : B = some b) (hqb : q ≤ b.size)
    {log : DurableLog} (hr : r = .ok log) (hpos : log.checkpoint.position = q)
    (hrec : log.recoveries = 1) (hl : m'.fileOf live = some (b.extract 0 q))
    (hbk : m'.fileOf (LogPaths.forLog live).backup = some (b.extract 0 q))
    (ha : MovedAside live L m') : Repairs live L B C r m' where
  undecodable _ _ hC he := (hq.decodes hC he).elim
  reaching q' hq' hle := by
    obtain rfl := hq.unique hq'
    omega
  noBackup _ _ _ hB' := by simp [hB] at hB'
  shortBackup q' b' hq' _ hB' hbq := by
    obtain rfl := hq.unique hq'
    rw [hB, Option.some.injEq] at hB'
    subst hB'
    omega
  restored q' b' hq' _ hB' _ := by
    obtain rfl := hq.unique hq'
    rw [hB, Option.some.injEq] at hB'
    subst hB'
    exact ⟨log, hr, hpos, hrec, hl, hbk, ha⟩

/-- What opening gives depends on the machine it leaves only through the files there. -/
theorem Repairs.of_files (h : Repairs live L B C r m') {m'' : Machine}
    (hf : ∀ q, m''.fileOf q = m'.fileOf q) : Repairs live L B C r m'' where
  undecodable := h.undecodable
  reaching q hq hle := by
    obtain ⟨log, hr, hpos, hrec, hl, hb⟩ := h.reaching q hq hle
    exact ⟨log, hr, hpos, hrec, by rw [hf, hl], by rw [hf, hb]⟩
  noBackup := h.noBackup
  shortBackup q b hq hlt hB hbq := by
    obtain ⟨hr, hl, ha⟩ := h.shortBackup q b hq hlt hB hbq
    refine ⟨hr, by rw [hf, hl], fun x hx => ?_⟩
    obtain ⟨t, ht⟩ := ha x hx
    exact ⟨t, by rw [hf, ht]⟩
  restored q b hq hlt hB hqb := by
    obtain ⟨log, hr, hpos, hrec, hl, hbk, ha⟩ := h.restored q b hq hlt hB hqb
    refine ⟨log, hr, hpos, hrec, by rw [hf, hl], by rw [hf, hbk], fun x hx => ?_⟩
    obtain ⟨t, ht⟩ := ha x hx
    exact ⟨t, by rw [hf, ht]⟩

end Cases

/-! ## Opening repairs the files -/

section Init

variable {live : Path} {N : String} {m : Machine} {l : DurableLog} (h : Ready live m)
  (hlive : fileName live = some N) (hsep : live.endsInSeparator = false)
  (hp : l.paths = LogPaths.forLog live) (hb : l.backup.path = (LogPaths.forLog live).backup)
include h hlive hsep hp hb

/-- Loading the checkpoint and repairing the live file against it, on a fresh log; a successful
open wrote the places of the log's files only. -/
theorem init_repairs (hrec : l.recoveries = 0) :
    wp DurableLog.init
      (fun _ s => Repairs live (m.fileOf live) (m.fileOf (LogPaths.forLog live).backup)
        (m.fileOf (LogPaths.forLog live).checkpoint) (.ok s.2) s.1 ∧
        Wrote live ((LogPaths.forLog live).Place m.disk) m s.1)
      (fun e s => Repairs live (m.fileOf live) (m.fileOf (LogPaths.forLog live).backup)
        (m.fileOf (LogPaths.forLog live).checkpoint) (.error e) s.1) (m, l) := by
  have hlf : (LogPaths.forLog live).IsFile live := .inl rfl
  have hkf : (LogPaths.forLog live).IsFile (LogPaths.forLog live).checkpoint := .inr (.inl rfl)
  have htf : (LogPaths.forLog live).IsFile (temporaryOf (LogPaths.forLog live).checkpoint) :=
    .inr (.inr (.inl rfl))
  have hbf : (LogPaths.forLog live).IsFile (LogPaths.forLog live).backup :=
    .inr (.inr (.inr (.inl rfl)))
  simp only [DurableLog.init, wp_bind, wp_log, wp_wal, hp]
  refine loadCheckpoint_ready h hlive hsep (fun m1 hC hw1 => ?_) (fun c ck m1 hC hdec hw1 => ?_)
    (fun c e m1 hC hdec hw1 => Repairs.of_undecodable hC hdec rfl)
  · -- no checkpoint file: the live file's size is adopted and stored
    refine fileLength_ready hw1.ready hlive hsep hlf fun m2 hw2 => ?_
    have hL1 : m1.disk.fileAt (m1.disk.locate live) = m.fileOf live := hw1.fileOf not_false
    rw [hL1, size_getD]
    refine checkpointFor_none hw2.ready hlive hsep _ fun m3 hw3 => ?_
    have hw12 := hw1.trans hw2
    have hw13 := hw12.trans hw3
    have hD := forLog_distinct hlive
    have hA := forLog_apart hlive
    -- the checkpoint and its temporary file are apart from the live file and the backup
    have hkeep : ∀ q,
        m.disk.locate q ≠ m.disk.locate (temporaryOf (LogPaths.forLog live).checkpoint) →
        m.disk.locate q ≠ m.disk.locate (LogPaths.forLog live).checkpoint →
        m3.fileOf q = m.fileOf q := by
      intro q h1 h2
      refine hw13.fileOf ?_
      rintro ((hf | hf) | hf | hf)
      · exact hf
      · exact hf
      · exact h1 (by rw [hf, hw12.locate])
      · exact h2 (by rw [hf, hw12.locate])
    have hL3 : m3.disk.fileAt (m3.disk.locate live) = m.fileOf live :=
      hkeep live (hA.live_temporary m.disk).ne (hA.checkpoint_live m.disk).ne.symm
    have hB3 : m3.disk.fileAt (m3.disk.locate (LogPaths.forLog live).backup) =
        m.fileOf (LogPaths.forLog live).backup :=
      hkeep _ (hA.backup_temporary m.disk).ne (hA.checkpoint_backup m.disk).ne.symm
    refine openAt_ready hw3.ready hlive hsep hb (by rw [hL3]; rfl) le_rfl
      fun m4 i b' hw4 hl4 hb4 => ⟨?_, (hw13.trans hw4).mono fun s hs => ?_⟩
    · refine Repairs.of_reaching (.inl ⟨hC, rfl⟩) le_rfl rfl rfl hrec ?_ ?_
      · rw [Machine.fileOf, hw4.locate, hl4, hL3]
        rfl
      · rw [Machine.fileOf, hw4.locate, hb4, hB3, hL3]
        rfl
    · rcases hs with (((hs | hs) | hs | hs) | hs | hs)
      · exact hs.elim
      · exact hs.elim
      · exact LogPaths.place_locate hw12.cwd htf hs
      · exact LogPaths.place_locate hw12.cwd hkf hs
      · exact LogPaths.place_locate hw13.cwd hlf hs
      · exact LogPaths.place_locate hw13.cwd hbf hs
  · -- a checkpoint file that decodes
    refine fileLength_ready hw1.ready hlive hsep hlf fun m2 hw2 => ?_
    have hL1 : m1.disk.fileAt (m1.disk.locate live) = m.fileOf live := hw1.fileOf not_false
    rw [hL1, size_getD]
    have hw12 := hw1.trans hw2
    have hL2 : m2.disk.fileAt (m2.disk.locate live) = m.fileOf live := hw12.fileOf (by simp)
    have hB2 : m2.disk.fileAt (m2.disk.locate (LogPaths.forLog live).backup) =
        m.fileOf (LogPaths.forLog live).backup := hw12.fileOf (by simp)
    have hq : Positioned (m.fileOf live) (m.fileOf (LogPaths.forLog live).checkpoint) ck.position :=
      .inr ⟨c, ck, hC, hdec, rfl⟩
    by_cases hwithin : ck.position ≤ ((m.fileOf live).getD ByteArray.empty).size
    · -- the live file reaches the checkpoint: it is cut to it
      refine checkpointFor_within hwithin ?_
      refine openAt_ready hw2.ready hlive hsep hb (by rw [hL2]) hwithin
        fun m3 i b' hw3 hl3 hb3 => ⟨?_, (hw12.trans hw3).mono fun s hs => ?_⟩
      · refine Repairs.of_reaching hq hwithin rfl rfl hrec ?_ ?_
        · rw [Machine.fileOf, hw3.locate, hl3, hL2]
        · rw [Machine.fileOf, hw3.locate, hb3, hB2, hL2]
      · rcases hs with ((hs | hs) | hs | hs)
        · exact hs.elim
        · exact hs.elim
        · exact LogPaths.place_locate hw12.cwd hlf hs
        · exact LogPaths.place_locate hw12.cwd hbf hs
    · -- the live file falls short: the backup is restored
      have hshort := Nat.lt_of_not_le hwithin
      refine checkpointFor_restored hw2.ready hlive hsep hp hb hshort
        (fun m3 hB hw3 => ?_) fun b m3 hB hw3 hl3 haside => ⟨fun hbq => ?_, fun hqb => ?_⟩
      · rw [hb]
        exact Repairs.of_noBackup hq hshort (hB2.symm.trans hB) rfl
      · refine Repairs.of_shortBackup hq hshort (hB2.symm.trans hB) hbq rfl ?_ ?_
        · rw [Machine.fileOf, hw3.locate]
          exact hl3
        · intro x hx
          obtain ⟨t, ht⟩ := haside x (hL2.trans hx)
          exact ⟨t, by rw [Machine.fileOf, hw3.locate]; exact ht⟩
      · -- the restored live file is opened at the checkpoint like any other
        have hD := forLog_distinct hlive
        have hA := forLog_apart hlive
        have hl3' : m3.disk.fileAt (m3.disk.locate live) = some b := by rw [hw3.locate]; exact hl3
        have hB3 : m3.disk.fileAt (m3.disk.locate (LogPaths.forLog live).backup) = some b := by
          refine (hw3.fileOf ?_).trans hB
          rintro (he | ⟨t, he⟩)
          · exact (hA.live_backup m2.disk).ne he.symm
          · exact hD.backup_aside m2.disk t he
        have hw13 := hw12.trans hw3
        refine openAt_ready (l := { l with recoveries := l.recoveries + 1 }) hw3.ready hlive hsep hb
          (by rw [hl3']; rfl) hqb fun m4 i b' hw4 hl4 hb4 =>
            ⟨?_, (hw13.trans hw4).mono fun s hs => ?_⟩
        · refine Repairs.of_restored hq hshort (hB2.symm.trans hB) hqb rfl rfl (by simp [hrec]) ?_ ?_
            fun x hx => ?_
          · rw [Machine.fileOf, hw4.locate, hl4, hl3']
            rfl
          · rw [Machine.fileOf, hw4.locate, hb4, hB3, hl3']
            simp [reconciled, hqb]
          · obtain ⟨t, ht⟩ := haside x (hL2.trans hx)
            refine ⟨t, ?_⟩
            rw [hw4.fileOf, Machine.fileOf, hw3.locate, ht]
            rintro (he | he)
            · exact hD.live_aside m3.disk t he.symm
            · exact hD.backup_aside m3.disk t he.symm
        · rcases hs with (((hs | hs) | hs | ⟨t, hs⟩) | hs | hs)
          · exact hs.elim
          · exact hs.elim
          · exact LogPaths.place_locate hw12.cwd hlf hs
          · exact LogPaths.place_locate hw12.cwd (.inr (.inr (.inr (.inr (.inr ⟨t, rfl⟩))))) hs
          · exact LogPaths.place_locate hw13.cwd hlf hs
          · exact LogPaths.place_locate hw13.cwd hbf hs

end Init

/-! ## Taking the lock -/

/-- Opening a missing file for writing creates it as the next inode. -/
theorem Disk.create_fresh {d d' : Disk} {p : Path} {truncate : Bool} {i : Nat}
    (hn : d.nodeAt (d.locate p) = none) (h : d.create p truncate = .ok (d', i)) : i = d.fresh := by
  unfold Disk.create at h
  cases hreach : d.reach p with
  | error e => simp [hreach, bind, Except.bind] at h
  | ok segs =>
    have hsegs : segs = d.locate p := reach_eq_locate hreach
    subst hsegs
    simp only [hreach, bind, Except.bind, hn] at h
    split at h
    · cases h
    · simp only [pure, Except.pure, Except.ok.injEq, Prod.mk.injEq] at h
      exact h.2.symm

/-- An advisory lock on an inode that no holder locks is granted. -/
theorem Disk.tryLock_free {d : Disk} {i t : Nat} (h : ∀ q ∈ d.locks, q.1 ≠ i) :
    d.tryLock i t = .ok { d with locks := d.locks.filter (·.2 != t) ++ [(i, t)] } := by
  rw [Disk.tryLock, if_neg]
  -- no lock held on `i` matches the test
  rw [Bool.not_eq_true, List.any_eq_false]
  rintro ⟨j, u⟩ hq
  simp [h _ hq]

/-- Nothing keeps the lock of the log at `live` from being taken on `m`: this process does not
hold it, and no advisory lock is on the lock file or on an inode not yet made. -/
def LockFree (live : Path) (m : Machine) : Prop :=
  m.disk.locate (LogPaths.forLog live).lock ∉ m.held ∧
    ∀ q ∈ m.disk.locks, q.1 < m.disk.fresh ∧
      m.disk.nodeAt (m.disk.locate (LogPaths.forLog live).lock) ≠ some (.file q.1)

section Lock

variable {live : Path} {N : String} {m : Machine} (h : Ready live m)
  (hlive : fileName live = some N) (hsep : live.endsInSeparator = false)
include h hlive hsep

omit hlive hsep in
/-- Where the lock is free, the lock file opened carries no advisory lock. -/
theorem LockFree.unlocked (hfree : LockFree live m) {d : Disk} {i : Nat}
    (hc : m.disk.create (LogPaths.forLog live).lock false = .ok (d, i)) :
    ∀ q ∈ m.disk.locks, q.1 ≠ i := by
  intro q hq he
  obtain ⟨hlt, hne⟩ := hfree.2 q hq
  cases hk : m.disk.nodeAt (m.disk.locate (LogPaths.forLog live).lock) with
  | none =>
    -- a missing lock file is created as the next inode
    have hi : i = m.disk.fresh := Disk.create_fresh hk hc
    omega
  | some n =>
    cases n with
    | dir => exact h.not_dir (.inr (.inr (.inr (.inr (.inl rfl))))) hk
    | file k => exact hne (by rw [hk, he, Disk.create_existing hk hc])

theorem acquire_ready (hfree : LockFree live m) :
    wp (LogLock.acquire (LogPaths.forLog live).lock)
      (fun _ m' => Wrote live (· = m.disk.locate (LogPaths.forLog live).lock) m m')
      (fun _ _ => False) m := by
  have hkf : (LogPaths.forLog live).IsFile (LogPaths.forLog live).lock :=
    .inr (.inr (.inr (.inr (.inl rfl))))
  obtain ⟨hr, hs⟩ := reach_isFile hlive hsep h.reach hkf
  obtain ⟨d1, i, hc⟩ := Disk.create_of_reach hr hs (h.not_dir hkf) false
  have hC := Disk.create_created hc
  have hw1 := h.created hlive hC hkf (m.calls + 1)
  have hn1 : d1.nodeAt (m.disk.locate (LogPaths.forLog live).lock) = some (.file i) := hC.named
  have hfreeI := LockFree.unlocked h hfree hc
  -- once the lock is taken, the process id is written into the lock file
  have hpid : ∀ m5 (lk : LogLock),
      Wrote live (· = m.disk.locate (LogPaths.forLog live).lock) m m5 →
      m5.disk.nodeAt (m.disk.locate (LogPaths.forLog live).lock) = some (.file i) →
      wp (get >>= fun (m' : Machine) => tryCatch (OnMachine.io WalError.io (Io.setLength i 0 >>=
          fun _ => Io.append i (toString m'.pid ++ "\n").toUTF8)) (fun _ => pure ()) >>= fun _ =>
        (pure lk : Wal LogLock))
        (fun _ m' => Wrote live (· = m.disk.locate (LogPaths.forLog live).lock) m m')
        (fun _ _ => False) m5 := by
    intro m5 lk hw5 hn5
    simp only [wp_bind, wp_get, wp_tryCatch, wp_onMachine_io]
    refine setLength_ready hw5.ready hn5 (Nat.zero_le _) fun m6 hw6 hn6 _ => ?_
    refine append_ready hw6.ready hn6 _ fun m7 hw7 _ _ => ?_
    exact (hw5.trans (hw6.trans hw7)).mono fun s hs => by
      rcases hs with hs | hs | hs <;> exact hs
  simp only [LogLock.acquire, wp_bind, Wal.io, wp_onMachine_io]
  refine Io.wp_call_ok (h.quiet _) hc ?_
  -- the canonical path of the lock file is its place, which this process does not hold
  have hl1 : d1.locate (LogPaths.forLog live).lock = m.disk.locate (LogPaths.forLog live).lock :=
    hw1.locate _
  have hr1 := (reach_isFile hlive hsep hw1.ready.reach hkf).1
  rw [wp_bind, wp_onMachine_io]
  refine Io.wp_look_ok (f := fun d => d.canonical (LogPaths.forLog live).lock) (hw1.ready.quiet _)
    (Disk.canonical_of_node hr1 hs (by rw [hl1]; exact hn1)) ?_
  have hheld : (m.held.contains (d1.locate (LogPaths.forLog live).lock)) = false := by
    rw [hl1]
    simpa using hfree.1
  rw [wp_bind, wp_get]
  simp only [hheld, Bool.false_eq_true, if_false]
  rw [wp_bind, wp_set, wp_bind, wp_onMachine_io]
  simp only [Io.token, Disk.newToken, wp_bind, wp_get, wp_set, wp_pure]
  rw [wp_tryCatch, wp_onMachine_io]
  refine Io.wp_change_ok (h.quiet _)
    (Disk.tryLock_free fun q hq => hfreeI q (hC.grows.locks ▸ hq)) ?_
  -- taking the token and the advisory lock changes no name and no file
  have hu : Wrote live (fun _ => False) { m with calls := m.calls + 1, disk := d1 } { m with
      calls := m.calls + 1 + 1 + 1, held := m.held ++ [d1.locate (LogPaths.forLog live).lock],
      disk := { d1 with fresh := d1.fresh + 1, locks := (d1.locks.filter (·.2 != d1.fresh)) ++
        [(i, d1.fresh)] } } :=
    hw1.ready.unwritten rfl rfl rfl rfl (Nat.le_succ _)
  exact hpid _ _ ((hw1.trans hu).mono fun s hs => hs.elim id False.elim)
    ((hu.nodes _ not_false).trans hn1)

end Lock

/-! ## Closing a failed open -/

/-- `m'` keeps the fault plan of `m`, and the names, the files and the working directory of its
disk: only locks, handles and counters changed. -/
structure SameFiles (m m' : Machine) : Prop where
  faults : m'.faults = m.faults
  names : m'.disk.names = m.disk.names
  inodes : m'.disk.inodes = m.disk.inodes
  cwd : m'.disk.cwd = m.disk.cwd

section Close

variable {m m' m'' : Machine}

theorem SameFiles.refl (m : Machine) : SameFiles m m := ⟨rfl, rfl, rfl, rfl⟩

theorem SameFiles.trans (h : SameFiles m m') (h' : SameFiles m' m'') : SameFiles m m'' :=
  ⟨h'.faults.trans h.faults, h'.names.trans h.names, h'.inodes.trans h.inodes, h'.cwd.trans h.cwd⟩

theorem SameFiles.fileOf (h : SameFiles m m') (q : Path) : m'.fileOf q = m.fileOf q := by
  rw [Machine.fileOf, Disk.locate_of_cwd h.cwd, Disk.fileAt_of_names h.names h.inodes]
  rfl

theorem SameFiles.quiet (h : SameFiles m m') (hq : Quiet m) : Quiet m' := fun n => by
  rw [h.faults]
  exact hq n

variable (hq : Quiet m)
include hq

theorem sync_sameFiles (i : Nat) {Q : Unit → Machine → Prop} {E : IoFault → Machine → Prop}
    (hQ : ∀ m', SameFiles m m' → Q () m') : wp (Io.sync i) Q E m :=
  Io.wp_change_ok (hq _) rfl (hQ _ ⟨rfl, rfl, rfl, rfl⟩)

theorem release_sameFiles (lk : LogLock) {Q : Unit → Machine → Prop}
    {E : WalError → Machine → Prop} (hQ : ∀ m', SameFiles m m' → Q () m') :
    wp lk.release Q E m := by
  simp only [LogLock.release, wp_bind, wp_tryCatch, Wal.io, wp_onMachine_io]
  refine Io.wp_change_ok (hq _) rfl ?_
  simp only [forgetHeld, wp_modify]
  exact hQ _ ⟨rfl, rfl, rfl, rfl⟩

theorem closeBackup_sameFiles (b : Backup) {Q : Backup → Machine → Prop}
    {E : WalError → Machine → Prop} (hQ : ∀ m', SameFiles m m' → Q { b with mirror := none } m') :
    wp b.close Q E m := by
  unfold Backup.close
  split
  · simp only [wp_bind, wp_tryCatch, Wal.io, wp_onMachine_io]
    exact sync_sameFiles hq _ hQ
  · simp only [wp_pure]
    exact hQ m (.refl m)

theorem dropFile_sameFiles (l : DurableLog) {Q : Unit → Machine × DurableLog → Prop}
    {E : WalError → Machine × DurableLog → Prop}
    (hQ : ∀ m' l', SameFiles m m' → Q () (m', l')) : wp DurableLog.dropFile Q E (m, l) := by
  simp only [DurableLog.dropFile, wp_bind, wp_log]
  split
  · simp only [wp_bind, wp_update, wp_tryCatch, wp_io, wp_pure]
    exact sync_sameFiles hq _ fun m' hs => hQ _ _ hs
  · exact hQ _ _ (.refl m)

/-- Closing syncs and lets go of the handles and the lock: no file changes. -/
theorem close_sameFiles (l : DurableLog) {Q : Unit → Machine × DurableLog → Prop}
    {E : WalError → Machine × DurableLog → Prop}
    (hQ : ∀ m' l', SameFiles m m' → Q () (m', l')) : wp DurableLog.close Q E (m, l) := by
  rw [DurableLog.close, wp_bind]
  refine dropFile_sameFiles hq l fun m1 l1 hs1 => ?_
  simp only [wp_bind, wp_log, wp_wal, wp_update]
  refine closeBackup_sameFiles (hs1.quiet hq) l1.backup fun m2 hs2 => ?_
  have hs12 := hs1.trans hs2
  simp only [DurableLog.dropLock, wp_bind, wp_log]
  split
  · simp only [wp_bind, wp_update, wp_wal]
    exact release_sameFiles (hs12.quiet hq) _ fun m3 hs3 => hQ _ _ (hs12.trans hs3)
  · exact hQ _ _ hs12

end Close

/-! ## Opening the log -/

section Open

variable {live : Path} {N : String} {m : Machine} (h : Ready live m)
  (hlive : fileName live = some N) (hsep : live.endsInSeparator = false)
include h hlive hsep

/-- Opening the log once its directory is there: the lock is taken, and what the open does to
the files is what loading the checkpoint and repairing the live file against it does. -/
theorem openLocked_repairs (hfree : LockFree live m) (policy : Config.BackupPolicy) :
    wp (DurableLog.openLocked (LogPaths.forLog live) policy)
      (fun l m' => Repairs live (m.fileOf live) (m.fileOf (LogPaths.forLog live).backup)
        (m.fileOf (LogPaths.forLog live).checkpoint) (.ok l) m' ∧
        Wrote live ((LogPaths.forLog live).Place m.disk) m m')
      (fun e m' => Repairs live (m.fileOf live) (m.fileOf (LogPaths.forLog live).backup)
        (m.fileOf (LogPaths.forLog live).checkpoint) (.error e) m') m := by
  have hkf : (LogPaths.forLog live).IsFile (LogPaths.forLog live).lock :=
    .inr (.inr (.inr (.inr (.inl rfl))))
  rw [DurableLog.openLocked, wp_bind]
  refine wp_mono (acquire_ready h hlive hsep hfree) (fun lk m1 hw1 => ?_) fun _ _ h => h.elim
  simp only [wp_bind, Wal.io, wp_onMachine_io, Io.now, wp_get, wp_pure, wp_runOn]
  -- the lock file is apart from the files the open reads
  have hD := forLog_distinct hlive
  have hA := forLog_apart hlive
  have hinit := init_repairs (l := ⟨LogPaths.forLog live, none,
      ⟨(LogPaths.forLog live).backup, policy, none⟩, Checkpoint.at 0 (m1.clock m1.calls), 0,
      some lk⟩) hw1.ready hlive hsep rfl rfl rfl
  rw [hw1.fileOf (q := live) fun he => hD.lock_live m.disk he.symm,
    hw1.fileOf fun he => hD.lock_backup m.disk he.symm,
    hw1.fileOf (hA.checkpoint_lock m.disk).ne] at hinit
  refine wp_mono (wp_and hinit (DurableLog.init_steady _))
    (fun _ _ h2 => ⟨h2.1.1, (hw1.trans h2.1.2).mono fun s hs => ?_⟩) fun e s h2 => ?_
  · rcases hs with hs | hs
    · exact ⟨_, hkf, hs⟩
    · rwa [LogPaths.place_of_cwd _ hw1.cwd] at hs
  -- a failed open is closed again, which changes no file
  refine close_sameFiles (hw1.ready.quiet.of_steady h2.2.machine) s.2 fun m3 _ hs3 => ?_
  rw [wp_throw]
  exact h2.1.of_files hs3.fileOf

/-- Opening the log at `live`: the directory it lies in is already there, so making it changes
nothing, and the open repairs the files as `Repairs` says; an open that succeeds wrote the places
of the log's files only. -/
theorem openLog_repairsWithin (hfree : LockFree live m) (policy : Config.BackupPolicy) :
    wp (DurableLog.openLog live policy)
      (fun l m' => Repairs live (m.fileOf live) (m.fileOf (LogPaths.forLog live).backup)
        (m.fileOf (LogPaths.forLog live).checkpoint) (.ok l) m' ∧
        Wrote live ((LogPaths.forLog live).Place m.disk) m m')
      (fun e m' => Repairs live (m.fileOf live) (m.fileOf (LogPaths.forLog live).backup)
        (m.fileOf (LogPaths.forLog live).checkpoint) (.error e) m') m := by
  obtain ⟨r, hr⟩ := h.reach
  obtain ⟨parent, hparent, hdirs⟩ := Disk.createDirAll_parent hlive hr
  rw [DurableLog.openLog, wp_bind, DurableLog.makeParent, hparent]
  dsimp only
  split
  · simp only [Wal.io, wp_onMachine_io]
    refine Io.wp_change_ok (h.quiet _) hdirs ?_
    have hw := h.looked (m.calls + 1)
    exact wp_mono (openLocked_repairs hw.ready hlive hsep hfree policy)
      (fun _ _ h' => ⟨h'.1, (hw.trans h'.2).mono fun _ hs => hs.elim False.elim id⟩)
      fun _ _ h' => h'
  · exact openLocked_repairs h hlive hsep hfree policy

theorem openLog_repairs (hfree : LockFree live m) (policy : Config.BackupPolicy) :
    wp (DurableLog.openLog live policy)
      (fun l m' => Repairs live (m.fileOf live) (m.fileOf (LogPaths.forLog live).backup)
        (m.fileOf (LogPaths.forLog live).checkpoint) (.ok l) m')
      (fun e m' => Repairs live (m.fileOf live) (m.fileOf (LogPaths.forLog live).backup)
        (m.fileOf (LogPaths.forLog live).checkpoint) (.error e) m') m :=
  wp_mono (openLog_repairsWithin h hlive hsep hfree policy) (fun _ _ h' => h'.1) fun _ _ h' => h'

end Open

/-! ## Every state of the files -/

/-- What opening the log at `live` from `m` gives (`r`) and leaves (`m'`): the files repaired as
`Repairs` says of the live file, the backup and the checkpoint file found on `m`; an opened log
has its checkpoint stored and holds the lock it took, and a failed open gives the lock back. -/
structure Opens (live : Path) (m : Machine) (r : Except WalError DurableLog) (m' : Machine) :
    Prop where
  repairs : Repairs live (m.fileOf live) (m.fileOf (LogPaths.forLog live).backup)
    (m.fileOf (LogPaths.forLog live).checkpoint) r m'
  stored : ∀ l, r = .ok l → Stored (LogPaths.forLog live) l.checkpoint m'.disk
  locked : ∀ l, r = .ok l → ∃ lk, l.lock = some lk ∧ Acquired m m' lk
  released : ∀ e, r = .error e → m.Steady m'

/-- Opening the log at `live` on a machine whose calls do not fail, whose clock gives valid
times, and where the lock is free to take, repairs whatever live file, backup and checkpoint file
it finds as `Opens` says. -/
theorem openLog_repairsEveryState {live : Path} {N : String} {m : Machine}
    (hlive : fileName live = some N) (hsep : live.endsInSeparator = false) (h : Ready live m)
    (hfree : LockFree live m) (htok : TokensBelow m) (hclock : ∀ n, (m.clock n).Valid)
    (policy : Config.BackupPolicy) :
    wp (DurableLog.openLog live policy) (fun l m' => Opens live m (.ok l) m')
      (fun e m' => Opens live m (.error e) m') m := by
  refine wp_mono (wp_and (wp_and (openLog_repairs h hlive hsep hfree policy)
    (DurableLog.openLog_settles hlive policy h.quiet.honest hclock h.sound))
    (DurableLog.openLog_owns live policy htok)) (fun l m' hl => ?_) fun e m' he => ?_
  · refine ⟨hl.1.1, fun l' hl' => ?_, fun l' hl' => ?_, fun _ he => nomatch he⟩
    · cases hl'
      exact hl.1.2.1.stored
    · cases hl'
      exact hl.2
  · exact ⟨he.1.1, fun _ hl => (nomatch hl), fun _ hl => (nomatch hl), fun _ _ => he.2⟩

/-- A live file of one byte, short of the checkpoint at 3 that the checkpoint file stores, with a
backup of five bytes: the open moves the live file aside and restores the backup cut to the
checkpoint. -/
theorem openLog_repairsEveryState_restoresBackup :
    let ck : Checkpoint := ⟨3, Instant.ofMillis 0⟩
    let d : Disk :=
      { names := [(["x.log"], .file 0), (["x.log.backup"], .file 1), (["x.log.checkpoint"], .file 2)]
        inodes := [(0, ⟨#[97]⟩), (1, ⟨#[97, 98, 99, 100, 101]⟩), (2, ck.encode.toUTF8)]
        fresh := 3 }
    let m : Machine := { disk := d, clock := fun _ => Instant.ofMillis 0 }
    wp (DurableLog.openLog "x.log" .mirror)
      (fun l m' => Opens "x.log" m (.ok l) m' ∧ l.checkpoint.position = 3 ∧ l.recoveries = 1 ∧
        m'.fileOf "x.log" = some ⟨#[97, 98, 99]⟩ ∧
        m'.fileOf (LogPaths.forLog "x.log").backup = some ⟨#[97, 98, 99]⟩)
      (fun _ _ => False) m := by
  intro ck d m
  have hvalid : (Instant.ofMillis 0).Valid :=
    ⟨by decide, by decide, by decide, by decide, by decide⟩
  have hname : fileName "x.log" = some "x.log" := rfl
  have hsteps : Disk.steps "x.log" = ["x.log"] := by
    rw [steps_eq_stepsOf, show "x.log".toList = ['x', '.', 'l', 'o', 'g'] by simp]
    exact IsPiece.stepsOf_eq ⟨by simp, by simp, by simp⟩
  have hloc : d.locate "x.log" = ["x.log"] := by
    rw [Disk.locate, resolveSegments_eq_foldl, hsteps]
    decide +kernel
  obtain ⟨dir, hl, hc, hb, -, -, -⟩ := forLog_locate hname d
  have hdir : dir = [] := by
    rw [hloc] at hl
    simpa using hl
  subst hdir
  have hL : m.fileOf "x.log" = some ⟨#[97]⟩ := by
    show d.fileAt (d.locate "x.log") = _
    rw [hloc]
    rfl
  have hB : m.fileOf (LogPaths.forLog "x.log").backup = some ⟨#[97, 98, 99, 100, 101]⟩ := by
    show d.fileAt (d.locate _) = _
    rw [hb]
    decide +kernel
  have hC : m.fileOf (LogPaths.forLog "x.log").checkpoint = some ck.encode.toUTF8 := by
    show d.fileAt (d.locate _) = _
    rw [hc]
    rfl
  have hne : ∀ s i, d.nodeAt s = some (.file i) → s ≠ [] := by
    rintro s i h rfl
    simp [Disk.nodeAt] at h
  have hsound : d.Sound := by
    refine ⟨fun {s s' i} h h' => ?_, fun {s i} h => ?_⟩
    · have h1 := Disk.mem_names_of_nodeAt h (hne _ _ h)
      have h2 := Disk.mem_names_of_nodeAt h' (hne _ _ h')
      simp only [d, List.mem_cons, Prod.mk.injEq, Node.file.injEq, List.not_mem_nil,
        or_false] at h1 h2
      rcases h1 with ⟨rfl, rfl⟩ | ⟨rfl, rfl⟩ | ⟨rfl, rfl⟩ <;>
        rcases h2 with ⟨rfl, h2⟩ | ⟨rfl, h2⟩ | ⟨rfl, h2⟩ <;> first | rfl | omega
    · have h1 := Disk.mem_names_of_nodeAt h (hne _ _ h)
      simp only [d, List.mem_cons, Prod.mk.injEq, Node.file.injEq, List.not_mem_nil,
        or_false] at h1
      show i < 3
      rcases h1 with ⟨-, rfl⟩ | ⟨-, rfl⟩ | ⟨-, rfl⟩ <;> omega
  have hplaces : ∀ s, (LogPaths.forLog "x.log").Place d s → ∃ X, s = [X] := by
    rintro s ⟨q, hq, rfl⟩
    obtain ⟨dir, hdir, hnames⟩ := isFile_locate hname d
    rw [hloc] at hdir
    have hnil : dir = [] := by simpa using hdir
    subst hnil
    obtain ⟨X, hX⟩ := hnames q hq
    exact ⟨X, hX⟩
  have hbare : d.Bare ((LogPaths.forLog "x.log").Place d) := by
    refine ⟨fun {s} hs h => ?_, fun {s s'} hs hbelow => ?_⟩
    · obtain ⟨X, rfl⟩ := hplaces s hs
      have h1 := Disk.mem_names_of_nodeAt h (by simp)
      simp [d] at h1
    · obtain ⟨X, rfl⟩ := hplaces s hs
      obtain ⟨u, hu, rfl⟩ := hbelow
      cases h : d.nodeAt ([X] ++ u) with
      | none => rfl
      | some nd =>
        have h1 := Disk.mem_names_of_nodeAt h (by simp)
        simp [d] at h1
        simp_all
  have hready : Ready "x.log" m := by
    refine ⟨fun _ => rfl, hsound, ⟨["x.log"], ?_⟩, hbare⟩
    unfold Disk.reach
    rw [hsteps, show Path.isAbsolute "x.log" = false by decide +kernel]
    rfl
  have hpos : Positioned (m.fileOf "x.log") (m.fileOf (LogPaths.forLog "x.log").checkpoint) 3 := by
    rw [hL, hC]
    exact .inr ⟨_, ck, rfl, Checkpoint.decode_encode (by decide) hvalid, rfl⟩
  refine wp_mono (openLog_repairsEveryState hname (by decide +kernel) hready
    ⟨List.not_mem_nil, fun _ h => absurd h List.not_mem_nil⟩ (fun _ h => absurd h List.not_mem_nil)
    (fun _ => hvalid) .mirror) (fun l m' h => ?_) fun e m' h => ?_
  · obtain ⟨log, hr, hq, hrec, hlive, hback, -⟩ :=
      h.repairs.restored 3 _ hpos (by rw [hL]; decide) hB (by decide)
    cases hr
    exact ⟨h, hq, hrec, hlive.trans rfl, hback.trans rfl⟩
  · obtain ⟨log, hr, -⟩ := h.repairs.restored 3 _ hpos (by rw [hL]; decide) hB (by decide)
    cases hr
end EntityLog.Log
