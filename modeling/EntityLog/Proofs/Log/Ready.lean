import EntityLog.Proofs.Files.Contents
import EntityLog.Proofs.Log.Opening
/-!
# The calls of an open on a machine whose calls succeed

Opening a log touches only its own files: the live file, the checkpoint and its temporary file,
the backup, the lock, and the places a damaged live file is moved aside to, all names of one
directory (`LogPaths.Place`). On a machine whose calls do not fail, whose walk to the live file
succeeds, and where none of those places is a directory or has anything below it (`Ready`),
every call the open makes succeeds. Each call is specified by what it does to those places:
`Wrote live W m m'` says that only the places `W` changed and that the open can go on from `m'`.
A specification is a `wp` with no error case whose postcondition is stated for every machine the
call can leave, so the steps of the open chain without unfolding one another.
-/

namespace EntityLog.Files

/-- What the file at a path of a machine holds, if anything. -/
def Machine.fileOf (m : Machine) (q : Path) : Option ByteArray := m.disk.fileAt (m.disk.locate q)

end EntityLog.Files

namespace EntityLog.Files.Io

variable {α : Type} {m : Machine} {Q : α → Machine → Prop} {E : IoFault → Machine → Prop}

/-- A call that the fault plan lets through does what its function says. -/
theorem wp_call_ok {f : Disk → Except IoFault (Disk × α)} (hq : m.faults m.calls = none)
    {d : Disk} {a : α} (hf : f m.disk = .ok (d, a))
    (hQ : Q a { m with calls := m.calls + 1, disk := d }) : wp (call f) Q E m := by
  simp only [call, wp_bind, wp_get, wp_set, hq, hf]
  exact hQ

theorem wp_look_ok {f : Disk → Except IoFault α} (hq : m.faults m.calls = none) {a : α}
    (hf : f m.disk = .ok a) (hQ : Q a { m with calls := m.calls + 1 }) : wp (look f) Q E m :=
  wp_call_ok hq (by simp [hf, bind, Except.bind, pure, Except.pure]) hQ

theorem wp_call_error {f : Disk → Except IoFault (Disk × α)} (hq : m.faults m.calls = none)
    {e : IoFault} (hf : f m.disk = .error e) (hE : E e { m with calls := m.calls + 1 }) :
    wp (call f) Q E m := by
  simp only [call, wp_bind, wp_get, wp_set, hq, hf]
  exact hE

theorem wp_look_error {f : Disk → Except IoFault α} (hq : m.faults m.calls = none) {e : IoFault}
    (hf : f m.disk = .error e) (hE : E e { m with calls := m.calls + 1 }) : wp (look f) Q E m :=
  wp_call_error hq (by simp [hf, bind, Except.bind]) hE

theorem wp_change_ok {f : Disk → Except IoFault Disk} {Q : Unit → Machine → Prop}
    (hq : m.faults m.calls = none) {d : Disk} (hf : f m.disk = .ok d)
    (hQ : Q () { m with calls := m.calls + 1, disk := d }) : wp (change f) Q E m :=
  wp_call_ok hq (by simp [hf, bind, Except.bind, pure, Except.pure]) hQ

end EntityLog.Files.Io

namespace EntityLog.Log

open EntityLog.Files EntityLog.Time EntityLog.Json Path

/-- The paths of the files of a log: the live file, the checkpoint and its temporary file, the
backup, the lock, and every path a damaged live file is moved aside to. -/
def LogPaths.IsFile (paths : LogPaths) (q : Path) : Prop :=
  q = paths.live ∨ q = paths.checkpoint ∨ q = temporaryOf paths.checkpoint ∨ q = paths.backup ∨
    q = paths.lock ∨ ∃ t, q = paths.corrupted t

/-- The places of the files of a log on the disks with the working directory of `d`. -/
def LogPaths.Place (paths : LogPaths) (d : Disk) (s : List String) : Prop :=
  ∃ q, paths.IsFile q ∧ s = d.locate q

/-- The pairs of files of a log that `LogPaths.Apart` leaves out lie at different places. -/
structure LogPaths.Distinct (paths : LogPaths) : Prop where
  live_aside : ∀ (d : Disk) (t : Instant), d.locate paths.live ≠ d.locate (paths.corrupted t)
  backup_aside : ∀ (d : Disk) (t : Instant), d.locate paths.backup ≠ d.locate (paths.corrupted t)
  temporary_aside : ∀ (d : Disk) (t : Instant),
    d.locate (temporaryOf paths.checkpoint) ≠ d.locate (paths.corrupted t)
  lock_live : ∀ d : Disk, d.locate paths.lock ≠ d.locate paths.live
  lock_backup : ∀ d : Disk, d.locate paths.lock ≠ d.locate paths.backup
  lock_aside : ∀ (d : Disk) (t : Instant), d.locate paths.lock ≠ d.locate (paths.corrupted t)

section Places

variable {live : Path} {N : String}

/-- Every file of the log at `live` is a name of the directory of the live file, at least as
long as the live file's own. -/
theorem isFile_locate_length (hlive : fileName live = some N) (d : Disk) :
    ∃ dir, d.locate live = dir ++ [N] ∧ ∀ q, (LogPaths.forLog live).IsFile q →
      ∃ X, d.locate q = dir ++ [X] ∧ N.length ≤ X.length := by
  obtain ⟨dir, hl, hc, hb, hk, ht, ha⟩ := forLog_locate hlive d
  refine ⟨dir, hl, fun q hq => ?_⟩
  rcases hq with rfl | rfl | rfl | rfl | rfl | ⟨t, rfl⟩
  · exact ⟨_, hl, le_rfl⟩
  · exact ⟨_, hc, by rw [besideName_length]; omega⟩
  · exact ⟨_, ht, by simp only [String.length_append, besideName_length]; omega⟩
  · exact ⟨_, hb, by rw [besideName_length]; omega⟩
  · exact ⟨_, hk, by rw [besideName_length]; omega⟩
  · exact ⟨_, ha t, by have := length_le_asideName t N; omega⟩

/-- Every file of the log at `live` is a name of the directory of the live file. -/
theorem isFile_locate (hlive : fileName live = some N) (d : Disk) :
    ∃ dir, d.locate live = dir ++ [N] ∧
      ∀ q, (LogPaths.forLog live).IsFile q → ∃ X, d.locate q = dir ++ [X] := by
  obtain ⟨dir, hl, hnames⟩ := isFile_locate_length hlive d
  exact ⟨dir, hl, fun q hq => (hnames q hq).imp fun _ hX => hX.1⟩

/-- No file of a log lies below another. -/
theorem flat_place (hlive : fileName live = some N) (d : Disk) :
    Disk.Flat ((LogPaths.forLog live).Place d) := by
  obtain ⟨dir, -, hnames⟩ := isFile_locate hlive d
  rintro s s' ⟨q, hq, rfl⟩ ⟨q', hq', rfl⟩ ⟨u, hu, he⟩
  obtain ⟨X, hX⟩ := hnames q hq
  obtain ⟨Y, hY⟩ := hnames q' hq'
  have hlen := congrArg List.length he
  rw [hX, hY] at hlen
  simp only [List.length_append, List.length_singleton] at hlen
  have : 0 < u.length := List.length_pos_iff.2 hu
  omega

/-- The place of `q` on the disks with the working directory of `d` is none of the places of
the log's files and lies below none of them. -/
def LogPaths.Clear (paths : LogPaths) (d : Disk) (q : Path) : Prop :=
  ∀ s, paths.Place d s → s ≠ d.locate q ∧ ¬ Disk.Below s (d.locate q)

/-- A name of the live file's directory shorter than the live file's is clear of the log's
files. -/
theorem clear_of_shorter (hlive : fileName live = some N) {d : Disk} {q : Path}
    {dir : List String} {K : String} (hdir : d.locate live = dir ++ [N])
    (hq : d.locate q = dir ++ [K]) (hK : K.length < N.length) :
    (LogPaths.forLog live).Clear d q := by
  obtain ⟨dir', hl, hnames⟩ := isFile_locate_length hlive d
  rw [hdir] at hl
  rintro s ⟨q', hq', rfl⟩
  obtain ⟨X, hX, hlen⟩ := hnames q' hq'
  rw [hX, hq, ← List.append_cancel_right hl]
  refine ⟨fun he => ?_, fun ⟨u, hu, he⟩ => ?_⟩
  · have hXK : X = K := by simpa using he
    rw [hXK] at hlen
    omega
  · -- a place below another is longer than it
    have hlen' := congrArg List.length he
    simp only [List.length_append, List.length_singleton] at hlen'
    have := List.length_pos_iff.2 hu
    omega

/-- The files of a log with a file name that `LogPaths.Apart` leaves out are at different places:
their names have different lengths. -/
theorem forLog_distinct (hlive : fileName live = some N) : (LogPaths.forLog live).Distinct := by
  have hlen := besideName_length N
  have haside := fun t => length_le_asideName t N
  have htmp : (besideName N "checkpoint" ++ ".tmp").length = N.length + 15 := by
    simp only [String.length_append, hlen]
    rfl
  have hbk : (besideName N "backup").length = N.length + 7 := hlen _
  have hlk : (besideName N "lock").length = N.length + 5 := hlen _
  -- two names of one directory are two places when the names differ
  have hne : ∀ (d : Disk) {p q : Path} {a b : String},
      (∀ dir, d.locate live = dir ++ [N] → d.locate p = dir ++ [a] ∧ d.locate q = dir ++ [b]) →
      a.length ≠ b.length → d.locate p ≠ d.locate q := by
    intro d p q a b hpq hab he
    obtain ⟨dir, hl, -⟩ := forLog_locate hlive d
    rw [(hpq dir hl).1, (hpq dir hl).2] at he
    exact hab (by simpa using congrArg (fun l => l.getLast?.map String.length) he)
  have hat : ∀ d : Disk, ∀ dir, d.locate live = dir ++ [N] →
      d.locate (LogPaths.forLog live).backup = dir ++ [besideName N "backup"] ∧
      d.locate (LogPaths.forLog live).lock = dir ++ [besideName N "lock"] ∧
      d.locate (temporaryOf (LogPaths.forLog live).checkpoint) =
        dir ++ [besideName N "checkpoint" ++ ".tmp"] ∧
      ∀ t, d.locate ((LogPaths.forLog live).corrupted t) = dir ++ [asideName t N] := by
    intro d dir hdir
    obtain ⟨dir', hl, -, hb, hk, ht, ha⟩ := forLog_locate hlive d
    rw [hdir] at hl
    rw [List.append_cancel_right hl]
    exact ⟨hb, hk, ht, ha⟩
  refine ⟨fun d t => hne d (fun dir hd => ⟨hd, (hat d dir hd).2.2.2 t⟩)
      (by have := haside t; omega),
    fun d t => hne d (fun dir hd => ⟨(hat d dir hd).1, (hat d dir hd).2.2.2 t⟩)
      (by have := haside t; omega),
    fun d t => hne d (fun dir hd => ⟨(hat d dir hd).2.2.1, (hat d dir hd).2.2.2 t⟩)
      (by have := haside t; omega),
    fun d => hne d (fun dir hd => ⟨(hat d dir hd).2.1, hd⟩) (by omega),
    fun d => hne d (fun dir hd => ⟨(hat d dir hd).2.1, (hat d dir hd).1⟩) (by omega),
    fun d t => hne d (fun dir hd => ⟨(hat d dir hd).2.1, (hat d dir hd).2.2.2 t⟩)
      (by have := haside t; omega)⟩

/-- A name beside the live file is reached whenever the live file is. -/
theorem reach_beside (hlive : fileName live = some N) {X : String} (hX : IsName X) {d : Disk}
    (hreach : ∃ r, d.reach live = .ok r) :
    d.reach (withFileName live X) = .ok (d.locate (withFileName live X)) ∧
      (withFileName live X).endsInSeparator = false := by
  obtain ⟨e, hl, hq⟩ := reach_withFileName d hlive hX
  obtain ⟨r, hr⟩ := hreach
  refine ⟨?_, endsInSeparator_withFileName hlive hX⟩
  cases e with
  | error err => simp [hl, Functor.map, Except.map] at hr
  | ok dir =>
    have h1 : d.reach (withFileName live X) = .ok (dir ++ [X]) := by
      simpa [Functor.map, Except.map] using hq
    rw [h1, ← reach_eq_locate h1]

/-- Every file of a log whose live file is reached is reached, and none ends in a separator. -/
theorem reach_isFile (hlive : fileName live = some N) (hsep : live.endsInSeparator = false)
    {d : Disk} (hreach : ∃ r, d.reach live = .ok r) {q : Path}
    (hq : (LogPaths.forLog live).IsFile q) :
    d.reach q = .ok (d.locate q) ∧ q.endsInSeparator = false := by
  obtain ⟨-, -, -, hN⟩ := fileName_spec hlive
  have hck := reach_beside hlive (isName_beside hN "checkpoint" (by decide) (by decide)) hreach
  rw [← forLog_checkpoint hlive] at hck
  rcases hq with rfl | rfl | rfl | rfl | rfl | ⟨t, rfl⟩
  · obtain ⟨r, hr⟩ := hreach
    exact ⟨by rw [hr, ← reach_eq_locate hr], hsep⟩
  · exact hck
  · -- the temporary file is a name beside the checkpoint
    obtain ⟨e, hc, ht⟩ := reach_temporary hlive d
    refine ⟨?_, ?_⟩
    · cases e with
      | error err => simp [hc, Functor.map, Except.map] at hck
      | ok dir =>
        have h1 : d.reach (temporaryOf (LogPaths.forLog live).checkpoint) =
            .ok (dir ++ [besideName N "checkpoint" ++ ".tmp"]) := by
          simpa [Functor.map, Except.map] using ht
        rw [h1, ← reach_eq_locate h1]
    · rw [temporary_checkpoint hlive]
      exact endsInSeparator_withFileName (fileName_checkpoint hlive) (isName_temporary hN)
  · rw [forLog_backup hlive]
    exact reach_beside hlive (isName_beside hN _ (by decide) (by decide)) hreach
  · rw [forLog_lock hlive]
    exact reach_beside hlive (isName_beside hN _ (by decide) (by decide)) hreach
  · rw [forLog_corrupted hlive]
    exact reach_beside hlive (isName_aside hN t) hreach

end Places

/-! ## Machines on which an open goes on -/

theorem LogPaths.place_of_cwd (paths : LogPaths) {d d' : Disk} (h : d'.cwd = d.cwd) :
    paths.Place d' = paths.Place d := by
  funext s
  simp only [LogPaths.Place, Disk.locate_of_cwd h]

/-- A machine on which the log at `live` can be opened call by call: no call fails, the disk is
sound, the live file's directory is reached, and the places of the log's files hold a file or
nothing, with nothing named below them. -/
structure Ready (live : Path) (m : Machine) : Prop where
  quiet : Quiet m
  sound : m.disk.Sound
  reach : ∃ r, m.disk.reach live = .ok r
  bare : m.disk.Bare ((LogPaths.forLog live).Place m.disk)

/-- `m'` follows `m` by calls of an open that wrote at most the places `W`: the open can go on,
the working directory is kept, and every other place holds what it held. -/
structure Wrote (live : Path) (W : List String → Prop) (m m' : Machine) : Prop where
  ready : Ready live m'
  cwd : m'.disk.cwd = m.disk.cwd
  nodes : ∀ s, ¬ W s → m'.disk.nodeAt s = m.disk.nodeAt s
  others : ∀ s, ¬ W s → m'.disk.fileAt s = m.disk.fileAt s

section Ready

variable {live : Path} {N : String} {m m' m'' : Machine}

theorem Wrote.refl (h : Ready live m) (W : List String → Prop) : Wrote live W m m :=
  ⟨h, rfl, fun _ _ => rfl, fun _ _ => rfl⟩

theorem Wrote.trans {W W' : List String → Prop} (h : Wrote live W m m')
    (h' : Wrote live W' m' m'') : Wrote live (fun s => W s ∨ W' s) m m'' :=
  ⟨h'.ready, h'.cwd.trans h.cwd, fun s hs => (h'.nodes s fun hw => hs (.inr hw)).trans
    (h.nodes s fun hw => hs (.inl hw)), fun s hs => (h'.others s fun hw => hs (.inr hw)).trans
    (h.others s fun hw => hs (.inl hw))⟩

theorem Wrote.mono {W W' : List String → Prop} (h : Wrote live W m m') (hW : ∀ s, W s → W' s) :
    Wrote live W' m m' :=
  ⟨h.ready, h.cwd, fun s hs => h.nodes s fun hw => hs (hW s hw),
    fun s hs => h.others s fun hw => hs (hW s hw)⟩

theorem place_isFile (d : Disk) {q : Path} (hq : (LogPaths.forLog live).IsFile q) :
    (LogPaths.forLog live).Place d (d.locate q) :=
  ⟨q, hq, rfl⟩

theorem Ready.not_dir (h : Ready live m) {q : Path} (hq : (LogPaths.forLog live).IsFile q) :
    m.disk.nodeAt (m.disk.locate q) ≠ some .dir :=
  h.bare.not_dir (place_isFile _ hq)

/-- A step that keeps the fault plan, the working directory, a sound disk and every directory,
and leaves the places of the log's files bare, keeps the open going. -/
theorem Ready.of_disk (h : Ready live m) (hq : m'.faults = m.faults)
    (hc : m'.disk.cwd = m.disk.cwd) (hs : m'.disk.Sound)
    (hdirs : ∀ s, m.disk.nodeAt s = some .dir → m'.disk.nodeAt s = some .dir)
    (hb : m'.disk.Bare ((LogPaths.forLog live).Place m.disk)) : Ready live m' where
  quiet n := by
    rw [hq]
    exact h.quiet n
  sound := hs
  reach := by
    obtain ⟨r, hr⟩ := h.reach
    exact ⟨r, Disk.reach_of_dirs hc hdirs hr⟩
  bare := by rwa [LogPaths.place_of_cwd _ hc]

/-- A step that changes no name and no bytes. -/
theorem Ready.unwritten (h : Ready live m) (hq : m'.faults = m.faults)
    (hn : m'.disk.names = m.disk.names) (hi : m'.disk.inodes = m.disk.inodes)
    (hc : m'.disk.cwd = m.disk.cwd) (hf : m.disk.fresh ≤ m'.disk.fresh) :
    Wrote live (fun _ => False) m m' := by
  have hnode : ∀ s, m'.disk.nodeAt s = m.disk.nodeAt s := fun s => by simp [Disk.nodeAt, hn]
  refine ⟨h.of_disk hq hc ⟨fun h1 h2 => ?_, fun h1 => ?_⟩ (fun s hs => by rwa [hnode])
    (h.bare.of_nodeAt hnode), hc, fun s _ => hnode s, fun s _ => Disk.fileAt_of_names hn hi s⟩
  · rw [hnode] at h1 h2
    exact h.sound.unaliased h1 h2
  · rw [hnode] at h1
    exact Nat.lt_of_lt_of_le (h.sound.lt_fresh h1) hf

/-- Creating a file of the log writes its place only. -/
theorem Ready.created (h : Ready live m) (hlive : fileName live = some N) {d : Disk} {p : Path}
    {i : Nat} (hC : Disk.Created m.disk d p i) (hp : (LogPaths.forLog live).IsFile p) (n : Nat) :
    Wrote live (· = m.disk.locate p) m { m with calls := n, disk := d } := by
  refine ⟨h.of_disk rfl hC.grows.cwd (hC.sound h.sound) (fun s hs => ?_)
    (h.bare.created (flat_place hlive _) hC (place_isFile _ hp)), hC.grows.cwd,
    fun s hs => hC.others hs, fun s hs => hC.fileAt_other h.sound hs⟩
  have hne : s ≠ m.disk.locate p := fun he => h.not_dir hp (he ▸ hs)
  rw [← hs]
  exact hC.others hne

/-- Creating a file clear of the log's files writes its place only. -/
theorem Ready.created_clear (h : Ready live m) {d : Disk} {p : Path} {i : Nat}
    (hC : Disk.Created m.disk d p i) (hp : (LogPaths.forLog live).Clear m.disk p)
    (hnd : m.disk.nodeAt (m.disk.locate p) ≠ some .dir) (n : Nat) :
    Wrote live (· = m.disk.locate p) m { m with calls := n, disk := d } := by
  refine ⟨h.of_disk rfl hC.grows.cwd (hC.sound h.sound) (fun s hs => ?_)
    (h.bare.created_apart hC hp), hC.grows.cwd,
    fun s hs => hC.others hs, fun s hs => hC.fileAt_other h.sound hs⟩
  have hne : s ≠ m.disk.locate p := fun he => hnd (he ▸ hs)
  rw [← hs]
  exact hC.others hne

/-- Writing the bytes of a file writes its place only. -/
theorem Ready.setBytes (h : Ready live m) {s₀ : List String} {i : Nat}
    (hi : m.disk.nodeAt s₀ = some (.file i)) (b : ByteArray) (n : Nat) :
    Wrote live (· = s₀) m { m with calls := n, disk := m.disk.setBytes i b } := by
  have hnode : ∀ s, (m.disk.setBytes i b).nodeAt s = m.disk.nodeAt s :=
    Disk.nodeAt_setBytes i b
  exact ⟨h.of_disk rfl rfl (h.sound.setBytes i b) (fun s hs => by rwa [hnode])
    (h.bare.of_nodeAt hnode), rfl, fun s _ => hnode s,
    fun s hs => Disk.fileAt_setBytes_other h.sound hi hs b⟩

/-- Renaming a file of the log to another place of the log writes those two places only. -/
theorem Ready.renamed (h : Ready live m) (hlive : fileName live = some N) {d : Disk}
    {src dst : Path} (hr : m.disk.rename src dst = .ok d)
    (hne : m.disk.locate src ≠ m.disk.locate dst) (hsrc : (LogPaths.forLog live).IsFile src)
    (hdst : (LogPaths.forLog live).IsFile dst) (n : Nat) :
    Wrote live (fun s => s = m.disk.locate src ∨ s = m.disk.locate dst) m
      { m with calls := n, disk := d } := by
  obtain ⟨hin, hc, -, -, hnode⟩ :=
    Disk.rename_moves hr hne fun _ hb => h.bare.empty_below (place_isFile _ hsrc) hb
  -- every place but the two names what it named
  have hkeep : ∀ s, s ≠ m.disk.locate src → s ≠ m.disk.locate dst →
      d.nodeAt s = m.disk.nodeAt s := by
    intro s h1 h2
    by_cases hnil : s = []
    · subst hnil
      rfl
    · rw [hnode s hnil, if_neg h2, if_neg h1]
  refine ⟨h.of_disk rfl hc ((Disk.rename_renamed hr).sound h.sound) (fun s hs => ?_)
    (h.bare.renamed (flat_place hlive _) hr hne (place_isFile _ hsrc) (place_isFile _ hdst)), hc,
    fun s hs => hkeep s (not_or.1 hs).1 (not_or.1 hs).2, fun s hs => ?_⟩
  · have h1 : s ≠ m.disk.locate src := fun he => h.not_dir hsrc (he ▸ hs)
    have h2 : s ≠ m.disk.locate dst := fun he => h.not_dir hdst (he ▸ hs)
    rw [hkeep s h1 h2, hs]
  · obtain ⟨h1, h2⟩ := not_or.1 hs
    exact Disk.fileAt_congr (hkeep s h1 h2) fun i _ => Disk.bytesOf_of_inodes hin i

end Ready

/-- A call that only looks writes nothing. -/
theorem Ready.looked {live : Path} {m : Machine} (h : Ready live m) (n : Nat) :
    Wrote live (fun _ => False) m { m with calls := n } :=
  ⟨⟨h.quiet, h.sound, h.reach, h.bare⟩, rfl, fun _ _ => rfl, fun _ _ => rfl⟩

/-! ## The calls of an open on the files of the log -/

section Calls

variable {live : Path} {N : String} {m : Machine} (h : Ready live m)
  (hlive : fileName live = some N) (hsep : live.endsInSeparator = false)
  {α : Type} {Q : α → Machine → Prop} {E : IoFault → Machine → Prop}
include h hlive hsep

/-- Reading a file of the log gives its bytes, or fails as missing when there is none. -/
theorem read_ready {q : Path} (hq : (LogPaths.forLog live).IsFile q) {Q : ByteArray → Machine → Prop}
    (hQ : ∀ b m', m.disk.fileAt (m.disk.locate q) = some b → Wrote live (fun _ => False) m m' →
      Q b m')
    (hE : ∀ m', m.disk.fileAt (m.disk.locate q) = none → Wrote live (fun _ => False) m m' →
      E .notFound m') :
    wp (Io.read q) Q E m := by
  obtain ⟨hr, hs⟩ := reach_isFile hlive hsep h.reach hq
  cases hn : m.disk.nodeAt (m.disk.locate q) with
  | none =>
    exact Io.wp_look_error (h.quiet _) (Disk.readBytes_of_free hr hs hn)
      (hE _ (Disk.fileAt_eq_none (by simp [hn])) (h.looked _))
  | some n =>
    cases n with
    | dir => exact absurd hn (h.not_dir hq)
    | file i =>
      exact Io.wp_look_ok (h.quiet _) (Disk.readBytes_of_file hr hs hn)
        (hQ _ _ (Disk.fileAt_of_nodeAt hn) (h.looked _))

/-- The size of a file of the log is the size of what it holds, if anything. -/
theorem size?_ready {q : Path} (hq : (LogPaths.forLog live).IsFile q)
    {Q : Option Nat → Machine → Prop}
    (hQ : ∀ m', Wrote live (fun _ => False) m m' →
      Q ((m.disk.fileAt (m.disk.locate q)).map ByteArray.size) m') :
    wp (Io.size? q) Q E m := by
  obtain ⟨hr, hs⟩ := reach_isFile hlive hsep h.reach hq
  exact Io.wp_look_ok (h.quiet _) (Disk.sizeIfPresent_of_reach hr hs (h.not_dir hq))
    (hQ _ (h.looked _))

/-- A file of the log exists when its place holds a file. -/
theorem exists?_ready {q : Path} (hq : (LogPaths.forLog live).IsFile q) {Q : Bool → Machine → Prop}
    (hQ : ∀ m', Wrote live (fun _ => False) m m' → Q (m.disk.fileAt (m.disk.locate q)).isSome m') :
    wp (Io.exists? q) Q E m := by
  obtain ⟨hr, hs⟩ := reach_isFile hlive hsep h.reach hq
  simp only [Io.exists?, Io.stat, wp_tryCatch, wp_bind]
  cases hn : m.disk.nodeAt (m.disk.locate q) with
  | none =>
    refine Io.wp_look_error (h.quiet _) (Disk.stat_of_free hr hs hn) ?_
    have hQ' := hQ _ (h.looked (m.calls + 1))
    rwa [Disk.fileAt_eq_none (by simp [hn])] at hQ'
  | some n =>
    cases n with
    | dir => exact absurd hn (h.not_dir hq)
    | file i =>
      refine Io.wp_look_ok (h.quiet _) (Disk.stat_of_node hr hs hn) ?_
      have hQ' := hQ _ (h.looked (m.calls + 1))
      rwa [Disk.fileAt_of_nodeAt hn] at hQ'

/-- Opening a file of the log for writing names a file at its place, emptied when asked. -/
theorem create_ready {q : Path} (hq : (LogPaths.forLog live).IsFile q) (truncate : Bool)
    {Q : Nat → Machine → Prop}
    (hQ : ∀ i m', Wrote live (· = m.disk.locate q) m m' →
      m'.disk.nodeAt (m.disk.locate q) = some (.file i) →
      m'.disk.fileAt (m.disk.locate q) = some (if truncate then ByteArray.empty
        else (m.disk.fileAt (m.disk.locate q)).getD ByteArray.empty) → Q i m') :
    wp (Io.create q truncate) Q E m := by
  obtain ⟨hr, hs⟩ := reach_isFile hlive hsep h.reach hq
  obtain ⟨d, i, hc⟩ := Disk.create_of_reach hr hs (h.not_dir hq) truncate
  have hC := Disk.create_created hc
  exact Io.wp_call_ok (h.quiet _) hc
    (hQ i _ (h.created hlive hC hq _) hC.named (Disk.create_fileAt hc))

/-- Opening an existing file of the log for writing gives its inode. -/
theorem openWrite_ready {q : Path} (hq : (LogPaths.forLog live).IsFile q) {i : Nat}
    (hi : m.disk.nodeAt (m.disk.locate q) = some (.file i)) {Q : Nat → Machine → Prop}
    (hQ : ∀ m', Wrote live (fun _ => False) m m' → Q i m') : wp (Io.openWrite q) Q E m := by
  obtain ⟨hr, hs⟩ := reach_isFile hlive hsep h.reach hq
  exact Io.wp_look_ok (h.quiet _) (Disk.openForWrite_of_file hr hs hi) (hQ _ (h.looked _))

/-- Renaming a file of the log to another place of the log moves what it holds. -/
theorem rename_ready {src dst : Path} (hsrc : (LogPaths.forLog live).IsFile src)
    (hdst : (LogPaths.forLog live).IsFile dst) (hne : m.disk.locate src ≠ m.disk.locate dst)
    {b : ByteArray} (hb : m.disk.fileAt (m.disk.locate src) = some b) {Q : Unit → Machine → Prop}
    (hQ : ∀ m', Wrote live (fun s => s = m.disk.locate src ∨ s = m.disk.locate dst) m m' →
      m'.disk.fileAt (m.disk.locate dst) = m.disk.fileAt (m.disk.locate src) →
      m'.disk.fileAt (m.disk.locate src) = none → Q () m') :
    wp (Io.rename src dst) Q E m := by
  obtain ⟨hrs, hss⟩ := reach_isFile hlive hsep h.reach hsrc
  obtain ⟨hrd, -⟩ := reach_isFile hlive hsep h.reach hdst
  obtain ⟨i, hi, -⟩ := Disk.exists_of_fileAt hb
  obtain ⟨d, hd⟩ := Disk.rename_of_file hrs hss hi hrd (h.not_dir hdst)
  obtain ⟨hin, -, -, -, hnode⟩ :=
    Disk.rename_moves hd hne fun _ hb => h.bare.empty_below (place_isFile _ hsrc) hb
  have hsrc0 : m.disk.locate src ≠ [] := fun he => by simp [he, Disk.nodeAt_nil] at hi
  have hdst0 : m.disk.locate dst ≠ [] := fun he => h.not_dir hdst (by rw [he]; rfl)
  have hbytes : d.bytesOf = m.disk.bytesOf := funext (Disk.bytesOf_of_inodes hin)
  refine Io.wp_change_ok (h.quiet _) hd (hQ _ (h.renamed hlive hd hne hsrc hdst _) ?_ ?_)
  · -- the target names the file the source named
    change d.fileAt _ = _
    unfold Disk.fileAt
    rw [hnode _ hdst0, if_pos rfl, hbytes]
  · change d.fileAt _ = _
    apply Disk.fileAt_eq_none
    rw [hnode _ hsrc0, if_neg hne, if_pos rfl]
    simp

/-- Copying a file of the log over another puts its bytes there and gives their length. -/
theorem copy_ready {src dst : Path} (hsrc : (LogPaths.forLog live).IsFile src)
    (hdst : (LogPaths.forLog live).IsFile dst) {b : ByteArray}
    (hb : m.disk.fileAt (m.disk.locate src) = some b) {Q : Nat → Machine → Prop}
    (hQ : ∀ m', Wrote live (· = m.disk.locate dst) m m' →
      m'.disk.fileAt (m.disk.locate dst) = some b → Q b.size m') :
    wp (Io.copy src dst) Q E m := by
  obtain ⟨hrs, hss⟩ := reach_isFile hlive hsep h.reach hsrc
  obtain ⟨hrd, hsd⟩ := reach_isFile hlive hsep h.reach hdst
  obtain ⟨i, hi, rfl⟩ := Disk.exists_of_fileAt hb
  obtain ⟨d, hd⟩ := Disk.copy_of_file hrs hss hi hrd (h.not_dir hdst) hsd
  obtain ⟨j, hC⟩ := Disk.copy_created hd
  obtain ⟨b, hb, hb', -⟩ := Disk.copy_fileAt hd
  rw [Disk.fileAt_of_nodeAt hi, Option.some.injEq] at hb
  subst hb
  exact Io.wp_call_ok (h.quiet _) hd (hQ _ (h.created hlive hC hdst _) hb')

end Calls

/-! ## Calls on open files -/

section Handles

variable {live : Path} {m : Machine} (h : Ready live m) {E : IoFault → Machine → Prop}
  {Q : Unit → Machine → Prop} {s₀ : List String} {i : Nat}
  (hi : m.disk.nodeAt s₀ = some (.file i))
include h hi

/-- Cutting an open file of the log to a length it reaches keeps its first bytes. -/
theorem setLength_ready {n : Nat} (hn : n ≤ (m.disk.bytesOf i).size)
    (hQ : ∀ m', Wrote live (· = s₀) m m' → m'.disk.nodeAt s₀ = some (.file i) →
      m'.disk.fileAt s₀ = some ((m.disk.bytesOf i).extract 0 n) → Q () m') :
    wp (Io.setLength i n) Q E m := by
  have hset : m.disk.setLength i n = m.disk.setBytes i ((m.disk.bytesOf i).extract 0 n) := by
    simp [Disk.setLength, hn]
  have hnode : (m.disk.setLength i n).nodeAt s₀ = some (.file i) := by
    rw [hset, Disk.nodeAt_setBytes]
    exact hi
  refine Io.wp_change_ok (h.quiet _) rfl (hQ _ ?_ hnode (Disk.fileAt_setLength_self hi hn))
  rw [hset]
  exact h.setBytes hi _ _

/-- Appending to an open file of the log adds the bytes at its end. -/
theorem append_ready (bytes : ByteArray)
    (hQ : ∀ m', Wrote live (· = s₀) m m' → m'.disk.nodeAt s₀ = some (.file i) →
      m'.disk.fileAt s₀ = some (m.disk.bytesOf i ++ bytes) → Q () m') :
    wp (Io.append i bytes) Q E m := by
  have hnode : (m.disk.appendBytes i bytes).nodeAt s₀ = some (.file i) := by
    rw [Disk.appendBytes, Disk.nodeAt_setBytes]
    exact hi
  exact Io.wp_change_ok (h.quiet _) rfl
    (hQ _ (h.setBytes hi _ _) hnode (Disk.fileAt_setBytes_self hi _))

end Handles

theorem sync_ready {live : Path} {m : Machine} (h : Ready live m) (i : Nat)
    {Q : Unit → Machine → Prop} {E : IoFault → Machine → Prop}
    (hQ : ∀ m', Wrote live (fun _ => False) m m' → Q () m') : wp (Io.sync i) Q E m :=
  Io.wp_change_ok (h.quiet _) rfl (hQ _ (h.looked _))

theorem Wrote.locate {live : Path} {W : List String → Prop} {m m' : Machine}
    (h : Wrote live W m m') (q : Path) : m'.disk.locate q = m.disk.locate q :=
  Disk.locate_of_cwd h.cwd q

theorem Wrote.fileOf {live : Path} {W : List String → Prop} {m m' : Machine}
    (h : Wrote live W m m') {q : Path} (hq : ¬ W (m.disk.locate q)) : m'.fileOf q = m.fileOf q := by
  rw [Machine.fileOf, h.locate, h.others _ hq]
  rfl

/-- A file named at a place the step did not write keeps its bytes. -/
theorem Wrote.bytesOf {live : Path} {W : List String → Prop} {m m' : Machine}
    (h : Wrote live W m m') {s : List String} (hs : ¬ W s) {i : Nat}
    (hi : m.disk.nodeAt s = some (.file i)) : m'.disk.bytesOf i = m.disk.bytesOf i := by
  have hf := h.others s hs
  rw [Disk.fileAt_of_nodeAt ((h.nodes s hs).trans hi), Disk.fileAt_of_nodeAt hi] at hf
  exact Option.some.inj hf

/-- The place of a file of the log, located on any disk with the same working directory. -/
theorem LogPaths.place_locate {paths : LogPaths} {d d' : Disk} (hc : d'.cwd = d.cwd) {q : Path}
    (hq : paths.IsFile q) {s : List String} (hs : s = d'.locate q) : paths.Place d s :=
  ⟨q, hq, by rw [hs, Disk.locate_of_cwd hc]⟩

theorem size_getD (L : Option ByteArray) :
    (L.map ByteArray.size).getD 0 = (L.getD ByteArray.empty).size := by
  cases L <;> rfl

/-! ## Loading and storing the checkpoint, and the files' sizes -/

section Steps

variable {live : Path} {N : String} {m : Machine} (h : Ready live m)
  (hlive : fileName live = some N) (hsep : live.endsInSeparator = false)
  {α : Type} {E : WalError → Machine → Prop}
include h hlive hsep

/-- Loading the checkpoint gives nothing when no checkpoint file is there, what the file decodes
to, or an error naming the file when it does not decode. -/
theorem loadCheckpoint_ready {Q : Option Checkpoint → Machine → Prop}
    (hnone : ∀ m', m.disk.fileAt (m.disk.locate (LogPaths.forLog live).checkpoint) = none →
      Wrote live (fun _ => False) m m' → Q none m')
    (hsome : ∀ c ck m', m.disk.fileAt (m.disk.locate (LogPaths.forLog live).checkpoint) = some c →
      decodeText checkpointDecoder c = .ok ck → Wrote live (fun _ => False) m m' → Q (some ck) m')
    (herr : ∀ c e m', m.disk.fileAt (m.disk.locate (LogPaths.forLog live).checkpoint) = some c →
      decodeText checkpointDecoder c = .error e → Wrote live (fun _ => False) m m' →
      E (.checkpoint (LogPaths.forLog live).checkpoint e.message) m') :
    wp (loadCheckpoint (LogPaths.forLog live).checkpoint) Q E m := by
  simp only [loadCheckpoint, Wal.io, wp_bind, wp_tryCatch, wp_map, wp_onMachine_io]
  refine read_ready h hlive hsep (.inr (.inl rfl)) (fun c m' hc hw => ?_) fun m' hc hw => ?_
  · cases hdec : decodeText checkpointDecoder c with
    | ok ck => exact hsome c ck m' hc hdec hw
    | error e => exact herr c e m' hc hdec hw
  · exact hnone m' hc hw

theorem fileLength_ready {q : Path} (hq : (LogPaths.forLog live).IsFile q)
    {Q : Option Nat → Machine → Prop}
    (hQ : ∀ m', Wrote live (fun _ => False) m m' →
      Q ((m.disk.fileAt (m.disk.locate q)).map ByteArray.size) m') :
    wp (fileLength q) Q E m := by
  simp only [fileLength, Wal.io, wp_onMachine_io]
  exact size?_ready h hlive hsep hq hQ

theorem present_ready {b : Backup} (hb : b.path = (LogPaths.forLog live).backup)
    {Q : Bool → Machine → Prop}
    (hQ : ∀ m', Wrote live (fun _ => False) m m' →
      Q (m.disk.fileAt (m.disk.locate b.path)).isSome m') :
    wp b.present Q E m := by
  simp only [Backup.present, Wal.io, wp_onMachine_io]
  exact exists?_ready h hlive hsep (.inr (.inr (.inr (.inl hb)))) hQ

/-- Storing a checkpoint writes the checkpoint and its temporary file only. -/
theorem storeCheckpoint_ready (ck : Checkpoint) {Q : Unit → Machine → Prop}
    (hQ : ∀ m', Wrote live (fun s =>
        s = m.disk.locate (temporaryOf (LogPaths.forLog live).checkpoint) ∨
        s = m.disk.locate (LogPaths.forLog live).checkpoint) m m' → Q () m') :
    wp (storeCheckpoint (LogPaths.forLog live).checkpoint ck) Q E m := by
  have htmp : (LogPaths.forLog live).IsFile (temporaryOf (LogPaths.forLog live).checkpoint) :=
    .inr (.inr (.inl rfl))
  have hck : (LogPaths.forLog live).IsFile (LogPaths.forLog live).checkpoint := .inr (.inl rfl)
  simp only [storeCheckpoint, Wal.io, wp_onMachine_io, wp_bind]
  -- the temporary file is created, written and synced, then renamed over the checkpoint
  refine create_ready h hlive hsep htmp true fun t m1 hw1 ht1 _ => ?_
  rw [wp_bind]
  refine append_ready hw1.ready ht1 _ fun m2 hw2 _ hb2 => ?_
  rw [wp_bind]
  refine sync_ready hw2.ready t fun m3 hw3 => ?_
  have hne := (forLog_apart hlive).checkpoint_temporary
  have hw23 := hw2.trans hw3
  have ht3 : m3.disk.fileAt (m3.disk.locate (temporaryOf (LogPaths.forLog live).checkpoint)) =
      some (m1.disk.bytesOf t ++ ck.encode.toUTF8) := by
    rw [hw23.locate, hw1.locate, hw3.others _ not_false]
    exact hb2
  refine rename_ready hw23.ready hlive hsep htmp hck (hne _).ne.symm ht3
    fun m4 hw4 _ _ => hQ _ ?_
  refine ((hw1.trans hw23).trans hw4).mono fun s hs => ?_
  simp only [hw23.locate, hw1.locate] at hs
  rcases hs with (hs | hs | hs) | hs | hs <;> simp_all

end Steps

/-! ## Restoring the live file from the backup -/

section Restore

variable {live : Path} {N : String} {m : Machine} {l : DurableLog} (h : Ready live m)
  (hlive : fileName live = some N) (hsep : live.endsInSeparator = false)
  (hp : l.paths = LogPaths.forLog live) (hb : l.backup.path = (LogPaths.forLog live).backup)
include h hlive hsep hp hb

/-- Restoring fails when the backup is missing; otherwise it moves the live file aside, when
there is one, copies the backup into its place, counts a recovery, and gives the backup's
length. -/
theorem restore_ready {Q : Nat → Machine × DurableLog → Prop}
    {E : WalError → Machine × DurableLog → Prop}
    (hnone : ∀ m', m.disk.fileAt (m.disk.locate (LogPaths.forLog live).backup) = none →
      Wrote live (fun _ => False) m m' → E (.noBackup l.backup.path) (m', l))
    (hsome : ∀ b m', m.disk.fileAt (m.disk.locate (LogPaths.forLog live).backup) = some b →
      Wrote live (fun s => s = m.disk.locate live ∨
        ∃ t, s = m.disk.locate ((LogPaths.forLog live).corrupted t)) m m' →
      m'.disk.fileAt (m.disk.locate live) = some b →
      (∀ x, m.disk.fileAt (m.disk.locate live) = some x →
        ∃ t, m'.disk.fileAt (m.disk.locate ((LogPaths.forLog live).corrupted t)) = some x) →
      Q b.size (m', { l with recoveries := l.recoveries + 1 })) :
    wp DurableLog.restore Q E (m, l) := by
  have hD := forLog_distinct hlive
  have hA := forLog_apart hlive
  have hlf : (LogPaths.forLog live).IsFile live := .inl rfl
  have hbf : (LogPaths.forLog live).IsFile (LogPaths.forLog live).backup :=
    .inr (.inr (.inr (.inl rfl)))
  simp only [DurableLog.restore, wp_bind, wp_log, wp_wal]
  refine present_ready h hlive hsep hb fun m1 hw1 => ?_
  simp only [hb] at hnone ⊢
  cases hB : m.disk.fileAt (m.disk.locate (LogPaths.forLog live).backup) with
  | none =>
    simp only [Option.isSome_none, Bool.not_false, if_true, wp_bind, wp_throw]
    exact hnone m1 hB hw1
  | some b =>
    simp only [Option.isSome_some, Bool.not_true, Bool.false_eq_true, if_false, wp_bind, wp_io, hp]
    refine exists?_ready hw1.ready hlive hsep hlf fun m2 hw2 => ?_
    have hw12 := hw1.trans hw2
    -- after moving the live file aside (or finding none), the backup is copied into place
    have hcopy : ∀ m3, Wrote live (fun s => s = m.disk.locate live ∨
        ∃ t, s = m.disk.locate ((LogPaths.forLog live).corrupted t)) m m3 →
        (∀ x, m.disk.fileAt (m.disk.locate live) = some x →
          ∃ t, m3.disk.fileAt (m.disk.locate ((LogPaths.forLog live).corrupted t)) = some x) →
        wp (LogIo.wal (l.backup.restoreInto live)) (fun restored =>
          wp (LogIo.update (fun l => { l with recoveries := l.recoveries + 1 }) >>= fun _ =>
            pure restored) Q E) E (m3, l) := by
      intro m3 hw3 haside
      have hB3 : m3.disk.fileAt (m.disk.locate (LogPaths.forLog live).backup) = some b := by
        rw [hw3.others _ ?_, hB]
        rintro (he | ⟨t, he⟩)
        · exact (hA.live_backup m.disk).ne he.symm
        · exact hD.backup_aside m.disk t he
      simp only [wp_wal, Backup.restoreInto, wp_bind]
      refine present_ready hw3.ready hlive hsep hb fun m4 hw4 => ?_
      have hw34 := hw3.trans hw4
      have hB4 : m4.disk.fileAt (m.disk.locate (LogPaths.forLog live).backup) = some b := by
        rw [hw4.others _ not_false, hB3]
      simp only [hb, hw3.locate, hB3, Option.isSome_some, Bool.not_true, Bool.false_eq_true,
        if_false, Wal.io, wp_onMachine_io]
      refine copy_ready hw4.ready hlive hsep hbf hlf (by rwa [hw34.locate]) fun m5 hw5 hl5 => ?_
      simp only [wp_update, wp_pure]
      have hw35 : Wrote live (fun s => s = m.disk.locate live ∨
          ∃ t, s = m.disk.locate ((LogPaths.forLog live).corrupted t)) m m5 :=
        (hw34.trans hw5).mono fun s hs => by
          rcases hs with (hs | hs) | hs
          · exact hs
          · exact hs.elim
          · exact .inl (by rw [hs, hw34.locate])
      refine hsome b m5 hB hw35 (by rwa [hw34.locate] at hl5) fun x hx => ?_
      obtain ⟨t, ht⟩ := haside x hx
      refine ⟨t, ?_⟩
      rw [hw5.others _ ?_, hw4.others _ not_false, ht]
      rw [hw34.locate]
      exact fun he => hD.live_aside m.disk t he.symm
    have hL1 : m1.disk.fileAt (m1.disk.locate live) = m.disk.fileAt (m.disk.locate live) := by
      rw [hw1.locate, hw1.others _ not_false]
    rw [hL1]
    cases hL : m.disk.fileAt (m.disk.locate live) with
    | none =>
      simp only [Option.isSome_none, Bool.false_eq_true, if_false]
      rw [wp_bind]
      exact hcopy m2 (hw12.mono fun s hs => by simp at hs) fun x hx => by simp [hL] at hx
    | some x =>
      simp only [Option.isSome_some, if_true, wp_bind, wp_io]
      -- the damaged live file goes aside under the time of the call
      have hL2 : m2.disk.fileAt (m2.disk.locate live) = some x := by
        rw [hw12.locate, hw12.others _ (by simp), hL]
      refine rename_ready hw12.ready hlive hsep hlf (.inr (.inr (.inr (.inr (.inr ⟨_, rfl⟩)))))
        (hD.live_aside _ _) hL2 fun m3 hw3 ha3 _ => ?_
      refine hcopy m3 ((hw12.trans hw3).mono fun s hs => ?_) fun y hy => ?_
      · rcases hs with (hs | hs) | hs | hs
        · exact hs.elim
        · exact hs.elim
        · exact .inl (by rw [hs, hw12.locate])
        · exact .inr ⟨_, by rw [hs, hw12.locate]⟩
      · rw [hL, Option.some.injEq] at hy
        subst hy
        refine ⟨m2.clock m2.calls, ?_⟩
        rw [← hw12.locate, ha3, hL2]

end Restore

/-! ## Choosing the checkpoint and opening at it -/

/-- What the backup holds once it is brought in line with `position` bytes, when it held `B` and
the live file holds `v`: the backup cut to the position when it reaches it, and otherwise a copy
of the live file. -/
def reconciled (B : Option ByteArray) (v : ByteArray) (position : Nat) : ByteArray :=
  match B with
  | some x => if position ≤ x.size then x.extract 0 position else v
  | none => v

/-- A stored checkpoint that the live file reaches is kept. -/
theorem checkpointFor_within {live : Path} {m : Machine} {l : DurableLog} {c : Checkpoint}
    {size : Nat} (hc : c.position ≤ size)
    {Q : Checkpoint × Nat → Machine × DurableLog → Prop}
    {E : WalError → Machine × DurableLog → Prop} (hQ : Q (c, size) (m, l)) :
    wp (DurableLog.checkpointFor (LogPaths.forLog live) (some c) size) Q E (m, l) := by
  have hx : c.exceeds size = false := by simpa [Checkpoint.exceeds] using hc
  simp only [DurableLog.checkpointFor, hx, Bool.false_eq_true, if_false, wp_pure]
  exact hQ

section Opening

variable {live : Path} {N : String} {m : Machine} {l : DurableLog} (h : Ready live m)
  (hlive : fileName live = some N) (hsep : live.endsInSeparator = false)
include h hlive hsep

/-- Without a stored checkpoint, a new one at the live file's size is stored. -/
theorem checkpointFor_none (size : Nat) {Q : Checkpoint × Nat → Machine × DurableLog → Prop}
    {E : WalError → Machine × DurableLog → Prop}
    (hQ : ∀ m', Wrote live (fun s =>
        s = m.disk.locate (temporaryOf (LogPaths.forLog live).checkpoint) ∨
        s = m.disk.locate (LogPaths.forLog live).checkpoint) m m' →
      Q (Checkpoint.at size (m.clock m.calls), size) (m', l)) :
    wp (DurableLog.checkpointFor (LogPaths.forLog live) none size) Q E (m, l) := by
  simp only [DurableLog.checkpointFor, wp_bind, wp_io, Io.now, wp_get, wp_pure, wp_wal]
  exact storeCheckpoint_ready h hlive hsep _ hQ

/-- A stored checkpoint past the live file's end restores the backup, and is kept when the
backup reaches it; a backup that falls short is an error naming the live file. -/
theorem checkpointFor_restored (hp : l.paths = LogPaths.forLog live)
    (hb : l.backup.path = (LogPaths.forLog live).backup) {c : Checkpoint} {size : Nat}
    (hc : size < c.position) {Q : Checkpoint × Nat → Machine × DurableLog → Prop}
    {E : WalError → Machine × DurableLog → Prop}
    (hnone : ∀ m', m.disk.fileAt (m.disk.locate (LogPaths.forLog live).backup) = none →
      Wrote live (fun _ => False) m m' → E (.noBackup l.backup.path) (m', l))
    (hsome : ∀ b m', m.disk.fileAt (m.disk.locate (LogPaths.forLog live).backup) = some b →
      Wrote live (fun s => s = m.disk.locate live ∨
        ∃ t, s = m.disk.locate ((LogPaths.forLog live).corrupted t)) m m' →
      m'.disk.fileAt (m.disk.locate live) = some b →
      (∀ x, m.disk.fileAt (m.disk.locate live) = some x →
        ∃ t, m'.disk.fileAt (m.disk.locate ((LogPaths.forLog live).corrupted t)) = some x) →
      (b.size < c.position → E (.corrupted live b.size c.position)
        (m', { l with recoveries := l.recoveries + 1 })) ∧
      (c.position ≤ b.size → Q (c, b.size) (m', { l with recoveries := l.recoveries + 1 }))) :
    wp (DurableLog.checkpointFor (LogPaths.forLog live) (some c) size) Q E (m, l) := by
  have hx : c.exceeds size = true := by simpa [Checkpoint.exceeds] using hc
  simp only [DurableLog.checkpointFor, hx, if_true, wp_bind]
  refine restore_ready h hlive hsep hp hb hnone fun b m' hB hw hl haside => ?_
  obtain ⟨hshort, hreach⟩ := hsome b m' hB hw hl haside
  by_cases hbc : b.size < c.position
  · have hx' : c.exceeds b.size = true := by simpa [Checkpoint.exceeds] using hbc
    simp only [hx', if_true, wp_bind, wp_throw]
    exact hshort hbc
  · have hx' : c.exceeds b.size = false := by simpa [Checkpoint.exceeds] using hbc
    simp only [hx', Bool.false_eq_true, if_false, wp_pure]
    exact hreach (Nat.le_of_not_lt hbc)

theorem reconcile_ready {b : Backup} (hb : b.path = (LogPaths.forLog live).backup) {v : ByteArray}
    (hv : m.disk.fileAt (m.disk.locate live) = some v) (position : Nat)
    {Q : Backup → Machine → Prop} {E : WalError → Machine → Prop}
    (hQ : ∀ b' m', Wrote live (· = m.disk.locate (LogPaths.forLog live).backup) m m' →
      m'.disk.fileAt (m.disk.locate (LogPaths.forLog live).backup) =
        some (reconciled (m.disk.fileAt (m.disk.locate (LogPaths.forLog live).backup)) v position) →
      Q b' m') :
    wp (b.reconcile live position) Q E m := by
  have hbf : (LogPaths.forLog live).IsFile (LogPaths.forLog live).backup :=
    .inr (.inr (.inr (.inl rfl)))
  simp only [Backup.reconcile, wp_bind, hb]
  refine fileLength_ready h hlive hsep hbf fun m1 hw1 => ?_
  have hlf : (LogPaths.forLog live).IsFile live := .inl rfl
  -- however the backup was brought in line, a mirror opens it again for appending
  have htail : ∀ m2, Wrote live (· = m.disk.locate (LogPaths.forLog live).backup) m m2 →
      m2.disk.fileAt (m.disk.locate (LogPaths.forLog live).backup) =
        some (reconciled (m.disk.fileAt (m.disk.locate (LogPaths.forLog live).backup)) v position) →
      wp (if (b.policy == Config.BackupPolicy.mirror) = true then
          Wal.io (Io.openWrite (LogPaths.forLog live).backup) >>= fun inode =>
            pure { path := (LogPaths.forLog live).backup, policy := b.policy, mirror := some inode }
        else pure { path := (LogPaths.forLog live).backup, policy := b.policy }) Q E m2 := by
    intro m2 hw2 hb2
    split
    · obtain ⟨j, hj, -⟩ := Disk.exists_of_fileAt hb2
      simp only [wp_bind, Wal.io, wp_onMachine_io]
      exact openWrite_ready hw2.ready hlive hsep hbf (by rwa [hw2.locate]) fun m3 hw3 =>
        hQ _ _ (hw2.trans hw3 |>.mono fun s hs => by simpa using hs)
          (by rw [hw3.others _ not_false, hb2])
    · exact hQ _ _ hw2 hb2
  have hv1 : m1.disk.fileAt (m1.disk.locate live) = some v := by
    rw [hw1.locate, hw1.others _ not_false, hv]
  -- a backup that falls short of the position, or is missing, becomes a copy of the live file
  have hcopy : (∀ x, m.disk.fileAt (m.disk.locate (LogPaths.forLog live).backup) = some x →
      x.size < position) →
      wp (Wal.io (Io.copy live (LogPaths.forLog live).backup) >>= fun _ =>
        if (b.policy == Config.BackupPolicy.mirror) = true then
          Wal.io (Io.openWrite (LogPaths.forLog live).backup) >>= fun inode =>
            pure { path := (LogPaths.forLog live).backup, policy := b.policy, mirror := some inode }
        else pure { path := (LogPaths.forLog live).backup, policy := b.policy }) Q E m1 := by
    intro hshort
    simp only [wp_bind, Wal.io, wp_onMachine_io]
    refine copy_ready hw1.ready hlive hsep hlf hbf hv1 fun m2 hw2 hb2 => ?_
    refine htail m2 (hw1.trans hw2 |>.mono fun s hs => ?_) ?_
    · rcases hs with hs | hs
      · exact hs.elim
      · rw [hs, hw1.locate]
    · rw [hw1.locate] at hb2
      rw [hb2]
      cases hB : m.disk.fileAt (m.disk.locate (LogPaths.forLog live).backup) with
      | none => rfl
      | some x => simp [reconciled, Nat.not_le_of_lt (hshort x hB)]
  cases hB : m.disk.fileAt (m.disk.locate (LogPaths.forLog live).backup) with
  | none =>
    rw [if_pos (by simp)]
    exact hcopy fun x hx => by simp [hB] at hx
  | some x =>
    simp only [Option.map_some, bne_iff_ne, ne_eq, Option.some.injEq]
    by_cases hxp : x.size = position
    · -- a backup of the right length stays as it is
      simp only [hxp, not_true_eq_false, if_false]
      refine htail m1 (hw1.mono fun s hs => hs.elim) ?_
      rw [hw1.others _ not_false, hB]
      simp only [reconciled, if_pos (Nat.le_of_eq hxp.symm)]
      rw [← hxp, ByteArray.extract_zero_size]
    · simp only [hxp, not_false_eq_true, if_true]
      by_cases hlong : x.size > position
      · -- a longer backup is cut to the position
        simp only [hlong, if_true, wp_bind, Wal.io, wp_onMachine_io]
        obtain ⟨j, hj, hjx⟩ := Disk.exists_of_fileAt hB
        have hj1 : m1.disk.nodeAt (m1.disk.locate (LogPaths.forLog live).backup) = some (.file j) := by
          rw [hw1.locate, hw1.nodes _ not_false, hj]
        refine openWrite_ready hw1.ready hlive hsep hbf hj1 fun m2 hw2 => ?_
        have hj2 : m2.disk.nodeAt (m.disk.locate (LogPaths.forLog live).backup) = some (.file j) := by
          rw [hw2.nodes _ not_false, ← hw1.locate, hj1]
        have hbytes : m2.disk.bytesOf j = x := by
          have := (hw2.others _ not_false).trans ((hw1.others _ not_false).trans hB)
          rw [Disk.fileAt_of_nodeAt hj2, Option.some.injEq] at this
          exact this
        refine setLength_ready hw2.ready hj2 (by rw [hbytes]; omega) fun m3 hw3 _ hb3 => ?_
        refine htail m3 ((hw1.trans hw2).trans hw3 |>.mono fun s hs => ?_) ?_
        · rcases hs with (hs | hs) | hs
          · exact hs.elim
          · exact hs.elim
          · exact hs
        · rw [hb3, hbytes, hB]
          simp only [reconciled, if_pos (Nat.le_of_lt hlong)]
      · simp only [hlong, if_false]
        exact hcopy fun y hy => by
          rw [hB, Option.some.injEq] at hy
          subst hy
          omega

/-- Opening at a checkpoint that the live file reaches cuts the live file to it, brings the
backup in line and keeps the handles. -/
theorem openAt_ready (hb : l.backup.path = (LogPaths.forLog live).backup) {ck : Checkpoint}
    {size : Nat} (hsize : ((m.disk.fileAt (m.disk.locate live)).getD ByteArray.empty).size = size)
    (hck : ck.position ≤ size) {Q : Unit → Machine × DurableLog → Prop}
    {E : WalError → Machine × DurableLog → Prop}
    (hQ : ∀ m' inode b', Wrote live (fun s => s = m.disk.locate live ∨
        s = m.disk.locate (LogPaths.forLog live).backup) m m' →
      m'.disk.fileAt (m.disk.locate live) =
        some (((m.disk.fileAt (m.disk.locate live)).getD ByteArray.empty).extract 0 ck.position) →
      m'.disk.fileAt (m.disk.locate (LogPaths.forLog live).backup) =
        some (reconciled (m.disk.fileAt (m.disk.locate (LogPaths.forLog live).backup))
          (((m.disk.fileAt (m.disk.locate live)).getD ByteArray.empty).extract 0 ck.position)
          ck.position) →
      Q () (m', { l with backup := b', file := some inode, checkpoint := ck })) :
    wp (DurableLog.openAt (LogPaths.forLog live) ck size) Q E (m, l) := by
  have hA := forLog_apart hlive
  have hlf : (LogPaths.forLog live).IsFile live := .inl rfl
  have hbl : m.disk.locate (LogPaths.forLog live).backup ≠ m.disk.locate live :=
    (hA.live_backup m.disk).ne.symm
  simp only [DurableLog.openAt, wp_bind, wp_io]
  refine create_ready h hlive hsep hlf false fun i m1 hw1 hn1 hf1 => ?_
  simp only [Bool.false_eq_true, if_false] at hf1
  -- what the live file holds once it is cut to the checkpoint, and what the backup still holds
  have hrest : ∀ m2, Wrote live (· = m.disk.locate live) m m2 →
      m2.disk.fileAt (m.disk.locate live) =
        some (((m.disk.fileAt (m.disk.locate live)).getD ByteArray.empty).extract 0 ck.position) →
      wp (LogIo.log >>= fun l => LogIo.wal (l.backup.reconcile (LogPaths.forLog live).live
          ck.position) >>= fun backup =>
        LogIo.update fun l => { l with backup := backup, file := some i, checkpoint := ck })
        Q E (m2, l) := by
    intro m2 hw2 hl2
    simp only [wp_bind, wp_log, wp_wal]
    refine reconcile_ready hw2.ready hlive hsep hb (by rwa [hw2.locate]) ck.position
      fun b' m3 hw3 hb3 => ?_
    have hB2 : m2.disk.fileAt (m.disk.locate (LogPaths.forLog live).backup) =
        m.disk.fileAt (m.disk.locate (LogPaths.forLog live).backup) := hw2.others _ hbl
    rw [hw2.locate, hB2] at hb3
    rw [wp_update]
    refine hQ m3 i b' ((hw2.trans hw3).mono fun s hs => ?_) ?_ hb3
    · rcases hs with hs | hs
      · exact .inl hs
      · exact .inr (by rw [hs, hw2.locate])
    · rw [hw3.others _ (by rw [hw2.locate]; exact hbl.symm), hl2]
  by_cases hcut : size > ck.position
  · -- a longer live file is cut to the checkpoint and synced
    rw [if_pos hcut]
    simp only [wp_bind, wp_io]
    have hn1' : m1.disk.nodeAt (m.disk.locate live) = some (.file i) := hn1
    have hbytes : m1.disk.bytesOf i = (m.disk.fileAt (m.disk.locate live)).getD ByteArray.empty := by
      rw [Disk.fileAt_of_nodeAt hn1', Option.some.injEq] at hf1
      exact hf1
    refine setLength_ready hw1.ready hn1' (by rw [hbytes, hsize]; exact Nat.le_of_lt hcut)
      fun m2 hw2 _ hf2 => ?_
    refine sync_ready hw2.ready i fun m3 hw3 => ?_
    refine hrest m3 ((hw1.trans hw2).trans hw3 |>.mono fun s hs => ?_) ?_
    · rcases hs with (hs | hs) | hs
      · exact hs
      · exact hs
      · exact hs.elim
    · rw [hw3.others _ not_false, hf2, hbytes]
  · -- a live file that ends at the checkpoint stays as it is
    rw [if_neg hcut]
    have hend : size = ck.position := by omega
    refine hrest m1 hw1 ?_
    rw [hf1, ← hend, ← hsize, ByteArray.extract_zero_size]

end Opening

end EntityLog.Log
