import EntityLog.Proofs.Log.Appending
import EntityLog.Pipeline.JsonLines
/-!
# A sink of JSON lines beside a log

A sink of JSON lines writes one file. Beside the log at `live`, on a machine where the log's
calls succeed (`Ready`), its file lies where the walk to it succeeds, apart from the log's files
(`SinkPlace`). Opening the sink there names a file at that place and keeps what it held
(`openAt_ready`), and saving a batch appends the batch's lines to it (`save_ready`). Both write
the sink's place only, so the log's files are as they were.
-/

namespace EntityLog.Pipeline

open EntityLog.Files EntityLog.Log EntityLog.Record Path

/-- A place for a sink of JSON lines beside the log at `live`: the walk to `out` succeeds, `out`
names a file, and its place holds a file or nothing, apart from the log's files and from what
lies below them. -/
structure SinkPlace (live out : Path) (d : Disk) : Prop where
  reach : d.reach out = .ok (d.locate out)
  named : ∃ N, fileName out = some N
  sep : out.endsInSeparator = false
  clear : (LogPaths.forLog live).Clear d out
  not_dir : d.nodeAt (d.locate out) ≠ some .dir

variable {live out : Path} {m : Machine}

/-- The place of the sink is none of the log's places. -/
theorem SinkPlace.not_place (h : SinkPlace live out m.disk) :
    ¬ (LogPaths.forLog live).Place m.disk (m.disk.locate out) :=
  fun hs => (h.clear _ hs).1 rfl

/-- Whether a place is clear of a log's files depends on the disk only through its working
directory. -/
theorem LogPaths.clear_of_cwd (paths : LogPaths) {d d' : Disk} (hc : d'.cwd = d.cwd) (q : Path) :
    paths.Clear d' q = paths.Clear d q := by
  unfold LogPaths.Clear
  rw [paths.place_of_cwd hc, Disk.locate_of_cwd hc]

/-! ## What the sink's calls keep -/

/-- Opening the sink only lets the disk grow. -/
theorem openAt_steady (out : Path) : Stays Machine.Steady (LineFile.openAt out) := by
  have hcreate : Stays Machine.Steady
      (do let inode ← Io.create out false; return (⟨out, inode⟩ : LineFile)) :=
    (Io.create_steady _ _).bind fun _ => Stays.pure _
  unfold LineFile.openAt
  refine Stays.onMachine_io _ ?_
  dsimp only
  split
  · split
    · exact (Io.createDirAll_steady _).bind fun _ => hcreate
    · exact hcreate
  · exact hcreate

/-- Saving a batch only lets the disk grow. -/
theorem save_steady (f : LineFile) (batch : List ChangeRecord) :
    Stays Machine.Steady (f.save batch) := by
  unfold LineFile.save
  refine Stays.onMachine_io _ ?_
  cases batch with
  | nil => exact Stays.pure _
  | cons r rest =>
    simp only [List.isEmpty_cons, Bool.false_eq_true, if_false]
    exact (Io.append_steady _ _).bind fun _ => Io.sync_steady _

/-! ## The sink's calls beside the log -/

section Calls

variable (h : Ready live m) (hout : SinkPlace live out m.disk)
include h hout

/-- Opening the sink's file for appending names a file at its place and keeps what it held. -/
theorem create_sink {E : IoFault → Machine → Prop} {Q : Nat → Machine → Prop}
    (hQ : ∀ i m', Wrote live (· = m.disk.locate out) m m' →
      m'.disk.nodeAt (m.disk.locate out) = some (.file i) →
      m'.fileOf out = some ((m.fileOf out).getD ByteArray.empty) → Q i m') :
    wp (Io.create out false) Q E m := by
  obtain ⟨d, i, hc⟩ := Disk.create_of_reach hout.reach hout.sep hout.not_dir false
  have hC := Disk.create_created hc
  refine Io.wp_call_ok (h.quiet _) hc (hQ i _ (h.created_clear hC hout.clear hout.not_dir _)
    hC.named ?_)
  show d.fileAt (d.locate out) = _
  rw [Disk.locate_of_cwd hC.grows.cwd, Disk.create_fileAt hc]
  rfl

/-- Opening the sink: the directory above exists already, so only the file's place is written;
it names the sink's file, which holds what the place held. -/
theorem openAt_ready :
    wp (LineFile.openAt out)
      (fun f m' => Wrote live (· = m.disk.locate out) m m' ∧ m.Steady m' ∧
        m'.disk.nodeAt (m.disk.locate out) = some (.file f.inode) ∧
        m'.fileOf out = some ((m.fileOf out).getD ByteArray.empty))
      (fun _ _ => False) m := by
  have hfiles : wp (LineFile.openAt out)
      (fun f m' => Wrote live (· = m.disk.locate out) m m' ∧
        m'.disk.nodeAt (m.disk.locate out) = some (.file f.inode) ∧
        m'.fileOf out = some ((m.fileOf out).getD ByteArray.empty))
      (fun _ _ => False) m := by
    obtain ⟨N, hN⟩ := hout.named
    obtain ⟨parent, hparent, hdirs⟩ := Disk.createDirAll_parent hN hout.reach
    -- the file is opened on `m1`, where nothing but the call count changed
    have hopen : ∀ m1 : Machine, Wrote live (fun _ => False) m m1 → m1.disk = m.disk →
        wp (do let inode ← Io.create out false; return (⟨out, inode⟩ : LineFile))
          (fun f m' => Wrote live (· = m.disk.locate out) m m' ∧
            m'.disk.nodeAt (m.disk.locate out) = some (.file f.inode) ∧
            m'.fileOf out = some ((m.fileOf out).getD ByteArray.empty))
          (fun e _ => False) m1 := by
      intro m1 hw1 hdisk
      have hout1 : SinkPlace live out m1.disk := hdisk ▸ hout
      have hfile : m1.fileOf out = m.fileOf out := by rw [Machine.fileOf, Machine.fileOf, hdisk]
      rw [wp_bind]
      refine create_sink hw1.ready hout1 fun i m2 hw2 hn2 hl2 => ?_
      rw [hdisk] at hw2 hn2
      rw [hfile] at hl2
      exact ⟨(hw1.trans hw2).mono fun s hs => hs.elim False.elim id, hn2, hl2⟩
    unfold LineFile.openAt
    rw [wp_onMachine_io, hparent]
    dsimp only
    by_cases hblank : parent.isEmpty
    · simp only [hblank, Bool.not_true, Bool.false_eq_true, if_false]
      exact hopen m (.refl h _) rfl
    · simp only [hblank, Bool.not_false, if_true, wp_bind]
      exact Io.wp_change_ok (h.quiet _) hdirs (hopen _ (h.looked _) rfl)
  exact wp_mono (wp_and hfiles (openAt_steady out m)) (fun f m' h => ⟨h.1.1, h.2, h.1.2⟩)
    fun _ _ h => h.1

end Calls

/-- Saving a batch to the sink's file at `s₀` appends the batch's lines and writes that place
only; an empty batch writes nothing. -/
theorem save_ready (h : Ready live m) (f : LineFile) {s₀ : List String}
    (hf : m.disk.nodeAt s₀ = some (.file f.inode)) (batch : List ChangeRecord) :
    wp (f.save batch)
      (fun _ m' => Wrote live (· = s₀) m m' ∧ m.Steady m' ∧
        m'.disk.nodeAt s₀ = some (.file f.inode) ∧
        m'.disk.fileAt s₀ = some (m.disk.bytesOf f.inode ++ (batchLines batch).toUTF8))
      (fun _ _ => False) m := by
  have hfiles : wp (f.save batch)
      (fun _ m' => Wrote live (· = s₀) m m' ∧ m'.disk.nodeAt s₀ = some (.file f.inode) ∧
        m'.disk.fileAt s₀ = some (m.disk.bytesOf f.inode ++ (batchLines batch).toUTF8))
      (fun _ _ => False) m := by
    unfold LineFile.save
    rw [wp_onMachine_io]
    cases batch with
    | nil =>
      refine ⟨(Wrote.refl h _), hf, ?_⟩
      simp [Disk.fileAt_of_nodeAt hf, batchLines]
    | cons r rest =>
      simp only [List.isEmpty_cons, Bool.false_eq_true, if_false, wp_bind]
      refine append_ready h hf _ fun m1 hw1 hn1 hl1 => ?_
      refine sync_ready hw1.ready _ fun m2 hw2 => ?_
      refine ⟨(hw1.trans hw2).mono fun s hs => hs.elim id False.elim, ?_, ?_⟩
      · rw [hw2.nodes _ not_false]
        exact hn1
      · rw [hw2.others _ not_false]
        exact hl1
  exact wp_mono (wp_and hfiles (save_steady f batch m)) (fun _ m' h => ⟨h.1.1, h.2, h.1.2⟩)
    fun _ _ h => h.1

end EntityLog.Pipeline
