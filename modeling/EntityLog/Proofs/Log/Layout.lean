import EntityLog.Proofs.Files.Frames
import EntityLog.Proofs.Time.Timestamps
/-!
# Where the files of a log lie

The files of the log at `live` are named after the live file's name `N`: its checkpoint
`N.checkpoint`, backup `N.backup`, lock `N.lock`, the checkpoint's temporary file
`N.checkpoint.tmp`, and `corrupted-<stamp>-N` for a damaged live file moved aside. All are
names in the live file's directory, whatever the spelling of `live`, so any two of them are two
places of a disk, neither below the other (`LogPaths.Apart`), and the checkpoint and its
temporary file are reached through the same directories (`reach_temporary`).
-/

namespace EntityLog.Log

open EntityLog.Files EntityLog.Time Path Disk

/-! ## The stamp of a moved file -/

theorem stamp_chars (t : Instant) : ∀ c ∈ t.stamp.toList, c.isDigit ∨ c = '-' ∨ c = '+' := by
  have hpad : ∀ n, ∀ c ∈ (Instant.pad2 n).toList, c.isDigit := by
    intro n c hc
    unfold Instant.pad2 at hc
    split at hc
    · simp only [String.toList_append, toList_toString, List.mem_append] at hc
      rcases hc with hc | hc
      · simp at hc
        subst hc
        decide
      · exact isDigit_of_mem_toDigits hc
    · rw [toList_toString] at hc
      exact isDigit_of_mem_toDigits hc
  intro c hc
  unfold Instant.stamp at hc
  simp only [String.toList_append, List.mem_append, yearText_toList, zeros_toList,
    toList_toString] at hc
  rcases hc with (((((((hc | hc) | hc) | hc) | hc) | hc) | hc) | hc | hc)
  · split at hc
    · simp at hc
    · simp only [List.mem_singleton] at hc
      split at hc <;> simp [hc]
  · exact .inl (isDigit_of_mem_paddedDigits hc)
  all_goals first
    | exact .inl (hpad _ c hc)
    | exact .inl (isDigit_of_mem_toDigits hc)
    | exact .inl (by rw [List.eq_of_mem_replicate hc]; decide)

theorem slash_not_mem_stamp (t : Instant) : '/' ∉ t.stamp.toList := fun hc => by
  rcases stamp_chars t '/' hc with h | h | h <;> simp_all

theorem stamp_length (t : Instant) : 7 ≤ t.stamp.length := by
  have hyear : ∀ y, 4 ≤ (Instant.yearText y).length := by
    intro y
    rw [← String.length_toList, yearText_toList, List.length_append]
    have := length_le_paddedDigits 4 y.natAbs
    omega
  have hzeros : ∀ k, (Decimal.zeros k).length = k := by
    intro k
    rw [← String.length_toList, zeros_toList, List.length_replicate]
  unfold Instant.stamp
  simp only [String.length_append, hzeros]
  have := hyear (civilFromDays t.day).1
  omega

/-! ## The names of the files -/

section Names

variable {N : String}

/-- The name of a file beside the live file named `N`. -/
def besideName (N suffix : String) : String := N ++ "." ++ suffix

/-- The name a damaged live file named `N` is moved to at time `t`. -/
def asideName (t : Instant) (N : String) : String := "corrupted-" ++ t.stamp ++ "-" ++ N

theorem besideName_length (N suffix : String) :
    (besideName N suffix).length = N.length + 1 + suffix.length := by
  simp only [besideName, String.length_append]
  rfl

/-- A name a damaged file is moved to is longer than the file's own, by the stamp at least. -/
theorem length_le_asideName (t : Instant) (N : String) : N.length + 18 ≤ (asideName t N).length := by
  have := stamp_length t
  simp only [asideName, String.length_append]
  have : "corrupted-".length = 10 := rfl
  have : "-".length = 1 := rfl
  omega

theorem isName_of_slash_free {s : String} (hslash : '/' ∉ s.toList) (hlen : 3 ≤ s.length) :
    IsName s :=
  isName_of_length hslash (by rwa [String.length_toList])

theorem isName_beside (hN : IsName N) (suffix : String) (hs : '/' ∉ suffix.toList)
    (hne : suffix ≠ "") : IsName (besideName N suffix) := by
  have hN0 : 0 < N.length := by
    simpa [← String.length_toList, List.length_pos_iff] using hN.ne_nil
  have hs0 : 0 < suffix.length := by
    simpa [← String.length_toList, List.length_pos_iff] using hne
  refine isName_of_slash_free ?_ ?_
  · simp [besideName, hN.piece.no_slash, hs]
  · simp only [besideName, String.length_append]
    have : ".".length = 1 := rfl
    omega

theorem isName_aside (hN : IsName N) (t : Instant) : IsName (asideName t N) := by
  refine isName_of_slash_free ?_ ?_
  · simp [asideName, hN.piece.no_slash, slash_not_mem_stamp]
  · simp only [asideName, String.length_append]
    have := stamp_length t
    omega

theorem nameOf_of_fileName {p : Path} (h : fileName p = some N) : nameOf p = N := by
  simp [nameOf, h]

end Names

/-! ## The places of the files -/

/-- The paths of a log: every two of its files are apart on every disk. -/
structure LogPaths.Apart (paths : LogPaths) : Prop where
  checkpoint_live : ∀ d : Disk, d.Apart paths.checkpoint paths.live
  checkpoint_backup : ∀ d : Disk, d.Apart paths.checkpoint paths.backup
  checkpoint_lock : ∀ d : Disk, d.Apart paths.checkpoint paths.lock
  checkpoint_temporary : ∀ d : Disk, d.Apart paths.checkpoint (temporaryOf paths.checkpoint)
  checkpoint_aside : ∀ (d : Disk) (t : Instant), d.Apart paths.checkpoint (paths.corrupted t)
  live_backup : ∀ d : Disk, d.Apart paths.live paths.backup
  live_temporary : ∀ d : Disk, d.Apart paths.live (temporaryOf paths.checkpoint)
  backup_temporary : ∀ d : Disk, d.Apart paths.backup (temporaryOf paths.checkpoint)

section Layout

variable {live : Path} {N : String}

theorem forLog_checkpoint (h : fileName live = some N) :
    (LogPaths.forLog live).checkpoint = withFileName live (besideName N "checkpoint") := by
  simp [LogPaths.forLog, sibling, nameOf_of_fileName h, besideName]

theorem forLog_backup (h : fileName live = some N) :
    (LogPaths.forLog live).backup = withFileName live (besideName N "backup") := by
  simp [LogPaths.forLog, sibling, nameOf_of_fileName h, besideName]

theorem forLog_lock (h : fileName live = some N) :
    (LogPaths.forLog live).lock = withFileName live (besideName N "lock") := by
  simp [LogPaths.forLog, sibling, nameOf_of_fileName h, besideName]

theorem forLog_corrupted (h : fileName live = some N) (t : Instant) :
    (LogPaths.forLog live).corrupted t = withFileName live (asideName t N) := by
  simp [LogPaths.forLog, LogPaths.corrupted, nameOf_of_fileName h, asideName]

theorem fileName_checkpoint (h : fileName live = some N) :
    fileName (LogPaths.forLog live).checkpoint = some (besideName N "checkpoint") := by
  obtain ⟨-, -, -, hN⟩ := fileName_spec h
  rw [forLog_checkpoint h]
  exact fileName_withFileName h (isName_beside hN _ (by decide) (by decide))

theorem temporary_checkpoint (h : fileName live = some N) :
    temporaryOf (LogPaths.forLog live).checkpoint =
      withFileName (LogPaths.forLog live).checkpoint (besideName N "checkpoint" ++ ".tmp") := by
  rw [temporaryOf, nameOf_of_fileName (fileName_checkpoint h)]

theorem isName_temporary (hN : IsName N) : IsName (besideName N "checkpoint" ++ ".tmp") := by
  have hc := isName_beside hN "checkpoint" (by decide) (by decide)
  refine isName_of_slash_free ?_ ?_
  · simp [hc.piece.no_slash]
  · have : 3 ≤ (besideName N "checkpoint").length := by
      have := hc.piece.ne_nil
      simp only [besideName, String.length_append]
      have : "checkpoint".length = 10 := rfl
      omega
    simp only [String.length_append]
    omega

/-- The files of a log are names of the live file's directory. -/
theorem forLog_locate (h : fileName live = some N) (d : Disk) :
    ∃ dir, d.locate live = dir ++ [N] ∧
      d.locate (LogPaths.forLog live).checkpoint = dir ++ [besideName N "checkpoint"] ∧
      d.locate (LogPaths.forLog live).backup = dir ++ [besideName N "backup"] ∧
      d.locate (LogPaths.forLog live).lock = dir ++ [besideName N "lock"] ∧
      d.locate (temporaryOf (LogPaths.forLog live).checkpoint) =
        dir ++ [besideName N "checkpoint" ++ ".tmp"] ∧
      ∀ t, d.locate ((LogPaths.forLog live).corrupted t) = dir ++ [asideName t N] := by
  obtain ⟨-, -, -, hN⟩ := fileName_spec h
  -- every sibling lies in the directory the live file lies in
  have hsib : ∀ {X : String}, IsName X → ∀ dir, d.locate live = dir ++ [N] →
      d.locate (withFileName live X) = dir ++ [X] := by
    intro X hX dir hdir
    obtain ⟨dir', hlive, hX'⟩ := locate_withFileName d h hX
    rw [hdir] at hlive
    rw [hX', List.append_cancel_right hlive]
  have hc := isName_beside hN "checkpoint" (by decide) (by decide)
  obtain ⟨dir, hlive, -⟩ := locate_withFileName d h hc
  have hck := hsib hc dir hlive
  refine ⟨dir, hlive, ?_, ?_, ?_, ?_, fun t => ?_⟩
  · rw [forLog_checkpoint h, hck]
  · rw [forLog_backup h, hsib (isName_beside hN _ (by decide) (by decide)) dir hlive]
  · rw [forLog_lock h, hsib (isName_beside hN _ (by decide) (by decide)) dir hlive]
  · obtain ⟨dir', hck', htmp⟩ := locate_withFileName d (fileName_checkpoint h) (isName_temporary hN)
    rw [forLog_checkpoint h, hck] at hck'
    rw [temporary_checkpoint h, htmp, List.append_cancel_right hck']
  · rw [forLog_corrupted h, hsib (isName_aside hN t) dir hlive]

theorem ne_of_length_ne {s t : String} (h : s.length ≠ t.length) : s ≠ t :=
  fun he => h (congrArg String.length he)

/-- The files of a log with a file name are apart from each other. -/
theorem forLog_apart (h : fileName live = some N) : (LogPaths.forLog live).Apart := by
  have hlen : ∀ suffix : String, (besideName N suffix).length = N.length + 1 + suffix.length := by
    intro suffix
    simp only [besideName, String.length_append]
    rfl
  have htmp : (besideName N "checkpoint" ++ ".tmp").length = N.length + 15 := by
    simp only [String.length_append, hlen]
    rfl
  have hck : (besideName N "checkpoint").length = N.length + 11 := hlen _
  have hbk : (besideName N "backup").length = N.length + 7 := hlen _
  have hlk : (besideName N "lock").length = N.length + 5 := hlen _
  have haside : ∀ t, N.length + 18 ≤ (asideName t N).length := by
    intro t
    have := stamp_length t
    simp only [asideName, String.length_append]
    have : "corrupted-".length = 10 := rfl
    have : "-".length = 1 := rfl
    omega
  -- each pair is two names of one directory with names of different lengths
  have hapart : ∀ {p q : Path} {a b : String} (d : Disk),
      (∀ dir, d.locate live = dir ++ [N] → d.locate p = dir ++ [a] ∧ d.locate q = dir ++ [b]) →
      a.length ≠ b.length → d.Apart p q := by
    intro p q a b d hpq hab
    obtain ⟨dir, hlive, -⟩ := forLog_locate h d
    exact apart_of_siblings (hpq dir hlive).1 (hpq dir hlive).2 (ne_of_length_ne hab)
  have hat : ∀ d : Disk, ∀ dir, d.locate live = dir ++ [N] →
      d.locate (LogPaths.forLog live).checkpoint = dir ++ [besideName N "checkpoint"] ∧
      d.locate (LogPaths.forLog live).backup = dir ++ [besideName N "backup"] ∧
      d.locate (LogPaths.forLog live).lock = dir ++ [besideName N "lock"] ∧
      d.locate (temporaryOf (LogPaths.forLog live).checkpoint) =
        dir ++ [besideName N "checkpoint" ++ ".tmp"] ∧
      ∀ t, d.locate ((LogPaths.forLog live).corrupted t) = dir ++ [asideName t N] := by
    intro d dir hdir
    obtain ⟨dir', hlive, hrest⟩ := forLog_locate h d
    rw [hdir] at hlive
    rwa [List.append_cancel_right hlive]
  refine ⟨fun d => hapart d (fun dir hd => ⟨(hat d dir hd).1, hd⟩) (by omega),
    fun d => hapart d (fun dir hd => ⟨(hat d dir hd).1, (hat d dir hd).2.1⟩) (by omega),
    fun d => hapart d (fun dir hd => ⟨(hat d dir hd).1, (hat d dir hd).2.2.1⟩) (by omega),
    fun d => hapart d (fun dir hd => ⟨(hat d dir hd).1, (hat d dir hd).2.2.2.1⟩) (by omega),
    fun d t => hapart d (fun dir hd => ⟨(hat d dir hd).1, (hat d dir hd).2.2.2.2 t⟩)
      (by have := haside t; omega),
    fun d => hapart d (fun dir hd => ⟨hd, (hat d dir hd).2.1⟩) (by omega),
    fun d => hapart d (fun dir hd => ⟨hd, (hat d dir hd).2.2.2.1⟩) (by omega),
    fun d => hapart d (fun dir hd => ⟨(hat d dir hd).2.1, (hat d dir hd).2.2.2.1⟩) (by omega)⟩

/-- The checkpoint and its temporary file are reached through the same directories. -/
theorem reach_temporary (h : fileName live = some N) (d : Disk) :
    ∃ e : Except IoFault (List String),
      d.reach (LogPaths.forLog live).checkpoint = (· ++ [besideName N "checkpoint"]) <$> e ∧
      d.reach (temporaryOf (LogPaths.forLog live).checkpoint) =
        (· ++ [besideName N "checkpoint" ++ ".tmp"]) <$> e := by
  obtain ⟨-, -, -, hN⟩ := fileName_spec h
  rw [temporary_checkpoint h]
  exact reach_withFileName d (fileName_checkpoint h) (isName_temporary hN)

end Layout

end EntityLog.Log
