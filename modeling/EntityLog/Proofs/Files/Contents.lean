import EntityLog.Proofs.Files.Frames
/-!
# What the files of a disk hold

`Disk.fileAt d s` is what a reader finds at the place `s`: the bytes of the file named there, or
`none` when no file is. A call of the disk changes it at the place it writes to and nowhere else
(`Created.fileAt_other`, `Renamed.fileAt_other`, `DirsMade.fileAt`). Opening a file for writing
keeps what it held unless it is emptied (`create_fileAt`), writing a whole file or copying one
puts the new bytes at the target (`writeFile_fileAt`, `copy_fileAt`), and renaming moves what the
source held to the target (`Renamed.fileAt_target`).

Walking to a path finds a directory at every step before its last; so when the walk to a file
succeeds, creating the directories it lies in changes nothing (`createDirAll_parent`), and the
walk succeeds alike on a later disk that kept every directory (`reach_of_dirs`).

Places that hold a file or nothing, with nothing named below them, stay so when a file is
created at one of them or renamed from one to another (`Bare`); renaming such a file moves it
and nothing else (`rename_moves`). On such places the calls succeed: what a call finds there
decides its result (`stat_of_node`, `sizeIfPresent_of_reach`, `create_of_reach`,
`rename_of_file`, `copy_of_file`).
-/

namespace EntityLog.Files

namespace Disk

variable {d d' : Disk} {s : List String}

/-- The bytes of the file named at a place, `none` when no file is named there. -/
def fileAt (d : Disk) (s : List String) : Option ByteArray :=
  match d.nodeAt s with
  | some (.file i) => some (d.bytesOf i)
  | _ => none

theorem fileAt_of_nodeAt {i : Nat} (h : d.nodeAt s = some (.file i)) :
    d.fileAt s = some (d.bytesOf i) := by
  simp [fileAt, h]

theorem fileAt_eq_none (h : ∀ i, d.nodeAt s ≠ some (.file i)) : d.fileAt s = none := by
  unfold fileAt
  split
  · rename_i i hi
    exact absurd hi (h i)
  · rfl

theorem exists_of_fileAt {b : ByteArray} (h : d.fileAt s = some b) :
    ∃ i, d.nodeAt s = some (.file i) ∧ d.bytesOf i = b := by
  unfold fileAt at h
  split at h
  · rename_i i hi
    cases h
    exact ⟨i, hi, rfl⟩
  · cases h

theorem bytesOf_of_inodes (h : d'.inodes = d.inodes) (i : Nat) : d'.bytesOf i = d.bytesOf i := by
  simp [bytesOf, h]

/-- A place whose name is kept, and whose file keeps its bytes, holds what it held. -/
theorem fileAt_congr (hn : d'.nodeAt s = d.nodeAt s)
    (hb : ∀ i, d.nodeAt s = some (.file i) → d'.bytesOf i = d.bytesOf i) :
    d'.fileAt s = d.fileAt s := by
  cases h : d.nodeAt s with
  | none => simp [fileAt, hn, h]
  | some n =>
    cases n with
    | dir => simp [fileAt, hn, h]
    | file i => rw [fileAt_of_nodeAt (hn.trans h), fileAt_of_nodeAt h, hb i h]

/-- A disk whose names and bytes are kept holds what it held everywhere. -/
theorem fileAt_of_names (hn : d'.names = d.names) (hi : d'.inodes = d.inodes) (s : List String) :
    d'.fileAt s = d.fileAt s :=
  fileAt_congr (by simp [nodeAt, hn]) fun i _ => bytesOf_of_inodes hi i

/-! ## Writing bytes -/

theorem fileAt_setBytes_self {i : Nat} (h : d.nodeAt s = some (.file i)) (b : ByteArray) :
    (d.setBytes i b).fileAt s = some b := by
  rw [fileAt_of_nodeAt (by rwa [nodeAt_setBytes]), bytesOf_setBytes, if_pos rfl]

/-- Writing the bytes of the file at one place of a sound disk leaves every other place. -/
theorem fileAt_setBytes_other (hd : d.Sound) {i : Nat} (h : d.nodeAt s = some (.file i))
    {s' : List String} (hs : s' ≠ s) (b : ByteArray) : (d.setBytes i b).fileAt s' = d.fileAt s' := by
  refine fileAt_congr (nodeAt_setBytes i b s') fun j hj => bytesOf_setBytes_ne b fun hji => hs ?_
  subst hji
  exact hd.unaliased hj h

theorem fileAt_setLength_self {i : Nat} (h : d.nodeAt s = some (.file i)) {n : Nat}
    (hn : n ≤ (d.bytesOf i).size) : (d.setLength i n).fileAt s = some ((d.bytesOf i).extract 0 n) := by
  simp only [setLength, hn, if_true]
  exact fileAt_setBytes_self h _

/-! ## Creating, writing and copying files -/

theorem Created.fileAt_other {p : Path} {i : Nat} (h : Created d d' p i) (hd : d.Sound)
    (hs : s ≠ d.locate p) : d'.fileAt s = d.fileAt s :=
  fileAt_congr (h.others hs) fun _ hc => (h.keeps hd hs hc).2

/-- Opening a file for writing keeps what it holds, or empties it when asked; a missing file
is created empty. -/
theorem create_fileAt {p : Path} {truncate : Bool} {i : Nat}
    (h : d.create p truncate = .ok (d', i)) :
    d'.fileAt (d.locate p) =
      some (if truncate then ByteArray.empty else (d.fileAt (d.locate p)).getD ByteArray.empty) := by
  unfold create at h
  cases hreach : d.reach p with
  | error e => simp [hreach, bind, Except.bind] at h
  | ok segs =>
    have hsegs : segs = d.locate p := reach_eq_locate hreach
    subst hsegs
    simp only [hreach, bind, Except.bind] at h
    split at h
    · cases h
    · -- the file is there: it keeps its bytes unless emptied
      rename_i i' hnode
      split at h
      · cases h
      · simp only [pure, Except.pure, Except.ok.injEq, Prod.mk.injEq] at h
        obtain ⟨rfl, rfl⟩ := h
        cases truncate
        · simp [fileAt_of_nodeAt hnode]
        · simp [fileAt_setBytes_self hnode]
    · -- the file is missing: a new empty one is named there
      rename_i hnode
      split at h
      · cases h
      · simp only [pure, Except.pure, Except.ok.injEq, Prod.mk.injEq] at h
        obtain ⟨rfl, rfl⟩ := h
        have hne : d.locate p ≠ [] := fun he => by simp [he, nodeAt_nil] at hnode
        have hnew : ({ d.link (d.locate p) (.file d.fresh) with fresh := d.fresh + 1 } : Disk).nodeAt
            (d.locate p) = some (.file d.fresh) := nodeAt_link_self hne _
        rw [fileAt_setBytes_self hnew, fileAt_eq_none (by simp [hnode])]
        cases truncate <;> rfl

theorem writeFile_fileAt {p : Path} {bytes : ByteArray} (h : d.writeFile p bytes = .ok d') :
    d'.fileAt (d.locate p) = some bytes := by
  unfold writeFile at h
  cases hcreate : d.create p true with
  | error e => simp [hcreate, bind, Except.bind] at h
  | ok r =>
    obtain ⟨d1, i⟩ := r
    simp only [hcreate, bind, Except.bind, pure, Except.pure, Except.ok.injEq] at h
    subst h
    exact fileAt_setBytes_self (create_created hcreate).named bytes

/-- A copy puts the bytes of the source at the target and gives their length. -/
theorem copy_fileAt {src dst : Path} {n : Nat} (h : d.copy src dst = .ok (d', n)) :
    ∃ b, d.fileAt (d.locate src) = some b ∧ d'.fileAt (d.locate dst) = some b ∧ n = b.size := by
  unfold copy at h
  cases hopen : d.openForRead src with
  | error e => simp [hopen, bind, Except.bind] at h
  | ok inode =>
    simp only [hopen, bind, Except.bind] at h
    cases inode with
    | none => cases h
    | some i =>
      cases hwrite : d.writeFile dst (d.bytesOf i) with
      | error e => simp [hwrite] at h
      | ok d1 =>
        simp only [hwrite, pure, Except.pure, Except.ok.injEq, Prod.mk.injEq] at h
        obtain ⟨rfl, rfl⟩ := h
        -- the source is the file its path names
        have hsrc : d.nodeAt (d.locate src) = some (.file i) := by
          unfold openForRead at hopen
          cases hstat : d.stat src with
          | error e => simp [hstat, bind, Except.bind] at hopen
          | ok n =>
            obtain ⟨segs, hreach, hnode⟩ := stat_ok hstat
            rw [reach_eq_locate hreach] at hnode
            cases n with
            | file j =>
              simp only [hstat, bind, Except.bind, pure, Except.pure, Except.ok.injEq,
                Option.some.injEq] at hopen
              rw [hnode, hopen]
            | dir => simp [hstat, bind, Except.bind, pure, Except.pure] at hopen
        exact ⟨d.bytesOf i, fileAt_of_nodeAt hsrc, writeFile_fileAt hwrite, rfl⟩

/-! ## Renaming and making directories -/

theorem Renamed.fileAt_target {src dst : Path} (h : Renamed d d' src dst)
    (hne : d.locate dst ≠ []) : d'.fileAt (d.locate dst) = d.fileAt (d.locate src) := by
  have hbytes : d'.bytesOf = d.bytesOf := funext (bytesOf_of_inodes h.inodes)
  unfold fileAt
  rw [h.target hne, hbytes]

theorem Renamed.fileAt_other {src dst : Path} (h : Renamed d d' src dst)
    (h1 : s ≠ d.locate src) (h2 : s ≠ d.locate dst) (h3 : ¬ Below (d.locate src) s)
    (h4 : ¬ Below (d.locate dst) s) : d'.fileAt s = d.fileAt s :=
  fileAt_congr (h.others h1 h2 h3 h4) fun i _ => bytesOf_of_inodes h.inodes i

theorem DirsMade.fileAt (h : DirsMade d d') (s : List String) : d'.fileAt s = d.fileAt s := by
  cases hs : d.nodeAt s with
  | some n => exact fileAt_congr ((h.kept hs).trans hs.symm) fun i _ => bytesOf_of_inodes h.inodes i
  | none =>
    rw [fileAt_eq_none (d := d) (by simp [hs]), fileAt_eq_none fun i hi => by
      simp [h.files hi] at hs]

/-! ## The directories of a path -/

section Parent

open Path

/-- The parent of a path with a file name takes the steps before the file name, and is absolute
exactly when the path is. -/
theorem steps_parent {p : Path} {N : String} (hN : fileName p = some N) :
    ∃ parent dir, Path.parent p = some parent ∧ steps p = dir ++ [N] ∧ steps parent = dir ∧
      isAbsolute parent = isAbsolute p := by
  obtain ⟨y, hls, hy, hname⟩ := fileName_spec hN
  have hb := (lastSegment_spec hls).1
  have hpre := (trimEnd_isPrefix y).trans (before_isPrefix hls)
  refine ⟨_, stepsOf y, parent_of_lastSegment hls, ?_, ?_, ?_⟩
  · rw [steps_eq_stepsOf, ← stepsOf_drop_headLength, ← stepsOf_trimEnd]
    change stepsOf (body p) = _
    rw [hb, stepsOf_openEnd_append hy hname.piece, String.ofList_toList]
  · rw [steps_eq_stepsOf, String.toList_ofList, stepsOf_take_headLength_append hpre,
      stepsOf_trimEnd]
  · -- the parent is a prefix of the path, empty only when the path has no root
    have hbase : p.toList.take (headLength p.toList) ++ trimEnd y <+: p.toList := by
      have := (List.prefix_append_right_inj (p.toList.take (headLength p.toList))).2 hpre
      rwa [List.take_append_drop] at this
    rw [Bool.eq_iff_iff, isAbsolute_iff, isAbsolute_iff, String.toList_ofList]
    by_cases hnil : p.toList.take (headLength p.toList) ++ trimEnd y = []
    · have hroot : p.toList.head? ≠ some '/' := fun h => by
        obtain ⟨t, ht⟩ := List.head?_eq_some_iff.1 h
        simp [ht, headLength] at hnil
      rw [hnil]
      simp [hroot]
    · rw [← head?_of_prefix hbase hnil]

/-- A fold over the indices of a list that does at each index, without changing the disk, what
a fold over the list does with the entry there, ends where that fold ends. -/
theorem foldlM_range_of_foldlM {path start : List String}
    {F : List String → String → Except IoFault (List String)}
    {G : Disk × List String → Nat → Except IoFault (Disk × List String)}
    (hG : ∀ k acc x r, path[k]? = some x → F acc x = .ok r → G (d, acc) k = .ok (d, r)) :
    ∀ k, k ≤ path.length → ∀ acc, (path.take k).foldlM F start = .ok acc →
      (List.range k).foldlM G (d, start) = .ok (d, acc)
  | 0, _, acc, h => by
    simp only [List.take_zero, List.foldlM_nil, pure, Except.pure, Except.ok.injEq] at h
    subst h
    rfl
  | k + 1, hk, acc, h => by
    have hget : path[k]? = some path[k] := List.getElem?_eq_getElem (by omega)
    rw [List.take_add_one, hget, Option.toList_some, List.foldlM_append] at h
    cases h1 : (path.take k).foldlM F start with
    | error e => simp [h1, bind, Except.bind] at h
    | ok a =>
      simp only [h1, bind, Except.bind, List.foldlM_cons, List.foldlM_nil] at h
      cases h2 : F a path[k] with
      | error e => simp [h2] at h
      | ok r =>
        simp only [h2, pure, Except.pure, Except.ok.injEq] at h
        subst h
        rw [List.range_succ, List.foldlM_append, foldlM_range_of_foldlM hG k (by omega) a h1]
        simp [bind, Except.bind, hG k a path[k] r hget h2, pure, Except.pure]

/-- When the walk to a file succeeds, the directories it lies in are all there: creating them
changes nothing. -/
theorem createDirAll_parent {p : Path} {N : String} (hN : fileName p = some N)
    {s : List String} (hreach : d.reach p = .ok s) :
    ∃ parent, Path.parent p = some parent ∧ d.createDirAll parent = .ok d := by
  obtain ⟨parent, dir, hparent, hsteps, hdir, habs⟩ := steps_parent hN
  obtain ⟨-, -, -, hname⟩ := fileName_spec hN
  have hN' : (N == "..") = false := by simpa using hname.ne_up
  refine ⟨parent, hparent, ?_⟩
  -- the walk to the file goes through the steps of the parent
  unfold reach at hreach
  rw [hsteps] at hreach
  simp only [List.getLast?_append, List.getLast?_singleton, Option.some_or,
    List.dropLast_concat, hN', Bool.false_eq_true, if_false, bind, Except.bind] at hreach
  split at hreach
  · cases hreach
  · rename_i acc hacc
    unfold createDirAll
    rw [hdir, habs]
    dsimp only
    rw [foldlM_range_of_foldlM ?_ dir.length (Nat.le_refl _) acc (by rwa [List.take_length])]
    · rfl
    · -- each step of the walk found a directory, which creating directories keeps
      intro k acc' x r hx hF
      simp only [hx]
      by_cases hup : x = ".."
      · subst hup
        simp only [beq_self_eq_true, if_true, Except.ok.injEq] at hF
        subst hF
        rfl
      · have hup' : (x == "..") = false := by simpa using hup
        simp only [hup', Bool.false_eq_true, if_false] at hF
        split at hF
        · rename_i hdirAt
          cases hF
          simp [hdirAt]
        · cases hF
        · cases hF

end Parent

/-! ## Walking on a disk that kept its directories -/

/-- A fold whose every step that succeeds succeeds alike under a second step function succeeds
alike under it. -/
theorem foldlM_ok_of_steps {α β : Type} {F G : α → β → Except IoFault α}
    (h : ∀ a b r, F a b = .ok r → G a b = .ok r) :
    ∀ {l : List β} {a r : α}, l.foldlM F a = .ok r → l.foldlM G a = .ok r
  | [], _, _, hl => hl
  | b :: l, a, r, hl => by
    rw [List.foldlM_cons] at hl ⊢
    cases hb : F a b with
    | error e => simp [hb, bind, Except.bind] at hl
    | ok a' =>
      simp only [hb, bind, Except.bind] at hl
      simp only [h a b a' hb, bind, Except.bind]
      exact foldlM_ok_of_steps h hl

/-- A walk that succeeds on a disk succeeds alike on a disk with the same working directory that
still has every directory of the first. -/
theorem reach_of_dirs (hc : d'.cwd = d.cwd)
    (hdirs : ∀ s, d.nodeAt s = some .dir → d'.nodeAt s = some .dir) {p : Path} {r : List String}
    (h : d.reach p = .ok r) : d'.reach p = .ok r := by
  unfold reach at h ⊢
  rw [hc]
  cases hl : (steps p).getLast? with
  | none =>
    simp only [hl] at h ⊢
    exact h
  | some last =>
    simp only [hl, bind, Except.bind] at h ⊢
    split at h
    · cases h
    · rename_i acc hacc
      rw [foldlM_ok_of_steps (fun acc s r hs => ?_) hacc]
      · exact h
      · -- a step that goes down goes down to a directory, which is still one
        split at hs
        · rename_i hup
          rw [if_pos hup]
          exact hs
        · rename_i hup
          rw [if_neg hup]
          split at hs
          · rename_i hdir
            simp only [hdirs _ hdir]
            exact hs
          · cases hs
          · cases hs


/-! ## Renaming a file with nothing below it -/

/-- A rename that succeeds found a node at the source, refused a file over a directory, and then
kept the disk (source and target one place) or moved the names as `movedNames` says. -/
theorem rename_eq {src dst : Path} (h : d.rename src dst = .ok d') :
    ∃ n, d.nodeAt (d.locate src) = some n ∧
      (∀ i, n = .file i → d.nodeAt (d.locate dst) ≠ some .dir) ∧
      (d.locate src = d.locate dst ∧ d' = d ∨
        d.locate src ≠ d.locate dst ∧
          d' = { d with names := movedNames d.names (d.locate src) (d.locate dst) n }) := by
  unfold rename at h
  cases hn : d.stat src with
  | error e => simp [hn, bind, Except.bind] at h
  | ok n =>
    obtain ⟨segs, hsegs, hnode⟩ := stat_ok hn
    cases hs : d.reach src with
    | error e => simp [hn, hs, bind, Except.bind] at h
    | ok source =>
      cases ht : d.reach dst with
      | error e => simp [hn, hs, ht, bind, Except.bind] at h
      | ok target =>
        have hsource : source = d.locate src := reach_eq_locate hs
        have htarget : target = d.locate dst := reach_eq_locate ht
        have hsn : d.nodeAt source = some n := by rw [hs] at hsegs; cases hsegs; exact hnode
        subst hsource htarget
        simp only [hn, hs, ht, bind, Except.bind, throw, throwThe, MonadExceptOf.throw] at h
        refine ⟨n, hsn, fun i hi hdir => ?_, ?_⟩
        · subst hi
          simp [hdir] at h
        · -- past the type check the disk is kept (same place) or has its names moved
          have hmove : (if d.locate src == d.locate dst then pure d else
              pure { d with names := movedNames d.names (d.locate src) (d.locate dst) n } :
                Except IoFault Disk) = .ok d' →
              (d.locate src = d.locate dst ∧ d' = d ∨ d.locate src ≠ d.locate dst ∧
                d' = { d with names := movedNames d.names (d.locate src) (d.locate dst) n }) := by
            intro hd'
            split at hd'
            · rename_i heq
              exact .inl ⟨by simpa using heq, (Except.ok.inj hd').symm⟩
            · rename_i heq
              exact .inr ⟨by simpa using heq, (Except.ok.inj hd').symm⟩
          split at h
          · cases h
          · cases h
          · split at h
            · exact hmove h
            · cases h
          · exact hmove h

section Moved

variable {names : List (List String × Node)} {source target : List String} {n : Node}

/-- When nothing is named below the source, renaming names the node at the target, nothing at
the source, and keeps every other name. -/
theorem lookupIn_moved_bare (hb : ∀ e ∈ names, ¬ Below source e.1) (hne : source ≠ target)
    (s : List String) :
    lookupIn (movedNames names source target n) s =
      if s = target then some n else if s = source then none else lookupIn names s := by
  have hmoved : names.filter (belowTest source) = [] :=
    List.filter_eq_nil_iff.2 fun e he hbt => hb e he (belowTest_iff.1 hbt)
  split_ifs with ht hs
  · subst ht
    exact lookupIn_moved_target
  · subst hs
    -- no name is kept at the source, and the target is elsewhere
    have hkept : (names.filter (keptTest s target)).find? (·.1 == s) = none :=
      List.find?_eq_none.2 fun e he hes =>
        (keptTest_iff.1 (List.mem_filter.1 he).2).1 (by simpa using hes)
    simp [lookupIn, movedNames, hmoved, List.find?_append, hkept, Ne.symm hne]
  · have hkeep : (names.filter (keptTest source target)).find? (·.1 == s) =
        names.find? (·.1 == s) := by
      by_cases hbs : Below source s
      · -- nothing is named at `s`, kept or not
        have hnone : ∀ l : List (List String × Node), (∀ e ∈ l, e ∈ names) →
            l.find? (·.1 == s) = none := fun l hl =>
          List.find?_eq_none.2 fun e he hes => hb e (hl e he) (by simpa using (beq_iff_eq.1 hes) ▸ hbs)
        rw [hnone _ fun e he => (List.mem_filter.1 he).1, hnone _ fun e he => he]
      · exact lookupIn_filter fun _ => keptTest_iff.2 ⟨hs, ht, hbs⟩
    have htarget : ([(target, n)] : List (List String × Node)).find? (·.1 == s) = none := by
      simp [Ne.symm ht]
    simp only [lookupIn, movedNames, hmoved, List.map_nil, List.append_nil, List.find?_append,
      hkeep, htarget, Option.or_none]

end Moved

/-- Renaming a node below which nothing is named to another place names the node at the target,
nothing at the source, and keeps every other name and every file's bytes. -/
theorem rename_moves {src dst : Path} (h : d.rename src dst = .ok d')
    (hne : d.locate src ≠ d.locate dst)
    (hb : ∀ s, Below (d.locate src) s → d.nodeAt s = none) :
    d'.inodes = d.inodes ∧ d'.cwd = d.cwd ∧ d'.fresh = d.fresh ∧ d'.locks = d.locks ∧
      ∀ s, s ≠ [] → d'.nodeAt s = if s = d.locate dst then d.nodeAt (d.locate src)
        else if s = d.locate src then none else d.nodeAt s := by
  obtain ⟨n, hn, -, ⟨hsame, -⟩ | ⟨-, rfl⟩⟩ := rename_eq h
  · exact absurd hsame hne
  refine ⟨rfl, rfl, rfl, rfl, fun s hs => ?_⟩
  -- no name lies below the source, so none moves with it
  have hbare : ∀ e ∈ d.names, ¬ Below (d.locate src) e.1 := by
    intro e he hbe
    have hne' : e.1 ≠ [] := by
      obtain ⟨u, hu, he1⟩ := hbe
      simp [he1, hu]
    have hfound : d.nodeAt e.1 ≠ none := by
      rw [nodeAt_eq_lookupIn hne', lookupIn, Ne, Option.map_eq_none_iff, List.find?_eq_none]
      exact fun hall => hall e he (by simp)
    exact hfound (hb _ hbe)
  rw [nodeAt_eq_lookupIn hs]
  simp only [lookupIn_moved_bare hbare hne, hn]
  split_ifs <;> simp_all [nodeAt_eq_lookupIn]

/-! ## Places that hold a file or nothing -/

/-- The places `P` hold a file or nothing, and nothing is named below them. -/
structure Bare (d : Disk) (P : List String → Prop) : Prop where
  not_dir : ∀ {s}, P s → d.nodeAt s ≠ some .dir
  empty_below : ∀ {s s'}, P s → Below s s' → d.nodeAt s' = none

/-- Places none of which lies below another. -/
def Flat (P : List String → Prop) : Prop := ∀ {s s'}, P s → P s' → ¬ Below s s'

section Bare

variable {P : List String → Prop}

theorem Bare.of_nodeAt (h : Bare d P) (hn : ∀ s, d'.nodeAt s = d.nodeAt s) : Bare d' P :=
  ⟨fun hs => by rw [hn]; exact h.not_dir hs, fun hs hb => by rw [hn]; exact h.empty_below hs hb⟩

/-- Creating a file at one of the places keeps them bare. -/
theorem Bare.created (h : Bare d P) (hP : Flat P) {p : Path} {i : Nat} (hC : Created d d' p i)
    (hp : P (d.locate p)) : Bare d' P where
  not_dir {s} hs := by
    by_cases he : s = d.locate p
    · subst he
      simp [hC.named]
    · rw [hC.others he]
      exact h.not_dir hs
  empty_below {s s'} hs hb := by
    have hne : s' ≠ d.locate p := fun he => hP hs hp (he ▸ hb)
    rw [hC.others hne]
    exact h.empty_below hs hb

/-- Creating a file at a place that is none of the places and lies below none keeps them bare. -/
theorem Bare.created_apart (h : Bare d P) {p : Path} {i : Nat} (hC : Created d d' p i)
    (hp : ∀ s, P s → s ≠ d.locate p ∧ ¬ Below s (d.locate p)) : Bare d' P where
  not_dir {s} hs := by
    rw [hC.others (hp s hs).1]
    exact h.not_dir hs
  empty_below {s s'} hs hb := by
    have hne : s' ≠ d.locate p := fun he => (hp s hs).2 (he ▸ hb)
    rw [hC.others hne]
    exact h.empty_below hs hb

/-- Renaming a file from one of the places to another keeps them bare: the target names the
file, the source nothing, and every other place what it named. -/
theorem Bare.renamed (h : Bare d P) (hP : Flat P) {src dst : Path}
    (hr : d.rename src dst = .ok d') (hne : d.locate src ≠ d.locate dst) (hsrc : P (d.locate src))
    (hdst : P (d.locate dst)) : Bare d' P := by
  obtain ⟨-, -, -, -, hnode⟩ := rename_moves hr hne fun _ hb => h.empty_below hsrc hb
  have hnil : ∀ {s}, P s → s ≠ [] := fun hs he => h.not_dir hs (by rw [he]; rfl)
  constructor
  · intro s hs
    rw [hnode s (hnil hs)]
    split_ifs
    · exact h.not_dir hsrc
    · simp
    · exact h.not_dir hs
  · intro s s' hs hb
    have hs' : s' ≠ [] := by
      obtain ⟨u, hu, rfl⟩ := hb
      simp [hu]
    rw [hnode s' hs']
    split_ifs with h1 h2
    · exact absurd (h1 ▸ hb) (hP hs hdst)
    · rfl
    · exact h.empty_below hs hb

end Bare

/-! ## Calls that succeed -/

section Succeed

variable {p : Path} (hr : d.reach p = .ok (d.locate p)) (hsep : p.endsInSeparator = false)
include hr hsep

theorem lookup_of_reach : d.lookup p = .ok (d.nodeAt (d.locate p)) := by
  simp only [lookup, hr, bind, Except.bind]
  split
  · simp [hsep, pure, Except.pure]
  · rfl

theorem stat_of_node {n : Node} (hn : d.nodeAt (d.locate p) = some n) : d.stat p = .ok n := by
  simp [stat, lookup_of_reach hr hsep, hn, bind, Except.bind, pure, Except.pure]

theorem stat_of_free (hn : d.nodeAt (d.locate p) = none) : d.stat p = .error .notFound := by
  simp [stat, lookup_of_reach hr hsep, hn, bind, Except.bind, throw, throwThe,
    MonadExceptOf.throw]

theorem readBytes_of_file {i : Nat} (hi : d.nodeAt (d.locate p) = some (.file i)) :
    d.readBytes p = .ok (d.bytesOf i) := by
  simp [readBytes, stat_of_node hr hsep hi, bind, Except.bind, pure, Except.pure]

theorem readBytes_of_free (hn : d.nodeAt (d.locate p) = none) :
    d.readBytes p = .error .notFound := by
  simp [readBytes, stat_of_free hr hsep hn, bind, Except.bind]

/-- The size of a place that is no directory is the size of its file, if it has one. -/
theorem sizeIfPresent_of_reach (hnd : d.nodeAt (d.locate p) ≠ some .dir) :
    d.sizeIfPresent p = .ok ((d.fileAt (d.locate p)).map ByteArray.size) := by
  cases hn : d.nodeAt (d.locate p) with
  | none =>
    have hfree : d.fileAt (d.locate p) = none := fileAt_eq_none (by simp [hn])
    simp [sizeIfPresent, sizeOf, stat_of_free hr hsep hn, hfree, bind, Except.bind]
  | some n =>
    cases n with
    | dir => exact absurd hn hnd
    | file i =>
      simp [sizeIfPresent, sizeOf, stat_of_node hr hsep hn, fileAt_of_nodeAt hn, bind,
        Except.bind, pure, Except.pure]

theorem openForWrite_of_file {i : Nat} (hi : d.nodeAt (d.locate p) = some (.file i)) :
    d.openForWrite p = .ok i := by
  simp [openForWrite, stat_of_node hr hsep hi, bind, Except.bind, pure, Except.pure]

theorem canonical_of_node {n : Node} (hn : d.nodeAt (d.locate p) = some n) :
    d.canonical p = .ok (d.locate p) := by
  simp [canonical, stat_of_node hr hsep hn, hr, bind, Except.bind]

theorem create_of_reach (hnd : d.nodeAt (d.locate p) ≠ some .dir) (truncate : Bool) :
    ∃ d' i, d.create p truncate = .ok (d', i) := by
  unfold create
  simp only [hr, bind, Except.bind]
  split
  · exact absurd ‹_› hnd
  · simp [hsep, pure, Except.pure]
  · simp [hsep, pure, Except.pure]

end Succeed

section TwoPaths

variable {src dst : Path} (hrs : d.reach src = .ok (d.locate src))
  (hss : src.endsInSeparator = false) {i : Nat} (hi : d.nodeAt (d.locate src) = some (.file i))
  (hrd : d.reach dst = .ok (d.locate dst)) (hnd : d.nodeAt (d.locate dst) ≠ some .dir)
include hrs hss hi hrd hnd

theorem rename_of_file : ∃ d', d.rename src dst = .ok d' := by
  unfold rename
  simp only [stat_of_node hrs hss hi, hrs, hrd, bind, Except.bind]
  split
  · exact absurd ‹_› hnd
  · simp_all
  · simp_all
  · split <;> simp [pure, Except.pure]

theorem copy_of_file (hsd : dst.endsInSeparator = false) :
    ∃ d', d.copy src dst = .ok (d', (d.bytesOf i).size) := by
  obtain ⟨d1, j, hc⟩ := create_of_reach hrd hsd hnd true
  have hopen : d.openForRead src = .ok (some i) := by
    simp [openForRead, stat_of_node hrs hss hi, bind, Except.bind, pure, Except.pure]
  refine ⟨d1.setBytes j (d.bytesOf i), ?_⟩
  simp [copy, hopen, writeFile, hc, bind, Except.bind, pure, Except.pure]

end TwoPaths

end Disk

section Names

open Path

/-- A path whose file name was replaced by a name does not end in a separator. -/
theorem endsInSeparator_withFileName {p : Path} {N X : String} (hN : fileName p = some N)
    (hX : IsName X) : endsInSeparator (withFileName p X) = false := by
  rw [withFileName_eq hN, endsInSeparator, Bool.eq_false_iff]
  intro h
  obtain ⟨z, hz⟩ : ['/'] <:+ (join ((parent p).getD "") X).toList := by
    simpa [← String.endsWith_toSlice] using h
  rw [join_toList _ hX.isAbsolute_eq] at hz
  -- the path ends in the last character of the name, which is no separator
  obtain ⟨c, cs, hcs⟩ : ∃ c cs, X.toList = cs ++ [c] := by
    rcases List.eq_nil_or_concat X.toList with he | ⟨cs, c, he⟩
    · exact absurd he hX.ne_nil
    · exact ⟨c, cs, by rw [he, List.concat_eq_append]⟩
  rw [hcs, ← List.append_assoc] at hz
  have hc : c = '/' := by
    have := congrArg List.getLast? hz
    simpa using this.symm
  exact hX.piece.no_slash (by rw [hcs, hc]; simp)

end Names

end EntityLog.Files
