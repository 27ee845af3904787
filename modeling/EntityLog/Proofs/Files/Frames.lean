import EntityLog.Proofs.Files.Steady
import EntityLog.Proofs.Files.Siblings
/-!
# What each call of the disk changes

Every operation of the disk changes the names at the places its paths lead to, and the bytes of
the one file it writes; nothing else. Creating a file names it at its path (`Created`), copying
writes the copy there, renaming moves a name and what lies below it (`Renamed`), and creating
directories only adds directories.

A disk is sound when no file has two names and every named file is older than the next fresh
inode. Every operation keeps a disk sound, so a file with a name is written only through that
name or through a handle of its own.
-/

namespace EntityLog.Files

namespace Disk

variable {d d' : Disk}

/-! ## Bytes -/

theorem find?_filter_of_imp {α : Type} {p q : α → Bool} (h : ∀ a, p a = true → q a = true)
    (l : List α) : (l.filter q).find? p = l.find? p := by
  induction l with
  | nil => rfl
  | cons a l ih =>
    by_cases hq : q a = true
    · by_cases hp : p a = true
      · simp [hq, hp]
      · simp [hq, hp, ih]
    · have hp : p a = false := by
        cases hpa : p a
        · rfl
        · exact absurd (h a hpa) hq
      simp [hq, hp, ih]

theorem bytesOf_setBytes (i : Nat) (b : ByteArray) (j : Nat) :
    (d.setBytes i b).bytesOf j = if j = i then b else d.bytesOf j := by
  unfold bytesOf setBytes
  rw [List.find?_append]
  by_cases hj : j = i
  · subst hj
    have hnone : (d.inodes.filter (·.1 != j)).find? (·.1 == j) = none := by
      rw [List.find?_eq_none]
      intro e he hj
      simp only [List.mem_filter] at he
      simp_all
    simp [hnone]
  · rw [find?_filter_of_imp (fun e he => by simp_all) d.inodes, if_neg hj]
    cases d.inodes.find? (·.1 == j) with
    | none => simp [Ne.symm hj]
    | some e => rfl

theorem bytesOf_setBytes_ne {i j : Nat} (b : ByteArray) (h : j ≠ i) :
    (d.setBytes i b).bytesOf j = d.bytesOf j := by
  rw [bytesOf_setBytes, if_neg h]

@[simp]
theorem nodeAt_setBytes (i : Nat) (b : ByteArray) (s : List String) :
    (d.setBytes i b).nodeAt s = d.nodeAt s := rfl

/-- Cutting or extending a file sets its bytes. -/
theorem setLength_eq (i n : Nat) : ∃ b, d.setLength i n = d.setBytes i b := by
  unfold setLength
  dsimp only
  split
  · exact ⟨_, rfl⟩
  · exact ⟨_, rfl⟩

/-! ## Names -/

theorem nodeAt_nil : d.nodeAt [] = some .dir := rfl

theorem nodeAt_of_ne_nil {s : List String} (hs : s ≠ []) :
    d.nodeAt s = (d.names.find? (·.1 == s)).map (·.2) := by
  simp [nodeAt, hs]

/-- A node below the root is one the disk names. -/
theorem mem_names_of_nodeAt {s : List String} {n : Node} (h : d.nodeAt s = some n)
    (hs : s ≠ []) : (s, n) ∈ d.names := by
  rw [nodeAt_of_ne_nil hs] at h
  obtain ⟨e, he, rfl⟩ := Option.map_eq_some_iff.1 h
  have hs' : e.1 = s := by simpa using List.find?_some he
  rw [← hs']
  exact List.mem_of_find?_eq_some he

theorem nodeAt_link_self {segs : List String} (hs : segs ≠ []) (n : Node) :
    (d.link segs n).nodeAt segs = some n := by
  rw [nodeAt_of_ne_nil hs]
  simp only [link, List.find?_append]
  have hnone : (d.names.filter (·.1 != segs)).find? (·.1 == segs) = none := by
    rw [List.find?_eq_none]
    intro e he hseg
    simp only [List.mem_filter] at he
    simp_all
  simp [hnone]

theorem nodeAt_link_ne {segs s : List String} (n : Node) (h : s ≠ segs) :
    (d.link segs n).nodeAt s = d.nodeAt s := by
  by_cases hs : s = []
  · subst hs
    rfl
  rw [nodeAt_of_ne_nil hs, nodeAt_of_ne_nil hs]
  simp only [link, List.find?_append]
  rw [find?_filter_of_imp (fun e he => by simp_all) d.names]
  cases d.names.find? (·.1 == s) with
  | none => simp [Ne.symm h]
  | some e => rfl

/-! ## Sound disks -/

/-- No file has two names, and every named file is older than the next fresh inode. -/
structure Sound (d : Disk) : Prop where
  unaliased : ∀ {s s' : List String} {i : Nat}, d.nodeAt s = some (.file i) →
    d.nodeAt s' = some (.file i) → s = s'
  lt_fresh : ∀ {s : List String} {i : Nat}, d.nodeAt s = some (.file i) → i < d.fresh

theorem Sound.setBytes (hd : d.Sound) (i : Nat) (b : ByteArray) : (d.setBytes i b).Sound :=
  ⟨hd.unaliased, hd.lt_fresh⟩

/-- Naming a new inode at a free place keeps a disk sound. -/
theorem Sound.link_fresh (hd : d.Sound) {segs : List String} (hs : segs ≠ []) :
    ({ d.link segs (.file d.fresh) with fresh := d.fresh + 1 } : Disk).Sound := by
  -- only `segs` names the new inode; every other name is as before
  have hnode : ∀ s, ({ d.link segs (.file d.fresh) with fresh := d.fresh + 1 } : Disk).nodeAt s =
      if s = segs then some (.file d.fresh) else d.nodeAt s := by
    intro s
    by_cases h : s = segs
    · subst h
      rw [if_pos rfl]
      exact nodeAt_link_self hs _
    · rw [if_neg h]
      exact nodeAt_link_ne _ h
  constructor
  · intro s s' i h h'
    rw [hnode] at h h'
    split at h <;> split at h'
    · subst_vars
      rfl
    · cases h
      exact absurd (hd.lt_fresh h') (Nat.lt_irrefl _)
    · cases h'
      exact absurd (hd.lt_fresh h) (Nat.lt_irrefl _)
    · exact hd.unaliased h h'
  · intro s i h
    rw [hnode] at h
    split at h
    · cases h
      exact Nat.lt_succ_self _
    · exact Nat.lt_succ_of_lt (hd.lt_fresh h)

/-! ## Creating and writing files -/

/-- What opening the file at `p` for writing did, creating it as inode `i` when it was missing:
`p` names `i`, no other name changed, no other file was written, and a sound disk stayed sound. -/
structure Created (d d' : Disk) (p : Path) (i : Nat) : Prop where
  named : d'.nodeAt (d.locate p) = some (.file i)
  others : ∀ {s}, s ≠ d.locate p → d'.nodeAt s = d.nodeAt s
  bytes : ∀ {j}, j ≠ i → d'.bytesOf j = d.bytesOf j
  sound : d.Sound → d'.Sound
  grows : d.Grows d'

theorem Created.setBytes {p : Path} {i : Nat} (h : Created d d' p i) (b : ByteArray) :
    Created d (d'.setBytes i b) p i where
  named := h.named
  others := h.others
  bytes hj := (bytesOf_setBytes_ne b hj).trans (h.bytes hj)
  sound hd := (h.sound hd).setBytes i b
  grows := h.grows.trans (grows_setBytes _ _ _)

/-- A file at another place than the one created keeps its name and its bytes. -/
theorem Created.keeps {p : Path} {i : Nat} (h : Created d d' p i) (hd : d.Sound)
    {s : List String} (hs : s ≠ d.locate p) {c : Nat} (hc : d.nodeAt s = some (.file c)) :
    d'.nodeAt s = some (.file c) ∧ d'.bytesOf c = d.bytesOf c := by
  have hc' : d'.nodeAt s = some (.file c) := (h.others hs).trans hc
  refine ⟨hc', h.bytes fun hci => hs ?_⟩
  subst hci
  exact (h.sound hd).unaliased hc' h.named

theorem create_created {p : Path} {truncate : Bool} {i : Nat}
    (h : d.create p truncate = .ok (d', i)) : Created d d' p i := by
  have hg := grows_of_create h
  unfold create at h
  cases hreach : d.reach p with
  | error e => simp [hreach, bind, Except.bind] at h
  | ok segs =>
    have hsegs : segs = d.locate p := reach_eq_locate hreach
    subst hsegs
    simp only [hreach, bind, Except.bind] at h
    split at h
    · cases h
    · -- the file is there: it is opened, and emptied when asked
      rename_i i' hnode
      split at h
      · cases h
      · simp only [pure, Except.pure, Except.ok.injEq, Prod.mk.injEq] at h
        obtain ⟨rfl, rfl⟩ := h
        split
        · exact ⟨hnode, fun _ => rfl, fun hj => bytesOf_setBytes_ne _ hj, fun hd => hd.setBytes _ _,
            grows_setBytes _ _ _⟩
        · exact ⟨hnode, fun _ => rfl, fun _ => rfl, id, Grows.refl d⟩
    · -- the file is missing: the next inode is named there
      rename_i hnode
      split at h
      · cases h
      · simp only [pure, Except.pure, Except.ok.injEq, Prod.mk.injEq] at h
        obtain ⟨rfl, rfl⟩ := h
        have hne : d.locate p ≠ [] := fun he => by simp [he, nodeAt_nil] at hnode
        exact ⟨nodeAt_link_self hne _, fun hs => nodeAt_link_ne _ hs,
          fun hj => bytesOf_setBytes_ne _ hj, fun hd => (hd.link_fresh hne).setBytes _ _, hg⟩

theorem writeFile_created {p : Path} {bytes : ByteArray} (h : d.writeFile p bytes = .ok d') :
    ∃ i, Created d d' p i := by
  unfold writeFile at h
  cases hcreate : d.create p true with
  | error e => simp [hcreate, bind, Except.bind] at h
  | ok r =>
    obtain ⟨d1, i⟩ := r
    simp only [hcreate, bind, Except.bind, pure, Except.pure, Except.ok.injEq] at h
    subst h
    exact ⟨i, (create_created hcreate).setBytes bytes⟩

theorem copy_created {src dst : Path} {n : Nat} (h : d.copy src dst = .ok (d', n)) :
    ∃ i, Created d d' dst i := by
  unfold copy at h
  cases hopen : d.openForRead src with
  | error e => simp [hopen, bind, Except.bind] at h
  | ok inode =>
    simp only [hopen, bind, Except.bind] at h
    split at h
    · cases h
    · cases hwrite : d.writeFile dst (d.bytesOf ‹Nat›) with
      | error e => simp [hwrite] at h
      | ok d1 =>
        simp only [hwrite, pure, Except.pure, Except.ok.injEq, Prod.mk.injEq] at h
        obtain ⟨rfl, -⟩ := h
        exact writeFile_created hwrite

/-! ## Renaming -/

/-- `s` lies strictly below `a`. -/
def Below (a s : List String) : Prop := ∃ u, u ≠ [] ∧ s = a ++ u

/-- Whether a name lies strictly below `source`, as renaming tests it. -/
def belowTest (source : List String) (e : List String × Node) : Bool :=
  e.1.length > source.length && e.1.take source.length == source

/-- Whether renaming `source` to `target` keeps a name where it is. -/
def keptTest (source target : List String) (e : List String × Node) : Bool :=
  e.1 != source && e.1 != target && !belowTest source e

theorem belowTest_iff {a : List String} {e : List String × Node} :
    belowTest a e = true ↔ Below a e.1 := by
  obtain ⟨s, m⟩ := e
  simp only [belowTest]
  constructor
  · intro h
    simp only [Bool.and_eq_true, decide_eq_true_eq, beq_iff_eq] at h
    refine ⟨s.drop a.length, fun hu => ?_, ?_⟩
    · have := List.length_drop (l := s) (i := a.length)
      rw [hu] at this
      simp at this
      omega
    · conv => lhs; rw [← List.take_append_drop a.length s]
      rw [h.2]
  · rintro ⟨u, hu, rfl⟩
    have : 0 < u.length := List.length_pos_iff.2 hu
    simp [this]

theorem keptTest_iff {source target : List String} {e : List String × Node} :
    keptTest source target e = true ↔ e.1 ≠ source ∧ e.1 ≠ target ∧ ¬ Below source e.1 := by
  rw [← belowTest_iff, keptTest]
  cases belowTest source e <;> simp

theorem find?_congr_mem {α : Type} {p q : α → Bool} :
    ∀ {l : List α}, (∀ a ∈ l, p a = q a) → l.find? p = l.find? q
  | [], _ => rfl
  | a :: l, h => by
    rw [List.find?_cons, List.find?_cons, h a (by simp),
      find?_congr_mem fun b hb => h b (List.mem_cons_of_mem a hb)]

/-- The names after renaming `source` to `target` (a node `n`): the names elsewhere kept, the
target naming `n`, and the names below the source moved below the target. -/
def movedNames (names : List (List String × Node)) (source target : List String) (n : Node) :
    List (List String × Node) :=
  names.filter (keptTest source target) ++ [(target, n)] ++
    (names.filter (belowTest source)).map fun e => (target ++ e.1.drop source.length, e.2)

/-- The node a list of names gives to segments. -/
def lookupIn (names : List (List String × Node)) (s : List String) : Option Node :=
  (names.find? (·.1 == s)).map (·.2)

theorem nodeAt_eq_lookupIn {s : List String} (hs : s ≠ []) : d.nodeAt s = lookupIn d.names s :=
  nodeAt_of_ne_nil hs

section Moved

variable {names : List (List String × Node)} {source target : List String} {n : Node}

/-- A name that a test accepts is looked up among the names the test keeps as among all. -/
theorem lookupIn_filter {q : List String × Node → Bool} {s : List String}
    (hq : ∀ m, q (s, m) = true) : (names.filter q).find? (·.1 == s) = names.find? (·.1 == s) := by
  apply find?_filter_of_imp
  rintro ⟨t, m⟩ ht
  simp only [beq_iff_eq] at ht
  subst ht
  exact hq m

theorem lookupIn_moved_target : lookupIn (movedNames names source target n) target = some n := by
  have hnone : (names.filter (keptTest source target)).find? (·.1 == target) = none := by
    rw [List.find?_eq_none]
    intro e he ht
    have := (keptTest_iff.1 (List.mem_filter.1 he).2).2.1
    simp_all
  unfold lookupIn movedNames
  rw [List.find?_append, List.find?_append, hnone]
  simp

/-- Looking up a name below the target among the moved names finds the name below the source. -/
theorem find?_moved (u : List String) :
    ((names.filter (belowTest source)).map fun e => (target ++ e.1.drop source.length, e.2)).find?
      (·.1 == target ++ u) =
    ((names.filter (belowTest source)).find? (·.1 == source ++ u)).map
      fun e => (target ++ e.1.drop source.length, e.2) := by
  rw [List.find?_map]
  congr 1
  apply find?_congr_mem
  rintro ⟨t, m⟩ ht
  obtain ⟨w, -, rfl⟩ := belowTest_iff.1 (List.mem_filter.1 ht).2
  rw [Bool.eq_iff_iff]
  simp

theorem lookupIn_moved_of_kept {s : List String} (hs : s ≠ source) (ht : s ≠ target)
    (hb : ¬ Below source s) (hb' : ¬ Below target s) :
    lookupIn (movedNames names source target n) s = lookupIn names s := by
  have hkeep : (names.filter (keptTest source target)).find? (·.1 == s) =
      names.find? (·.1 == s) := lookupIn_filter fun _ => keptTest_iff.2 ⟨hs, ht, hb⟩
  -- nothing moved below the target is at `s`
  have hmoved : ((names.filter (belowTest source)).map
      fun e => (target ++ e.1.drop source.length, e.2)).find? (·.1 == s) = none := by
    rw [List.find?_eq_none]
    intro e he hes
    obtain ⟨⟨t, m⟩, ht', rfl⟩ := List.mem_map.1 he
    obtain ⟨w, hw, rfl⟩ := belowTest_iff.1 (List.mem_filter.1 ht').2
    simp only [List.drop_left, beq_iff_eq] at hes
    exact hb' ⟨w, hw, hes.symm⟩
  have htarget : ([(target, n)] : List (List String × Node)).find? (·.1 == s) = none := by
    simp [Ne.symm ht]
  simp only [lookupIn, movedNames, List.find?_append, hkeep, htarget, hmoved, Option.or_none]

/-- Where a file named after renaming was named before: at the same place outside the source, at
the source when it is now at the target, or at the same place below the source when it is now
below the target. -/
theorem lookupIn_moved_file {s : List String} {i : Nat}
    (h : lookupIn (movedNames names source target n) s = some (.file i)) :
    (lookupIn names s = some (.file i) ∧ s ≠ source ∧ ¬ Below source s) ∨
      (s = target ∧ n = .file i) ∨
      (∃ u, u ≠ [] ∧ s = target ++ u ∧ lookupIn names (source ++ u) = some (.file i)) := by
  unfold lookupIn movedNames at h
  rw [List.find?_append, List.find?_append] at h
  cases hk : (names.filter (keptTest source target)).find? (·.1 == s) with
  | some e =>
    -- found among the kept names, which are the names as they were
    obtain ⟨t, m⟩ := e
    rw [hk] at h
    have hm : m = .file i := by simpa using h
    have hts : t = s := by simpa using List.find?_some hk
    subst hts hm
    have hkept := keptTest_iff.1 (List.mem_filter.1 (List.mem_of_find?_eq_some hk)).2
    refine .inl ⟨?_, hkept.1, hkept.2.2⟩
    rw [lookupIn, ← lookupIn_filter (q := keptTest source target)
      (fun _ => keptTest_iff.2 hkept), hk]
    rfl
  | none =>
    rw [hk, Option.none_or] at h
    by_cases ht : s = target
    · subst ht
      simp at h
      exact .inr (.inl ⟨rfl, h⟩)
    have htarget : ([(target, n)] : List (List String × Node)).find? (·.1 == s) = none := by
      simp [Ne.symm ht]
    rw [htarget, Option.none_or] at h
    cases hm : ((names.filter (belowTest source)).map
        fun e => (target ++ e.1.drop source.length, e.2)).find? (·.1 == s) with
    | none => simp [hm] at h
    | some e =>
      -- found among the moved names: `s` is below the target
      obtain ⟨⟨t, m⟩, ht', rfl⟩ := List.mem_map.1 (List.mem_of_find?_eq_some hm)
      obtain ⟨w, hw, rfl⟩ := belowTest_iff.1 (List.mem_filter.1 ht').2
      have hs : target ++ w = s := by simpa using List.find?_some hm
      subst hs
      rw [hm] at h
      have hmi : m = .file i := by simpa using h
      refine .inr (.inr ⟨w, hw, rfl, ?_⟩)
      rw [find?_moved] at hm
      rw [lookupIn, ← lookupIn_filter (q := belowTest source)
        (fun _ => belowTest_iff.2 ⟨w, hw, rfl⟩)]
      cases hf : (names.filter (belowTest source)).find? (·.1 == source ++ w) with
      | none => simp [hf] at hm
      | some f =>
        rw [hf] at hm
        have := congrArg Prod.snd (Option.some.inj hm)
        simp only at this
        simp [this, hmi]

/-- Where a name after renaming `source` to `target` came from: names outside the source stay,
the source becomes the target, and what lies below the source moves below the target. -/
inductive MovedFrom (source target : List String) : List String → List String → Prop
  | kept {s : List String} : s ≠ source → ¬ Below source s → MovedFrom source target s s
  | moved : MovedFrom source target target source
  | below {u : List String} : u ≠ [] → MovedFrom source target (target ++ u) (source ++ u)

/-- Two names that came from one place are one name. -/
theorem MovedFrom.unique {s s' o o' : List String} (h : MovedFrom source target s o)
    (h' : MovedFrom source target s' o') (ho : o = o') : s = s' := by
  cases h with
  | kept hs hb =>
    cases h' with
    | kept => exact ho
    | moved => exact absurd ho hs
    | below hu => exact absurd ⟨_, hu, ho⟩ hb
  | moved =>
    cases h' with
    | kept hs => exact absurd ho.symm hs
    | moved => rfl
    | below hu => exact absurd (by simpa using ho) hu
  | below hu =>
    cases h' with
    | kept hs hb => exact absurd ⟨_, hu, ho.symm⟩ hb
    | moved => exact absurd (by simpa using ho) hu
    | below => rw [List.append_cancel_left ho]

end Moved

/-- A file named after renaming was named, with the same inode, where it came from. -/
theorem movedNames_file {source target : List String} {n : Node} (hn : d.nodeAt source = some n)
    {s : List String} {i : Nat}
    (h : ({ d with names := movedNames d.names source target n } : Disk).nodeAt s =
      some (.file i)) :
    ∃ o, MovedFrom source target s o ∧ d.nodeAt o = some (.file i) := by
  have hs : s ≠ [] := fun he => by simp [he, nodeAt_nil] at h
  rw [nodeAt_eq_lookupIn hs] at h
  rcases lookupIn_moved_file h with ⟨hl, hsrc, hb⟩ | ⟨rfl, rfl⟩ | ⟨u, hu, rfl, hl⟩
  · exact ⟨s, .kept hsrc hb, (nodeAt_eq_lookupIn hs).trans hl⟩
  · exact ⟨source, .moved, hn⟩
  · have hne : source ++ u ≠ [] := by simp [hu]
    exact ⟨source ++ u, .below hu, (nodeAt_eq_lookupIn hne).trans hl⟩

/-- Renaming keeps a disk sound: every file named after it was named once before. -/
theorem Sound.moved (hd : d.Sound) {source target : List String} {n : Node}
    (hn : d.nodeAt source = some n) :
    ({ d with names := movedNames d.names source target n } : Disk).Sound := by
  constructor
  · intro s s' i h h'
    obtain ⟨o, ho, hi⟩ := movedNames_file hn h
    obtain ⟨o', ho', hi'⟩ := movedNames_file hn h'
    exact ho.unique ho' (hd.unaliased hi hi')
  · intro s i h
    obtain ⟨o, -, hi⟩ := movedNames_file hn h
    exact hd.lt_fresh hi

theorem lookup_ok {p : Path} {o : Option Node} (h : d.lookup p = .ok o) :
    ∃ segs, d.reach p = .ok segs ∧ d.nodeAt segs = o := by
  unfold lookup at h
  cases hr : d.reach p with
  | error e => simp [hr, bind, Except.bind] at h
  | ok segs =>
    refine ⟨segs, rfl, ?_⟩
    simp only [hr, bind, Except.bind] at h
    split at h
    · split at h
      · cases h
      · simp only [pure, Except.pure, Except.ok.injEq] at h
        exact h
    · simp only [pure, Except.pure, Except.ok.injEq] at h
      exact h

/-- What a successful look at a path found is what its segments name. -/
theorem stat_ok {p : Path} {n : Node} (h : d.stat p = .ok n) :
    ∃ segs, d.reach p = .ok segs ∧ d.nodeAt segs = some n := by
  unfold stat at h
  cases hl : d.lookup p with
  | error e => simp [hl, bind, Except.bind] at h
  | ok o =>
    obtain ⟨segs, hr, hnode⟩ := lookup_ok hl
    refine ⟨segs, hr, ?_⟩
    simp only [hl, bind, Except.bind] at h
    cases o with
    | none => cases h
    | some n' =>
      cases h
      exact hnode

/-- What renaming `src` to `dst` did: the target names what the source named, nothing outside
the two and what lies below them changed, no file was written, and a sound disk stayed sound. -/
structure Renamed (d d' : Disk) (src dst : Path) : Prop where
  target : d.locate dst ≠ [] → d'.nodeAt (d.locate dst) = d.nodeAt (d.locate src)
  others : ∀ {s}, s ≠ d.locate src → s ≠ d.locate dst → ¬ Below (d.locate src) s →
    ¬ Below (d.locate dst) s → d'.nodeAt s = d.nodeAt s
  inodes : d'.inodes = d.inodes
  sound : d.Sound → d'.Sound
  grows : d.Grows d'

theorem rename_renamed {src dst : Path} (h : d.rename src dst = .ok d') : Renamed d d' src dst := by
  have hg := grows_of_rename h
  unfold rename at h
  cases hn : d.stat src with
  | error e => simp [hn, bind, Except.bind] at h
  | ok n =>
    obtain ⟨segs, hsegs, hnode⟩ := stat_ok hn
    cases hs : d.reach src with
    | error e => simp [hn, hs, bind, Except.bind] at h
    | ok source =>
      cases ht : d.reach dst with
      | error e => simp [hn, hs, ht, bind, Except.bind] at h
      | ok target =>
        have hsource : source = d.locate src := reach_eq_locate hs
        have htarget : target = d.locate dst := reach_eq_locate ht
        have hsn : d.nodeAt source = some n := by rw [hs] at hsegs; cases hsegs; exact hnode
        subst hsource htarget
        simp only [hn, hs, ht, bind, Except.bind, throw, throwThe, MonadExceptOf.throw] at h
        -- past the type check the disk is kept (same place) or has its names moved
        have hmove : (if d.locate src == d.locate dst then pure d else
            pure { d with names := movedNames d.names (d.locate src) (d.locate dst) n } :
              Except IoFault Disk) = .ok d' → Renamed d d' src dst := by
          intro hd'
          split at hd'
          · rename_i heq
            cases hd'
            have heq : d.locate src = d.locate dst := by simpa using heq
            exact ⟨fun _ => by rw [heq], fun _ _ _ _ => rfl, rfl, id, Grows.refl d⟩
          · cases hd'
            refine ⟨fun hne => ?_, fun h1 h2 h3 h4 => ?_, rfl, fun hd => hd.moved hsn, hg⟩
            · rw [nodeAt_eq_lookupIn hne]
              exact lookupIn_moved_target.trans hsn.symm
            · by_cases hnil : ‹List String› = []
              · subst hnil
                rfl
              rw [nodeAt_eq_lookupIn hnil, nodeAt_eq_lookupIn hnil]
              exact lookupIn_moved_of_kept h1 h2 h3 h4
        split at h
        · cases h
        · cases h
        · split at h
          · exact hmove h
          · cases h
        · exact hmove h

/-! ## Creating directories and taking locks -/

/-- What creating directories did: every name that was there stays, only directories were added,
and no file was written. -/
structure DirsMade (d d' : Disk) : Prop where
  kept : ∀ {s n}, d.nodeAt s = some n → d'.nodeAt s = some n
  files : ∀ {s i}, d'.nodeAt s = some (.file i) → d.nodeAt s = some (.file i)
  inodes : d'.inodes = d.inodes
  grows : d.Grows d'

theorem DirsMade.refl (d : Disk) : DirsMade d d := ⟨id, id, rfl, Grows.refl d⟩

theorem DirsMade.trans {d'' : Disk} (h : DirsMade d d') (h' : DirsMade d' d'') : DirsMade d d'' :=
  ⟨h'.kept ∘ h.kept, h.files ∘ h'.files, h'.inodes.trans h.inodes, h.grows.trans h'.grows⟩

theorem DirsMade.sound (h : DirsMade d d') (hd : d.Sound) : d'.Sound :=
  ⟨fun hs hs' => hd.unaliased (h.files hs) (h.files hs'),
    fun hs => Nat.lt_of_lt_of_le (hd.lt_fresh (h.files hs)) h.grows.fresh⟩

theorem DirsMade.link {segs : List String} (hs : segs ≠ []) (hfree : d.nodeAt segs = none) :
    DirsMade d (d.link segs .dir) := by
  refine ⟨fun {s n} h => ?_, fun {s i} h => ?_, rfl, grows_link _ _ _⟩
  · have hne : s ≠ segs := fun he => by simp [he, hfree] at h
    rw [nodeAt_link_ne _ hne, h]
  · by_cases he : s = segs
    · subst he
      simp [nodeAt_link_self hs] at h
    · rwa [nodeAt_link_ne _ he] at h

theorem dirsMade_of_foldlM {β : Type} {f : Disk × β → Nat → Except IoFault (Disk × β)}
    (hf : ∀ s k s', f s k = .ok s' → DirsMade s.1 s'.1) :
    ∀ (ks : List Nat) (s s' : Disk × β), ks.foldlM f s = .ok s' → DirsMade s.1 s'.1
  | [], s, s', h => by
    cases h
    exact DirsMade.refl _
  | k :: ks, s, s', h => by
    rw [List.foldlM_cons] at h
    cases hk : f s k with
    | error e => simp [hk, bind, Except.bind] at h
    | ok s1 =>
      simp only [hk, bind, Except.bind] at h
      exact (hf s k s1 hk).trans (dirsMade_of_foldlM hf ks s1 s' h)

theorem createDirAll_dirsMade {p : Path} (h : d.createDirAll p = .ok d') : DirsMade d d' := by
  unfold createDirAll at h
  simp only [bind, Except.bind] at h
  split at h
  · cases h
  · rename_i r hfold
    simp only [pure, Except.pure, Except.ok.injEq] at h
    subst h
    refine dirsMade_of_foldlM ?_ _ _ _ hfold
    -- each step keeps the disk or links a directory at a free place
    intro s k s' hs
    split at hs
    · cases hs
      exact DirsMade.refl _
    · split at hs
      · cases hs
        exact DirsMade.refl _
      · cases hs
      · rename_i hfree
        cases hs
        exact DirsMade.link (by simp) hfree
    · cases hs
      exact DirsMade.refl _

theorem tryLock_names {inode token : Nat} (h : d.tryLock inode token = .ok d') :
    d'.names = d.names ∧ d'.inodes = d.inodes ∧ d'.fresh = d.fresh := by
  unfold tryLock at h
  split at h
  · cases h
  · cases h
    exact ⟨rfl, rfl, rfl⟩

/-! ## Paths apart -/

/-- Two paths lead to different places of a disk, neither below the other. -/
structure Apart (d : Disk) (p q : Path) : Prop where
  ne : d.locate p ≠ d.locate q
  not_below : ¬ Below (d.locate p) (d.locate q)
  not_below' : ¬ Below (d.locate q) (d.locate p)

theorem Apart.symm {p q : Path} (h : d.Apart p q) : d.Apart q p :=
  ⟨h.ne.symm, h.not_below', h.not_below⟩

/-- Two names of one directory are apart. -/
theorem apart_of_siblings {p q : Path} {dir : List String} {a b : String}
    (hp : d.locate p = dir ++ [a]) (hq : d.locate q = dir ++ [b]) (hab : a ≠ b) :
    d.Apart p q := by
  have hlen : ∀ {u : List String}, u ≠ [] → ∀ c e : String, dir ++ [c] ≠ dir ++ [e] ++ u := by
    intro u hu c e he
    have := congrArg List.length he
    simp only [List.length_append, List.length_singleton] at this
    have : 0 < u.length := List.length_pos_iff.2 hu
    omega
  refine ⟨fun he => hab ?_, ?_, ?_⟩
  · rw [hp, hq] at he
    simpa using he
  · rintro ⟨u, hu, he⟩
    rw [hp, hq] at he
    exact hlen hu b a he
  · rintro ⟨u, hu, he⟩
    rw [hp, hq] at he
    exact hlen hu a b he

/-- Where a path leads depends on the working directory alone. -/
theorem locate_of_cwd (h : d'.cwd = d.cwd) (p : Path) : d'.locate p = d.locate p := by
  simp [locate, h]

end Disk

end EntityLog.Files
