import EntityLog.Log.Paths
import EntityLog.Files.Disk
import Mathlib.Data.String.Basic
/-!
# The files beside a log's file

A log keeps its checkpoint, backup, lock and temporary files beside its live file, and moves a
damaged live file aside under another name in the same directory. This module shows that all of
them resolve to one directory: when the live path names a file `N`, the path with its file name
replaced by any other name `X` resolves to the segments of the live file with the last one
replaced by `X` (`locate_withFileName`), whatever separators, `.` and `..` segments and working
directory the path uses. Since the names differ, the files of a log are different files.

Resolving a path folds its pieces between separators; splitting a list of characters at one
separator splits the fold (`walk_append_slash`), which is what every lemma here reduces to.
-/

namespace EntityLog.Files

open String

/-! ## Splitting at the separator -/

theorem atEnd_ofList_append (l m r : List Char) :
    Pos.Raw.atEnd (ofList (l ++ m ++ r)) ⟨utf8Len l + utf8Len m⟩ ↔ r = [] := by
  rw [← utf8Len_append]
  exact atEnd_of_valid (l ++ m) r

/-- The loop of `String.splitOn` with a one-character separator, from a position past `l` with
the piece `m` read so far. -/
theorem splitOnAux_slash (l m r : List Char) (acc : List String) :
    String.splitOnAux (ofList (l ++ m ++ r)) "/" ⟨utf8Len l⟩ ⟨utf8Len l + utf8Len m⟩ 0 acc =
      acc.reverse ++ (List.splitOnPPrepend (· == '/') r m.reverse).map ofList := by
  induction r generalizing l m acc with
  | nil =>
    unfold String.splitOnAux
    rw [if_pos ((atEnd_ofList_append l m []).2 rfl)]
    simpa using extract_of_valid l m []
  | cons c r ih =>
    unfold String.splitOnAux
    rw [if_neg (by simpa using atEnd_ofList_append l m (c :: r))]
    have hget : Pos.Raw.get (ofList (l ++ m ++ c :: r)) ⟨utf8Len l + utf8Len m⟩ = c := by
      rw [← utf8Len_append]
      exact get_of_valid (l ++ m) (c :: r)
    have hnext : Pos.Raw.next (ofList (l ++ m ++ c :: r)) ⟨utf8Len l + utf8Len m⟩ =
        ⟨utf8Len l + utf8Len m + c.utf8Size⟩ := by
      rw [← utf8Len_append]
      exact next_of_valid (l ++ m) c r
    have hsep : Pos.Raw.get "/" 0 = '/' := rfl
    rw [hget, hsep]
    by_cases hc : c = '/'
    · -- a separator ends the piece `m` and starts an empty one after it
      subst hc
      have hj : Pos.Raw.next "/" 0 = ⟨1⟩ := rfl
      have hjend : Pos.Raw.atEnd "/" ⟨1⟩ = true := rfl
      have hsize : '/'.utf8Size = 1 := rfl
      have hback : (⟨utf8Len l + utf8Len m + 1⟩ : Pos.Raw).unoffsetBy ⟨1⟩ =
          ⟨utf8Len l + utf8Len m⟩ := by
        simp [Pos.Raw.unoffsetBy]
      simp only [beq_self_eq_true, if_true, hnext, hj, hjend, hsize, hback,
        extract_of_valid l m ('/' :: r)]
      have := ih (l ++ m ++ ['/']) [] (ofList m :: acc)
      simp only [utf8Len_append, List.append_nil, List.append_assoc, List.cons_append,
        List.nil_append, utf8Len_cons, utf8Len_nil, hsize, List.reverse_nil] at this
      rw [List.splitOnPPrepend_cons_pos (by rfl)]
      simpa [Nat.add_assoc] using this
    · -- any other character joins the piece
      have hne : (c == '/') = false := by simpa using hc
      have h0 : (⟨utf8Len l + utf8Len m⟩ : Pos.Raw).unoffsetBy 0 = ⟨utf8Len l + utf8Len m⟩ := by
        simp [Pos.Raw.unoffsetBy]
      simp only [hne, Bool.false_eq_true, if_false, h0, hnext]
      have := ih l (m ++ [c]) acc
      simp only [utf8Len_append, List.append_assoc, List.cons_append, List.nil_append,
        utf8Len_cons, utf8Len_nil, List.reverse_append, List.reverse_cons, List.reverse_nil] at this
      rw [List.splitOnPPrepend_cons_neg (p := fun x => x == '/') hne]
      simpa [Nat.add_assoc] using this

/-- Splitting text at `/` splits its characters at `/`. -/
theorem splitOn_slash (s : String) : s.splitOn "/" = (s.toList.splitOn '/').map ofList := by
  have := splitOnAux_slash [] [] s.toList []
  simp only [List.nil_append, utf8Len_nil, Nat.add_zero, String.ofList_toList, List.reverse_nil,
    List.splitOnPPrepend_nil_right] at this
  rw [String.splitOn, if_neg (by decide), List.splitOn_eq_splitOnP]
  exact this

/-! ## The steps of a path -/

/-- The pieces of a list of characters between separators. -/
def pieces (cs : List Char) : List String := (cs.splitOn '/').map ofList

/-- Whether a piece takes a step: empty and `.` pieces stay where they are. -/
def isStep (s : String) : Bool := !s.isEmpty && s != "."

/-- The steps of a list of characters. -/
def stepsOf (cs : List Char) : List String := (pieces cs).filter isStep

theorem steps_eq_stepsOf (p : Path) : Disk.steps p = stepsOf p.toList := by
  rw [Disk.steps, splitOn_slash]
  rfl

/-- One step from the segments reached so far: `..` goes up and a name goes down. -/
def climb (acc : List String) (s : String) : List String :=
  if s == ".." then acc.dropLast else acc ++ [s]

theorem resolveSegments_eq_foldl (cwd : List String) (p : Path) :
    resolveSegments cwd p =
      (Disk.steps p).foldl climb (if Path.isAbsolute p then [] else cwd) := by
  rw [resolveSegments, steps_eq_stepsOf, stepsOf, List.foldl_filter, pieces, ← splitOn_slash]
  congr 1
  funext acc s
  simp only [isStep, climb]
  rcases Bool.eq_false_or_eq_true s.isEmpty with hempty | hempty <;>
    rcases Bool.eq_false_or_eq_true (s == ".") with hdot | hdot <;>
    simp only [hempty, hdot, Bool.true_or, Bool.or_true, Bool.false_or, Bool.not_true,
      Bool.not_false, Bool.false_and, Bool.true_and, bne, Bool.not_false, Bool.not_true, if_true,
      if_false, Bool.false_eq_true]

theorem stepsOf_append_slash (a b : List Char) :
    stepsOf (a ++ '/' :: b) = stepsOf a ++ stepsOf b := by
  simp only [stepsOf, pieces, List.splitOn_append_cons_self, List.map_append, List.filter_append]

theorem stepsOf_of_not_mem {cs : List Char} (h : '/' ∉ cs) :
    stepsOf cs = [ofList cs].filter isStep := by
  simp only [stepsOf, pieces, List.splitOn_eq_singleton h, List.map_cons, List.map_nil]

@[simp]
theorem stepsOf_nil : stepsOf [] = [] := by
  rw [stepsOf_of_not_mem List.not_mem_nil]
  rfl

@[simp]
theorem stepsOf_dot : stepsOf ['.'] = [] := by
  rw [stepsOf_of_not_mem (by decide)]
  rfl

theorem stepsOf_slash_cons (b : List Char) : stepsOf ('/' :: b) = stepsOf b := by
  simpa using stepsOf_append_slash [] b

theorem stepsOf_append_slash_nil (a : List Char) : stepsOf (a ++ ['/']) = stepsOf a := by
  simpa using stepsOf_append_slash a []

/-- The characters of a piece that names something: not empty, without a separator, and not
`.`. -/
structure IsPiece (x : List Char) : Prop where
  ne_nil : x ≠ []
  no_slash : '/' ∉ x
  ne_dot : x ≠ ['.']

theorem IsPiece.stepsOf_eq {x : List Char} (hx : IsPiece x) : stepsOf x = [ofList x] := by
  have hempty : (ofList x).isEmpty = false := by
    simpa [String.isEmpty_iff] using hx.ne_nil
  have hdot : (ofList x != ".") = true := by
    have : ofList x ≠ "." := fun h => hx.ne_dot (by simpa using congrArg String.toList h)
    simpa using this
  rw [stepsOf_of_not_mem hx.no_slash]
  simp [isStep, hempty, hdot]

/-- Characters that are empty or end in a separator, so that what follows starts a piece. -/
def OpenEnd (y : List Char) : Prop := y = [] ∨ ∃ z, y = z ++ ['/']

theorem stepsOf_openEnd_append {y x : List Char} (hy : OpenEnd y) (hx : IsPiece x) :
    stepsOf (y ++ x) = stepsOf y ++ [ofList x] := by
  rcases hy with rfl | ⟨z, rfl⟩
  · simpa using hx.stepsOf_eq
  · rw [List.append_assoc, List.singleton_append, stepsOf_append_slash, stepsOf_append_slash_nil,
      hx.stepsOf_eq]

/-! ## Trimming the end of a path -/

section Trim

open Path

theorem trimEnd_go_suffix (r : List Char) (n : Nat) : trimEnd.go r n <:+ r := by
  fun_induction trimEnd.go r n with
  | case1 => exact List.suffix_refl _
  | case2 rest n ih => exact ih.trans (List.suffix_cons _ _)
  | case3 rest n ih => exact ih.trans ((List.suffix_cons _ _).trans (List.suffix_cons _ _))
  | case4 => exact List.nil_suffix
  | case5 => exact List.suffix_refl _

theorem trimEnd_isPrefix (cs : List Char) : trimEnd cs <+: cs := by
  simpa [trimEnd] using (trimEnd_go_suffix cs.reverse (cs.length + 1)).reverse

theorem stepsOf_trimEnd_go (r : List Char) (n : Nat) :
    stepsOf (trimEnd.go r n).reverse = stepsOf r.reverse := by
  fun_induction trimEnd.go r n with
  | case1 => rfl
  | case2 rest n ih => rw [ih, List.reverse_cons, stepsOf_append_slash_nil]
  | case3 rest n ih =>
    rw [ih, List.reverse_cons, List.reverse_cons, List.append_assoc, List.singleton_append,
      stepsOf_append_slash, stepsOf_dot, List.append_nil]
  | case4 => simp
  | case5 => rfl

/-- Trimming the end drops no step. -/
theorem stepsOf_trimEnd (cs : List Char) : stepsOf (trimEnd cs) = stepsOf cs := by
  simpa [trimEnd] using stepsOf_trimEnd_go cs.reverse (cs.length + 1)

/-- A reversed list of characters that trimming leaves as it is: it does not start with a
separator or with `.` and a separator, and is not `.` alone. -/
structure Settled (r : List Char) : Prop where
  head_ne : r.head? ≠ some '/'
  take_ne : r.take 2 ≠ ['.', '/']
  ne_dot : r ≠ ['.']

theorem trimEnd_go_settled {r : List Char} {n : Nat} (h : r.length < n) :
    Settled (trimEnd.go r n) := by
  fun_induction trimEnd.go r n with
  | case1 => omega
  | case2 rest n ih => exact ih (by simp at h; omega)
  | case3 rest n ih => exact ih (by simp at h; omega)
  | case4 => exact ⟨by simp, by simp, by simp⟩
  | case5 r n hslash hdot hone =>
    refine ⟨fun hr => ?_, fun hr => ?_, hone⟩
    · obtain ⟨rest, rfl⟩ := List.head?_eq_some_iff.1 hr
      exact hslash rest rfl
    · exact hdot (r.drop 2) (by rw [← List.take_append_drop 2 r, hr]; rfl)

theorem trimEnd_go_of_settled {r : List Char} (hr : Settled r) (n : Nat) :
    trimEnd.go r (n + 1) = r :=
  trimEnd.go.eq_5 r n (fun rest h => hr.head_ne (by simp [h]))
    (fun rest h => hr.take_ne (by simp [h])) hr.ne_dot

/-- A piece read backwards, before anything, is settled. -/
theorem IsPiece.settled {x : List Char} (hx : IsPiece x) (v : List Char) :
    Settled (x.reverse ++ v) := by
  obtain ⟨c, t, hct⟩ := List.exists_cons_of_ne_nil (List.reverse_ne_nil_iff.2 hx.ne_nil)
  have hmem : ∀ a ∈ c :: t, a ≠ '/' := fun a ha h =>
    hx.no_slash (by rw [← List.mem_reverse, hct, ← h]; exact ha)
  have hx' : x = (c :: t).reverse := by rw [← hct, List.reverse_reverse]
  rw [hct]
  refine ⟨by simpa using hmem c (by simp), fun h => ?_, fun h => ?_⟩
  · -- `.` and a separator would put the separator in the piece, or leave `.` alone
    cases t with
    | nil =>
      have hc : c = '.' := by simpa using congrArg List.head? h
      exact hx.ne_dot (by simp [hx', hc])
    | cons d t =>
      have hd : c = '.' ∧ d = '/' := by simpa using h
      exact hmem d (by simp) hd.2
  · simp only [List.cons_append, List.cons.injEq] at h
    exact hx.ne_dot (by simp [hx', h.1, (List.append_eq_nil_iff.1 h.2).1])

/-- Trimming leaves a path that ends in a piece as it is. -/
theorem trimEnd_append_piece (v : List Char) {x : List Char} (hx : IsPiece x) :
    trimEnd (v ++ x) = v ++ x := by
  simp only [trimEnd, List.reverse_append]
  rw [trimEnd_go_of_settled (hx.settled _), List.reverse_append, List.reverse_reverse,
    List.reverse_reverse]

/-- What trimming leaves is empty or ends in a piece after a separator or at the start. -/
theorem trimEnd_shape (cs : List Char) :
    trimEnd cs = [] ∨ ∃ y x, trimEnd cs = y ++ x ∧ OpenEnd y ∧ IsPiece x := by
  have hs : Settled (trimEnd.go cs.reverse (cs.length + 1)) := trimEnd_go_settled (by simp)
  simp only [trimEnd]
  generalize trimEnd.go cs.reverse (cs.length + 1) = r at hs ⊢
  rcases r with _ | ⟨c, r⟩
  · exact Or.inl rfl
  right
  -- the piece is the run before the last separator, read backwards
  refine ⟨((c :: r).dropWhile (· != '/')).reverse, ((c :: r).takeWhile (· != '/')).reverse,
    by rw [← List.reverse_append, List.takeWhile_append_dropWhile], ?_, ?_⟩
  · cases hd : (c :: r).dropWhile (· != '/') with
    | nil => exact Or.inl rfl
    | cons a rest =>
      have ha := List.head_dropWhile_not (· != '/') (l := c :: r) (by simp [hd])
      simp only [hd, List.head_cons, bne_eq_false_iff_eq] at ha
      exact Or.inr ⟨rest.reverse, by simp [ha]⟩
  · have hc : c ≠ '/' := fun h => hs.head_ne (by simp [h])
    refine ⟨by simp [hc], fun h => ?_, fun h => ?_⟩
    · have := List.all_eq_true.1 List.all_takeWhile '/' (List.mem_reverse.1 h)
      simp at this
    · -- a lone `.` before a separator or at the start was trimmed away
      have hrev : (c :: r).takeWhile (· != '/') = ['.'] := by simpa using congrArg List.reverse h
      have hc' : c = '.' := by simpa [List.takeWhile_cons, hc] using congrArg List.head? hrev
      subst hc'
      cases r with
      | nil => exact hs.ne_dot rfl
      | cons d r =>
        have hd : d = '/' := by
          by_contra hd
          simp [hd] at hrev
        exact hs.take_ne (by simp [hd])

end Trim

/-! ## The head, the last segment and the file name -/

section Segments

open Path

/-- The head of a path takes no step. -/
theorem stepsOf_drop_headLength (cs : List Char) :
    stepsOf (cs.drop (headLength cs)) = stepsOf cs := by
  unfold headLength
  split
  · simp [stepsOf_slash_cons]
  · simp
  · rename_i rest
    simpa [stepsOf_slash_cons] using (stepsOf_append_slash ['.'] rest).symm
  · rfl

/-- The head of a path, put back before a prefix of what follows it, takes no step. -/
theorem stepsOf_take_headLength_append {cs z : List Char} (hz : z <+: cs.drop (headLength cs)) :
    stepsOf (cs.take (headLength cs) ++ z) = stepsOf z := by
  unfold headLength at hz ⊢
  split at hz
  · simp [stepsOf_slash_cons]
  · -- `.` alone: nothing follows it
    simp only [List.drop_succ_cons, List.drop_zero, List.prefix_nil] at hz
    simp [hz]
  · -- `.` and a separator: what follows starts with the separator
    simp only [List.drop_succ_cons, List.drop_zero] at hz
    rcases List.prefix_cons_iff.1 hz with rfl | ⟨t, rfl, -⟩
    · simp
    · simpa using (stepsOf_append_slash ['.'] t).trans (by simp [stepsOf_slash_cons])
  · simp

theorem lastSegment_of_body {p : Path} {y x : List Char} (hb : body p = y ++ x)
    (hy : OpenEnd y) (hx : IsPiece x) : lastSegment p = some (x, y) := by
  have hx' : ∀ a ∈ x.reverse, (a != '/') = true := fun a ha => by
    have : a ≠ '/' := fun h => hx.no_slash (by rw [← h]; exact List.mem_reverse.1 ha)
    simpa using this
  have hy' : y.reverse.takeWhile (· != '/') = [] := by
    rcases hy with rfl | ⟨z, rfl⟩ <;> simp
  have hseg : ((y ++ x).reverse.takeWhile (· != '/')).reverse = x := by
    rw [List.reverse_append, List.takeWhile_append_of_pos hx', hy', List.append_nil,
      List.reverse_reverse]
  simp only [lastSegment, hb, hseg]
  simp [hx.ne_nil]

theorem lastSegment_spec {p : Path} {x y : List Char} (h : lastSegment p = some (x, y)) :
    body p = y ++ x ∧ OpenEnd y ∧ IsPiece x := by
  rcases trimEnd_shape (p.toList.drop (headLength p.toList)) with hnil | ⟨y', x', hb, hy, hx⟩
  · simp [lastSegment, body, hnil] at h
  · rw [lastSegment_of_body hb hy hx] at h
    cases h
    exact ⟨hb, hy, hx⟩

/-- A file name that steps keep as it is: a piece other than `..`. -/
structure IsName (s : String) : Prop where
  piece : IsPiece s.toList
  ne_up : s ≠ ".."

theorem IsName.ne_nil {s : String} (h : IsName s) : s.toList ≠ [] := h.piece.ne_nil

/-- A name of at least three characters without a separator. -/
theorem isName_of_length {s : String} (hslash : '/' ∉ s.toList) (hlen : 3 ≤ s.toList.length) :
    IsName s := by
  refine ⟨⟨fun h => ?_, hslash, fun h => ?_⟩, fun h => ?_⟩ <;> simp_all

/-- The file name of a path is its last segment, after a separator or at the start. -/
theorem fileName_spec {p : Path} {N : String} (h : fileName p = some N) :
    ∃ y, lastSegment p = some (N.toList, y) ∧ OpenEnd y ∧ IsName N := by
  unfold fileName at h
  split at h
  · rename_i seg before hls
    split at h
    · cases h
    · rename_i hup
      cases h
      obtain ⟨-, hy, hx⟩ := lastSegment_spec hls
      refine ⟨before, by simpa using hls, hy, ⟨by simpa using hx, fun hN => hup ?_⟩⟩
      simpa using congrArg String.toList hN
  · cases h

end Segments

/-! ## Replacing the file name -/

section Join

open Path

/-- What `join` puts between a base and a relative path. -/
def joinSeparator (base : Path) : List Char :=
  if base.isEmpty || base.endsWith "/" then [] else ['/']

theorem isAbsolute_iff {p : Path} : isAbsolute p = true ↔ p.toList.head? = some '/' := by
  simp [isAbsolute, List.singleton_prefix_iff_head?_eq_some]

theorem IsName.isAbsolute_eq {X : String} (hX : IsName X) : isAbsolute X = false := by
  rcases Bool.eq_false_or_eq_true (isAbsolute X) with h | h
  · obtain ⟨t, ht⟩ := List.head?_eq_some_iff.1 (isAbsolute_iff.1 h)
    exact absurd (by simp [ht]) hX.piece.no_slash
  · exact h

theorem join_toList (base : Path) {X : Path} (hX : isAbsolute X = false) :
    (join base X).toList = base.toList ++ joinSeparator base ++ X.toList := by
  have hX' : X.startsWith "/" = false := hX
  unfold Path.join joinSeparator
  rw [if_neg (by simp [hX'])]
  split <;> simp

theorem openEnd_joinSeparator (base : Path) : OpenEnd (base.toList ++ joinSeparator base) := by
  unfold joinSeparator
  split
  · rename_i h
    rcases Bool.or_eq_true_iff.1 h with he | he
    · exact Or.inl (by simp [String.isEmpty_iff.1 he])
    · obtain ⟨z, hz⟩ : ['/'] <:+ base.toList := by simpa [← String.endsWith_toSlice] using he
      exact Or.inr ⟨z, by simp [← hz]⟩
  · exact Or.inr ⟨base.toList, rfl⟩

theorem stepsOf_joinSeparator (base : Path) :
    stepsOf (base.toList ++ joinSeparator base) = stepsOf base.toList := by
  unfold joinSeparator
  split
  · simp
  · exact stepsOf_append_slash_nil _

theorem withFileName_eq {p : Path} {N : String} (h : fileName p = some N) (X : String) :
    withFileName p X = join ((parent p).getD "") X := by
  simp [withFileName, h]

theorem parent_of_lastSegment {p : Path} {x y : List Char} (h : lastSegment p = some (x, y)) :
    parent p = some (ofList (p.toList.take (headLength p.toList) ++ trimEnd y)) := by
  simp [parent, h]

/-- The part of a path before its file name lies within the path after its head. -/
theorem before_isPrefix {p : Path} {N : String} {y : List Char}
    (hls : lastSegment p = some (N.toList, y)) : y <+: p.toList.drop (headLength p.toList) :=
  (List.prefix_append y N.toList).trans ((lastSegment_spec hls).1 ▸ trimEnd_isPrefix _)

/-- Replacing the file name of a path replaces its last step and keeps the steps before. -/
theorem steps_withFileName {p : Path} {N X : String} (hN : fileName p = some N)
    (hX : IsName X) :
    ∃ dir, Disk.steps p = dir ++ [N] ∧ Disk.steps (withFileName p X) = dir ++ [X] := by
  obtain ⟨y, hls, hy, hname⟩ := fileName_spec hN
  have hb := (lastSegment_spec hls).1
  refine ⟨stepsOf y, ?_, ?_⟩
  · rw [steps_eq_stepsOf, ← stepsOf_drop_headLength, ← stepsOf_trimEnd]
    change stepsOf (body p) = _
    rw [hb, stepsOf_openEnd_append hy hname.piece, String.ofList_toList]
  · rw [withFileName_eq hN, parent_of_lastSegment hls, Option.getD_some, steps_eq_stepsOf,
      join_toList _ hX.isAbsolute_eq, stepsOf_openEnd_append (openEnd_joinSeparator _) hX.piece,
      stepsOf_joinSeparator, String.toList_ofList,
      stepsOf_take_headLength_append ((trimEnd_isPrefix y).trans (before_isPrefix hls)),
      stepsOf_trimEnd, String.ofList_toList]

theorem head?_of_prefix {l₁ l₂ : List Char} (h : l₁ <+: l₂) (hne : l₁ ≠ []) :
    l₁.head? = l₂.head? := by
  obtain ⟨t, rfl⟩ := h
  obtain ⟨c, u, rfl⟩ := List.exists_cons_of_ne_nil hne
  rfl

/-- Replacing the file name keeps a path absolute or relative. -/
theorem isAbsolute_withFileName {p : Path} {N X : String} (hN : fileName p = some N)
    (hX : IsName X) : isAbsolute (withFileName p X) = isAbsolute p := by
  obtain ⟨y, hls, -, -⟩ := fileName_spec hN
  -- the new base is a prefix of the path, empty only when the path has no root
  have hbase : p.toList.take (headLength p.toList) ++ trimEnd y <+: p.toList := by
    have := (List.prefix_append_right_inj (p.toList.take (headLength p.toList))).2
      ((trimEnd_isPrefix y).trans (before_isPrefix hls))
    rwa [List.take_append_drop] at this
  have hX' : X.toList.head? ≠ some '/' := fun h => by
    obtain ⟨t, ht⟩ := List.head?_eq_some_iff.1 h
    exact hX.piece.no_slash (by simp [ht])
  rw [Bool.eq_iff_iff, isAbsolute_iff, isAbsolute_iff, withFileName_eq hN,
    parent_of_lastSegment hls, Option.getD_some, join_toList _ hX.isAbsolute_eq,
    String.toList_ofList]
  by_cases hnil : p.toList.take (headLength p.toList) ++ trimEnd y = []
  · have hroot : p.toList.head? ≠ some '/' := fun h => by
      obtain ⟨t, ht⟩ := List.head?_eq_some_iff.1 h
      simp [ht, headLength] at hnil
    rw [hnil]
    simp [joinSeparator, hX', hroot]
  · obtain ⟨c, u, hcu⟩ := List.exists_cons_of_ne_nil hnil
    rw [← head?_of_prefix hbase hnil, hcu]
    simp

theorem headLength_append_le {v x : List Char} (hv : OpenEnd v) (hx : IsPiece x) :
    headLength (v ++ x) ≤ v.length := by
  rcases hv with rfl | ⟨z, rfl⟩
  · -- a piece has no head
    simp only [List.nil_append, List.length_nil, Nat.le_zero]
    unfold headLength
    split
    · exact absurd (by simp) hx.no_slash
    · exact absurd rfl hx.ne_dot
    · exact absurd (by simp) hx.no_slash
    · rfl
  · unfold headLength
    split <;> simp

theorem OpenEnd.drop {v : List Char} (hv : OpenEnd v) {k : Nat} (hk : k ≤ v.length) :
    OpenEnd (v.drop k) := by
  rcases hv with rfl | ⟨z, rfl⟩
  · exact Or.inl List.drop_nil
  · rcases Nat.lt_or_ge k (z.length + 1) with hlt | hge
    · exact Or.inr ⟨z.drop k, List.drop_append_of_le_length (by omega)⟩
    · exact Or.inl (List.drop_eq_nil_of_le (by simp; omega))

/-- Replacing the file name gives a path whose file name is the new one. -/
theorem fileName_withFileName {p : Path} {N X : String} (hN : fileName p = some N)
    (hX : IsName X) : fileName (withFileName p X) = some X := by
  have hv := openEnd_joinSeparator ((parent p).getD "")
  have hcs : (withFileName p X).toList =
      (((parent p).getD "").toList ++ joinSeparator ((parent p).getD "")) ++ X.toList := by
    rw [withFileName_eq hN, join_toList _ hX.isAbsolute_eq]
  have hle := headLength_append_le hv hX.piece
  have hbody : body (withFileName p X) =
      (((parent p).getD "").toList ++ joinSeparator ((parent p).getD "")).drop
        (headLength (withFileName p X).toList) ++ X.toList := by
    simp only [body]
    rw [hcs, List.drop_append_of_le_length hle, trimEnd_append_piece _ hX.piece]
  rw [fileName, lastSegment_of_body hbody (hv.drop (hcs ▸ hle)) hX.piece]
  have hup : (X.toList == ['.', '.']) = false := by
    simpa using fun h => hX.ne_up (by simpa using congrArg ofList h)
  simp [hup]

end Join

/-! ## Where sibling paths lead on a disk -/

section Resolve

open Path

theorem foldl_climb_append_name (start dir : List String) {N : String} (hN : N ≠ "..") :
    (dir ++ [N]).foldl climb start = dir.foldl climb start ++ [N] := by
  simp [List.foldl_append, climb, hN]

/-- A path and the path with its file name replaced locate two names in one directory. -/
theorem locate_withFileName (d : Disk) {p : Path} {N X : String} (hN : fileName p = some N)
    (hX : IsName X) :
    ∃ dir, d.locate p = dir ++ [N] ∧ d.locate (withFileName p X) = dir ++ [X] := by
  obtain ⟨steps, hp, hq⟩ := steps_withFileName hN hX
  obtain ⟨-, -, -, hname⟩ := fileName_spec hN
  refine ⟨steps.foldl climb (if isAbsolute p then [] else d.cwd), ?_, ?_⟩
  · rw [Disk.locate, resolveSegments_eq_foldl, hp, foldl_climb_append_name _ _ hname.ne_up]
  · rw [Disk.locate, resolveSegments_eq_foldl, hq, isAbsolute_withFileName hN hX,
      foldl_climb_append_name _ _ hX.ne_up]

/-- A path and the path with its file name replaced are reached through the same directories:
both walks succeed or fail together, and end in the two names. -/
theorem reach_withFileName (d : Disk) {p : Path} {N X : String} (hN : fileName p = some N)
    (hX : IsName X) :
    ∃ e : Except IoFault (List String),
      d.reach p = (· ++ [N]) <$> e ∧ d.reach (withFileName p X) = (· ++ [X]) <$> e := by
  obtain ⟨steps, hp, hq⟩ := steps_withFileName hN hX
  obtain ⟨-, -, -, hname⟩ := fileName_spec hN
  have hN' : (N == "..") = false := by simpa using hname.ne_up
  have hX' : (X == "..") = false := by simpa using hX.ne_up
  unfold Disk.reach
  rw [hp, hq, isAbsolute_withFileName hN hX]
  simp only [List.getLast?_append, List.getLast?_singleton, Option.some_or,
    List.dropLast_concat, hN', hX', Bool.false_eq_true, if_false]
  exact ⟨_, bind_pure_comp _ _, bind_pure_comp _ _⟩

/-- A walk of steps that only succeeds as the climb does gives the climb. -/
theorem foldlM_eq_foldl_climb {F : List String → String → Except IoFault (List String)}
    (hF : ∀ acc s r, F acc s = .ok r → r = climb acc s) :
    ∀ {l : List String} {init r : List String}, l.foldlM F init = .ok r →
      r = l.foldl climb init
  | [], init, r, h => by
    simp only [List.foldlM_nil] at h
    cases h
    rfl
  | s :: l, init, r, h => by
    simp only [List.foldlM_cons] at h
    cases hs : F init s with
    | error e => simp [hs, bind, Except.bind] at h
    | ok a =>
      simp only [hs, bind, Except.bind] at h
      rw [List.foldl_cons, ← hF _ _ _ hs]
      exact foldlM_eq_foldl_climb hF h

/-- What a successful walk reaches is where the path resolves. -/
theorem reach_eq_locate {d : Disk} {p : Path} {s : List String} (h : d.reach p = .ok s) :
    s = d.locate p := by
  rw [Disk.locate, resolveSegments_eq_foldl]
  unfold Disk.reach at h
  cases hl : (Disk.steps p).getLast? with
  | none =>
    simp only [hl] at h
    cases h
    rw [List.getLast?_eq_none_iff.1 hl]
    rfl
  | some last =>
    obtain ⟨ys, hys⟩ := List.getLast?_eq_some_iff.1 hl
    rw [hys] at h ⊢
    simp only [List.getLast?_append, List.getLast?_singleton, Option.some_or, List.dropLast_concat,
      bind, Except.bind] at h
    split at h
    · cases h
    · rename_i acc hacc
      cases h
      rw [List.foldl_append, List.foldl_cons, List.foldl_nil,
        ← foldlM_eq_foldl_climb (fun acc s r hr => ?_) hacc]
      · rfl
      · -- one step of the walk: `..` goes up, anything else goes down to a directory
        split at hr
        · cases hr
          simp_all [climb]
        · split at hr <;> cases hr
          simp_all [climb]

end Resolve

end EntityLog.Files
