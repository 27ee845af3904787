import EntityLog.Json.Reader
/-!
# Running readers at a known cursor

The readers of JSON text move a cursor over the input bytes. Here they are run on inputs whose
bytes at the cursor are known: `Spells input i bytes` says that the input holds `bytes` from index
`i` on, and `Read.Runs x input i a j` that the reader `x`, started at index `i`, gives `a` and
leaves the cursor at index `j`.

Each combinator of the reading monad and each token reader gets one lemma saying how it runs, so
that a whole decoder is run by chaining these lemmas, never by unfolding the monad again.
-/

namespace EntityLog.Json

open Read

/-! ## Bytes at the cursor -/

/-- The input holds `bytes` from index `i` on. -/
def Spells (input : ByteArray) (i : Nat) (bytes : List UInt8) : Prop :=
  bytes <+: input.data.toList.drop i

theorem getElem?_eq_data (input : ByteArray) (i : Nat) :
    input[i]? = input.data.toList[i]? := by
  by_cases hi : i < input.size
  · simp [hi, ByteArray.getElem_eq_getElem_data]
  · simp [hi]

theorem spells_append {input : ByteArray} {i : Nat} {front back : List UInt8} :
    Spells input i (front ++ back) ↔
      Spells input i front ∧ Spells input (i + front.length) back := by
  unfold Spells
  constructor
  · rintro ⟨tail, htail⟩
    refine ⟨⟨back ++ tail, by simpa using htail⟩, ⟨tail, ?_⟩⟩
    have hdrop := congrArg (List.drop front.length) htail
    simp only [List.drop_drop, List.append_assoc, List.drop_left] at hdrop
    exact hdrop
  · rintro ⟨⟨tail, htail⟩, ⟨tail', htail'⟩⟩
    have hrest : tail = back ++ tail' := by
      rw [htail', ← List.drop_drop, ← htail, List.drop_left]
    refine ⟨tail', ?_⟩
    rw [← htail, hrest, List.append_assoc]

theorem Spells.left {input : ByteArray} {i : Nat} {front back : List UInt8}
    (h : Spells input i (front ++ back)) : Spells input i front :=
  (spells_append.1 h).1

theorem Spells.right {input : ByteArray} {i : Nat} {front back : List UInt8}
    (h : Spells input i (front ++ back)) : Spells input (i + front.length) back :=
  (spells_append.1 h).2

theorem Spells.tail {input : ByteArray} {i : Nat} {b : UInt8} {rest : List UInt8}
    (h : Spells input i (b :: rest)) : Spells input (i + 1) rest :=
  @Spells.right _ _ [b] _ h

theorem Spells.getElem? {input : ByteArray} {i : Nat} {b : UInt8} {rest : List UInt8}
    (h : Spells input i (b :: rest)) : input[i]? = some b := by
  obtain ⟨tail, htail⟩ := h
  have hhead := congrArg List.head? htail
  simp only [List.cons_append, List.head?_cons, List.head?_drop] at hhead
  rw [getElem?_eq_data, hhead]

theorem Spells.lt_size {input : ByteArray} {i : Nat} {b : UInt8} {rest : List UInt8}
    (h : Spells input i (b :: rest)) : i < input.size := by
  have hsome := h.getElem?
  rw [getElem?_eq_data] at hsome
  have hlt := (List.getElem?_eq_some_iff.1 hsome).1
  simpa using hlt

theorem Spells.getElem_eq {input : ByteArray} {i : Nat} {b : UInt8} {rest : List UInt8}
    (h : Spells input i (b :: rest)) (hi : i < input.size) : input[i] = b := by
  have hsome := h.getElem?
  rw [getElem?_pos input i hi] at hsome
  exact Option.some.inj hsome

theorem Spells.le_size {input : ByteArray} {i : Nat} {bytes : List UInt8}
    (h : Spells input i bytes) (hne : bytes ≠ []) : i + bytes.length ≤ input.size := by
  have hpos : 0 < bytes.length := List.length_pos_iff.2 hne
  obtain ⟨tail, htail⟩ := h
  have hlength := congrArg List.length htail
  simp only [List.length_append, List.length_drop, Array.length_toList,
    ByteArray.size_data] at hlength
  omega

/-- At the end of the input nothing is left to read. -/
theorem getElem?_size (input : ByteArray) : input[input.size]? = none := by
  simp

/-! ## How the monad runs -/

namespace Read

/-- Running `x` from index `i` of `input` gives `a` and leaves the cursor at index `j`. -/
def Runs {α : Type} (x : Read α) (input : ByteArray) (i : Nat) (a : α) (j : Nat) : Prop :=
  (x.run.run ⟨input, i⟩).run = (.ok a, ⟨input, j⟩)

theorem run_eq {α : Type} (x : Read α) : x.run = x := rfl

variable {α β : Type} {input : ByteArray} {i j k : Nat}

theorem Runs.bind {x : Read α} {f : α → Read β} {a : α} {b : β}
    (hx : Runs x input i a j) (hf : Runs (f a) input j b k) : Runs (x >>= f) input i b k := by
  unfold Runs at *
  simp only [ExceptT.run_bind, StateT.run_bind, Id.run_bind, run_eq] at hx hf ⊢
  rw [hx]
  exact hf

theorem Runs.pure {a : α} : Runs (Pure.pure a) input i a i := rfl

theorem Runs.map {x : Read α} {f : α → β} {a : α}
    (hx : Runs x input i a j) : Runs (f <$> x) input i (f a) j := by
  rw [← bind_pure_comp]
  exact hx.bind Runs.pure

theorem Runs.get : Runs (MonadState.get : Read Cursor) input i ⟨input, i⟩ i := rfl

theorem Runs.peek : Runs peek input i input[i]? i := rfl

theorem Runs.advance : Runs advance input i () (i + 1) := rfl

theorem Runs.jump : Runs (jump j) input i () j := rfl

theorem Runs.ofExcept {a : α} : Runs (ofExcept (.ok a)) input i a i := rfl

theorem Runs.tryCatch {x : Read α} {handle : Error → Read α} {a : α}
    (hx : Runs x input i a j) : Runs (tryCatch x handle) input i a j := by
  unfold Runs at *
  show ((ExceptT.tryCatch x handle).run.run _).run = _
  simp only [ExceptT.tryCatch, ExceptT.run_mk, StateT.run_bind, Id.run_bind, run_eq] at hx ⊢
  rw [hx]
  rfl

theorem Runs.located {x : Read α} {a : α} (hx : Runs x input i a j) :
    Runs (located x) input i a j :=
  hx.tryCatch

theorem Runs.attempt {x : Read α} {a : α} (hx : Runs x input i a j) :
    Runs (attempt x) input i (.ok a) j := by
  unfold Runs at *
  simp only [Read.attempt, ExceptT.run_lift, StateT.run_map, Id.run_map, run_eq] at hx ⊢
  rw [hx]

/-- A body that succeeds, closed by a closing step that succeeds, gives the body's value. -/
theorem Runs.closedBy {x : Read α} {close : Read Unit} {a : α}
    (hx : Runs x input i a j) (hclose : Runs close input j () k) :
    Runs (closedBy x close) input i a k :=
  hx.attempt.bind (hclose.attempt.bind Runs.pure)

end Read

/-! ## Blanks, literals and brackets -/

/-- At a byte that is no blank, the blanks end where they start. -/
theorem blankEnd_of_spells {input : ByteArray} {i : Nat} {b : UInt8} {rest : List UInt8}
    (h : Spells input i (b :: rest)) (hb : isJsonBlank b = false) : blankEnd input i = i := by
  have hi := h.lt_size
  rw [blankEnd, dif_pos hi, h.getElem_eq hi, hb]
  rfl

theorem blankEnd_size (input : ByteArray) : blankEnd input input.size = input.size := by
  rw [blankEnd, dif_neg (Nat.lt_irrefl _)]

namespace Read

variable {input : ByteArray} {i : Nat}

theorem Runs.skipBlanks {b : UInt8} {rest : List UInt8}
    (h : Spells input i (b :: rest)) (hb : isJsonBlank b = false) :
    Runs Json.skipBlanks input i (some b) i := by
  have hend := blankEnd_of_spells h hb
  have hpeek : Runs Read.peek input i (some b) i := by
    rw [← h.getElem?]
    exact Runs.peek
  refine Runs.get.bind ?_
  rw [hend]
  exact Runs.jump.bind hpeek

theorem Runs.skipBlanks_end : Runs Json.skipBlanks input input.size none input.size := by
  refine Runs.get.bind ?_
  rw [blankEnd_size]
  exact Runs.jump.bind (by rw [← getElem?_size input]; exact Runs.peek)

theorem Runs.expectIdent {lits : List UInt8} (h : Spells input i lits) :
    Runs (Json.expectIdent lits) input i () (i + lits.length) := by
  induction lits generalizing i with
  | nil => exact Runs.pure
  | cons b rest ih =>
      have hnext := ih h.tail
      have hpeek : Runs Read.peek input i (some b) i := by
        rw [← h.getElem?]
        exact Runs.peek
      refine hpeek.bind (Runs.advance.bind ?_)
      simp only [beq_self_eq_true, ite_true, List.length_cons]
      rw [show i + (rest.length + 1) = i + 1 + rest.length by omega]
      exact hnext

theorem Runs.expectColon {rest : List UInt8} (h : Spells input i (58 :: rest)) :
    Runs Json.expectColon input i () (i + 1) :=
  (Runs.skipBlanks h (by decide)).bind Runs.advance

theorem Runs.closeObject {rest : List UInt8} (h : Spells input i (125 :: rest)) :
    Runs Json.closeObject input i () (i + 1) :=
  (Runs.skipBlanks h (by decide)).bind Runs.advance

theorem Runs.expectEnd : Runs Json.expectEnd input input.size () input.size :=
  Runs.skipBlanks_end.bind Runs.pure

theorem Runs.enter {depth : Nat} (hdepth : 1 < depth) :
    Runs (Json.enter depth) input i (depth - 1) (i + 1) := by
  unfold Json.enter
  rw [if_neg (by omega)]
  exact Runs.advance.bind Runs.pure

theorem Runs.fuelLeft : Runs Json.fuelLeft input i (input.size - i + 1) i :=
  Runs.get.bind Runs.pure

end Read

end EntityLog.Json
