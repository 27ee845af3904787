import EntityLog.Proofs.Json.Values
import EntityLog.Proofs.Time.Timestamps
/-!
# Numbers read back

A natural number is written as its decimal digits, one byte each (`textBytes_toString`). The
number reader takes digits onto a value while the value stays within 64 bits
(`takeDigits_digits`), so it takes every digit of a number that fits, and the comma or closing
brace after the digits ends the number: the text of `n` is read back as the unsigned number `n`,
and by an unsigned decoder whose bound `n` is within (`ValueReads.unsigned`).
-/

namespace EntityLog.Json

open Read EntityLog.Time

/-! ## The bytes of digits -/

/-- The bytes of a list of digit characters. -/
def digitBytes (cs : List Char) : List UInt8 := cs.map fun c => c.toNat.toUInt8

theorem utf8EncodeChar_digitChar : ∀ d, d < 10 →
    String.utf8EncodeChar (Nat.digitChar d) = [(48 + d).toUInt8] := by
  decide

theorem toNat_digitChar : ∀ d, d < 10 → (Nat.digitChar d).toNat = 48 + d := by
  decide

theorem textBytes_toString (n : Nat) : textBytes (toString n) = digitBytes (Nat.toDigits 10 n) := by
  rw [textBytes, ← utf8Encode_toList, toList_toString]
  have hc : ∀ c ∈ Nat.toDigits 10 n, String.utf8EncodeChar c = [c.toNat.toUInt8] := by
    intro c hc
    obtain ⟨d, hd, rfl⟩ := exists_digitChar_of_mem_toDigits (by decide) hc
    rw [utf8EncodeChar_digitChar d hd, toNat_digitChar d hd]
  rw [List.utf8Encode, List.flatMap_congr hc]
  simp [digitBytes, List.map_eq_flatMap]

theorem toNat_digitByte {c : Char} (hc : c.isDigit = true) :
    c.toNat.toUInt8.toNat = c.toNat := by
  simp only [Char.isDigit, Bool.and_eq_true, decide_eq_true_eq] at hc
  have : c.toNat ≤ 57 := hc.2
  rw [Nat.toUInt8, UInt8.toNat_ofNat']
  omega

theorem digit_bounds {c : Char} (hc : c.isDigit = true) : 48 ≤ c.toNat ∧ c.toNat ≤ 57 := by
  simp only [Char.isDigit, Bool.and_eq_true, decide_eq_true_eq] at hc
  exact ⟨hc.1, hc.2⟩

/-! ## Taking digits -/

/-- Reading more digits never lowers the value. -/
theorem le_ofDigitChars : ∀ (cs : List Char) (init : Nat), init ≤ Nat.ofDigitChars 10 cs init
  | [], init => by simp [Nat.ofDigitChars_nil]
  | c :: cs, init => by
    rw [Nat.ofDigitChars_cons]
    have := le_ofDigitChars cs (10 * init + (c.toNat - '0'.toNat))
    omega

/-- Digits followed by a byte that is no digit are all taken when their value stays within the
bound, and the run stops at that byte. -/
theorem takeDigits_digits {input : ByteArray} {bound : Nat} {c : UInt8}
    (hc : ¬(48 ≤ c.toNat ∧ c.toNat ≤ 57)) :
    ∀ {cs : List Char} {i acc taken : Nat}, (∀ x ∈ cs, x.isDigit = true) →
      Spells input i (digitBytes cs ++ [c]) → Nat.ofDigitChars 10 cs acc ≤ bound →
      takeDigits input bound i acc taken =
        (Nat.ofDigitChars 10 cs acc, i + cs.length, taken + cs.length)
  | [], i, acc, taken, _, h, _ => by
    -- the byte after the digits stops the run
    have hi := h.lt_size
    rw [takeDigits, dif_pos hi, h.getElem_eq hi]
    have hstop : (48 ≤ c && c ≤ 57 && acc * 10 + (c.toNat - 48) ≤ bound) = false := by
      simp only [Bool.and_eq_false_iff, decide_eq_false_iff_not, UInt8.le_iff_toNat_le]
      left
      have hc' : c.toNat < 48 ∨ 57 < c.toNat := by omega
      simpa using hc'
    simp [hstop, Nat.ofDigitChars_nil]
  | x :: cs, i, acc, taken, hds, h, hb => by
    have hx := hds x (by simp)
    have hi := h.lt_size
    have hbyte := toNat_digitByte hx
    have hxb := digit_bounds hx
    have hnext : acc * 10 + (x.toNat - 48) ≤ Nat.ofDigitChars 10 cs (10 * acc + (x.toNat - 48)) := by
      have := le_ofDigitChars cs (10 * acc + (x.toNat - 48))
      omega
    rw [Nat.ofDigitChars_cons] at hb
    have hzero : '0'.toNat = 48 := rfl
    rw [hzero] at hb
    rw [takeDigits, dif_pos hi, h.getElem_eq hi]
    dsimp only
    have htake : (48 ≤ x.toNat.toUInt8 && x.toNat.toUInt8 ≤ 57 &&
        acc * 10 + (x.toNat.toUInt8.toNat - 48) ≤ bound) = true := by
      simp only [Bool.and_eq_true, decide_eq_true_eq, UInt8.le_iff_toNat_le, hbyte]
      exact ⟨⟨by simpa using hxb.1, by simpa using hxb.2⟩, by omega⟩
    rw [if_pos htake, hbyte]
    rw [takeDigits_digits hc (fun y hy => hds y (List.mem_cons_of_mem x hy)) h.tail
      (by rwa [Nat.mul_comm])]
    simp only [Nat.ofDigitChars_cons, hzero, List.length_cons, Nat.mul_comm 10 acc]
    refine Prod.ext rfl (Prod.ext ?_ ?_) <;> simp <;> omega

/-- A number written with a leading zero is zero itself, written as that one digit. -/
theorem toDigits_eq_zero_cons {n : Nat} {ds : List Char} (h : Nat.toDigits 10 n = '0' :: ds) :
    n = 0 ∧ ds = [] := by
  have hval : n = Nat.ofDigitChars 10 ds 0 := by
    rw [← Nat.ofDigitChars_ten_toDigits (n := n), h, Nat.ofDigitChars_cons]
    rfl
  have hds : ∀ x ∈ ds, x.isDigit = true := fun x hx =>
    isDigit_of_mem_toDigits (n := n) (by rw [h]; exact List.mem_cons_of_mem _ hx)
  have hlt : n < 10 ^ ds.length := by simpa [← hval] using ofDigitChars_lt hds 0
  cases ds with
  | nil => exact ⟨by simpa using hlt, rfl⟩
  | cons x xs =>
    -- a number below `10 ^ k` has at most `k` digits
    have hlen := (Nat.length_toDigits_le_iff (by decide) (by simp)).2 hlt
    rw [h, List.length_cons, List.length_cons] at hlen
    exact absurd hlen (by omega)

theorem digitAt_of_spells {input : ByteArray} {i : Nat} {c : UInt8} {rest : List UInt8}
    (h : Spells input i (c :: rest)) : digitAt input i = (48 ≤ c && c ≤ 57) := by
  rw [digitAt, h.getElem?]

/-! ## Reading a number -/

namespace Read

variable {input : ByteArray} {i : Nat}

/-- A comma or a closing brace ends a whole number. -/
theorem Runs.readNumberTail_end {c : UInt8} {rest : List UInt8} (hc : c = 44 ∨ c = 125)
    (h : Spells input i (c :: rest)) (n : Nat) :
    Runs (readNumberTail true n) input i (.unsigned n) i := by
  have hpeek : Runs Read.peek input i (some c) i := by
    rw [← h.getElem?]
    exact Runs.peek
  refine hpeek.bind ?_
  rcases hc with rfl | rfl <;> exact Runs.pure

/-- The digits of a number that fits 64 bits, followed by a comma or a closing brace, are read as
that number. -/
theorem Runs.readNumber_toString {n : Nat} {c : UInt8} (hn : n ≤ u64Max) (hc : c = 44 ∨ c = 125)
    (h : Spells input i (textBytes (toString n) ++ [c])) :
    Runs (readNumber true) input i (.unsigned n) (i + (textBytes (toString n)).length) := by
  have hcstop : ¬(48 ≤ c.toNat ∧ c.toNat ≤ 57) := by rcases hc with rfl | rfl <;> decide
  have hcdigit : (48 ≤ c && c ≤ 57) = false := by rcases hc with rfl | rfl <;> decide
  rw [textBytes_toString] at h ⊢
  obtain ⟨d, ds, hdigits⟩ := List.exists_cons_of_ne_nil (Nat.toDigits_ne_nil (b := 10) (n := n))
  rw [hdigits] at h ⊢
  have hall : ∀ x ∈ d :: ds, x.isDigit = true := fun x hx =>
    isDigit_of_mem_toDigits (n := n) (by rw [hdigits]; exact hx)
  have hpeek : Runs Read.peek input i (some d.toNat.toUInt8) i := by
    rw [← h.getElem?]
    exact Runs.peek
  refine hpeek.bind (Runs.advance.bind ?_)
  have hrest : Spells input (i + 1) (digitBytes ds ++ [c]) := h.tail
  by_cases hd : d = '0'
  · -- zero: the one digit `0`, which no digit may follow
    subst hd
    obtain ⟨rfl, rfl⟩ := toDigits_eq_zero_cons hdigits
    have hbyte : ('0'.toNat.toUInt8 == 48) = true := by decide
    simp only [hbyte, ite_true]
    refine Runs.get.bind ?_
    rw [digitAt_of_spells hrest, hcdigit]
    exact Runs.readNumberTail_end hc hrest 0
  · -- a leading digit other than zero: the rest of the digits are taken onto it
    have hdb := digit_bounds (hall d List.mem_cons_self)
    have hdt := toNat_digitByte (hall d List.mem_cons_self)
    have hd48 : d.toNat ≠ 48 := fun h48 => hd (Char.ext (UInt32.ext (by simpa using h48)))
    have hbyte : (d.toNat.toUInt8 == 48) = false := by
      rw [beq_eq_false_iff_ne]
      intro heq
      exact hd48 (by rw [← hdt, heq]; rfl)
    have hlead : (49 ≤ d.toNat.toUInt8 && d.toNat.toUInt8 ≤ 57) = true := by
      simp only [Bool.and_eq_true, decide_eq_true_eq, UInt8.le_iff_toNat_le, hdt]
      exact ⟨by simp; omega, by simpa using hdb.2⟩
    have hval : Nat.ofDigitChars 10 ds (d.toNat - 48) = n := by
      have := Nat.ofDigitChars_ten_toDigits (n := n)
      rw [hdigits, Nat.ofDigitChars_cons] at this
      simpa using this
    have htake := @takeDigits_digits _ u64Max _ hcstop ds _ (d.toNat - 48) 0
      (fun x hx => hall x (List.mem_cons_of_mem d hx)) hrest (by rw [hval]; exact hn)
    simp only [hbyte, hlead, Bool.false_eq_true, ite_false, ite_true]
    refine Runs.get.bind ?_
    rw [hdt, htake, hval]
    refine Runs.jump.bind ?_
    have hend : Spells input (i + 1 + ds.length) [c] := by
      simpa [digitBytes] using hrest.right
    rw [digitAt_of_spells hend, hcdigit]
    refine (Runs.readNumberTail_end hc hend n).cast_index ?_
    simp [digitBytes]
    omega

end Read

/-- The text of a natural number is read by an unsigned decoder as that number, when it is within
the decoder's bound and 64 bits. -/
theorem ValueReads.unsigned {expected : String} {bound n : Nat} {s : Scope} (hn : n ≤ bound)
    (hmax : n ≤ u64Max) : ValueReads (Decoder.unsigned expected bound s) (toString n) n := by
  intro input i c hc h
  obtain ⟨d, ds, hdigits⟩ := List.exists_cons_of_ne_nil (Nat.toDigits_ne_nil (b := 10) (n := n))
  have hdb := digit_bounds (isDigit_of_mem_toDigits (n := n) (by rw [hdigits]; exact List.mem_cons_self))
  have hstart : Spells input i (d.toNat.toUInt8 :: (digitBytes ds ++ [c])) := by
    rw [textBytes_toString, hdigits] at h
    exact h
  have hdt : d.toNat.toUInt8.toNat = d.toNat := toNat_digitByte
    (isDigit_of_mem_toDigits (n := n) (by rw [hdigits]; exact List.mem_cons_self))
  have hblank : isJsonBlank d.toNat.toUInt8 = false := by
    simp only [isJsonBlank, Bool.or_eq_false_iff, beq_eq_false_iff_ne, ne_eq, ← UInt8.toNat_inj,
      hdt]
    simp
    omega
  refine Runs.located ((Runs.skipBlanks hstart hblank).bind ?_)
  split
  next heq => exact absurd heq (by simp)
  next heq =>
    -- a digit is no minus sign
    rw [Option.some.inj heq] at hdt
    exact absurd hdt (by simp; omega)
  next b _ heq =>
    obtain rfl := Option.some.inj heq
    have hdigit : (48 ≤ d.toNat.toUInt8 && d.toNat.toUInt8 ≤ 57) = true := by
      simp only [Bool.and_eq_true, decide_eq_true_eq, UInt8.le_iff_toNat_le, hdt]
      exact ⟨by simpa using hdb.1, by simpa using hdb.2⟩
    rw [if_pos hdigit]
    refine (Runs.readNumber_toString hmax hc h).bind ?_
    simp only [if_pos hn]
    exact Runs.ofExcept

end EntityLog.Json
