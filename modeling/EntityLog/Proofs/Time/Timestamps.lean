import EntityLog.Proofs.Time.Calendar
import Mathlib
/-!
# Timestamps read back

An instant is written as its date, its clock and the fewest fraction digits that are exact, in
UTC (`Instant.render`), and read leniently (`Instant.parse`). Here the text of every valid
instant is read back as the instant (`Instant.parse_render`), and every instant read from a text is
valid (`Instant.valid_of_parse`).

An instant is valid (`Instant.Valid`) when the calendar can hold it: a second of the day,
nanoseconds below a second except in a leap second, which is the last second of a minute, and a
year within the calendar's range. These are the instants a clock reading can give, and exactly
those whose text tells them apart.

Each part of the text is read by its own scanner, so each part gets a lemma saying what its
scanner reads from the part followed by the rest of the text; the digits of all the numeric
parts are one form, `paddedDigits`.
-/

namespace EntityLog.Time

open EntityLog.Text

/-! ## Steps of a reader that may fail -/

@[simp] theorem except_ok_bind {ε α β : Type} (a : α) (f : α → Except ε β) :
    (Except.ok a >>= f) = f a := rfl

@[simp] theorem except_error_bind {ε α β : Type} (e : ε) (f : α → Except ε β) :
    (Except.error e >>= f) = Except.error e := rfl

theorem except_bind_eq_ok {ε α β : Type} {x : Except ε α} {f : α → Except ε β} {b : β} :
    (x >>= f) = .ok b ↔ ∃ a, x = .ok a ∧ f a = .ok b := by
  cases x with
  | error e =>
    simp only [reduceCtorEq, false_and, exists_false, iff_false]
    exact fun h => nomatch h
  | ok a => simp only [Except.ok.injEq, exists_eq_left']; rfl


/-! ## Digits -/

/-- `n` in decimal digits, with zeros in front up to `width` digits. -/
def paddedDigits (width n : Nat) : List Char :=
  List.replicate (width - (Nat.toDigits 10 n).length) '0' ++ Nat.toDigits 10 n

theorem toList_toString (n : Nat) : (toString n).toList = Nat.toDigits 10 n := by
  rw [Nat.toString_eq_repr, Nat.toList_repr]

theorem length_repr (n : Nat) : n.repr.length = (Nat.toDigits 10 n).length := by
  rw [← String.length_toList, Nat.toList_repr]

theorem zeros_toList (k : Nat) : (Decimal.zeros k).toList = List.replicate k '0' := by
  simp [Decimal.zeros]

/-- Every character of a number's digits in base `b` is the digit character of a digit
below `b`. -/
theorem exists_digitChar_of_mem_toDigits {b n : Nat} {c : Char} (hb : 1 < b)
    (hc : c ∈ Nat.toDigits b n) : ∃ d, d < b ∧ c = Nat.digitChar d := by
  induction n using Nat.strongRecOn with
  | ind n ih =>
    rw [Nat.toDigits_eq_if hb] at hc
    split at hc
    · rw [List.mem_singleton] at hc
      exact ⟨n, by assumption, hc⟩
    · rw [List.mem_append, List.mem_singleton] at hc
      rcases hc with hc | hc
      · exact ih (n / b) (Nat.div_lt_self (by omega) hb) hc
      · exact ⟨n % b, Nat.mod_lt _ (by omega), hc⟩

theorem isDigit_of_mem_toDigits {n : Nat} {c : Char} (hc : c ∈ Nat.toDigits 10 n) :
    c.isDigit = true := by
  obtain ⟨d, hd, rfl⟩ := exists_digitChar_of_mem_toDigits (by decide) hc
  simpa [Nat.isDigit_digitChar] using hd

theorem isDigit_of_mem_paddedDigits {width n : Nat} {c : Char} (hc : c ∈ paddedDigits width n) :
    c.isDigit = true := by
  rw [paddedDigits, List.mem_append] at hc
  rcases hc with hc | hc
  · rw [List.eq_of_mem_replicate hc]
    rfl
  · exact isDigit_of_mem_toDigits hc

theorem length_paddedDigits {width n : Nat} (hw : 0 < width) (hn : n < 10 ^ width) :
    (paddedDigits width n).length = width := by
  have := (Nat.length_toDigits_le_iff (by decide) hw).2 hn
  simp only [paddedDigits, List.length_append, List.length_replicate]
  omega

theorem length_le_paddedDigits (width n : Nat) : width ≤ (paddedDigits width n).length := by
  simp only [paddedDigits, List.length_append, List.length_replicate]
  omega

theorem paddedDigits_cons (width n : Nat) (hw : 0 < width) :
    ∃ c cs, paddedDigits width n = c :: cs ∧ c.isDigit = true := by
  have hlen := length_le_paddedDigits width n
  cases hpad : paddedDigits width n with
  | nil =>
    rw [hpad, List.length_nil] at hlen
    omega
  | cons c cs => exact ⟨c, cs, rfl, isDigit_of_mem_paddedDigits (by rw [hpad]; simp)⟩

/-- The scanners' digit fold is core's reading of digit characters. -/
theorem foldl_digits (ds : List Char) (init : Nat) :
    ds.foldl (fun acc c => acc * 10 + (c.toNat - 48)) init = Nat.ofDigitChars 10 ds init := by
  induction ds generalizing init with
  | nil => rfl
  | cons c rest ih =>
    rw [List.foldl_cons, ih, Nat.ofDigitChars_cons, Nat.mul_comm]
    rfl

theorem ofDigitChars_zeros (k init : Nat) :
    Nat.ofDigitChars 10 (List.replicate k '0') init = 10 ^ k * init := by
  induction k generalizing init with
  | zero => simp [Nat.ofDigitChars_nil]
  | succ k ih =>
    rw [List.replicate_succ, Nat.ofDigitChars_cons, ih]
    rw [Nat.sub_self, Nat.add_zero, Nat.pow_succ, Nat.mul_assoc]

theorem ofDigitChars_paddedDigits (width n : Nat) :
    Nat.ofDigitChars 10 (paddedDigits width n) 0 = n := by
  rw [paddedDigits, Nat.ofDigitChars_append, ofDigitChars_zeros, Nat.mul_zero,
    Nat.ofDigitChars_toDigits (by decide) (by decide)]

/-- Digits read after `init` stay below `(init + 1)` times ten to their count. -/
theorem ofDigitChars_lt {ds : List Char} (hds : ∀ c ∈ ds, c.isDigit = true) (init : Nat) :
    Nat.ofDigitChars 10 ds init < (init + 1) * 10 ^ ds.length := by
  induction ds generalizing init with
  | nil => simp [Nat.ofDigitChars_nil]
  | cons c rest ih =>
    have hc := hds c List.mem_cons_self
    simp only [Char.isDigit, Bool.and_eq_true, decide_eq_true_eq] at hc
    have hc9 : c.toNat ≤ 57 := hc.2
    have hnext :=
      ih (fun d hd => hds d (List.mem_cons_of_mem c hd)) (10 * init + (c.toNat - '0'.toNat))
    rw [Nat.ofDigitChars_cons, List.length_cons, Nat.pow_succ]
    have hzero : '0'.toNat = 48 := rfl
    rw [hzero] at hnext
    calc Nat.ofDigitChars 10 rest (10 * init + (c.toNat - 48))
        < (10 * init + (c.toNat - 48) + 1) * 10 ^ rest.length := hnext
      _ ≤ (10 * init + 10) * 10 ^ rest.length := Nat.mul_le_mul_right _ (by omega)
      _ = (init + 1) * (10 ^ rest.length * 10) := by
        rw [show 10 * init + 10 = (init + 1) * 10 by omega, Nat.mul_assoc, Nat.mul_comm 10]

/-- Digits followed by a character that is no digit: the digits are all that `takeWhile` keeps,
however many characters after them are taken. -/
theorem takeWhile_digits_append {ds rest : List Char} (hds : ∀ c ∈ ds, c.isDigit = true)
    (hrest : ∀ c ∈ rest.head?, c.isDigit = false) (k : Nat) :
    (ds ++ rest.take k).takeWhile Char.isDigit = ds := by
  rw [List.takeWhile_append_of_pos hds]
  cases rest with
  | nil => simp
  | cons c more =>
    cases k with
    | zero => simp
    | succ k =>
      simp only [List.head?_cons, Option.mem_def, Option.some.injEq, forall_eq'] at hrest
      simp [hrest]

/-! ## Scanning the parts -/

theorem isBlank_of_isDigit {c : Char} (hc : c.isDigit = true) : isBlank c = false := by
  simp only [Char.isDigit, Bool.and_eq_true, decide_eq_true_eq] at hc
  have h0 : 48 ≤ c.toNat := hc.1
  have h9 : c.toNat ≤ 57 := hc.2
  simp only [isBlank, Bool.or_eq_false_iff, Bool.and_eq_false_iff, decide_eq_false_iff_not,
    beq_eq_false_iff_ne, ne_eq]
  omega

theorem dropBlank_of_head {cs : List Char} (h : ∀ c ∈ cs.head?, isBlank c = false) :
    dropBlank cs = cs := by
  cases cs with
  | nil => rfl
  | cons c rest =>
    simp only [List.head?_cons, Option.mem_def, Option.some.injEq, forall_eq'] at h
    simp [dropBlank, h]

/-- Padded digits followed by no digit are read as their number, when at least `least` and at
most `most` digits are asked for. -/
theorem scanNumber_paddedDigits {least most width n : Nat} {rest : List Char}
    (hleast : least ≤ width) (hmost : (paddedDigits width n).length ≤ most)
    (hrest : ∀ c ∈ rest.head?, c.isDigit = false) (hsmall : n < 2 ^ 63) :
    scanNumber least most (paddedDigits width n ++ rest) = .ok (n, rest) := by
  have hwidth := length_le_paddedDigits width n
  have htake : (paddedDigits width n ++ rest).take most =
      paddedDigits width n ++ rest.take (most - (paddedDigits width n).length) := by
    rw [List.take_append, List.take_of_length_le hmost]
  unfold scanNumber
  simp only [List.length_append, htake,
    takeWhile_digits_append (fun _ h => isDigit_of_mem_paddedDigits h) hrest, foldl_digits,
    ofDigitChars_paddedDigits]
  rw [if_neg (by omega), if_neg (by omega), if_neg (by simp only [Nat.pow_eq]; omega),
    List.drop_left]

theorem pad2_toList {n : Nat} (h100 : n < 100) : (Instant.pad2 n).toList = paddedDigits 2 n := by
  unfold Instant.pad2 paddedDigits
  by_cases hsmall : n < 10
  · have hlen : (Nat.toDigits 10 n).length = 1 := by
      rw [Nat.toDigits_eq_if (by decide), if_pos hsmall]
      rfl
    rw [if_pos hsmall, String.toList_append, toList_toString, hlen]
    rfl
  · have hle : (Nat.toDigits 10 n).length ≤ 2 :=
      (Nat.length_toDigits_le_iff (by decide) (by decide)).2 (by omega)
    have hgt : ¬(Nat.toDigits 10 n).length ≤ 1 := by
      rw [Nat.length_toDigits_le_iff (by decide) (by decide)]
      omega
    rw [if_neg hsmall, toList_toString, show 2 - (Nat.toDigits 10 n).length = 0 by omega]
    rfl

/-- Two digits are read as a field within its range. -/
theorem scanField_pad2 {lo hi n : Nat} (hn : lo ≤ n ∧ n ≤ hi) (h100 : n < 100)
    {rest : List Char} (hrest : ∀ c ∈ rest.head?, c.isDigit = false) :
    scanField lo hi ((Instant.pad2 n).toList ++ rest) = .ok (n, rest) := by
  obtain ⟨c, cs, hpad, hc⟩ := paddedDigits_cons 2 n (by decide)
  have hblank : dropBlank (paddedDigits 2 n ++ rest) = paddedDigits 2 n ++ rest := by
    rw [hpad]
    exact dropBlank_of_head (by simpa using isBlank_of_isDigit hc)
  unfold scanField
  rw [pad2_toList h100, hblank, scanNumber_paddedDigits (by decide)
    (Nat.le_of_eq (length_paddedDigits (by decide) (by omega))) hrest (by omega)]
  simp [inRange, hn]

theorem yearText_toList (y : Int) : (Instant.yearText y).toList =
    (if 0 ≤ y ∧ y ≤ 9999 then [] else [if y < 0 then '-' else '+']) ++
      paddedDigits 4 y.natAbs := by
  unfold Instant.yearText paddedDigits
  split
  · simp [zeros_toList, length_repr]
  · split <;> simp [zeros_toList, length_repr]

/-- A year of the calendar's range is read back from its text before the date's hyphen. -/
theorem scanYear_yearText {y : Int} (hmin : minYear ≤ y) (hmax : y ≤ maxYear)
    (rest : List Char) :
    scanYear ((Instant.yearText y).toList ++ '-' :: rest) = .ok (y, '-' :: rest) := by
  have hend : ∀ c ∈ ('-' :: rest).head?, c.isDigit = false := by simp
  have hsmall : y.natAbs ≤ 262143 := by
    unfold minYear at hmin
    unfold maxYear at hmax
    omega
  have hwidth := length_le_paddedDigits 4 y.natAbs
  obtain ⟨c, cs, hpad, hc⟩ := paddedDigits_cons 4 y.natAbs (by decide)
  rw [yearText_toList]
  unfold scanYear
  by_cases hfour : 0 ≤ y ∧ y ≤ 9999
  · -- Four digits without a sign.
    rw [if_pos hfour, List.nil_append,
      dropBlank_of_head (by rw [hpad]; simpa using isBlank_of_isDigit hc)]
    have hscan :
        scanNumber 1 4 (paddedDigits 4 y.natAbs ++ '-' :: rest) = .ok (y.natAbs, '-' :: rest) :=
      scanNumber_paddedDigits (by decide)
        (Nat.le_of_eq (length_paddedDigits (by decide) (by omega)))
        hend (by omega)
    rw [hpad] at hscan ⊢
    dsimp only
    have hminus : c ≠ '-' := by rintro rfl; exact absurd hc (by decide)
    have hplus : c ≠ '+' := by rintro rfl; exact absurd hc (by decide)
    split
    · simp_all
    · simp_all
    · rw [hscan]
      simp only [except_ok_bind, Except.ok.injEq, Prod.mk.injEq, and_true]
      omega
  · -- A sign, then all the digits up to the hyphen.
    have hscan : scanNumber 1 (paddedDigits 4 y.natAbs ++ '-' :: rest).length
        (paddedDigits 4 y.natAbs ++ '-' :: rest) = .ok (y.natAbs, '-' :: rest) :=
      scanNumber_paddedDigits (by decide) (by simp) hend (by omega)
    rw [if_neg hfour]
    by_cases hneg : y < 0
    · rw [if_pos hneg]
      simp only [List.cons_append, List.nil_append]
      rw [dropBlank_of_head (by simp; decide)]
      split
      · rename_i heq
        simp only [List.cons.injEq, true_and] at heq
        rw [← heq, hscan]
        simp only [except_ok_bind, Nat.pow_eq]
        rw [if_neg (by omega)]
        simp only [Except.ok.injEq, Prod.mk.injEq, and_true]
        omega
      · simp at *
      · simp at *
    · rw [if_neg hneg]
      simp only [List.cons_append, List.nil_append]
      rw [dropBlank_of_head (by simp; decide)]
      split
      · simp at *
      · rename_i heq
        simp only [List.cons.injEq, true_and] at heq
        rw [← heq, hscan]
        simp only [except_ok_bind, Nat.pow_eq]
        rw [if_neg (by omega)]
        simp only [Except.ok.injEq, Prod.mk.injEq, and_true]
        omega
      · simp at *


theorem scanSeparator_cons (c : Char) (hc : isBlank c = false) (rest : List Char) :
    scanSeparator c (c :: rest) = .ok ((), rest) := by
  unfold scanSeparator scanLiteral
  rw [dropBlank_of_head (by simpa using hc)]
  simp

/-- The fraction digits of an instant's text. -/
theorem scanFraction_fixed {k v : Nat} (hk : 0 < k ∧ k ≤ 9) (hv : v < 10 ^ k) (rest : List Char) :
    scanFraction ('.' :: (paddedDigits k v ++ 'Z' :: rest)) =
      .ok (v * 10 ^ (9 - k), 'Z' :: rest) := by
  have hlen := length_paddedDigits hk.1 hv
  have hscan : scanNumber 1 9 (paddedDigits k v ++ 'Z' :: rest) = .ok (v, 'Z' :: rest) :=
    scanNumber_paddedDigits (by omega) (by omega) (by simp) (by
      have : 10 ^ k ≤ 10 ^ 9 := Nat.pow_le_pow_right (by decide) hk.2
      have : (10 : Nat) ^ 9 < 2 ^ 63 := by decide
      omega)
  unfold scanFraction
  split
  · rename_i heq
    simp only [List.cons.injEq, true_and] at heq
    rw [← heq, hscan]
    simp only [except_ok_bind, List.length_append, List.length_cons, hlen, Nat.pow_eq]
    rw [List.dropWhile_cons_of_neg (by decide), Nat.add_sub_cancel]
  · simp at *

theorem fixed_toList (k v : Nat) :
    ("." ++ Decimal.zeros (k - (toString v).length) ++ toString v).toList =
      '.' :: paddedDigits k v := by
  simp [zeros_toList, length_repr, paddedDigits]

/-- The nanoseconds of a second are read back from their fraction, before the zone letter. -/
theorem scanFraction_fractionText {nano : Nat} (hnano : nano < 1000000000) (rest : List Char) :
    scanFraction ((Instant.fractionText nano).toList ++ 'Z' :: rest) = .ok (nano, 'Z' :: rest) := by
  unfold Instant.fractionText
  dsimp only
  by_cases hzero : nano = 0
  · subst hzero
    rfl
  · rw [if_neg (by simpa using hzero)]
    by_cases hmillis : nano % 1000000 = 0
    · rw [if_pos (by simpa using hmillis), fixed_toList, List.cons_append,
        scanFraction_fixed (by decide) (by omega)]
      congr 3
      omega
    · rw [if_neg (by simpa using hmillis)]
      by_cases hmicros : nano % 1000 = 0
      · rw [if_pos (by simpa using hmicros), fixed_toList, List.cons_append,
          scanFraction_fixed (by decide) (by omega)]
        congr 3
        omega
      · rw [if_neg (by simpa using hmicros), fixed_toList, List.cons_append,
          scanFraction_fixed (by decide) (by omega)]
        simp

/-! ## Instants read back from their text -/

/-- An instant that the calendar holds: a second of the day, nanoseconds below a second except
in a leap second, which is the last second of a minute, and a year within the calendar. -/
structure Instant.Valid (t : Instant) : Prop where
  second_lt : t.second < 86400
  nanos_lt : t.nanos < 2000000000
  leap : 1000000000 ≤ t.nanos → t.second % 60 = 59
  year_ge : minYear ≤ (civilFromDays t.day).1
  year_le : (civilFromDays t.day).1 ≤ maxYear

/-- The second shown on a clock: a leap second shows as second 60. -/
theorem clock_eq {t : Instant} (hvalid : t.Valid) :
    t.clock = (t.second / 3600, t.second % 3600 / 60,
      t.second % 60 + (if 1000000000 ≤ t.nanos then 1 else 0), t.nanos % 1000000000) := by
  have := hvalid.nanos_lt
  unfold Instant.clock
  by_cases hleap : 1000000000 ≤ t.nanos
  · have := hvalid.leap hleap
    simp only [ge_iff_le, if_pos hleap, Prod.mk.injEq, true_and]
    omega
  · simp only [ge_iff_le, if_neg hleap, Prod.mk.injEq, true_and, Nat.add_zero]
    omega

theorem Instant.render_toList (t : Instant) : t.render.toList =
    (Instant.yearText (civilFromDays t.day).1).toList ++ '-' ::
      ((Instant.pad2 (civilFromDays t.day).2.1).toList ++ '-' ::
      ((Instant.pad2 (civilFromDays t.day).2.2).toList ++ 'T' ::
      ((Instant.pad2 t.clock.1).toList ++ ':' ::
      ((Instant.pad2 t.clock.2.1).toList ++ ':' ::
      ((Instant.pad2 t.clock.2.2.1).toList ++
      ((Instant.fractionText t.clock.2.2.2).toList ++ ['Z'])))))) := by
  simp [Instant.render, String.toList_append]

theorem digit_free_cons {c : Char} (hc : c.isDigit = false) (rest : List Char) :
    ∀ x ∈ (c :: rest).head?, x.isDigit = false := by
  simpa using hc

theorem fractionText_head (nano : Nat) :
    ∀ c ∈ ((Instant.fractionText nano).toList ++ ['Z']).head?, c.isDigit = false := by
  unfold Instant.fractionText
  dsimp only
  split
  · simp
  · split
    · simp
    · split <;> simp

/-- The text of an instant is read as its date, its clock and its fraction, in UTC. -/
theorem scanFields_render {t : Instant} (hvalid : t.Valid) :
    scanFields t.render.toList = .ok ⟨(civilFromDays t.day).1, (civilFromDays t.day).2.1,
      (civilFromDays t.day).2.2, t.clock.1, t.clock.2.1, t.clock.2.2.1, t.clock.2.2.2, 0⟩ := by
  have hdate := civilFromDays_isDate t.day
  have hclock := clock_eq hvalid
  have := hvalid.second_lt
  have := hvalid.nanos_lt
  have hsixty : t.clock.2.2.1 ≤ 60 := by
    rw [hclock]
    dsimp only
    split <;> omega
  have hhour : t.clock.1 ≤ 23 := by rw [hclock]; dsimp only; omega
  have hminute : t.clock.2.1 ≤ 59 := by rw [hclock]; dsimp only; omega
  have hnano : t.clock.2.2.2 < 1000000000 := by rw [hclock]; dsimp only; omega
  obtain ⟨hm1, hm12, hd1, hd31⟩ := hdate
  have hd31' : (civilFromDays t.day).2.2 ≤ 31 := by
    have : daysInMonth (civilFromDays t.day).1 (civilFromDays t.day).2.1 ≤ 31 := by
      unfold daysInMonth
      split
      · split <;> omega
      · split <;> omega
    omega
  rw [Instant.render_toList]
  unfold scanFields
  rw [scanYear_yearText hvalid.year_ge hvalid.year_le]
  simp only [except_ok_bind]
  rw [scanSeparator_cons '-' (by decide)]
  simp only [except_ok_bind]
  rw [scanField_pad2 ⟨hm1, hm12⟩ (by omega) (digit_free_cons (by decide) _)]
  simp only [except_ok_bind]
  rw [scanSeparator_cons '-' (by decide)]
  simp only [except_ok_bind]
  rw [scanField_pad2 ⟨hd1, hd31'⟩ (by omega) (digit_free_cons (by decide) _)]
  simp only [except_ok_bind, true_or, if_true, pure, Except.pure]
  rw [scanField_pad2 ⟨Nat.zero_le _, hhour⟩ (by omega) (digit_free_cons (by decide) _)]
  simp only [except_ok_bind]
  rw [scanSeparator_cons ':' (by decide)]
  simp only [except_ok_bind]
  rw [scanField_pad2 ⟨Nat.zero_le _, hminute⟩ (by omega) (digit_free_cons (by decide) _)]
  simp only [except_ok_bind]
  rw [scanSeparator_cons ':' (by decide)]
  simp only [except_ok_bind]
  rw [scanField_pad2 ⟨Nat.zero_le _, hsixty⟩ (by omega) (fractionText_head _)]
  simp only [except_ok_bind]
  rw [scanFraction_fractionText hnano]
  simp only [except_ok_bind]
  rfl

/-- A valid instant is read back from its text. -/
theorem Instant.parse_render {t : Instant} (hvalid : t.Valid) : Instant.parse t.render = .ok t := by
  have hclock := clock_eq hvalid
  have hday := daysFromCivil_civilFromDays t.day
  have hdays := (civilFromDays_isDate t.day).2.2.2
  have := hvalid.second_lt
  have := hvalid.nanos_lt
  have hmin := hvalid.year_ge
  have hmax := hvalid.year_le
  unfold Instant.parse
  rw [scanFields_render hvalid, except_ok_bind]
  unfold Fields.toInstant
  rw [hclock]
  dsimp only
  rw [if_neg (by omega), if_neg (by decide)]
  -- A leap second is read as second 59 with a second more of nanoseconds.
  have hsecond : (if (t.second % 60 + if 1000000000 ≤ t.nanos then 1 else 0) = 60 then
      (59, t.nanos % 1000000000 + 1000000000) else
      (t.second % 60 + (if 1000000000 ≤ t.nanos then 1 else 0), t.nanos % 1000000000)) =
      (t.second % 60, t.nanos) := by
    by_cases hleap : 1000000000 ≤ t.nanos
    · have h59 := hvalid.leap hleap
      rw [if_pos hleap, if_pos (by omega), Prod.mk.injEq]
      omega
    · rw [if_neg hleap, if_neg (by omega), Prod.mk.injEq]
      omega
  have hwall : Instant.ofParts (civilFromDays t.day).1 (civilFromDays t.day).2.1
      (civilFromDays t.day).2.2 (t.second / 3600) (t.second % 3600 / 60) (t.second % 60) t.nanos =
      t := by
    unfold Instant.ofParts
    rw [hday]
    congr 1
    omega
  have hnotneg : ¬((t.second : Int) < 0) := by omega
  have hnotbig : ¬((t.second : Int) ≥ 86400) := by omega
  rw [hsecond]
  dsimp only
  rw [hwall]
  simp only [Int.sub_zero, hnotneg, hnotbig, if_false, Int.add_zero, Int.zero_mul,
    Int.toNat_natCast]
  rw [if_neg (by omega)]
  rfl

/-! ## Instants read from a text are valid -/

/-- A number read from the front of a text: the digits it read come off the front, at most `most`
of them, and the number is below ten to their count. -/
theorem scanNumber_ok {least most v : Nat} {s r : List Char}
    (h : scanNumber least most s = .ok (v, r)) :
    ∃ ds, s = ds ++ r ∧ ds.length ≤ most ∧ v < 10 ^ ds.length := by
  unfold scanNumber at h
  dsimp only at h
  split at h
  · exact nomatch h
  · split at h
    · exact nomatch h
    · split at h
      · exact nomatch h
      · simp only [Except.ok.injEq, Prod.mk.injEq] at h
        obtain ⟨hv, hr⟩ := h
        have hdigits : ∀ c ∈ (s.take most).takeWhile Char.isDigit, c.isDigit = true :=
          List.all_eq_true.1 List.all_takeWhile
        have hmost : ((s.take most).takeWhile Char.isDigit).length ≤ most :=
          Nat.le_trans (List.takeWhile_prefix _).length_le (List.length_take_le _ _)
        obtain ⟨tail, htail⟩ : (s.take most).takeWhile Char.isDigit <+: s :=
          (List.takeWhile_prefix _).trans (List.take_prefix _ _)
        rw [← hv, foldl_digits]
        generalize (s.take most).takeWhile Char.isDigit = ds at *
        subst htail
        refine ⟨ds, ?_, hmost, ?_⟩
        · rw [← hr, List.drop_left]
        · simpa using ofDigitChars_lt hdigits 0

theorem scanField_range {lo hi v : Nat} {s r : List Char} (h : scanField lo hi s = .ok (v, r)) :
    lo ≤ v ∧ v ≤ hi := by
  unfold scanField at h
  obtain ⟨⟨w, r'⟩, _, h⟩ := except_bind_eq_ok.1 h
  obtain ⟨v', hrange, h⟩ := except_bind_eq_ok.1 h
  simp only [Except.ok.injEq, Prod.mk.injEq] at h
  unfold inRange at hrange
  split at hrange
  · simp only [Except.ok.injEq] at hrange
    omega
  · exact nomatch hrange

/-- A fraction is read as fewer nanoseconds than a second. -/
theorem scanFraction_lt {v : Nat} {s r : List Char} (h : scanFraction s = .ok (v, r)) :
    v < 1000000000 := by
  unfold scanFraction at h
  split at h
  · obtain ⟨⟨w, r'⟩, hscan, h⟩ := except_bind_eq_ok.1 h
    obtain ⟨ds, hsplit, hmost, hw⟩ := scanNumber_ok hscan
    subst hsplit
    simp only [Except.ok.injEq, Prod.mk.injEq] at h
    rw [← h.1, List.length_append, Nat.add_sub_cancel, Nat.pow_eq]
    calc w * 10 ^ (9 - ds.length) < 10 ^ ds.length * 10 ^ (9 - ds.length) :=
          Nat.mul_lt_mul_of_pos_right hw (Nat.pow_pos (by decide))
      _ = 10 ^ 9 := by rw [← Nat.pow_add, Nat.add_sub_cancel' hmost]
  · simp only [Except.ok.injEq, Prod.mk.injEq] at h
    omega

/-- An offset is a whole number of minutes. -/
theorem scanOffset_minutes {o : Int} {s r : List Char} (h : scanOffset s = .ok (o, r)) :
    o % 60 = 0 := by
  unfold scanOffset at h
  dsimp only at h
  -- Every branch but the three that read an offset fails.
  repeat' split at h
  all_goals first
    | contradiction
    | (simp only [Except.ok.injEq, Prod.mk.injEq] at h
       omega)

/-- The fields read from a timestamp text are within the clock's ranges, and the offset is a
whole number of minutes. -/
theorem scanFields_bounds {s : List Char} {f : Fields} (h : scanFields s = .ok f) :
    f.hour ≤ 23 ∧ f.minute ≤ 59 ∧ f.second ≤ 60 ∧ f.nanos < 1000000000 ∧ f.offset % 60 = 0 := by
  unfold scanFields at h
  obtain ⟨⟨year, s1⟩, -, h⟩ := except_bind_eq_ok.1 h
  obtain ⟨⟨⟨⟩, s2⟩, -, h⟩ := except_bind_eq_ok.1 h
  obtain ⟨⟨month, s3⟩, -, h⟩ := except_bind_eq_ok.1 h
  obtain ⟨⟨⟨⟩, s4⟩, -, h⟩ := except_bind_eq_ok.1 h
  obtain ⟨⟨day, s5⟩, -, h⟩ := except_bind_eq_ok.1 h
  dsimp only at h
  -- The date and the time are apart by a `T`, a `t` or a space.
  split at h
  · split at h
    · rename_i rest _
      obtain ⟨s6, hs6, h⟩ := except_bind_eq_ok.1 h
      obtain ⟨⟨hour, s7⟩, hhour, h⟩ := except_bind_eq_ok.1 h
      obtain ⟨⟨⟨⟩, s8⟩, -, h⟩ := except_bind_eq_ok.1 h
      obtain ⟨⟨minute, s9⟩, hminute, h⟩ := except_bind_eq_ok.1 h
      obtain ⟨⟨⟨⟩, s10⟩, -, h⟩ := except_bind_eq_ok.1 h
      obtain ⟨⟨second, s11⟩, hsecond, h⟩ := except_bind_eq_ok.1 h
      obtain ⟨⟨nanos, s12⟩, hnanos, h⟩ := except_bind_eq_ok.1 h
      dsimp only at h
      -- Whichever way the offset is written, the fields come out as read.
      have hfinish : ∀ (offset : Int) (r : List Char), offset % 60 = 0 →
          (if (dropBlank r).isEmpty = true then
            Except.ok (⟨year, month, day, hour, minute, second, nanos, offset⟩ : Fields)
          else Except.error TimeFault.tooLong) = Except.ok f →
          f.hour ≤ 23 ∧ f.minute ≤ 59 ∧ f.second ≤ 60 ∧ f.nanos < 1000000000 ∧
            f.offset % 60 = 0 := by
        intro offset r hoffset hf
        split at hf
        · simp only [Except.ok.injEq] at hf
          subst hf
          exact ⟨(scanField_range hhour).2, (scanField_range hminute).2,
            (scanField_range hsecond).2, scanFraction_lt hnanos, hoffset⟩
        · contradiction
      split at h
      · split at h
        · exact hfinish 0 _ rfl h
        · obtain ⟨⟨offset, r⟩, hoffset, h⟩ := except_bind_eq_ok.1 h
          exact hfinish offset r (scanOffset_minutes hoffset) h
      · obtain ⟨⟨offset, r⟩, hoffset, h⟩ := except_bind_eq_ok.1 h
        exact hfinish offset r (scanOffset_minutes hoffset) h
    · exact absurd h (by simp [except_error_bind])
  · exact absurd h (by simp [except_error_bind])

/-- Fields within the clock's ranges, with an offset of whole minutes, make a valid instant
whenever they make one. -/
theorem toInstant_valid {f : Fields} {t : Instant}
    (hf : f.hour ≤ 23 ∧ f.minute ≤ 59 ∧ f.second ≤ 60 ∧ f.nanos < 1000000000 ∧ f.offset % 60 = 0)
    (h : f.toInstant = .ok t) : t.Valid := by
  obtain ⟨hhour, hminute, hsecond, hnanos, hoffset⟩ := hf
  unfold Fields.toInstant at h
  dsimp only at h
  -- A leap second is read as second 59 with a second more of nanoseconds.
  generalize hpair : (if f.second = 60 then (59, f.nanos + 1000000000) else (f.second, f.nanos)) =
    p at h
  have hp : p.1 ≤ 59 ∧ p.2 < 2000000000 ∧ (1000000000 ≤ p.2 → p.1 = 59) := by
    rw [← hpair]
    split <;> (dsimp only; omega)
  have hwallSecond : (Instant.ofParts f.year f.month f.day f.hour f.minute p.1 p.2).second =
      f.hour * 3600 + f.minute * 60 + p.1 := rfl
  have hwallNanos :
      (Instant.ofParts f.year f.month f.day f.hour f.minute p.1 p.2).nanos = p.2 := rfl
  generalize Instant.ofParts f.year f.month f.day f.hour f.minute p.1 p.2 = wall
    at h hwallSecond hwallNanos
  split at h
  · contradiction
  · split at h
    · contradiction
    · rename_i hrange
      -- The clock moved to UTC lands within the day before, the day itself or the day after.
      generalize hshift : (if (wall.second : Int) - f.offset < 0 then -1
        else if (wall.second : Int) - f.offset ≥ 86400 then 1 else 0) = dayShift at h
      have hutc : 0 ≤ (wall.second : Int) - f.offset - dayShift * 86400 ∧
          (wall.second : Int) - f.offset - dayShift * 86400 < 86400 := by
        rw [← hshift]
        by_cases hbefore : (wall.second : Int) - f.offset < 0
        · rw [if_pos hbefore]
          omega
        · rw [if_neg hbefore]
          by_cases hafter : (wall.second : Int) - f.offset ≥ 86400
          · rw [if_pos hafter]
            omega
          · rw [if_neg hafter]
            omega
      split at h
      · contradiction
      · rename_i hyear
        simp only [pure, Except.pure, Except.ok.injEq] at h
        subst h
        refine ⟨by dsimp only; omega, by dsimp only; omega, ?_, by dsimp only; omega,
          by dsimp only; omega⟩
        dsimp only
        intro hleap
        have := hp.2.2 (by omega)
        omega

/-- Every instant read from a text is valid. -/
theorem Instant.valid_of_parse {s : String} {t : Instant}
    (h : Instant.parse s = .ok t) : t.Valid := by
  unfold Instant.parse at h
  obtain ⟨f, hf, h⟩ := except_bind_eq_ok.1 h
  exact toInstant_valid (scanFields_bounds hf) h

end EntityLog.Time
