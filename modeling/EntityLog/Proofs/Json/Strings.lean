import EntityLog.Proofs.Json.Cursor
import EntityLog.Json.Decode
/-!
# Quoted strings read back

A quoted string is read back as the string that was quoted. Each character is written as the
UTF-8 bytes of its escape (`escapeBytes`): a short escape or a `\u00XX` escape for the quote, the
backslash and the control characters, and the character's own bytes otherwise. Every byte of an
escape is at least `0x20`, and a character written as itself has no byte that the string scanner
treats specially, since a character of more than one byte has only bytes from `0x80` on.

So the scanner, started after the opening quote, passes each escape in turn and appends the
character's UTF-8 bytes, and stops after the closing quote with the bytes of the whole string.
-/

namespace EntityLog.Json

open Read

/-- The UTF-8 bytes that stand for one character inside a quoted string. -/
def escapeBytes (c : Char) : List UInt8 := (escapeChar c).flatMap String.utf8EncodeChar

/-- The bytes of a quoted string: the escapes of its characters between two quotes. -/
theorem quote_bytes (s : String) :
    (quote s).toByteArray.data.toList = 34 :: s.toList.flatMap escapeBytes ++ [34] := by
  have hquote : "\"".toByteArray = [34].toByteArray := rfl
  simp [quote, String.toByteArray_append, hquote, escapeBody, List.utf8Encode,
    List.flatMap_assoc]
  rfl

/-! ## Bytes that the scanner copies -/

/-- A byte that the string scanner copies as it is: no control byte, quote or backslash. -/
def isPlainByte (b : UInt8) : Bool := 32 ≤ b && b != 34 && b != 92

theorem isPlainByte_of_le {b : UInt8} (hb : 128 ≤ b.toNat) : isPlainByte b = true := by
  have h32 : 32 ≤ b := by
    rw [UInt8.le_iff_toNat_le]
    exact Nat.le_trans (by decide) hb
  have h34 : b ≠ 34 := by
    intro heq
    rw [heq] at hb
    exact absurd hb (by decide)
  have h92 : b ≠ 92 := by
    intro heq
    rw [heq] at hb
    exact absurd hb (by decide)
  simp [isPlainByte, h32, h34, h92]

theorem isPlainByte_or {x k : UInt8} (hk : 128 ≤ k.toNat) : isPlainByte (x ||| k) = true :=
  isPlainByte_of_le (by rw [UInt8.toNat_or]; exact Nat.le_trans hk Nat.right_le_or)

/-- A character from the space on, other than the quote and the backslash, is written as UTF-8
bytes that the scanner copies. -/
theorem isPlainByte_of_mem_utf8 {c : Char} (hspace : 32 ≤ c.toNat) (hquote : c ≠ '"')
    (hslash : c ≠ '\\') {b : UInt8} (hb : b ∈ String.utf8EncodeChar c) :
    isPlainByte b = true := by
  have hsize := c.utf8Size_pos
  have hle := c.utf8Size_le_four
  rcases (show c.utf8Size = 1 ∨ c.utf8Size = 2 ∨ c.utf8Size = 3 ∨ c.utf8Size = 4 by omega) with
    h1 | h2 | h3 | h4
  · rw [String.utf8EncodeChar_eq_singleton h1, List.mem_singleton] at hb
    subst hb
    have hsmall : c.toNat < 128 := by
      have := Char.utf8Size_eq_one_iff.1 h1
      rw [UInt32.le_iff_toNat_le] at this
      simp only [Char.toNat] at hspace ⊢
      simp only [UInt32.reduceToNat] at this
      omega
    have hbyte : c.val.toUInt8.toNat = c.toNat := by
      simp only [UInt32.toNat_toUInt8, Char.toNat]
      exact Nat.mod_eq_of_lt (by simp only [Char.toNat] at hsmall; omega)
    have hne34 : c.toNat ≠ 34 := fun h => hquote (by rw [← Char.ofNat_toNat c, h])
    have hne92 : c.toNat ≠ 92 := fun h => hslash (by rw [← Char.ofNat_toNat c, h])
    simp only [isPlainByte, Bool.and_eq_true, decide_eq_true_eq, bne_iff_ne, ne_eq]
    refine ⟨⟨?_, ?_⟩, ?_⟩
    · rw [UInt8.le_iff_toNat_le, hbyte]
      exact hspace
    · intro heq
      apply hne34
      rw [← hbyte, heq]
      rfl
    · intro heq
      apply hne92
      rw [← hbyte, heq]
      rfl
  · rw [String.utf8EncodeChar_eq_cons_cons h2] at hb
    simp only [List.mem_cons, List.not_mem_nil, or_false] at hb
    rcases hb with rfl | rfl <;> exact isPlainByte_or (by decide)
  · rw [String.utf8EncodeChar_eq_cons_cons_cons h3] at hb
    simp only [List.mem_cons, List.not_mem_nil, or_false] at hb
    rcases hb with rfl | rfl | rfl <;> exact isPlainByte_or (by decide)
  · rw [String.utf8EncodeChar_eq_cons_cons_cons_cons h4] at hb
    simp only [List.mem_cons, List.not_mem_nil, or_false] at hb
    rcases hb with rfl | rfl | rfl | rfl <;> exact isPlainByte_or (by decide)

/-- A character from the space on, other than the quote and the backslash, is written as
itself. -/
theorem escapeChar_plain {c : Char} (hspace : 32 ≤ c.toNat) (hquote : c ≠ '"')
    (hslash : c ≠ '\\') : escapeChar c = [c] := by
  have hnewline : c ≠ '\n' := by rintro rfl; exact absurd hspace (by decide)
  have htab : c ≠ '\t' := by rintro rfl; exact absurd hspace (by decide)
  have hreturn : c ≠ '\r' := by rintro rfl; exact absurd hspace (by decide)
  simp [escapeChar, hquote, hslash, hnewline, htab, hreturn, show c.toNat ≠ 8 by omega,
    show c.toNat ≠ 12 by omega, show ¬c.toNat < 32 by omega]

/-! ## The escapes of the control characters -/

/-- The byte of a lowercase hexadecimal digit. -/
def hexByte (d : Nat) : UInt8 := (hexDigit d).toNat.toUInt8

theorem hexValue_hexByte : ∀ d, d < 16 → hexValue (hexByte d) = some d := by
  decide

/-- A control character without a short escape is written as `\u00` and two hexadecimal
digits. -/
theorem escapeBytes_control : ∀ n, n < 32 → n ∉ [8, 9, 10, 12, 13] →
    escapeBytes (Char.ofNat n) = [92, 117, 48, 48, hexByte (n / 16), hexByte (n % 16)] := by
  decide

/-- The characters with a short escape, each with the letter of its escape. -/
def shortEscapes : List (Char × UInt8) :=
  [('"', 34), ('\\', 92), ('\n', 110), ('\t', 116), ('\r', 114), (Char.ofNat 8, 98),
    (Char.ofNat 12, 102)]

theorem escapeBytes_short : ∀ p ∈ shortEscapes,
    escapeBytes p.1 = [92, p.2] ∧ shortEscape p.2 = some (p.1.toNat.toUInt8) ∧
      String.utf8EncodeChar p.1 = [p.1.toNat.toUInt8] := by
  decide

/-- Every byte of an escape is at least `0x20`. -/
theorem le_of_mem_escapeBytes (c : Char) {b : UInt8} (hb : b ∈ escapeBytes c) : 32 ≤ b.toNat := by
  by_cases hcontrol : c.toNat < 32
  · have hc : c = Char.ofNat c.toNat := (Char.ofNat_toNat c).symm
    by_cases hshort : c.toNat ∈ [8, 9, 10, 12, 13]
    · have hall : ∀ n ∈ [8, 9, 10, 12, 13], ∀ b ∈ escapeBytes (Char.ofNat n), 32 ≤ b.toNat := by
        decide +kernel
      rw [hc] at hb
      exact hall _ hshort b hb
    · rw [hc, escapeBytes_control _ hcontrol hshort] at hb
      have hall : ∀ n, n < 32 → ∀ b ∈ [92, 117, 48, 48, hexByte (n / 16), hexByte (n % 16)],
          32 ≤ UInt8.toNat b := by
        decide +kernel
      exact hall _ hcontrol b hb
  · by_cases hquote : c = '"'
    · subst hquote
      revert b
      decide +kernel
    · by_cases hslash : c = '\\'
      · subst hslash
        revert b
        decide +kernel
      · rw [escapeBytes, escapeChar_plain (by omega) hquote hslash, List.flatMap_singleton] at hb
        have := isPlainByte_of_mem_utf8 (by omega) hquote hslash hb
        simp only [isPlainByte, Bool.and_eq_true, decide_eq_true_eq] at this
        rw [UInt8.le_iff_toNat_le] at this
        exact this.1.1

/-! ## Scanning the escapes -/

theorem push_eq_append (out : ByteArray) (b : UInt8) : out.push b = out ++ [b].toByteArray := by
  apply ByteArray.ext
  simp [ByteArray.data_push]

theorem utf8Encode_singleton_char (c : Char) :
    [c].utf8Encode = (String.utf8EncodeChar c).toByteArray := by
  simp [List.utf8Encode]

section Scan

variable {input : ByteArray} {i : Nat} {out : ByteArray}

/-- Bytes that the scanner copies are appended as they are. -/
theorem scanString_plain {bytes : List UInt8} (hplain : ∀ b ∈ bytes, isPlainByte b = true)
    (h : Spells input i bytes) :
    scanString input i out = scanString input (i + bytes.length) (out ++ bytes.toByteArray) := by
  induction bytes generalizing i out with
  | nil => simp [ByteArray.append_empty]
  | cons b rest ih =>
      have hi := h.lt_size
      have hb := hplain b (List.mem_cons_self ..)
      simp only [isPlainByte, Bool.and_eq_true, decide_eq_true_eq, bne_iff_ne, ne_eq] at hb
      obtain ⟨⟨hb32, hb34⟩, hb92⟩ := hb
      have hnot32 : ¬b < 32 := by
        rw [UInt8.lt_iff_toNat_lt]
        rw [UInt8.le_iff_toNat_le] at hb32
        exact Nat.not_lt.2 hb32
      rw [scanString, dif_pos hi]
      simp only [h.getElem_eq hi, beq_iff_eq, hb34, hb92, hnot32, if_false]
      rw [ih (fun x hx => hplain x (List.mem_cons_of_mem b hx)) h.tail, push_eq_append,
        ByteArray.append_assoc, ← List.toByteArray_append]
      simp only [List.singleton_append, List.length_cons]
      rw [Nat.add_assoc, Nat.add_comm 1]

/-- A short escape, a backslash and a letter that is not `u`, appends the byte it stands for. -/
theorem scanString_short {e x : UInt8} (he : e ≠ 117) (hx : shortEscape e = some x)
    (h : Spells input i [92, e]) :
    scanString input i out = scanString input (i + 2) (out.push x) := by
  have hi := h.lt_size
  have hnext : input[i + 1]? = some e := h.tail.getElem?
  rw [scanString, dif_pos hi]
  simp only [h.getElem_eq hi, hnext, hx, beq_iff_eq, he, if_false]
  rfl

/-- A `\u` escape of a code point below the surrogates appends its UTF-8 bytes. -/
theorem scanString_unicode {a b : Nat} (ha : a < 16) (hb : b < 16) (hsmall : a * 16 + b < 0xD800)
    (h : Spells input i [92, 117, 48, 48, hexByte a, hexByte b]) :
    scanString input i out = scanString input (i + 6) (out ++ utf8Of (a * 16 + b)) := by
  have hi := h.lt_size
  have hnext : input[i + 1]? = some 117 := h.tail.getElem?
  have hquad : hexQuad input (i + 2) = some (some (a * 16 + b)) := by
    have hsize := h.le_size (List.cons_ne_nil _ _)
    have h0 : input[i + 2]? = some 48 := (@Spells.right _ _ [92, 117] _ h).getElem?
    have h1 : input[i + 2 + 1]? = some 48 := (@Spells.right _ _ [92, 117, 48] _ h).getElem?
    have h2 : input[i + 2 + 2]? = some (hexByte a) :=
      (@Spells.right _ _ [92, 117, 48, 48] _ h).getElem?
    have h3 : input[i + 2 + 3]? = some (hexByte b) :=
      (@Spells.right _ _ [92, 117, 48, 48, hexByte a] _ h).getElem?
    simp only [List.length_cons, List.length_nil] at hsize
    simp only [hexQuad, if_pos (show i + 2 + 4 ≤ input.size by omega), h0, h1, h2, h3,
      Option.bind_some, hexValue_hexByte a ha, hexValue_hexByte b hb]
    simp [hexValue]
  rw [scanString, dif_pos hi]
  simp only [h.getElem_eq hi, hnext, hquad, beq_iff_eq, if_true]
  rw [if_neg (show ¬(56320 ≤ a * 16 + b ∧ a * 16 + b ≤ 57343) by omega),
    if_pos (Or.inl hsmall)]
  exact if_neg (by decide)

theorem short_of_control : ∀ n ∈ [8, 9, 10, 12, 13], ∃ p ∈ shortEscapes, p.1 = Char.ofNat n := by
  decide

theorem shortEscapes_ne_u : ∀ p ∈ shortEscapes, p.2 ≠ 117 := by
  decide

/-- The scanner passes the escape of a character and appends the character's UTF-8 bytes. -/
theorem scanString_escapeBytes (c : Char) (h : Spells input i (escapeBytes c)) :
    scanString input i out =
      scanString input (i + (escapeBytes c).length)
        (out ++ (String.utf8EncodeChar c).toByteArray) := by
  by_cases hshort : ∃ p ∈ shortEscapes, p.1 = c
  · obtain ⟨p, hp, rfl⟩ := hshort
    obtain ⟨hbytes, hescape, hutf⟩ := escapeBytes_short p hp
    rw [hbytes] at h ⊢
    rw [scanString_short (shortEscapes_ne_u p hp) hescape h, hutf, push_eq_append]
    rfl
  · by_cases hcontrol : c.toNat < 32
    · -- a control character without a short escape takes the `\u00XX` form
      have hc : c = Char.ofNat c.toNat := (Char.ofNat_toNat c).symm
      have hlong : c.toNat ∉ [8, 9, 10, 12, 13] := by
        intro hmem
        obtain ⟨p, hp, hpc⟩ := short_of_control _ hmem
        exact hshort ⟨p, hp, hpc.trans hc.symm⟩
      have hbytes := escapeBytes_control _ hcontrol hlong
      rw [← hc] at hbytes
      rw [hbytes] at h ⊢
      have hsplit : c.toNat / 16 * 16 + c.toNat % 16 = c.toNat := by omega
      rw [scanString_unicode (by omega) (by omega) (by omega) h, hsplit, utf8Of,
        String.toUTF8_eq_toByteArray, String.toByteArray_singleton, ← hc,
        utf8Encode_singleton_char]
      rfl
    · have hquote : c ≠ '"' := fun hc => hshort ⟨('"', 34), by decide, hc.symm⟩
      have hslash : c ≠ '\\' := fun hc => hshort ⟨('\\', 92), by decide, hc.symm⟩
      have hplain : escapeBytes c = String.utf8EncodeChar c := by
        rw [escapeBytes, escapeChar_plain (by omega) hquote hslash, List.flatMap_singleton]
      rw [hplain] at h ⊢
      exact scanString_plain (fun b hb => isPlainByte_of_mem_utf8 (by omega) hquote hslash hb) h

/-- Scanning from after the opening quote passes every escape and stops after the closing quote,
with the UTF-8 bytes of the characters. -/
theorem scanString_escaped (cs : List Char)
    (h : Spells input i (cs.flatMap escapeBytes ++ [34])) :
    scanString input i out =
      .ok (out ++ cs.utf8Encode, i + (cs.flatMap escapeBytes).length + 1) := by
  induction cs generalizing i out with
  | nil =>
      simp only [List.flatMap_nil, List.nil_append] at h
      have hi := h.lt_size
      rw [scanString, dif_pos hi]
      simp [h.getElem_eq hi, List.utf8Encode_nil, ByteArray.append_empty]
  | cons c cs ih =>
      rw [List.flatMap_cons, List.append_assoc] at h
      rw [scanString_escapeBytes c h.left, ih h.right, List.utf8Encode_cons,
        utf8Encode_singleton_char, ByteArray.append_assoc]
      simp only [List.flatMap_cons, List.length_append]
      rw [Nat.add_assoc i]

end Scan

theorem utf8Encode_toList (s : String) : s.toList.utf8Encode = s.toByteArray := by
  rw [← String.toByteArray_ofList, String.ofList_toList]

theorem fromUTF8?_toByteArray (s : String) : String.fromUTF8? s.toByteArray = some s := by
  rw [String.fromUTF8?, dif_pos s.isValidUTF8]
  rfl

/-- The bytes of a text. -/
def textBytes (s : String) : List UInt8 := s.toByteArray.data.toList

@[simp] theorem textBytes_append (s t : String) :
    textBytes (s ++ t) = textBytes s ++ textBytes t := by
  simp [textBytes, String.toByteArray_append, ByteArray.data_append]

theorem textBytes_quote (s : String) :
    textBytes (quote s) = 34 :: s.toList.flatMap escapeBytes ++ [34] :=
  quote_bytes s

namespace Read

variable {input : ByteArray} {i : Nat}

theorem Runs.cast_index {α : Type} {x : Read α} {a : α} {j j' : Nat}
    (hx : Runs x input i a j) (hj : j = j') : Runs x input i a j' :=
  hj ▸ hx

theorem Runs.readStringBody {s : String}
    (h : Spells input i (s.toList.flatMap escapeBytes ++ [34])) :
    Runs Json.readStringBody input i s (i + (s.toList.flatMap escapeBytes).length + 1) := by
  refine Runs.get.bind ?_
  simp only [scanString_escaped s.toList h, ByteArray.empty_append, utf8Encode_toList,
    fromUTF8?_toByteArray]
  exact Runs.jump.bind Runs.pure

/-- A quoted string is read by a string decoder as the string, which is then visited. -/
theorem Runs.text {α : Type} {expected : String} {visit : String → Except String α} {a : α}
    {s : String} {scope : Scope} (hvisit : visit s = .ok a)
    (h : Spells input i (textBytes (quote s))) :
    Runs (Decoder.text expected visit scope) input i a (i + (textBytes (quote s)).length) := by
  rw [textBytes_quote] at h ⊢
  refine Runs.located ((Runs.skipBlanks h (by decide)).bind ?_)
  refine Runs.advance.bind ?_
  have hbody : Runs (do let s ← Json.readStringBody; Read.ofExcept (visit s)) input (i + 1) a
      (i + 1 + (s.toList.flatMap escapeBytes).length + 1) := by
    refine (Runs.readStringBody h.tail).bind ?_
    rw [hvisit]
    exact Runs.ofExcept
  refine hbody.cast_index ?_
  simp only [List.length_cons, List.length_append, List.length_nil]
  omega

theorem Runs.string {s : String} {scope : Scope} (h : Spells input i (textBytes (quote s))) :
    Runs (Decoder.string scope) input i s (i + (textBytes (quote s)).length) :=
  Runs.text rfl h

end Read

end EntityLog.Json
