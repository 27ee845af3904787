import EntityLog.Record.Uuid
import EntityLog.Proofs.Time.Timestamps
import Mathlib.Data.String.Basic
/-!
# Record ids read back

A record id is written as 32 lowercase hexadecimal digits in five groups joined by hyphens, and
read in that form among others. Here the text of every id of 128 bits is read back as the id
(`RecordId.parse_render`), every id read from a text has 128 bits (`RecordId.valid_of_parse`),
and so does every random version 4 id (`RecordId.valid_version4`).

The digits are read by a fold that fails at the first character that is no digit
(`hexStep`); over the digits of a number, with zeros in front, it gives the number back.
-/

namespace EntityLog.Record

open EntityLog.Time

/-- A record id of 128 bits. -/
def RecordId.Valid (id : RecordId) : Prop := id.bits < 2 ^ 128

instance (id : RecordId) : Decidable id.Valid := by
  unfold RecordId.Valid
  infer_instance

/-! ## Hexadecimal digits -/

/-- The step of reading one hexadecimal digit. -/
def hexStep (acc : Nat) (c : Char) : Option Nat := (hexDigitValue c).map fun d => acc * 16 + d

theorem hexNumber_eq (cs : List Char) : hexNumber cs = cs.foldlM hexStep 0 := rfl

theorem hexDigitValue_digitChar : ∀ d, d < 16 → hexDigitValue (Nat.digitChar d) = some d := by
  decide

theorem hexDigitValue_lt {c : Char} {d : Nat} (h : hexDigitValue c = some d) : d < 16 := by
  unfold hexDigitValue at h
  split at h
  · simp only [Option.some.injEq] at h
    rename_i hc
    have : c.toNat ≤ 57 := hc.2
    omega
  · split at h
    · simp only [Option.some.injEq] at h
      rename_i hc
      have : c.toNat ≤ 102 := hc.2
      omega
    · split at h
      · simp only [Option.some.injEq] at h
        rename_i hc
        have : c.toNat ≤ 70 := hc.2
        omega
      · contradiction

theorem foldlM_hexStep_toDigits (n init : Nat) :
    (Nat.toDigits 16 n).foldlM hexStep init = some
    (init * 16 ^ (Nat.toDigits 16 n).length + n) := by
  induction n using Nat.strongRecOn generalizing init with
  | ind n ih =>
    rw [Nat.toDigits_eq_if (by decide)]
    split
    · simp [hexStep, hexDigitValue_digitChar n ‹_›]
    · rename_i hbig
      rw [List.foldlM_append, ih (n / 16) (by omega)]
      simp only [List.foldlM_cons, List.foldlM_nil, Option.bind_eq_bind, Option.bind_some, hexStep,
        hexDigitValue_digitChar (n % 16) (Nat.mod_lt _ (by decide)), Option.map_some,
        List.length_append, List.length_singleton, Nat.pow_succ, Option.pure_def, Option.some.injEq]
      rw [Nat.add_mul, Nat.mul_assoc]
      omega

theorem foldlM_hexStep_zeros (k init : Nat) :
    (List.replicate k '0').foldlM hexStep init = some (init * 16 ^ k) := by
  induction k generalizing init with
  | zero => simp
  | succ k ih =>
    rw [List.replicate_succ, List.foldlM_cons]
    simp only [hexStep, show hexDigitValue '0' = some 0 from rfl, Option.map_some, Nat.add_zero,
      Option.bind_eq_bind, Option.bind_some, ih, Nat.pow_succ, Option.some.injEq]
    rw [Nat.mul_comm (16 ^ k) 16, Nat.mul_assoc]

theorem hexFixed_toList (width n : Nat) : (hexFixed width n).toList =
    List.replicate (width - (Nat.toDigits 16 n).length) '0' ++ Nat.toDigits 16 n := by
  simp [hexFixed]

theorem hexNumber_hexFixed (width n : Nat) : hexNumber (hexFixed width n).toList = some n := by
  rw [hexNumber_eq, hexFixed_toList, List.foldlM_append, foldlM_hexStep_zeros]
  simp only [Nat.zero_mul, Option.bind_eq_bind, Option.bind_some, foldlM_hexStep_toDigits]
  simp

theorem length_hexFixed {width n : Nat} (hw : 0 < width) (hn : n < 16 ^ width) :
    (hexFixed width n).toList.length = width := by
  have := (Nat.length_toDigits_le_iff (by decide) hw).2 hn
  simp only [hexFixed_toList, List.length_append, List.length_replicate]
  omega

/-- The characters of a hexadecimal text: one byte each, none a hyphen. -/
theorem mem_hexFixed {width n : Nat} {c : Char} (hc : c ∈ (hexFixed width n).toList) :
    c.utf8Size = 1 ∧ c ≠ '-' := by
  rw [hexFixed_toList, List.mem_append] at hc
  rcases hc with hc | hc
  · rw [List.eq_of_mem_replicate hc]
    decide
  · obtain ⟨d, hd, rfl⟩ := exists_digitChar_of_mem_toDigits (by decide) hc
    have hall : ∀ d, d < 16 → (Nat.digitChar d).utf8Size = 1 ∧ Nat.digitChar d ≠ '-' := by decide
    exact hall d hd

/-! ## The hyphenated form -/

/-- The five groups of the hyphenated form of 32 digits. -/
def idGroups (l : List Char) : List (List Char) :=
  [l.take 8, (l.drop 8).take 4, (l.drop 12).take 4, (l.drop 16).take 4, (l.drop 20).take 12]

theorem RecordId.render_toList (id : RecordId) :
    id.render.toList = ['-'].intercalate (idGroups (hexFixed 32 id.bits).toList) := by
  simp [RecordId.render, idGroups, List.intercalate]

theorem idGroups_rejoin {l : List Char} (hl : l.length = 32) :
    l.take 8 ++ ((l.drop 8).take 4 ++ ((l.drop 12).take 4 ++ ((l.drop 16).take 4 ++
      (l.drop 20).take 12))) = l := by
  have hlast : (l.drop 20).take 12 = l.drop 20 := List.take_of_length_le (by simp; omega)
  have h16 : (l.drop 16).take 4 ++ l.drop 20 = l.drop 16 := by
    rw [show l.drop 20 = (l.drop 16).drop 4 by rw [List.drop_drop]]
    exact List.take_append_drop 4 _
  have h12 : (l.drop 12).take 4 ++ l.drop 16 = l.drop 12 := by
    rw [show l.drop 16 = (l.drop 12).drop 4 by rw [List.drop_drop]]
    exact List.take_append_drop 4 _
  have h8 : (l.drop 8).take 4 ++ l.drop 12 = l.drop 8 := by
    rw [show l.drop 12 = (l.drop 8).drop 4 by rw [List.drop_drop]]
    exact List.take_append_drop 4 _
  rw [hlast, h16, h12, h8, List.take_append_drop]

theorem utf8Len_of_ascii {cs : List Char} (h : ∀ c ∈ cs, c.utf8Size = 1) :
    String.utf8Len cs = cs.length := by
  induction cs with
  | nil => rfl
  | cons c rest ih =>
    rw [String.utf8Len_cons, ih (fun d hd => h d (List.mem_cons_of_mem c hd)),
      h c List.mem_cons_self, List.length_cons]

/-- The text of a record id is read back as the id. -/
theorem RecordId.parse_render {id : RecordId} (hvalid : id.Valid) :
    RecordId.parse id.render = .ok id := by
  have hlen : (hexFixed 32 id.bits).toList.length = 32 := length_hexFixed (by decide) hvalid
  generalize hl : (hexFixed 32 id.bits).toList = l at hlen
  have hchars : ∀ c ∈ l, c.utf8Size = 1 ∧ c ≠ '-' := fun c hc => mem_hexFixed (hl ▸ hc)
  have hgroups : ∀ g ∈ idGroups l, '-' ∉ g := by
    intro g hg hminus
    simp only [idGroups, List.mem_cons, List.not_mem_nil, or_false] at hg
    have hin : '-' ∈ l := by
      rcases hg with rfl | rfl | rfl | rfl | rfl
      · exact List.mem_of_mem_take hminus
      all_goals exact List.mem_of_mem_drop (List.mem_of_mem_take hminus)
    exact (hchars '-' hin).2 rfl
  have htext : id.render.toList = ['-'].intercalate (idGroups l) := by
    rw [RecordId.render_toList, hl]
  have hsize : id.render.utf8ByteSize = 36 := by
    rw [← String.ofList_toList (s := id.render), String.utf8ByteSize_ofList, htext,
      utf8Len_of_ascii]
    · simp [idGroups, List.intercalate, hlen]
    · intro c hc
      simp only [idGroups, List.intercalate, List.intersperse, List.flatten_cons,
        List.flatten_nil, List.mem_append, List.mem_singleton, List.not_mem_nil, or_false] at hc
      rcases hc with hc | rfl | hc | rfl | hc | rfl | hc | rfl | hc
      · exact (hchars c (List.mem_of_mem_take hc)).1
      all_goals first
        | rfl
        | exact (hchars c (List.mem_of_mem_drop (List.mem_of_mem_take hc))).1
  have hnumber : hexNumber l = some id.bits := hl ▸ hexNumber_hexFixed 32 id.bits
  unfold RecordId.parse
  simp only [hsize, show (36 == 32) = false from rfl, show (36 == 36) = true from rfl,
    Bool.false_eq_true, if_false, if_true]
  unfold parseHyphenated
  rw [htext, List.splitOn_intercalate _ hgroups (by simp [idGroups])]
  simp only [idGroups, List.length_take, List.length_drop, hlen, List.append_assoc,
    idGroups_rejoin hlen, hnumber]
  rfl

/-! ## Ids read from a text -/

theorem foldlM_hexStep_lt {cs : List Char} {init v : Nat} (h : cs.foldlM hexStep init = some v) :
    v < (init + 1) * 16 ^ cs.length := by
  induction cs generalizing init with
  | nil =>
    simp only [List.foldlM_nil, Option.pure_def, Option.some.injEq] at h
    simp
    omega
  | cons c rest ih =>
    rw [List.foldlM_cons] at h
    cases hd : hexDigitValue c with
    | none => simp [hexStep, hd] at h
    | some d =>
      have hd16 := hexDigitValue_lt hd
      simp only [hexStep, hd, Option.map_some, Option.bind_eq_bind, Option.bind_some] at h
      have hv := ih h
      rw [List.length_cons, Nat.pow_succ]
      calc v < (init * 16 + d + 1) * 16 ^ rest.length := hv
        _ ≤ (init * 16 + 16) * 16 ^ rest.length := Nat.mul_le_mul_right _ (by omega)
        _ = (init + 1) * (16 ^ rest.length * 16) := by
          rw [show init * 16 + 16 = (init + 1) * 16 by omega, Nat.mul_assoc, Nat.mul_comm 16]

theorem hexNumber_lt {cs : List Char} {v : Nat}
    (h : hexNumber cs = some v) : v < 16 ^ cs.length := by
  have := foldlM_hexStep_lt h
  rwa [Nat.zero_add, Nat.one_mul] at this

theorem parseHyphenated_lt {cs : List Char} {v : Nat} (h : parseHyphenated cs = some v) :
    v < 2 ^ 128 := by
  unfold parseHyphenated at h
  split at h
  · split at h
    · rename_i hlengths
      simp only [Bool.and_eq_true, beq_iff_eq] at hlengths
      have hv := hexNumber_lt h
      simp only [List.length_append] at hv
      rw [hlengths.1.1.1.1, hlengths.1.1.1.2, hlengths.1.1.2, hlengths.1.2, hlengths.2] at hv
      exact Nat.lt_of_lt_of_le hv (by decide)
    · contradiction
  · contradiction

theorem length_le_utf8Len (cs : List Char) : cs.length ≤ String.utf8Len cs := by
  induction cs with
  | nil => simp
  | cons c rest ih =>
    have := c.utf8Size_pos
    rw [String.utf8Len_cons, List.length_cons]
    omega

/-- Every id read from a text has 128 bits. -/
theorem RecordId.valid_of_parse {s : String} {id : RecordId} (h : RecordId.parse s = .ok id) :
    id.Valid := by
  unfold RecordId.parse at h
  dsimp only at h
  split at h
  · rename_i bits hfound
    simp only [Except.ok.injEq] at h
    subst h
    show bits < 2 ^ 128
    split at hfound
    · rename_i hsize
      have hv := hexNumber_lt hfound
      have hlen : s.toList.length ≤ 32 := by
        have := length_le_utf8Len s.toList
        rw [← String.utf8ByteSize_ofList, String.ofList_toList] at this
        simp only [beq_iff_eq] at hsize
        omega
      exact Nat.lt_of_lt_of_le hv (Nat.le_trans (Nat.pow_le_pow_right (by decide) hlen) (by decide))
    · split at hfound
      · exact parseHyphenated_lt hfound
      · split at hfound
        · exact parseHyphenated_lt hfound
        · split at hfound
          · exact parseHyphenated_lt hfound
          · contradiction
  · contradiction

/-- A random version 4 id has 128 bits. -/
theorem RecordId.valid_version4 (random : Nat) : (RecordId.version4 random).Valid := by
  unfold RecordId.version4 RecordId.Valid
  dsimp only
  simp only [Nat.pow_eq]
  omega

end EntityLog.Record
