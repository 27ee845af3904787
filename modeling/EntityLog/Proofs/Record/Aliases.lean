import EntityLog.Record.Codec
import EntityLog.Proofs.Json.Values
import EntityLog.Proofs.Time.Timestamps
import Mathlib.Data.List.TakeWhile
/-!
# Operation aliases

An operation is read from a text by trimming the blanks at both ends, upper-casing the ASCII
letters and looking the result up among the operations' aliases. Here this reader is shown to
accept exactly a grammar said without it (`Operation.Names`): one of the operation's aliases,
spelled in any ASCII case, with any blanks before and after it. The blanks are the Unicode
`White_Space` characters and nothing else, and only ASCII letters change case, so a long s or a
dotless i spells no alias, and a zero-width space is no blank (`Operation.ofAlias_exactGrammar`).

The parts: the trim gives back the word between blanks when the word has no blank at its ends
(`toList_trimBlank_of_padded`), and every text is its trim with blanks around it
(`toList_trimBlank_padded`); a word upper-cases to a word of capitals exactly when it equals
that word up to ASCII case (`map_toUpper_eq_iff`); the aliases of two operations are apart.
-/

namespace EntityLog.Record

open EntityLog.Text EntityLog.Json EntityLog.Time

/-! ## Case of ASCII letters -/

theorem toNat_toLower (c : Char) :
    c.toLower.toNat = if 65 ≤ c.toNat ∧ c.toNat ≤ 90 then c.toNat + 32 else c.toNat := by
  unfold Char.toLower
  have hv : c.toNat = c.val.toNat := rfl
  split <;> rename_i h
  · have h' : 65 ≤ c.val.toNat ∧ c.val.toNat ≤ 90 := by
      simpa [UInt32.le_iff_toNat_le] using h
    rw [if_pos (by omega)]
    show (c.val + ('a'.val - 'A'.val)).toNat = _
    have h32 : ('a'.val - 'A'.val).toNat = 32 := by decide
    rw [UInt32.toNat_add, h32, hv]
    omega
  · have h' : ¬ (65 ≤ c.val.toNat ∧ c.val.toNat ≤ 90) := by
      simpa [UInt32.le_iff_toNat_le] using h
    rw [if_neg (by omega)]

theorem toNat_toUpper (c : Char) :
    c.toUpper.toNat = if 97 ≤ c.toNat ∧ c.toNat ≤ 122 then c.toNat - 32 else c.toNat := by
  unfold Char.toUpper
  have hv : c.toNat = c.val.toNat := rfl
  split <;> rename_i h
  · have h' : 97 ≤ c.val.toNat ∧ c.val.toNat ≤ 122 := by
      simpa [UInt32.le_iff_toNat_le] using h
    rw [if_pos (by omega)]
    show (c.val + ('A'.val - 'a'.val)).toNat = _
    -- Adding `'A' - 'a'` wraps around 32 bits: it takes 32 away.
    have h32 : ('A'.val - 'a'.val).toNat = 2 ^ 32 - 32 := by decide
    rw [UInt32.toNat_add, h32, hv]
    omega
  · have h' : ¬ (97 ≤ c.val.toNat ∧ c.val.toNat ≤ 122) := by
      simpa [UInt32.le_iff_toNat_le] using h
    rw [if_neg (by omega)]

theorem isUpper_iff (c : Char) : c.isUpper ↔ 65 ≤ c.toNat ∧ c.toNat ≤ 90 := by
  simp [Char.isUpper, UInt32.le_iff_toNat_le]

/-- Upper-casing gives a capital exactly when lower-casing gives the capital's small letter. -/
theorem toUpper_eq_iff {c d : Char} (hd : d.isUpper) : c.toUpper = d ↔ c.toLower = d.toLower := by
  have hcap := (isUpper_iff d).1 hd
  rw [← Char.toNat_inj, ← Char.toNat_inj, toNat_toUpper, toNat_toLower, toNat_toLower]
  split <;> split <;> omega

/-- A word upper-cases to a word of capitals exactly when the two are equal up to ASCII case. -/
theorem map_toUpper_eq_iff :
    ∀ {w a : List Char}, (∀ d ∈ a, d.isUpper) →
      (w.map Char.toUpper = a ↔ w.map Char.toLower = a.map Char.toLower)
  | [], [], _ => by simp
  | [], _ :: _, _ => by simp
  | _ :: _, [], _ => by simp
  | c :: w, d :: a, hcaps => by
    have hd : d.isUpper := hcaps d List.mem_cons_self
    have ha : ∀ e ∈ a, e.isUpper := fun e he => hcaps e (List.mem_cons_of_mem d he)
    simp only [List.map_cons, List.cons.injEq, toUpper_eq_iff hd, map_toUpper_eq_iff ha]

/-- A blank is no letter, so it does not upper-case to a capital. -/
theorem not_isUpper_toUpper_of_isBlank {c : Char} (hc : isBlank c = true) :
    ¬ c.toUpper.isUpper := by
  rw [isUpper_iff, toNat_toUpper]
  simp only [isBlank, Bool.or_eq_true, Bool.and_eq_true, decide_eq_true_eq, beq_iff_eq] at hc
  split <;> omega

/-! ## Trimming blanks -/

theorem toList_trimBlank (s : String) :
    (trimBlank s).toList = (dropBlank (dropBlank s.toList).reverse).reverse := by
  simp [trimBlank]

theorem dropBlank_blank_append {pre rest : List Char} (hpre : ∀ c ∈ pre, isBlank c) :
    dropBlank (pre ++ rest) = dropBlank rest :=
  List.dropWhile_append_of_pos hpre

/-- A list is what is left after dropping the blanks at its back, then those blanks. -/
theorem eq_dropBlankBack_append (u : List Char) :
    u = (dropBlank u.reverse).reverse ++ (u.reverse.takeWhile isBlank).reverse := by
  rw [← List.reverse_append, dropBlank, List.takeWhile_append_dropWhile, List.reverse_reverse]

/-- A word without blanks at its ends is what trimming the word with blanks around it gives. -/
theorem toList_trimBlank_of_padded {s : String} {pre w post : List Char}
    (hs : s.toList = pre ++ w ++ post) (hpre : ∀ c ∈ pre, isBlank c)
    (hpost : ∀ c ∈ post, isBlank c) (hw : ∀ c ∈ w, isBlank c = false) :
    (trimBlank s).toList = w := by
  rw [toList_trimBlank, hs, List.append_assoc, dropBlank_blank_append hpre]
  cases w with
  | nil =>
    have hnil : dropBlank post = [] := List.dropWhile_eq_nil_iff.2 hpost
    rw [List.nil_append, hnil]
    rfl
  | cons c w =>
    have hstart : dropBlank ((c :: w) ++ post) = (c :: w) ++ post :=
      dropBlank_of_head (by simpa using hw c List.mem_cons_self)
    have hback : ∀ d ∈ post.reverse, isBlank d := by simpa using hpost
    have hlast : ∀ d ∈ (c :: w).reverse.head?, isBlank d = false := fun d hd =>
      hw d (List.mem_reverse.1 (List.mem_of_mem_head? hd))
    rw [hstart, List.reverse_append, dropBlank_blank_append hback,
      dropBlank_of_head hlast, List.reverse_reverse]

/-- Every text is its trim with blanks before and after. -/
theorem toList_trimBlank_padded (s : String) :
    ∃ pre post, s.toList = pre ++ (trimBlank s).toList ++ post ∧ (∀ c ∈ pre, isBlank c) ∧
      ∀ c ∈ post, isBlank c := by
  -- Blanks are taken from the front, then from the back of what is left.
  refine ⟨s.toList.takeWhile isBlank, ((dropBlank s.toList).reverse.takeWhile isBlank).reverse,
    ?_, fun c hc => List.mem_takeWhile_imp hc,
    fun c hc => List.mem_takeWhile_imp (List.mem_reverse.1 hc)⟩
  rw [toList_trimBlank, List.append_assoc, ← eq_dropBlankBack_append]
  exact (List.takeWhile_append_dropWhile (p := isBlank)).symm

/-! ## The grammar of aliases -/

/-- `s` spells the word `a`, up to the case of ASCII letters, with blanks before and after it. -/
def SpellsWord (s a : String) : Prop :=
  ∃ pre w post, s.toList = pre ++ w ++ post ∧ (∀ c ∈ pre, isBlank c) ∧ (∀ c ∈ post, isBlank c) ∧
    w.map Char.toLower = a.toList.map Char.toLower

/-- A text names an operation when it spells one of the operation's aliases. -/
def Operation.Names (op : Operation) (s : String) : Prop :=
  ∃ a ∈ op.aliases, SpellsWord s a

/-- Every letter of every alias is an ASCII capital. -/
theorem isUpper_of_mem_aliases {op : Operation} {a : String} (ha : a ∈ op.aliases) :
    ∀ d ∈ a.toList, d.isUpper := by
  cases op <;> simp only [Operation.aliases, List.mem_cons, List.not_mem_nil, or_false] at ha <;>
    rcases ha with rfl | rfl | rfl <;> simp [Char.isUpper]

/-- The key a text is looked up by is a word of capitals exactly when the text spells it. -/
theorem asciiUpper_trimBlank_eq_iff {s a : String} (hcaps : ∀ d ∈ a.toList, d.isUpper) :
    asciiUpper (trimBlank s) = a ↔ SpellsWord s a := by
  constructor
  · intro hkey
    obtain ⟨pre, post, hs, hpre, hpost⟩ := toList_trimBlank_padded s
    refine ⟨pre, (trimBlank s).toList, post, hs, hpre, hpost, ?_⟩
    rw [← map_toUpper_eq_iff hcaps, ← hkey]
    simp [asciiUpper]
  · rintro ⟨pre, w, post, hs, hpre, hpost, hw⟩
    have hupper : w.map Char.toUpper = a.toList := (map_toUpper_eq_iff hcaps).2 hw
    -- The word upper-cases to capitals, so it has no blank anywhere, in particular at its ends.
    have hletters : ∀ c ∈ w, isBlank c = false := by
      intro c hc
      cases hblank : isBlank c
      · rfl
      · exact absurd (hcaps _ (hupper ▸ List.mem_map_of_mem hc))
          (not_isUpper_toUpper_of_isBlank hblank)
    rw [asciiUpper, toList_trimBlank_of_padded hs hpre hpost hletters, hupper, String.ofList_toList]

theorem Operation.mem_all (op : Operation) : op ∈ Operation.all := by
  cases op <;> simp [Operation.all]

/-- No word is an alias of two operations. -/
theorem Operation.eq_of_mem_aliases {a : String} {op op' : Operation} (h : a ∈ op.aliases)
    (h' : a ∈ op'.aliases) : op = op' := by
  revert a
  cases op <;> cases op' <;> decide

/-- The lookup finds the operation whose alias the key is. -/
theorem ofAlias_eq_some_iff_key {s : String} {op : Operation} :
    Operation.ofAlias s = some op ↔ asciiUpper (trimBlank s) ∈ op.aliases := by
  unfold Operation.ofAlias
  generalize asciiUpper (trimBlank s) = key
  constructor
  · intro hfound
    simpa using List.find?_some hfound
  · intro hkey
    obtain ⟨found, hfound⟩ := Option.isSome_iff_exists.1
      ((List.find?_isSome (p := fun o : Operation => o.aliases.contains key)).2
        ⟨op, op.mem_all, by simpa using hkey⟩)
    have hfkey : key ∈ found.aliases := by simpa using List.find?_some hfound
    rw [hfound, Operation.eq_of_mem_aliases hfkey hkey]

theorem Operation.ofAlias_eq_some_iff {s : String} {op : Operation} :
    Operation.ofAlias s = some op ↔ op.Names s := by
  rw [ofAlias_eq_some_iff_key]
  constructor
  · intro hkey
    exact ⟨_, hkey, (asciiUpper_trimBlank_eq_iff (isUpper_of_mem_aliases hkey)).1 rfl⟩
  · rintro ⟨a, ha, hspells⟩
    rw [(asciiUpper_trimBlank_eq_iff (isUpper_of_mem_aliases ha)).2 hspells]
    exact ha

theorem Operation.ofAlias_eq_none_iff {s : String} :
    Operation.ofAlias s = none ↔ ∀ op : Operation, ¬ op.Names s := by
  simp only [← Operation.ofAlias_eq_some_iff, Option.eq_none_iff_forall_ne_some]

theorem Operation.parse_eq_ok_iff {s : String} {op : Operation} :
    Operation.parse s = .ok op ↔ op.Names s := by
  rw [← Operation.ofAlias_eq_some_iff, Operation.parse]
  cases Operation.ofAlias s <;> simp

theorem Operation.parse_eq_unknown_iff {s : String} :
    Operation.parse s = .error (.unknownOperation s) ↔ ∀ op : Operation, ¬ op.Names s := by
  rw [← Operation.ofAlias_eq_none_iff, Operation.parse]
  cases Operation.ofAlias s <;> simp

/-- Each operation names itself by its canonical name. -/
theorem Operation.names_name (op : Operation) : op.Names op.name :=
  ⟨op.name, by cases op <;> decide, [], op.name.toList, [], by simp, by simp, by simp, rfl⟩

/-- The JSON text of an operation decodes to the operation. -/
theorem Operation.decode_encode (op : Operation) :
    decodeText operationDecoder op.encode.toUTF8 = .ok op := by
  have hfind : (Operation.all.map fun o => (o.name, o)).find? (·.1 == op.name) =
      some (op.name, op) := by
    cases op <;> rfl
  have hruns := Read.Runs.variant (s := { depth := depthLimit }) hfind
    (spells_whole (quote op.name))
  refine runText_of_runs (hruns.cast_index ?_)
  simp [textBytes, Operation.encode]

/-- Reading an operation accepts exactly its grammar: a text is read as an operation when, and
only when, it is one of the operation's aliases in any ASCII case with blanks around it; parsing
gives the same operation, and otherwise an error that carries the text as given. Each operation
is read back from its canonical name and from its JSON text. -/
theorem Operation.ofAlias_exactGrammar :
    (∀ (s : String) (op : Operation), Operation.ofAlias s = some op ↔ op.Names s) ∧
    (∀ s : String, Operation.ofAlias s = none ↔ ∀ op : Operation, ¬ op.Names s) ∧
    (∀ (s : String) (op : Operation), Operation.parse s = .ok op ↔ op.Names s) ∧
    (∀ s : String,
      Operation.parse s = .error (.unknownOperation s) ↔ ∀ op : Operation, ¬ op.Names s) ∧
    (∀ op : Operation, Operation.ofAlias op.name = some op) ∧
    ∀ op : Operation, decodeText operationDecoder op.encode.toUTF8 = .ok op :=
  ⟨fun _ _ => Operation.ofAlias_eq_some_iff, fun _ => Operation.ofAlias_eq_none_iff,
    fun _ _ => Operation.parse_eq_ok_iff, fun _ => Operation.parse_eq_unknown_iff,
    fun op => Operation.ofAlias_eq_some_iff.2 op.names_name, Operation.decode_encode⟩

-- Blanks are the `White_Space` characters: the ideographic space is one, the zero-width space is
-- not. Only ASCII letters change case: a long s does not spell `SAVE`, a dotless i not `INSERT`.
example : Operation.ofAlias "\u3000remove\u00a0" = some .delete ∧
    Operation.ofAlias "\u200binsert" = none ∧ Operation.ofAlias "\u017fave" = none ∧
    Operation.ofAlias "\u0131nsert" = none := by
  decide

end EntityLog.Record
