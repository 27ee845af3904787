import EntityLog.Proofs.Json.Strings
import EntityLog.Record.Codec
import Mathlib.Data.List.Forall2
/-!
# Objects read back

An object written by `objectText` is read back member by member. The present members of an
object are its keys with their value texts (`presentMembers`); its bytes are an opening brace, the
first member, every later member after a comma, and a closing brace.

A struct decoder reads each member into its state through the field named by the key. When every
key names a field not seen before, and each field's reader reads the value text wherever a comma
or a closing brace follows it (`ValueReads`), the struct decoder reads the whole object and
finishes with the state the members led to (`Shape.ReadsMembers`). A map decoder reads the members
into a list of keys and values in the same way.
-/

namespace EntityLog.Json

open Read
open EntityLog.Record

/-! ## The bytes of an object -/

/-- The members of an object that are written: those with a value text. -/
def presentMembers (members : List (String × Option String)) : List (String × String) :=
  members.filterMap fun m => m.2.map fun t => (m.1, t)

/-- The bytes of one member: its quoted key, a colon and its value text. -/
def memberBytes (m : String × String) : List UInt8 :=
  textBytes (quote m.1) ++ 58 :: textBytes m.2

/-- The bytes of the members after the first, each after a comma. -/
def laterBytes (ms : List (String × String)) : List UInt8 :=
  ms.flatMap fun m => 44 :: memberBytes m

/-- The bytes of an object after its opening brace. -/
def bodyBytes : List (String × String) → List UInt8
  | [] => [125]
  | m :: rest => memberBytes m ++ laterBytes rest ++ [125]

theorem textBytes_intercalate (sep : String) (first : String) (rest : List String) :
    textBytes (sep.intercalate (first :: rest)) =
      textBytes first ++ rest.flatMap fun t => textBytes sep ++ textBytes t := by
  induction rest generalizing first with
  | nil => simp [String.intercalate_singleton]
  | cons t rest ih =>
      rw [String.intercalate_cons_cons, ← String.intercalate_cons_append, ih]
      simp [List.append_assoc]

theorem objectText_present (members : List (String × Option String)) :
    (members.filterMap fun (k, v) => v.map fun t => quote k ++ ":" ++ t) =
      (presentMembers members).map fun m => quote m.1 ++ ":" ++ m.2 := by
  induction members with
  | nil => rfl
  | cons m rest ih =>
      obtain ⟨k, v⟩ := m
      cases v <;> simp [presentMembers, ih]

/-- The bytes of an object written from its members. -/
theorem textBytes_objectText (members : List (String × Option String)) :
    textBytes (objectText members) = 123 :: bodyBytes (presentMembers members) := by
  have hopen : textBytes "\x7b" = [123] := rfl
  have hclose : textBytes "\x7d" = [125] := rfl
  have hcomma : textBytes "," = [44] := rfl
  have hcolon : textBytes ":" = [58] := rfl
  unfold objectText
  rw [objectText_present]
  cases hpresent : presentMembers members with
  | nil =>
      simp only [List.map_nil, String.intercalate_nil, textBytes_append, hopen, hclose]
      rfl
  | cons m rest =>
      simp only [List.map_cons, textBytes_append, textBytes_intercalate, hopen, hclose,
        hcomma, bodyBytes, laterBytes, List.flatMap_map]
      simp [memberBytes, hcolon]

theorem length_lt_bodyBytes (ms : List (String × String)) : ms.length < (bodyBytes ms).length := by
  have hmember : ∀ m, 1 ≤ (memberBytes m).length := fun m => by simp [memberBytes]; omega
  have hlater : ∀ rest : List (String × String), rest.length ≤ (laterBytes rest).length := by
    intro rest
    induction rest with
    | nil => simp [laterBytes]
    | cons m rest ih =>
        simp only [laterBytes, List.flatMap_cons, List.length_append, List.length_cons] at ih ⊢
        omega
  cases ms with
  | nil => simp [bodyBytes]
  | cons m rest =>
      have := hmember m
      have := hlater rest
      simp only [bodyBytes, List.length_append, List.length_cons]
      omega

/-! ## Keys -/

namespace Read

variable {input : ByteArray} {i : Nat}

theorem Runs.nextKey_close {rest : List UInt8} (first : Bool) (h : Spells input i (125 :: rest)) :
    Runs (nextKey first) input i none i :=
  (Runs.skipBlanks h (by decide)).bind Runs.pure

theorem Runs.key {k : String} (h : Spells input i (textBytes (quote k))) :
    Runs (do Read.advance; return some (← Json.readStringBody)) input i (some k)
      (i + (textBytes (quote k)).length) := by
  rw [textBytes_quote] at h ⊢
  refine (Runs.advance.bind ((Runs.readStringBody h.tail).bind
    (f := fun x => Pure.pure (some x)) Runs.pure)).cast_index ?_
  simp only [List.length_cons, List.length_append, List.length_nil]
  omega

theorem Runs.nextKey_first {k : String} (h : Spells input i (textBytes (quote k))) :
    Runs (nextKey true) input i (some k) (i + (textBytes (quote k)).length) := by
  have hquote := h
  rw [textBytes_quote] at hquote
  exact (Runs.skipBlanks hquote (by decide)).bind (Runs.pure.bind (Runs.key h))

theorem Runs.nextKey_later {k : String} (h : Spells input i (44 :: textBytes (quote k))) :
    Runs (nextKey false) input i (some k) (i + 1 + (textBytes (quote k)).length) := by
  have hquote := h.tail
  rw [textBytes_quote] at hquote
  refine ((Runs.skipBlanks h (by decide)).bind (Runs.advance.bind
    ((Runs.skipBlanks hquote (by decide)).bind (Runs.pure.bind (Runs.key h.tail))))).cast_index ?_
  omega

end Read

/-! ## Members read into a struct -/

/-- `x` reads the text `v` as `a` wherever `v` is followed by a comma or a closing brace. -/
def ValueReads {α : Type} (x : Read α) (v : String) (a : α) : Prop :=
  ∀ input i c, (c = 44 ∨ c = 125) → Spells input i (textBytes v ++ [c]) →
    Runs x input i a (i + (textBytes v).length)

/-- Reading the members `ms` one after the other takes the state of a struct from `st` to `st'`:
each key names a field that is not among the keys seen before, and the field's reader reads the
value text. -/
def Shape.ReadsMembers {σ α : Type} (shape : Shape σ α) (s : Scope) :
    List String → σ → List (String × String) → σ → Prop
  | _, st, [], st' => st' = st
  | seen, st, (k, v) :: rest, st' =>
    ∃ f, shape.fields.find? (·.name == k) = some f ∧ seen.contains k = false ∧
      ∃ mid, ValueReads (f.read st s) v mid ∧ shape.ReadsMembers s (k :: seen) mid rest st'

theorem Spells.value {input : ByteArray} {i : Nat} {v : String} {c : UInt8} {more : List UInt8}
    (h : Spells input i (textBytes v ++ c :: more)) : Spells input i (textBytes v ++ [c]) := by
  obtain ⟨tail, htail⟩ := h
  exact ⟨more ++ tail, by simpa using htail⟩

/-- What follows the later members and the closing brace starts with a comma or the brace. -/
theorem laterBytes_head (ms : List (String × String)) :
    ∃ c more, laterBytes ms ++ [125] = c :: more ∧ (c = 44 ∨ c = 125) := by
  cases ms with
  | nil => exact ⟨125, [], rfl, Or.inr rfl⟩
  | cons m rest =>
      exact ⟨44, memberBytes m ++ (laterBytes rest ++ [125]), by simp [laterBytes], Or.inl rfl⟩

theorem laterBytes_cons (k v : String) (rest : List (String × String)) :
    laterBytes ((k, v) :: rest) ++ [125] =
      (44 :: textBytes (quote k)) ++ 58 :: (textBytes v ++ (laterBytes rest ++ [125])) := by
  simp [laterBytes, memberBytes]

namespace Read

variable {σ α : Type} {input : ByteArray} {i : Nat}

/-- One member read into a struct: its key, the field it names, the colon and the value; then the
rest of the members. -/
theorem Runs.readMembers_step {shape : Shape σ α} {s : Scope} {seen : List String} {st mid st' : σ}
    {first : Bool} {fuel : Nat} {k v : String} {f : Field σ} {c : UInt8} {more : List UInt8}
    {j0 j : Nat} (hkey : Runs (nextKey first) input i (some k) j0)
    (hfind : shape.fields.find? (·.name == k) = some f) (hseen : seen.contains k = false)
    (hvalue : ValueReads (f.read st s) v mid) (hc : c = 44 ∨ c = 125)
    (h : Spells input j0 (58 :: (textBytes v ++ c :: more)))
    (hnext : Runs (shape.readMembers s (k :: seen) mid false fuel) input
      (j0 + 1 + (textBytes v).length) st' j) :
    Runs (shape.readMembers s seen st first (fuel + 1)) input i st' j := by
  rw [Shape.readMembers]
  refine hkey.bind ?_
  simp only [hfind, hseen, Bool.false_eq_true, if_false]
  exact (Runs.expectColon h).bind ((hvalue input (j0 + 1) c hc h.tail.value).bind hnext)

/-- The members after the first, each after a comma, are read up to the closing brace, which is
left in place. -/
theorem Runs.readMembers_later {shape : Shape σ α} {s : Scope} (ms : List (String × String)) :
    ∀ (seen : List String) (st st' : σ) (fuel i : Nat),
      shape.ReadsMembers s seen st ms st' → ms.length < fuel →
      Spells input i (laterBytes ms ++ [125]) →
      Runs (shape.readMembers s seen st false fuel) input i st' (i + (laterBytes ms).length) := by
  induction ms with
  | nil =>
      intro seen st st' fuel i hreads hfuel h
      have hst : st' = st := hreads
      subst hst
      obtain ⟨fuel, rfl⟩ : ∃ n, fuel = n + 1 := ⟨fuel - 1, by simp at hfuel; omega⟩
      rw [Shape.readMembers]
      rw [show i + (laterBytes []).length = i by simp [laterBytes]]
      exact (Runs.nextKey_close false h).bind Runs.pure
  | cons m rest ih =>
      intro seen st st' fuel i hreads hfuel h
      obtain ⟨k, v⟩ := m
      obtain ⟨f, hfind, hseen, mid, hvalue, hrest⟩ := hreads
      obtain ⟨fuel, rfl⟩ : ∃ n, fuel = n + 1 := ⟨fuel - 1, by simp at hfuel; omega⟩
      obtain ⟨c, more, hhead, hc⟩ := laterBytes_head rest
      rw [laterBytes_cons] at h
      have hkey := Runs.nextKey_later (@Spells.left _ _ (44 :: textBytes (quote k)) _ h)
      have hmember := @Spells.right _ _ (44 :: textBytes (quote k)) _ h
      rw [List.length_cons, Nat.add_comm _ 1, ← Nat.add_assoc] at hmember
      have hbytes := @Spells.right _ _ (textBytes v) _ hmember.tail
      rw [hhead] at hmember
      refine (Runs.readMembers_step hkey hfind hseen hvalue hc hmember
        (ih (k :: seen) mid st' fuel _ hrest
          (by simp only [List.length_cons] at hfuel; omega) ?_)).cast_index ?_
      · simpa [Nat.add_assoc] using hbytes
      · simp [laterBytes, memberBytes]
        omega

/-- The members of an object after its opening brace are read up to the closing brace, which is
left in place. -/
theorem Runs.readMembers_body {shape : Shape σ α} {s : Scope} {ms : List (String × String)}
    {st' : σ} {fuel : Nat} (hreads : shape.ReadsMembers s [] shape.start ms st')
    (hfuel : ms.length < fuel) (h : Spells input i (bodyBytes ms)) :
    Runs (shape.readMembers s [] shape.start true fuel) input i st'
      (i + (bodyBytes ms).length - 1) := by
  cases ms with
  | nil =>
      have hst : st' = shape.start := hreads
      subst hst
      obtain ⟨fuel, rfl⟩ : ∃ n, fuel = n + 1 := ⟨fuel - 1, by simp at hfuel; omega⟩
      rw [Shape.readMembers]
      rw [show i + (bodyBytes []).length - 1 = i by simp [bodyBytes]]
      exact (Runs.nextKey_close true h).bind Runs.pure
  | cons m rest =>
      obtain ⟨k, v⟩ := m
      obtain ⟨f, hfind, hseen, mid, hvalue, hrest⟩ := hreads
      obtain ⟨fuel, rfl⟩ : ∃ n, fuel = n + 1 := ⟨fuel - 1, by simp at hfuel; omega⟩
      obtain ⟨c, more, hhead, hc⟩ := laterBytes_head rest
      have hsplit : bodyBytes ((k, v) :: rest) =
          textBytes (quote k) ++ 58 :: (textBytes v ++ (laterBytes rest ++ [125])) := by
        simp [bodyBytes, memberBytes]
      rw [hsplit] at h
      have hkey := Runs.nextKey_first (@Spells.left _ _ (textBytes (quote k)) _ h)
      have hmember := @Spells.right _ _ (textBytes (quote k)) _ h
      have hbytes := @Spells.right _ _ (textBytes v) _ hmember.tail
      rw [hhead] at hmember
      refine (Runs.readMembers_step hkey hfind hseen hvalue hc hmember
        (Runs.readMembers_later rest [k] mid st' fuel _ hrest
          (by simp only [List.length_cons] at hfuel; omega) ?_)).cast_index ?_
      · simpa [Nat.add_assoc] using hbytes
      · rw [hsplit]
        simp
        omega

theorem bodyBytes_closed (ms : List (String × String)) :
    ∃ pre, bodyBytes ms = pre ++ [125] := by
  cases ms with
  | nil => exact ⟨[], rfl⟩
  | cons m rest => exact ⟨memberBytes m ++ laterBytes rest, by simp [bodyBytes]⟩

/-- An object is read by a struct decoder whose fields take its members to a state that
finishes. -/
theorem Runs.struct {shape : Shape σ α} {s : Scope} {members : List (String × Option String)}
    {st' : σ} {a : α} (hdepth : 1 < s.depth)
    (hreads : shape.ReadsMembers (s.inner (s.depth - 1)) [] shape.start (presentMembers members)
      st')
    (hfinish : shape.finish st' = .ok a) (h : Spells input i (textBytes (objectText members))) :
    Runs (Decoder.struct shape s) input i a (i + (textBytes (objectText members)).length) := by
  rw [textBytes_objectText] at h ⊢
  obtain ⟨pre, hpre⟩ := bodyBytes_closed (presentMembers members)
  have hsize := h.le_size (List.cons_ne_nil _ _)
  have hcount := length_lt_bodyBytes (presentMembers members)
  have hclose : Spells input (i + 1 + pre.length) [125] := by
    have hbody := h.tail
    rw [hpre] at hbody
    exact hbody.right
  refine Runs.located ((Runs.skipBlanks h (by decide)).bind ?_)
  refine (Runs.enter hdepth).bind (Runs.fuelLeft.bind ?_)
  have hbody : Runs (shape.readMembers (s.inner (s.depth - 1)) [] shape.start true
      (input.size - (i + 1) + 1)) input (i + 1) st'
      (i + 1 + (bodyBytes (presentMembers members)).length - 1) :=
    Runs.readMembers_body hreads (by simp only [List.length_cons] at hsize; omega) h.tail
  rw [hpre] at hbody
  have hfinished : Runs (do
      let st ← shape.readMembers (s.inner (s.depth - 1)) [] shape.start true
        (input.size - (i + 1) + 1)
      Read.ofExcept (shape.finish st)) input (i + 1) a (i + 1 + pre.length) := by
    refine (hbody.cast_index (show _ = i + 1 + pre.length by simp)).bind ?_
    rw [hfinish]
    exact Runs.ofExcept
  refine (hfinished.closedBy (Runs.closeObject hclose)).cast_index ?_
  rw [hpre]
  simp
  omega

/-! ## Members read into a map -/

/-- The value texts of the members `ms` are read by `member`, at their keys, as the values of the
entries `rs`, in order. -/
def MembersRead {β : Type} (member : String → Read β) (ms : List (String × String))
    (rs : List (String × β)) : Prop :=
  List.Forall₂ (fun m r => r.1 = m.1 ∧ ValueReads (member m.1) m.2 r.2) ms rs

theorem Runs.mapMembers_step {β : Type} {member : String → Read β} {first : Bool} {fuel : Nat}
    {k v : String} {b : β} {rs : List (String × β)} {c : UInt8} {more : List UInt8} {j0 j : Nat}
    (hkey : Runs (nextKey first) input i (some k) j0) (hvalue : ValueReads (member k) v b)
    (hc : c = 44 ∨ c = 125) (h : Spells input j0 (58 :: (textBytes v ++ c :: more)))
    (hnext : Runs (Json.readMembers member false fuel) input (j0 + 1 + (textBytes v).length) rs j) :
    Runs (Json.readMembers member first (fuel + 1)) input i ((k, b) :: rs) j := by
  rw [Json.readMembers]
  exact hkey.bind ((Runs.expectColon h).bind
    ((hvalue input (j0 + 1) c hc h.tail.value).bind (hnext.bind Runs.pure)))

theorem Runs.mapMembers_later {β : Type} {member : String → Read β} (ms : List (String × String)) :
    ∀ (rs : List (String × β)) (fuel i : Nat), MembersRead member ms rs → ms.length < fuel →
      Spells input i (laterBytes ms ++ [125]) →
      Runs (Json.readMembers member false fuel) input i rs (i + (laterBytes ms).length) := by
  induction ms with
  | nil =>
      intro rs fuel i hread hfuel h
      cases hread
      obtain ⟨fuel, rfl⟩ : ∃ n, fuel = n + 1 := ⟨fuel - 1, by simp at hfuel; omega⟩
      rw [Json.readMembers, show i + (laterBytes []).length = i by simp [laterBytes]]
      exact (Runs.nextKey_close false h).bind Runs.pure
  | cons m rest ih =>
      intro rs fuel i hread hfuel h
      obtain ⟨k, v⟩ := m
      cases hread with
      | cons hfirst hrest =>
          rename_i r rs
          obtain ⟨hkeyEq, hvalue⟩ := hfirst
          obtain ⟨rk, b⟩ := r
          simp only at hkeyEq
          subst hkeyEq
          obtain ⟨fuel, rfl⟩ : ∃ n, fuel = n + 1 := ⟨fuel - 1, by simp at hfuel; omega⟩
          obtain ⟨c, more, hhead, hc⟩ := laterBytes_head rest
          rw [laterBytes_cons] at h
          have hkey := Runs.nextKey_later (@Spells.left _ _ (44 :: textBytes (quote rk)) _ h)
          have hmember := @Spells.right _ _ (44 :: textBytes (quote rk)) _ h
          rw [List.length_cons, Nat.add_comm _ 1, ← Nat.add_assoc] at hmember
          have hbytes := @Spells.right _ _ (textBytes v) _ hmember.tail
          rw [hhead] at hmember
          refine (Runs.mapMembers_step hkey hvalue hc hmember
            (ih rs fuel _ hrest (by simp only [List.length_cons] at hfuel; omega) ?_)).cast_index ?_
          · simpa [Nat.add_assoc] using hbytes
          · simp [laterBytes, memberBytes]
            omega

/-- An object is read by a map decoder as the entries its members' values are read as. -/
theorem Runs.mapDecoder {β : Type} {expected : String} {member : Decoder β} {s : Scope}
    {members : List (String × Option String)} {rs : List (String × β)} (hdepth : 1 < s.depth)
    (hread : MembersRead (fun _ => member (s.inner (s.depth - 1))) (presentMembers members) rs)
    (h : Spells input i (textBytes (objectText members))) :
    Runs (Decoder.map expected member s) input i rs
      (i + (textBytes (objectText members)).length) := by
  rw [textBytes_objectText] at h ⊢
  obtain ⟨pre, hpre⟩ := bodyBytes_closed (presentMembers members)
  have hsize := h.le_size (List.cons_ne_nil _ _)
  have hcount := length_lt_bodyBytes (presentMembers members)
  have hbody := h.tail
  rw [hpre] at hbody
  have hclose : Spells input (i + 1 + pre.length) [125] := hbody.right
  have hentries : Runs (Json.readMembers (fun _ => member (s.inner (s.depth - 1))) true
      (input.size - (i + 1) + 1)) input (i + 1) rs (i + 1 + pre.length) := by
    obtain ⟨fuel, hfuel⟩ : ∃ n, input.size - (i + 1) + 1 = n + 1 := ⟨_, rfl⟩
    cases hms : presentMembers members with
    | nil =>
        rw [hms] at hread
        cases hread
        rw [hms] at hpre
        simp only [bodyBytes] at hpre
        have hpre' : pre = [] := by simpa using hpre.symm
        subst hpre'
        rw [hfuel, Json.readMembers]
        exact (Runs.nextKey_close true (by simpa using hbody)).bind Runs.pure
    | cons m rest =>
        obtain ⟨k, v⟩ := m
        rw [hms] at hread hpre hcount
        cases hread with
        | cons hfirst hrest =>
            rename_i r rs
            obtain ⟨hkeyEq, hvalue⟩ := hfirst
            obtain ⟨rk, b⟩ := r
            simp only at hkeyEq
            subst hkeyEq
            obtain ⟨c, more, hhead, hc⟩ := laterBytes_head rest
            have hsplit : pre ++ [125] =
                textBytes (quote rk) ++ 58 :: (textBytes v ++ (laterBytes rest ++ [125])) := by
              rw [← hpre]
              simp [bodyBytes, memberBytes]
            rw [hsplit] at hbody
            have hkey := Runs.nextKey_first (@Spells.left _ _ (textBytes (quote rk)) _ hbody)
            have hmember := @Spells.right _ _ (textBytes (quote rk)) _ hbody
            have hbytes := @Spells.right _ _ (textBytes v) _ hmember.tail
            rw [hhead] at hmember
            rw [hfuel]
            refine (Runs.mapMembers_step hkey hvalue hc hmember
              (@Runs.mapMembers_later _ _ (fun _ => member (s.inner (s.depth - 1))) rest rs fuel
                _ hrest ?_ ?_)).cast_index ?_
            · rw [hms] at hsize
              simp [bodyBytes] at hsize hcount
              omega
            · simpa [Nat.add_assoc] using hbytes
            · have hlength := congrArg List.length hsplit
              simp at hlength
              omega
  refine Runs.located ((Runs.skipBlanks h (by decide)).bind ?_)
  refine (Runs.enter hdepth).bind (Runs.fuelLeft.bind ?_)
  refine (hentries.closedBy (Runs.closeObject hclose)).cast_index ?_
  rw [hpre]
  simp
  omega

end Read

/-- A reader that reads a text on its own reads it before a comma or a closing brace too. -/
theorem ValueReads.of_runs {α : Type} {x : Read α} {v : String} {a : α}
    (h : ∀ input i, Spells input i (textBytes v) →
      Read.Runs x input i a (i + (textBytes v).length)) :
    ValueReads x v a :=
  fun input i _ _ hv => h input i hv.left

end EntityLog.Json
