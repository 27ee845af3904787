import EntityLog.Proofs.Record.Valid
import Mathlib.Data.List.Dedup
/-!
# Change sets built from field triples

A change set is built from `(field, old, new)` triples by keeping the triples whose two sides
differ and collecting them by field, a later triple of a field replacing an earlier one; more than
`maxChanges` fields are refused. Measured against that rule (`changedFields`, `lastChange`),
`ChangeSet.fromPairs` refuses exactly when more than `maxChanges` distinct fields change, and
otherwise maps each changed field to the change of its last differing triple, every entry
significant and of the kind its sides give (`fromPairs_matchesReference`). Triples whose sides
agree are dropped before the collecting, so they never replace an earlier change of their field.

`collectSorted` is a left fold of `insertSorted`, so each of its facts comes from one lemma about
a single insertion: a lookup finds the last entry of its key (`find?_collectSorted`), every
entry kept is one of the entries given (`mem_collectSorted`), and the keys are those given, each
once (`length_collectSorted`).
-/

namespace EntityLog.Record

/-! ## Collecting entries by key -/

section Collect

variable {α : Type}

/-- After an insertion, a key finds the inserted entry if it is the inserted key, and what it
found before otherwise. -/
theorem find?_insertSorted (k x : String) (v : α) (acc : List (String × α)) :
    (insertSorted k v acc).find? (·.1 == x) =
      if k = x then some (k, v) else acc.find? (·.1 == x) := by
  induction acc with
  | nil => by_cases h : k = x <;> simp [insertSorted, h]
  | cons e rest ih =>
    obtain ⟨k', w⟩ := e
    unfold insertSorted
    split
    · -- the new entry goes in front
      by_cases h : k = x <;> simp [h]
    · split
      · -- the new entry replaces the one of the same key
        rename_i hk
        subst hk
        by_cases h : k = x <;> simp [h]
      · -- the new entry goes further in, past `k'`
        by_cases h : k' = x
        · have hne : k ≠ x := by rename_i _ hne; rw [← h]; exact hne
          simp [h, hne]
        · simp [h, ih]

theorem mem_insertSorted {k : String} {v : α} {acc : List (String × α)} {e : String × α}
    (he : e ∈ insertSorted k v acc) : e = (k, v) ∨ e ∈ acc := by
  induction acc with
  | nil => simpa [insertSorted] using he
  | cons e' rest ih =>
    obtain ⟨k', w⟩ := e'
    unfold insertSorted at he
    split at he
    · simpa using he
    · split at he
      · simp only [List.mem_cons] at he ⊢
        tauto
      · simp only [List.mem_cons] at he ⊢
        rcases he with he | he
        · exact Or.inr (Or.inl he)
        · rcases ih he with h | h
          · exact Or.inl h
          · exact Or.inr (Or.inr h)

/-- Collecting onto `acc`: a key finds its last entry among those collected, and otherwise what
it found in `acc`. -/
theorem find?_foldl_collect (x : String) :
    ∀ (entries acc : List (String × α)),
      (entries.foldl (fun acc (kv : String × α) => insertSorted kv.1 kv.2 acc) acc).find?
          (·.1 == x) =
        (entries.filter (·.1 == x)).getLast?.or (acc.find? (·.1 == x))
  | [], acc => by simp
  | (k, v) :: rest, acc => by
    rw [List.foldl_cons, find?_foldl_collect x rest, find?_insertSorted]
    by_cases h : k = x
    · subst h
      simp [List.getLast?_cons]
    · simp [h]

/-- A key finds, among collected entries, the last entry given for it. -/
theorem find?_collectSorted (entries : List (String × α)) (x : String) :
    (collectSorted entries).find? (·.1 == x) = (entries.filter (·.1 == x)).getLast? := by
  unfold collectSorted
  simpa using find?_foldl_collect x entries []

/-- Every collected entry is one of the entries given. -/
theorem mem_collectSorted {entries : List (String × α)} {e : String × α}
    (he : e ∈ collectSorted entries) : e ∈ entries := by
  -- the fold keeps entries that came from the start or from the entries folded in
  have hfold : ∀ (rest acc : List (String × α)),
      e ∈ rest.foldl (fun acc (kv : String × α) => insertSorted kv.1 kv.2 acc) acc →
        e ∈ acc ∨ e ∈ rest := by
    intro rest
    induction rest with
    | nil => intro acc h; exact Or.inl h
    | cons e' rest ih =>
      intro acc h
      rcases ih _ h with h | h
      · rcases mem_insertSorted h with h | h
        · exact Or.inr (by simp [h])
        · exact Or.inl h
      · exact Or.inr (List.mem_cons_of_mem _ h)
  rcases hfold entries [] he with h | h
  · simp at h
  · exact h

/-- The keys of collected entries are the keys given. -/
theorem mem_keys_collectSorted (entries : List (String × α)) (x : String) :
    x ∈ (collectSorted entries).map (·.1) ↔ x ∈ entries.map (·.1) := by
  have hfind := find?_collectSorted entries x
  constructor
  · intro hx
    obtain ⟨e, he, rfl⟩ := List.mem_map.1 hx
    exact List.mem_map_of_mem (mem_collectSorted he)
  · intro hx
    obtain ⟨e, he, rfl⟩ := List.mem_map.1 hx
    have hsome : ((entries.filter (·.1 == e.1)).getLast?).isSome := by
      rw [Option.isSome_iff_ne_none, Ne, List.getLast?_eq_none_iff]
      exact List.ne_nil_of_mem (List.mem_filter.2 ⟨he, by simp⟩)
    rw [← hfind] at hsome
    obtain ⟨e', he'⟩ := Option.isSome_iff_exists.1 hsome
    have hkey : e'.1 = e.1 := by simpa using List.find?_some he'
    exact List.mem_map.2 ⟨e', List.mem_of_find?_eq_some he', hkey⟩

/-- Collected entries hold each key given exactly once. -/
theorem length_collectSorted (entries : List (String × α)) :
    (collectSorted entries).length = (entries.map (·.1)).dedup.length := by
  have hnodup : ((collectSorted entries).map (·.1)).Nodup :=
    (keysSorted_collectSorted entries).imp ne_of_lt
  have hperm : ((collectSorted entries).map (·.1)).Perm (entries.map (·.1)).dedup :=
    (List.perm_ext_iff_of_nodup hnodup (List.nodup_dedup _)).2 fun x => by
      rw [List.mem_dedup, mem_keys_collectSorted]
  rw [← List.length_map (f := (·.1)), hperm.length_eq]

end Collect

/-! ## Field changes from their sides -/

/-- The kind of a change follows its sides: only a new value is a creation, only an old value a
deletion, and two values or none a modification. -/
def FieldChange.KindFollowsSides (c : FieldChange) : Prop :=
  (c.kind = .created ↔ c.old = none ∧ c.new.isSome) ∧
    (c.kind = .deleted ↔ c.old.isSome ∧ c.new = none) ∧
    (c.kind = .modified ↔ c.old.isSome = c.new.isSome)

theorem FieldChange.kindFollowsSides_ofSides (old new : Option String) :
    (FieldChange.ofSides old new).KindFollowsSides := by
  cases old <;> cases new <;> simp [FieldChange.KindFollowsSides, FieldChange.ofSides]

/-- A change made from its sides is significant exactly when the sides differ. -/
@[simp] theorem FieldChange.isSignificant_ofSides (old new : Option String) :
    (FieldChange.ofSides old new).isSignificant = (old != new) := by
  cases old <;> cases new <;> simp [FieldChange.ofSides, FieldChange.isSignificant]

/-! ## The rule for triples -/

namespace ChangeSet

/-- The fields that some triple changes, each once. -/
def changedFields (pairs : List (String × Option String × Option String)) : List String :=
  ((pairs.filter fun t => t.2.1 != t.2.2).map (·.1)).dedup

/-- The change a field ends with: that of its last triple whose sides differ. -/
def lastChange (pairs : List (String × Option String × Option String)) (field : String) :
    Option FieldChange :=
  ((pairs.filter fun t => t.1 == field && t.2.1 != t.2.2).getLast?).map fun t =>
    FieldChange.ofSides t.2.1 t.2.2

/-- The entry a triple asks for. -/
def entryOf (t : String × Option String × Option String) : String × FieldChange :=
  (t.1, FieldChange.ofSides t.2.1 t.2.2)

/-- The significant changes of the triples are those of the triples whose sides differ. -/
theorem significant_entries (pairs : List (String × Option String × Option String)) :
    (pairs.map fun (field, old, new) => (field, FieldChange.ofSides old new)).filter
        (fun (_, c) => c.isSignificant) =
      (pairs.filter fun t => t.2.1 != t.2.2).map entryOf := by
  rw [List.filter_map]
  congr 1
  congr 1
  funext t
  simp

/-- Looking a field up among the entries of differing triples, collected, finds its last
change. -/
theorem find?_collect_entries (pairs : List (String × Option String × Option String))
    (field : String) :
    ((collectSorted ((pairs.filter fun t => t.2.1 != t.2.2).map entryOf)).find?
        (·.1 == field)).map (·.2) = lastChange pairs field := by
  rw [find?_collectSorted, List.filter_map, List.filter_filter, List.getLast?_map,
    Option.map_map]
  -- the two filters, same field and differing sides, agree once `entryOf` is unfolded
  rfl

/-- Triples given once per field, in field order, need no collecting: the change set is made of
the changes of the triples whose sides differ, in their order. -/
theorem fromPairs_of_sorted {pairs : List (String × Option String × Option String)}
    (hsorted : (pairs.map (·.1)).Pairwise (· < ·)) :
    ChangeSet.fromPairs pairs =
      ChangeSet.make ((pairs.filter fun t => t.2.1 != t.2.2).map entryOf) := by
  have hkeys : KeysSorted ((pairs.filter fun t => t.2.1 != t.2.2).map entryOf) := by
    unfold KeysSorted
    rw [List.map_map]
    exact hsorted.sublist (List.filter_sublist.map _)
  unfold ChangeSet.fromPairs
  dsimp only
  rw [significant_entries, collectSorted_of_keysSorted hkeys]

/-- The triples' changes, checked against the rule: refused exactly when more than `maxChanges`
distinct fields change; otherwise each changed field maps to the change of its last triple whose
sides differ, the entries sorted by field, each significant and of the kind its sides give. -/
theorem fromPairs_matchesReference (pairs : List (String × Option String × Option String)) :
    (ChangeSet.fromPairs pairs = .error (.tooManyChanges (changedFields pairs).length) ↔
        maxChanges < (changedFields pairs).length) ∧
      ((changedFields pairs).length ≤ maxChanges → ∃ cs, ChangeSet.fromPairs pairs = .ok cs ∧
        KeysSorted cs.entries ∧ (∀ field, cs.get? field = lastChange pairs field) ∧
        ∀ e ∈ cs.entries, e.2.isSignificant ∧ e.2.KindFollowsSides) := by
  have hlen : (collectSorted ((pairs.filter fun t => t.2.1 != t.2.2).map entryOf)).length =
      (changedFields pairs).length := by
    rw [length_collectSorted, List.map_map]
    rfl
  unfold ChangeSet.fromPairs ChangeSet.make
  simp only [significant_entries, hlen]
  by_cases hmany : (changedFields pairs).length > maxChanges
  · -- too many fields change: refused with their number
    rw [if_pos hmany]
    exact ⟨iff_of_true rfl hmany, fun hle => absurd hmany (Nat.not_lt.2 hle)⟩
  · rw [if_neg hmany]
    refine ⟨iff_of_false (fun h => nomatch h) hmany, fun _ => ⟨_, rfl, ?_, ?_, ?_⟩⟩
    · exact keysSorted_collectSorted _
    · intro field
      exact find?_collect_entries pairs field
    · -- each entry comes from a triple whose sides differ
      intro e he
      obtain ⟨t, ht, rfl⟩ := List.mem_map.1 (mem_collectSorted he)
      have hdiff : (t.2.1 != t.2.2) = true := (List.mem_filter.1 ht).2
      exact ⟨by simpa [entryOf] using hdiff, FieldChange.kindFollowsSides_ofSides _ _⟩

end ChangeSet

end EntityLog.Record
