import EntityLog.Proofs.Record.Ids
import EntityLog.Record.Basic
/-!
# Well-formed records

The rules a record keeps, stated once: an entity reference with a name and an id that are not
blank, a change set sorted by field name with each field once and at most `maxChanges` fields,
instants of the calendar, an id of 128 bits. `ChangeRecord.Valid` gathers them.

`collectSorted` is how a change set is put in order, both when it is built from field triples
and when it is read: its result has its keys strictly increasing (`keysSorted_collectSorted`) and
it leaves entries that already are in that order as they are (`collectSorted_of_keysSorted`).

`ChangeRecord.Built` says how the library makes records: a fresh one from an entity reference
and a change set made by their constructors, stamped with a random id and the clock, and any
record given another submission context. Built records are well formed
(`ChangeRecord.Built.valid`).
-/

namespace EntityLog.Record

open EntityLog.Text
open EntityLog.Time

/-! ## Entries sorted by key -/

/-- Keys in strictly increasing order, as the entries of a map come. -/
def KeysSorted {α : Type} (entries : List (String × α)) : Prop :=
  (entries.map (·.1)).Pairwise (· < ·)

variable {α : Type}

theorem keysSorted_cons {k : String} {v : α} {rest : List (String × α)} :
    KeysSorted ((k, v) :: rest) ↔ (∀ x ∈ rest, k < x.1) ∧ KeysSorted rest := by
  simp [KeysSorted, List.pairwise_cons]

/-- Every key of sorted entries is above the keys before it. -/
theorem KeysSorted.lt_of_append {front rest : List (String × α)} {k : String} {v : α}
    (h : KeysSorted (front ++ (k, v) :: rest)) : ∀ x ∈ front, x.1 < k := by
  unfold KeysSorted at h
  rw [List.map_append, List.pairwise_append] at h
  intro x hx
  exact h.2.2 x.1 (List.mem_map_of_mem hx) k (by simp)

/-- The keys after an insertion are the inserted key and the keys before. -/
theorem mem_keys_insertSorted {k x : String} {v : α} {acc : List (String × α)}
    (hx : x ∈ (insertSorted k v acc).map (·.1)) : x = k ∨ x ∈ acc.map (·.1) := by
  induction acc with
  | nil => simpa [insertSorted] using hx
  | cons e rest ih =>
    obtain ⟨k', w⟩ := e
    unfold insertSorted at hx
    split at hx
    · simpa using hx
    · split at hx
      · simp only [List.map_cons, List.mem_cons] at hx ⊢
        tauto
      · simp only [List.map_cons, List.mem_cons] at hx ⊢
        rcases hx with hx | hx
        · exact Or.inr (Or.inl hx)
        · rcases ih hx with h | h
          · exact Or.inl h
          · exact Or.inr (Or.inr h)

theorem keysSorted_insertSorted (k : String) (v : α) {acc : List (String × α)}
    (hacc : KeysSorted acc) : KeysSorted (insertSorted k v acc) := by
  induction acc with
  | nil => simp [insertSorted, KeysSorted]
  | cons e rest ih =>
    obtain ⟨k', w⟩ := e
    rw [keysSorted_cons] at hacc
    unfold insertSorted
    split
    · rename_i hlt
      rw [keysSorted_cons, keysSorted_cons]
      refine ⟨?_, hacc⟩
      intro x hx
      simp only [List.mem_cons] at hx
      rcases hx with rfl | hx
      · exact hlt
      · exact lt_trans hlt (hacc.1 x hx)
    · split
      · rename_i _ heq
        subst heq
        rw [keysSorted_cons]
        exact hacc
      · -- The new key goes further in: it is above the first key.
        rename_i hnlt hne
        have hlt : k' < k := lt_of_le_of_ne (not_lt.1 hnlt) (Ne.symm hne)
        rw [keysSorted_cons]
        refine ⟨?_, ih hacc.2⟩
        intro x hx
        rcases mem_keys_insertSorted (List.mem_map_of_mem (f := (·.1)) hx) with h | h
        · rw [h]
          exact hlt
        · obtain ⟨y, hy, hxy⟩ := List.mem_map.1 h
          rw [← hxy]
          exact hacc.1 y hy

/-- Collected entries come sorted by key, each key once. -/
theorem keysSorted_collectSorted (entries : List (String × α)) :
    KeysSorted (collectSorted entries) := by
  unfold collectSorted
  suffices h : ∀ acc, KeysSorted acc →
      KeysSorted (entries.foldl (fun acc (kv : String × α) => insertSorted kv.1 kv.2 acc) acc) by
    exact h [] List.Pairwise.nil
  induction entries with
  | nil => intro acc hacc; exact hacc
  | cons e rest ih =>
    intro acc hacc
    exact ih _ (keysSorted_insertSorted e.1 e.2 hacc)

/-- A key above all the keys of a list is inserted at its end. -/
theorem insertSorted_of_lt {k : String} {v : α} {acc : List (String × α)}
    (h : ∀ x ∈ acc, x.1 < k) : insertSorted k v acc = acc ++ [(k, v)] := by
  induction acc with
  | nil => rfl
  | cons e rest ih =>
    obtain ⟨k', w⟩ := e
    have hlt : k' < k := h (k', w) List.mem_cons_self
    unfold insertSorted
    rw [if_neg (not_lt_of_gt hlt), if_neg (ne_of_gt hlt),
      ih fun x hx => h x (List.mem_cons_of_mem _ hx)]
    rfl

/-- Collecting entries already sorted by key leaves them as they are. -/
theorem collectSorted_of_keysSorted {entries : List (String × α)} (h : KeysSorted entries) :
    collectSorted entries = entries := by
  unfold collectSorted
  -- The entries already collected are a sorted front of the whole list.
  suffices hfold : ∀ rest acc : List (String × α), KeysSorted (acc ++ rest) →
      rest.foldl (fun acc (kv : String × α) => insertSorted kv.1 kv.2 acc) acc = acc ++ rest by
    exact hfold entries [] h
  intro rest
  induction rest with
  | nil => intro acc _; simp
  | cons e rest ih =>
    intro acc hsorted
    obtain ⟨k, v⟩ := e
    rw [List.foldl_cons, insertSorted_of_lt hsorted.lt_of_append]
    rw [ih (acc ++ [(k, v)]) (by simpa using hsorted)]
    simp

/-! ## Well-formed parts -/

/-- An entity reference as its constructor makes one: name and id not blank. -/
structure EntityRef.Valid (e : EntityRef) : Prop where
  name_nonblank : isBlankText e.name = false
  id_nonblank : isBlankText e.id = false

/-- A change set as its constructors make one: sorted by field name, each field once, at most
`maxChanges` fields. -/
structure ChangeSet.Valid (cs : ChangeSet) : Prop where
  sorted : KeysSorted cs.entries
  size_le : cs.size ≤ maxChanges

/-- A submission context submitted at an instant of the calendar. -/
def SubmissionContext.Valid (c : SubmissionContext) : Prop := c.submittedAt.Valid

/-- A record whose every part is well formed. -/
structure ChangeRecord.Valid (r : ChangeRecord) : Prop where
  id : r.id.Valid
  entity : r.entity.Valid
  changes : r.changes.Valid
  createdAt : r.createdAt.Valid
  context : ∀ c ∈ r.context, c.Valid

theorem EntityRef.valid_of_make {name id : String} {e : EntityRef}
    (h : EntityRef.make name id = .ok e) : e.Valid := by
  unfold EntityRef.make at h
  split at h
  · cases h
  · split at h
    · cases h
    · rename_i hname hid
      cases h
      exact ⟨by simpa using hname, by simpa using hid⟩

theorem ChangeSet.valid_empty : ChangeSet.empty.Valid :=
  ⟨List.Pairwise.nil, by decide⟩

/-- Sorted entries of an accepted size make a well-formed change set. -/
theorem ChangeSet.valid_of_make {entries : List (String × FieldChange)} {cs : ChangeSet}
    (hsorted : KeysSorted entries) (h : ChangeSet.make entries = .ok cs) : cs.Valid := by
  unfold ChangeSet.make at h
  split at h
  · cases h
  · rename_i hsize
    cases h
    exact ⟨hsorted, Nat.le_of_not_gt hsize⟩

theorem ChangeSet.valid_of_make_collectSorted {entries : List (String × FieldChange)}
    {cs : ChangeSet} (h : ChangeSet.make (collectSorted entries) = .ok cs) : cs.Valid :=
  ChangeSet.valid_of_make (keysSorted_collectSorted entries) h

theorem ChangeSet.valid_of_fromPairs {pairs : List (String × Option String × Option String)}
    {cs : ChangeSet} (h : ChangeSet.fromPairs pairs = .ok cs) : cs.Valid :=
  ChangeSet.valid_of_make_collectSorted h

/-! ## Records the library builds -/

/-- A change set made by a constructor: the empty one, one from a map (whose entries come
sorted, each key once), or one from field triples. -/
def ChangeSet.Built (cs : ChangeSet) : Prop :=
  cs = ChangeSet.empty ∨ (∃ entries, KeysSorted entries ∧ ChangeSet.make entries = .ok cs) ∨
    ∃ pairs, ChangeSet.fromPairs pairs = .ok cs

theorem ChangeSet.Built.valid {cs : ChangeSet} (h : cs.Built) : cs.Valid := by
  rcases h with rfl | ⟨entries, hsorted, hmake⟩ | ⟨pairs, hpairs⟩
  · exact ChangeSet.valid_empty
  · exact ChangeSet.valid_of_make hsorted hmake
  · exact ChangeSet.valid_of_fromPairs hpairs

/-- The records the library makes: a new record for an entity reference and a change set made
by their constructors, with a random id, the time of the clock and a submission context, and any
such record given another context. Clock readings are instants of the calendar. -/
inductive ChangeRecord.Built : ChangeRecord → Prop
  | new (random : Nat) {name id : String} {entity : EntityRef} (operation : Operation)
      {changes : ChangeSet} {now : Instant} (context : SubmissionContext) :
      EntityRef.make name id = .ok entity → changes.Built → now.Valid → context.Valid →
      Built ⟨RecordId.version4 random, entity, operation, changes, now, some context⟩
  | withContext {r : ChangeRecord} (context : Option SubmissionContext) :
      Built r → (∀ c ∈ context, c.Valid) → Built (r.withContext context)

/-- Records the library makes are well formed. -/
theorem ChangeRecord.Built.valid {r : ChangeRecord} (h : r.Built) : r.Valid := by
  induction h with
  | new random operation context hentity hchanges hnow hcontext =>
    refine ⟨RecordId.valid_version4 random, EntityRef.valid_of_make hentity, hchanges.valid,
      hnow, ?_⟩
    intro c hc
    cases hc
    exact hcontext
  | withContext context _ hcontext ih =>
    exact ⟨ih.id, ih.entity, ih.changes, ih.createdAt, hcontext⟩

end EntityLog.Record
