import EntityLog.Proofs.Json.Objects
/-!
# Decoders read their own encodings

Each kind of decoder reads back the JSON text its values are written as: a string decoder a
quoted string, a variant decoder the quoted name of a variant, a struct or map decoder the object
of its members, an option decoder whatever its inner decoder reads (other than `null`), and a
converting decoder what its inner decoder reads, converted. Stated as `ValueReads`, these read a
value wherever it stands in an object, before a comma or the closing brace, and they chain: the
members of an object are values of this kind.

A whole text is read when its value is read up to the end of the input (`runText_of_runs`).
-/

namespace EntityLog.Json

open Read

namespace Read

variable {α β : Type} {input : ByteArray} {i j : Nat}

theorem Runs.option {d : Decoder α} {s : Scope} {a : α} {b : UInt8} {rest : List UInt8}
    (h : Spells input i (b :: rest)) (hblank : isJsonBlank b = false) (hnull : b ≠ 110)
    (hd : Runs (d s) input i a j) : Runs (Decoder.option d s) input i (some a) j := by
  refine (Runs.skipBlanks h hblank).bind ?_
  split
  · rename_i heq
    exact absurd (Option.some.inj heq) hnull
  · exact hd.map

/-- A variant written as its name is read as the variant of that name. -/
theorem Runs.variant {variants : List (String × α)} {name : String} {v : α} {s : Scope}
    (hfind : variants.find? (·.1 == name) = some (name, v))
    (h : Spells input i (textBytes (quote name))) :
    Runs (Decoder.variant variants s) input i v (i + (textBytes (quote name)).length) := by
  have hquote := h
  rw [textBytes_quote] at hquote
  refine (Runs.skipBlanks hquote (by decide)).bind ?_
  refine Runs.text ?_ h
  simp only [hfind]

theorem Runs.convert {d : Decoder α} {f : α → Except String β} {s : Scope} {a : α} {b : β}
    (hd : Runs (d s) input i a j) (hf : f a = .ok b) : Runs
    (Decoder.convert d f s) input i b j := by
  refine hd.bind ?_
  rw [hf]
  exact Runs.ofExcept

end Read

/-- A reader that reads a whole input up to its end reads the input as a text. -/
theorem runText_of_runs {α : Type} {x : Read α} {input : ByteArray} {a : α}
    (h : Read.Runs x input 0 a input.size) : x.runText input = .ok a := by
  have hwhole : Read.Runs (do let a ← x; expectEnd; return a) input 0 a input.size :=
    h.bind (Read.Runs.expectEnd.bind Read.Runs.pure)
  unfold Read.Runs at hwhole
  unfold Read.runText
  exact congrArg Prod.fst hwhole

/-- A text spells itself from the start of its bytes. -/
theorem spells_whole (t : String) : Spells t.toUTF8 0 (textBytes t) := by
  simp only [Spells, List.drop_zero]
  exact List.prefix_refl _

/-! ## Values before a comma or a closing brace -/

/-- One member read into a struct, then the rest. -/
theorem Shape.readsMembers_cons {σ α : Type} {shape : Shape σ α} {s : Scope} {seen : List String}
    {st mid st' : σ} {k v : String} {rest : List (String × String)} {f : Field σ}
    (hfind : shape.fields.find? (·.name == k) = some f) (hseen : seen.contains k = false)
    (hvalue : ValueReads (f.read st s) v mid)
    (hrest : shape.ReadsMembers s (k :: seen) mid rest st') :
    shape.ReadsMembers s seen st ((k, v) :: rest) st' :=
  ⟨f, hfind, hseen, mid, hvalue, hrest⟩

namespace ValueReads

variable {α β : Type}

theorem text {expected : String} {visit : String → Except String α} {a : α} {s : String}
    {scope : Scope} (hvisit : visit s = .ok a) :
    ValueReads (Decoder.text expected visit scope) (quote s) a :=
  of_runs fun _ _ h => Read.Runs.text hvisit h

theorem string {s : String} {scope : Scope} : ValueReads (Decoder.string scope) (quote s) s :=
  text rfl

theorem variant {variants : List (String × α)} {name : String} {v : α} {s : Scope}
    (hfind : variants.find? (·.1 == name) = some (name, v)) :
    ValueReads (Decoder.variant variants s) (quote name) v :=
  of_runs fun _ _ h => Read.Runs.variant hfind h

/-- A field's reader stores what its decoder reads. -/
theorem bind_pure {x : Read α} {f : α → β} {v : String} {a : α} (hx : ValueReads x v a) :
    ValueReads (x >>= fun a => pure (f a)) v (f a) :=
  fun input i c hc h => (hx input i c hc h).bind Read.Runs.pure

theorem convert {d : Decoder α} {f : α → Except String β} {s : Scope} {v : String} {a : α}
    {b : β} (hd : ValueReads (d s) v a) (hf : f a = .ok b) :
    ValueReads (Decoder.convert d f s) v b :=
  fun input i c hc h => (hd input i c hc h).convert hf

/-- A value that starts with a quote or an opening brace is read by an option decoder as what
its inner decoder reads. -/
theorem option {d : Decoder α} {s : Scope} {v : String} {a : α} {rest : List UInt8}
    (hstart : textBytes v = 34 :: rest ∨ textBytes v = 123 :: rest) (hd : ValueReads (d s) v a) :
    ValueReads (Decoder.option d s) v (some a) := by
  intro input i c hc h
  have hrun := hd input i c hc h
  rcases hstart with hstart | hstart <;> rw [hstart] at h <;>
    exact hrun.option h (by decide) (by decide)

theorem struct {σ : Type} {shape : Shape σ α} {s : Scope} {members : List (String × Option String)}
    {st' : σ} {a : α} (hdepth : 1 < s.depth)
    (hreads : shape.ReadsMembers (s.inner (s.depth - 1)) [] shape.start (presentMembers members)
      st')
    (hfinish : shape.finish st' = .ok a) :
    ValueReads (Decoder.struct shape s) (Record.objectText members) a :=
  of_runs fun _ _ h => Read.Runs.struct hdepth hreads hfinish h

theorem map {expected : String} {member : Decoder α} {s : Scope}
    {members : List (String × Option String)} {rs : List (String × α)} (hdepth : 1 < s.depth)
    (hread : MembersRead (fun _ => member (s.inner (s.depth - 1))) (presentMembers members) rs) :
    ValueReads (Decoder.map expected member s) (Record.objectText members) rs :=
  of_runs fun _ _ h => Read.Runs.mapDecoder hdepth hread h

end ValueReads

theorem textBytes_objectText_head (members : List (String × Option String)) :
    ∃ rest, textBytes (Record.objectText members) = 123 :: rest :=
  ⟨_, textBytes_objectText members⟩

end EntityLog.Json
