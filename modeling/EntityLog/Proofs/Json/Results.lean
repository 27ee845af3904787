import EntityLog.Proofs.Json.Values
/-!
# What decoded values satisfy

`Read.Yields x P` says that every value the reader `x` gives, from any cursor, satisfies `P`:
a property of what a decoder accepts, whatever the text. It is built up like `Read.Runs`, one
lemma per combinator; a failing step yields anything.

A struct decoder reads fields into a state and finishes it; when every field's reader keeps an
invariant of the state, whichever order the members come in, whether they come as an object or
as an array, the finished value is one the final step makes of a state with the invariant
(`Decoder.yields_struct`).
-/

namespace EntityLog.Json

open Read

namespace Read

/-- Every value that `x` gives, from any cursor, satisfies `P`. -/
def Yields {α : Type} (x : Read α) (P : α → Prop) : Prop :=
  ∀ c a c', (x.run.run c).run = (.ok a, c') → P a

variable {α β : Type}

/-! ## The monad -/

theorem Yields.bind {x : Read α} {f : α → Read β} {P : α → Prop} {Q : β → Prop}
    (hx : Yields x P) (hf : ∀ a, P a → Yields (f a) Q) : Yields (x >>= f) Q := by
  intro c b c' h
  simp only [ExceptT.run_bind, StateT.run_bind, Id.run_bind] at h
  revert h
  cases hrun : (x.run.run c).run with
  | mk r c1 =>
    cases r with
    | error e => intro h; exact nomatch h
    | ok a => exact hf a (hx c a c1 hrun) c1 b c'

theorem Yields.pure {a : α} {P : α → Prop} (h : P a) : Yields (Pure.pure a) P := by
  intro c b c' hrun
  cases hrun
  exact h

theorem Yields.of_forall {x : Read α} {P : α → Prop} (h : ∀ a, P a) : Yields x P :=
  fun _ a _ _ => h a

theorem Yields.map {x : Read α} {f : α → β} {P : α → Prop} {Q : β → Prop} (hx : Yields x P)
    (h : ∀ a, P a → Q (f a)) : Yields (f <$> x) Q := by
  rw [← bind_pure_comp]
  exact hx.bind fun a ha => Yields.pure (h a ha)

theorem Yields.throw {e : Error} {P : α → Prop} : Yields (throw e : Read α) P := by
  intro c a c' hrun
  exact nomatch hrun

theorem Yields.tryCatch {x : Read α} {handle : Error → Read α} {P : α → Prop} (hx : Yields x P)
    (hhandle : ∀ e, Yields (handle e) P) : Yields (tryCatch x handle) P := by
  intro c a c' h
  change ((ExceptT.tryCatch x handle).run.run c).run = _ at h
  simp only [ExceptT.tryCatch, ExceptT.run_mk, StateT.run_bind, Id.run_bind] at h
  revert h
  cases hrun : (StateT.run x c).run with
  | mk r c1 =>
    cases r with
    | error e => exact hhandle e c1 a c'
    | ok b =>
      intro h
      simp only [Pure.pure, Id.run] at h
      obtain ⟨rfl, rfl⟩ := h
      exact hx c _ _ hrun

theorem Yields.located {x : Read α} {P : α → Prop} (hx : Yields x P) : Yields (located x) P :=
  hx.tryCatch fun _ => Yields.bind (Yields.of_forall (P := fun _ => True) fun _ => trivial)
    fun _ _ => Yields.throw

theorem Yields.attempt {x : Read α} {P : α → Prop} (hx : Yields x P) :
    Yields (attempt x) fun r => ∀ a, r = .ok a → P a := by
  intro c r c' h a hr
  subst hr
  simp only [Read.attempt, ExceptT.run_lift, StateT.run_map, Id.run_map] at h
  revert h
  cases hrun : (StateT.run x c).run with
  | mk r c1 =>
    intro h
    simp only [run_eq, hrun, Prod.mk.injEq] at h
    obtain ⟨hr, rfl⟩ := h
    cases hr
    exact hx c a c1 hrun

/-! ## Brackets, failures and literals -/

/-- Whatever a reader gives satisfies `True`. -/
theorem Yields.any {x : Read α} : Yields x fun _ => True := Yields.of_forall fun _ => trivial

theorem Yields.closedBy {x : Read α} {close : Read Unit} {P : α → Prop} (hx : Yields x P) :
    Yields (closedBy x close) P := by
  unfold Read.closedBy
  refine hx.attempt.bind fun r hr => Yields.any.bind fun f _ => ?_
  split
  · exact Yields.pure (hr _ rfl)
  · exact Yields.throw
  · exact Yields.throw

theorem Yields.ofExcept {e : Except String α} {P : α → Prop} (h : ∀ a, e = .ok a → P a) :
    Yields (ofExcept e) P := by
  cases e with
  | error m => exact Yields.throw
  | ok a => exact Yields.pure (h a rfl)

/-- What a reader gives as the value of a whole text satisfies what it yields. -/
theorem Yields.runText {x : Read α} {P : α → Prop} (hx : Yields x P) {input : ByteArray} {a : α}
    (h : x.runText input = .ok a) : P a := by
  have hwhole : Yields (do let a ← x; expectEnd; return a) P :=
    hx.bind fun a ha => Yields.any.bind fun _ _ => Yields.pure ha
  unfold Read.runText at h
  exact hwhole ⟨input, 0⟩ a _ (Prod.ext h rfl)

theorem Yields.failAhead {f : Fault} {P : α → Prop} : Yields (failAhead f : Read α) P :=
  Yields.any.bind fun _ _ => Yields.throw

theorem Yields.invalidTypeHere {expected : String} {P : α → Prop} :
    Yields (invalidTypeHere expected : Read α) P :=
  Yields.any.bind fun _ _ => Yields.any.bind fun _ _ => Yields.throw

end Read

namespace Decoder

open Read

variable {α β : Type}

/-- A string decoder gives only what its visit accepts. -/
theorem yields_text {expected : String} {visit : String → Except String α} {scope : Scope}
    {P : α → Prop} (h : ∀ s a, visit s = .ok a → P a) :
    Yields (Decoder.text expected visit scope) P := by
  refine Yields.located (Yields.any.bind fun b _ => ?_)
  split
  · exact Yields.failAhead
  · exact Yields.any.bind fun _ _ => Yields.any.bind fun s _ => Yields.ofExcept (h s)
  · exact Yields.invalidTypeHere

theorem yields_convert {d : Decoder α} {f : α → Except String β} {s : Scope} {Q : β → Prop}
    (h : ∀ a b, f a = .ok b → Q b) : Yields (Decoder.convert d f s) Q :=
  Yields.any.bind fun a _ => Yields.ofExcept (h a)

theorem yields_option {d : Decoder α} {s : Scope} {P : α → Prop} (hd : Yields (d s) P) :
    Yields (Decoder.option d s) fun o => ∀ a, o = some a → P a := by
  refine Yields.any.bind fun b _ => ?_
  split
  · exact Yields.any.bind fun _ _ => Yields.any.bind fun _ _ => Yields.pure (by simp)
  · exact hd.map fun a ha a' h => Option.some.inj h ▸ ha

end Decoder

theorem required_eq_ok {α : Type} {name : String} {o : Option α} {a : α} :
    required name o = .ok a ↔ o = some a := by
  cases o <;> simp [required]

namespace Shape

open Read

variable {σ α : Type} {shape : Shape σ α} {I : σ → Prop}

/-- Reading members keeps an invariant of the state that every field's reader keeps. -/
theorem yields_readMembers {s : Scope}
    (hfields : ∀ f ∈ shape.fields, ∀ st, I st → Yields (f.read st s) I) :
    ∀ fuel seen st first, I st → Yields (shape.readMembers s seen st first fuel) I := by
  intro fuel
  induction fuel with
  | zero => intro seen st first _; exact Yields.failAhead
  | succ fuel ih =>
    intro seen st first hst
    rw [Shape.readMembers]
    refine Yields.any.bind fun key _ => ?_
    split
    · exact Yields.pure hst
    · rename_i k
      split
      · rename_i f hfind
        split
        · exact Yields.throw
        · exact Yields.any.bind fun _ _ =>
            (hfields f (List.mem_of_find?_eq_some hfind) st hst).bind fun st' hst' =>
              ih _ st' false hst'
      · split
        · exact Yields.throw
        · exact Yields.any.bind fun _ _ => Yields.any.bind fun _ _ => ih seen st false hst

/-- Reading the array form keeps an invariant of the state that every field's reader keeps. -/
theorem yields_readElements {s : Scope}
    (hfields : ∀ f ∈ shape.fields, ∀ st, I st → Yields (f.read st s) I) :
    ∀ rest, (∀ f ∈ rest, f ∈ shape.fields) →
      ∀ index st first, I st → Yields (shape.readElements s index rest st first) I := by
  intro rest
  induction rest with
  | nil => intro _ index st first hst; exact Yields.pure hst
  | cons f rest ih =>
    intro hrest index st first hst
    have hf := hrest f List.mem_cons_self
    have hrest' : ∀ g ∈ rest, g ∈ shape.fields := fun g hg => hrest g (List.mem_cons_of_mem f hg)
    rw [Shape.readElements]
    refine Yields.any.bind fun more _ => ?_
    split
    · exact (hfields f hf st hst).bind fun st' hst' => ih hrest' _ st' false hst'
    · split
      · exact ih hrest' _ st first hst
      · exact Yields.throw

end Shape

/-- A struct decoder gives only what its final step makes of a state that every field's reader
keeps an invariant of, from the start. -/
theorem Decoder.yields_struct {σ α : Type} {shape : Shape σ α} {s : Scope} {I : σ → Prop}
    {Q : α → Prop} (hstart : I shape.start)
    (hfields : ∀ f ∈ shape.fields, ∀ st s, I st → Read.Yields (f.read st s) I)
    (hfinish : ∀ st a, I st → shape.finish st = .ok a → Q a) :
    Read.Yields (Decoder.struct shape s) Q := by
  refine Read.Yields.located (Read.Yields.any.bind fun b _ => ?_)
  split
  · exact Read.Yields.failAhead
  · refine Read.Yields.any.bind fun d _ => Read.Yields.any.bind fun fuel _ => ?_
    refine Read.Yields.closedBy ?_
    exact (Shape.yields_readMembers (fun f hf st hst => hfields f hf st _ hst) fuel [] _ true
      hstart).bind fun st hst => Read.Yields.ofExcept (hfinish st · hst)
  · refine Read.Yields.any.bind fun d _ => Read.Yields.closedBy ?_
    exact (Shape.yields_readElements (fun f hf st hst => hfields f hf st _ hst) shape.fields
      (fun _ h => h) 0 _ true hstart).bind fun st hst => Read.Yields.ofExcept (hfinish st · hst)
  · exact Read.Yields.invalidTypeHere

end EntityLog.Json
