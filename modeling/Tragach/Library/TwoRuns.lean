import Tragach.Library.Journal

/-! # Two runs side by side

Two runs are compared position by position: their histories have related events at
every position. A cell may hold a value of a secret origin. As long as both runs fill
and empty it together, and put the same values there but for those of a secret origin,
the cells of the two runs differ at most while they hold such a value.
-/

namespace Tragach.Library

variable {ε ν ι : Type*}

/-- Histories with related events; the relation may depend on the position. -/
def Paired (rel : Nat → ε → ε → Prop) : List ε → List ε → Prop
  | [], [] => True
  | e :: h, e' :: h' => rel h.length e e' ∧ Paired rel h h'
  | _, _ => False

section

variable {rel : Nat → ε → ε → Prop}

theorem Paired.induction {I : List ε → List ε → Prop} (nil : I [] [])
    (cons : ∀ h e h' e', h.length = h'.length → rel h.length e e' → I h h' → I (e :: h) (e' :: h')) :
    ∀ {h h' : List ε}, Paired rel h h' → I h h' := by
  intro h h' paired
  have both : h.length = h'.length ∧ I h h' := by
    induction h generalizing h' with
    | nil =>
        cases h' with
        | nil => exact ⟨rfl, nil⟩
        | cons e' h' => exact paired.elim
    | cons e h ih =>
        cases h' with
        | nil => exact paired.elim
        | cons e' h' =>
            obtain ⟨length, before⟩ := ih paired.2
            exact ⟨congrArg (· + 1) length, cons h e h' e' length paired.1 before⟩
  exact both.2

end

/-! ## Cells with an origin -/

/-- Both cells hold a value or neither does, and the same one unless its origin is
secret. -/
structure SameUnless (secret : ι → Prop) (origin : Option ι) (c c' : Option ν) : Prop where
  present : c.isSome = c'.isSome
  same : (∀ i ∈ origin, ¬ secret i) → c = c'

inductive SameOpUnless (secret : ι → Prop) : CellOp ι → CellOp ν → CellOp ν → Prop
  | keep : SameOpUnless secret .keep .keep .keep
  | drop : SameOpUnless secret .drop .drop .drop
  | put {i : ι} {v v' : ν} (same : ¬ secret i → v = v') :
      SameOpUnless secret (.put i) (.put v) (.put v')

section

variable {secret : ι → Prop} {origin : Option ι} {c c' : Option ν}

theorem SameUnless.none : SameUnless secret origin (none : Option ν) none := ⟨rfl, fun _ => rfl⟩

theorem SameOpUnless.apply {o : CellOp ι} {op op' : CellOp ν} (ops : SameOpUnless secret o op op')
    (cells : SameUnless secret origin c c') :
    SameUnless secret (o.apply origin) (op.apply c) (op'.apply c') := by
  cases ops with
  | keep => exact cells
  | drop => exact .none
  | put same =>
      refine ⟨rfl, fun shown => ?_⟩
      exact congrArg some (same (shown _ rfl))

theorem SameUnless.cases (cells : SameUnless secret origin c c') :
    (c = .none ∧ c' = .none) ∨
      ∃ v v', c = some v ∧ c' = some v' ∧ ((∀ i ∈ origin, ¬ secret i) → v = v') := by
  rcases cells with ⟨present, same⟩
  cases c with
  | none =>
      cases c' with
      | none => exact .inl ⟨rfl, rfl⟩
      | some v' => cases present
  | some v =>
      cases c' with
      | none => cases present
      | some v' => exact .inr ⟨v, v', rfl, rfl, fun shown => Option.some.inj (same shown)⟩

end

end Tragach.Library
