import Mathlib.Data.List.Basic
import Mathlib.Logic.Function.Basic

/-! # Filling slots that hold one value each

A pass over a list stores the value of each element in the slot it belongs to, if it
belongs to one, and ends as soon as a slot already holds another value. It comes to its
end exactly when the values of every slot agree, and leaves in each slot the value they
agree on.
-/

namespace Tragach.Library

variable {ε τ α : Type*} [DecidableEq τ] [DecidableEq α]

structure Conflict (τ α : Type*) where
  slot : τ
  held : α
  found : α

/-- A value is stored if the slot is empty, and may be found again. -/
def store (slots : τ → Option α) (t : τ) (a : α) : Except (Conflict τ α) (τ → Option α) :=
  match slots t with
  | some held => if held ≠ a then .error ⟨t, held, a⟩ else .ok slots
  | none => .ok (Function.update slots t (some a))

def fill (slotOf : ε → Option τ) (value : ε → α) :
    (τ → Option α) → List ε → Except (Conflict τ α) (τ → Option α)
  | slots, [] => .ok slots
  | slots, e :: l =>
      match slotOf e with
      | none => fill slotOf value slots l
      | some t =>
          match store slots t (value e) with
          | .ok slots => fill slotOf value slots l
          | .error conflict => .error conflict

variable {slotOf : ε → Option τ} {value : ε → α} {slots slots' : τ → Option α} {t : τ} {a : α}

theorem store_eq_ok_iff :
    store slots t a = .ok slots' ↔
      ∀ t' b, slots' t' = some b ↔ slots t' = some b ∨ t' = t ∧ b = a := by
  unfold store
  split
  next held holds =>
      split
      next other =>
          refine iff_of_false (fun stored => by cases stored) fun spec => ?_
          have before : slots' t = some held := (spec t held).mpr (.inl holds)
          have after : slots' t = some a := (spec t a).mpr (.inr ⟨rfl, rfl⟩)
          rw [before] at after
          exact other (Option.some.inj after)
      next same =>
          rw [ne_eq, not_not] at same
          subst same
          have known : ∀ t' b, (slots t' = some b ∨ t' = t ∧ b = held) ↔ slots t' = some b := by
            intro t' b
            apply or_iff_left_of_imp
            intro found
            rcases found with ⟨rfl, rfl⟩
            exact holds
          simp only [known, Except.ok.injEq]
          constructor
          · intro stored t' b
            rw [stored]
          · intro spec
            exact funext fun t' => Option.ext fun b => (spec t' b).symm
  next empty =>
      have updated : ∀ t' b, Function.update slots t (some a) t' = some b ↔
          slots t' = some b ∨ t' = t ∧ b = a := by
        intro t' b
        by_cases own : t' = t
        · subst own
          simp [empty, eq_comm]
        · simp [own]
      constructor
      · intro stored t' b
        cases stored
        exact updated t' b
      · intro spec
        exact congrArg Except.ok
          (funext fun t' => Option.ext fun b => (updated t' b).trans (spec t' b).symm)

theorem held_of_store_eq_error {conflict : Conflict τ α} (failed : store slots t a = .error conflict) :
    ∃ held, slots t = some held ∧ held ≠ a := by
  unfold store at failed
  split at failed
  next held holds =>
      split at failed
      next other => exact ⟨held, holds, other⟩
      next => cases failed
  next => cases failed

/-- The pass ends with the slots that hold what they held before and what the list has for
them, when there are such slots. -/
theorem fill_eq_ok_iff {l : List ε} :
    fill slotOf value slots l = .ok slots' ↔
      ∀ t a, slots' t = some a ↔ slots t = some a ∨ ∃ e ∈ l, slotOf e = some t ∧ value e = a := by
  induction l generalizing slots with
  | nil =>
      simp only [fill, Except.ok.injEq, List.not_mem_nil, false_and, exists_false, or_false]
      constructor
      · intro same t a
        rw [same]
      · intro same
        exact funext fun t => Option.ext fun a => (same t a).symm
  | cons e l ih =>
      rw [fill]
      cases slot : slotOf e with
      | none => simp only [ih, List.exists_mem_cons_iff, slot, reduceCtorEq, false_and, false_or]
      | some t =>
          have spec : ∀ t' a, (slots t' = some a ∨ ∃ e' ∈ e :: l, slotOf e' = some t' ∧ value e' = a) ↔
              (slots t' = some a ∨ t' = t ∧ a = value e) ∨
                ∃ e' ∈ l, slotOf e' = some t' ∧ value e' = a := by
            intro t' a
            rw [List.exists_mem_cons_iff, slot, Option.some.injEq, or_assoc, eq_comm (a := t),
              eq_comm (a := value e)]
          simp only [spec]
          cases stored : store slots t (value e) with
          | ok next =>
              simp only [ih, store_eq_ok_iff.mp stored]
          | error conflict =>
              refine iff_of_false (fun filled => by cases filled) fun holds => ?_
              rcases held_of_store_eq_error stored with ⟨held, before, other⟩
              have kept : slots' t = some held := (holds t held).mpr (.inl (.inl before))
              have added : slots' t = some (value e) := (holds t _).mpr (.inl (.inr ⟨rfl, rfl⟩))
              rw [kept] at added
              exact other (Option.some.inj added)

theorem fill_empty_eq_ok_iff {l : List ε} :
    fill slotOf value (fun _ => none) l = .ok slots ↔
      ∀ t a, slots t = some a ↔ ∃ e ∈ l, slotOf e = some t ∧ value e = a := by
  simp only [fill_eq_ok_iff, reduceCtorEq, false_or]

end Tragach.Library
