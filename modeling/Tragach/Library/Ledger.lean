import Mathlib.Algebra.Group.Basic
import Tragach.Library.Runs

/-! # Accounts summed over a history

A ledger says, for every event and every account, what the event posts to the
account. The balance of an account is the sum of its postings over the history.
-/

namespace Tragach.Library

variable {σ ε κ α : Type*}

/-- The posting of an event to an account may depend on the history before it. -/
abbrev Ledger (ε κ α : Type*) := List ε → ε → κ → α

section

variable [AddMonoid α]

def Ledger.balance (J : Ledger ε κ α) : List ε → κ → α
  | [], _ => 0
  | e :: h, k => J.balance h k + J h e k

/-- What the events `acts` have posted to the account `k` after the events `pre`. -/
def Ledger.turnover (J : Ledger ε κ α) : List ε → List ε → κ → α
  | [], _, _ => 0
  | e :: acts, pre, k => J.turnover acts pre k + J (acts ++ pre) e k

variable {J : Ledger ε κ α} {k : κ}

@[simp] theorem Ledger.balance_nil : J.balance [] k = 0 := rfl

theorem Ledger.balance_cons {e : ε} {h : List ε} :
    J.balance (e :: h) k = J.balance h k + J h e k := rfl

theorem Ledger.balance_append (acts pre : List ε) :
    J.balance (acts ++ pre) k = J.balance pre k + J.turnover acts pre k := by
  induction acts with
  | nil => exact (add_zero _).symm
  | cons e acts ih =>
      rw [List.cons_append, Ledger.balance_cons, ih, Ledger.turnover, add_assoc]

theorem Ledger.balance_cons_of_idle {e : ε} {h : List ε} (idle : J h e k = 0) :
    J.balance (e :: h) k = J.balance h k := by
  rw [Ledger.balance_cons, idle, add_zero]

/-- An account that is never posted to is empty, and one that is empty after every event
was never posted to. -/
theorem Ledger.lawful_balance_eq_zero_iff {h : List ε} :
    Lawful (fun h e => ∀ k, J.balance (e :: h) k = 0) h ↔ Lawful (fun h e => ∀ k, J h e k = 0) h := by
  have empty : ∀ h, Lawful (fun h e => ∀ k, J h e k = 0) h → ∀ k, J.balance h k = 0 := by
    intro h law k
    induction h with
    | nil => rfl
    | cons e h ih => rw [Ledger.balance_cons_of_idle (law.1 k), ih law.2]
  induction h with
  | nil => exact Iff.rfl
  | cons e h ih =>
      constructor
      · intro found
        rcases found with ⟨now, before⟩
        have idle := ih.mp before
        refine ⟨fun k => ?_, idle⟩
        have balance := now k
        rwa [Ledger.balance_cons, empty h idle k, zero_add] at balance
      · intro idle
        exact ⟨empty (e :: h) idle, ih.mpr idle.2⟩

end

end Tragach.Library
