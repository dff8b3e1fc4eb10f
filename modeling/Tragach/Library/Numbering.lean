import Mathlib.Data.Finset.Card
import Mathlib.Data.Set.Function
import Mathlib.Order.Interval.Set.Defs

/-! # Numbers in the order of first appearance

The elements of a list are numbered from 1 as they first appear. A number given once
stays when the list is continued, and the elements of a list and the numbers up to how
many of them there are correspond to each other, in order.
-/

namespace Tragach.Library

variable {α : Type*} [DecidableEq α]

def note (seen : List α) (a : α) : List α := if a ∈ seen then seen else seen ++ [a]

/-- The elements of a list in the order of their first appearance. -/
def firsts (l : List α) : List α := l.foldl note []

def number (l : List α) (a : α) : Nat := (firsts l).idxOf a + 1

variable {l : List α} {a b : α}

theorem firsts_concat (l : List α) (a : α) : firsts (l ++ [a]) = note (firsts l) a := by
  rw [firsts, List.foldl_append]
  rfl

theorem mem_firsts : a ∈ firsts l ↔ a ∈ l := by
  induction l using List.reverseRecOn with
  | nil => exact Iff.rfl
  | append_singleton l b ih =>
      rw [firsts_concat, note, List.mem_append, List.mem_singleton, ← ih]
      split
      next seen =>
          constructor
          · exact .inl
          · rintro (before | rfl)
            · exact before
            · exact seen
      next => rw [List.mem_append, List.mem_singleton]

theorem nodup_firsts : (firsts l).Nodup := by
  induction l using List.reverseRecOn with
  | nil => exact List.nodup_nil
  | append_singleton l b ih =>
      rw [firsts_concat, note]
      split
      next => exact ih
      next new =>
          rw [← List.concat_eq_append]
          exact ih.concat new

theorem length_firsts : (firsts l).length = l.toFinset.card := by
  have same : (firsts l).toFinset = l.toFinset := by
    ext a
    rw [List.mem_toFinset, List.mem_toFinset, mem_firsts]
  rw [← same, List.toFinset_card_of_nodup nodup_firsts]

theorem firsts_concat_of_mem (seen : a ∈ l) : firsts (l ++ [a]) = firsts l := by
  rw [firsts_concat, note, if_pos (mem_firsts.mpr seen)]

theorem firsts_concat_of_notMem (new : a ∉ l) : firsts (l ++ [a]) = firsts l ++ [a] := by
  rw [firsts_concat, note, if_neg fun seen => new (mem_firsts.mp seen)]

theorem number_concat (seen : a ∈ l) (b : α) : number (l ++ [b]) a = number l a := by
  by_cases old : b ∈ l
  · rw [number, firsts_concat_of_mem old, number]
  · rw [number, firsts_concat_of_notMem old, List.idxOf_append_of_mem (mem_firsts.mpr seen), number]

theorem number_concat_self (new : a ∉ l) : number (l ++ [a]) a = (firsts l).length + 1 := by
  have apart : a ∉ firsts l := fun seen => new (mem_firsts.mp seen)
  rw [number, firsts_concat_of_notMem new, List.idxOf_append_of_notMem apart]
  simp

theorem number_le (seen : a ∈ l) : number l a ≤ (firsts l).length :=
  List.idxOf_lt_length_iff.mpr (mem_firsts.mpr seen)

theorem number_injective (seen : a ∈ l) (same : number l a = number l b) : a = b :=
  (List.idxOf_inj (mem_firsts.mpr seen)).mp (Nat.succ.inj same)

/-- The numbers of a list are those up to how many elements it has. -/
theorem bijOn_number (l : List α) :
    Set.BijOn (number l) {a | a ∈ l} (Set.Icc 1 l.toFinset.card) := by
  refine ⟨fun a seen => ⟨Nat.le_add_left 1 _, ?_⟩, fun a seen b _ => number_injective seen, ?_⟩
  · exact (number_le seen).trans length_firsts.le
  · intro n bounds
    have within : n - 1 < (firsts l).length := by
      have low : 1 ≤ n := bounds.1
      have high : n ≤ (firsts l).length := bounds.2.trans length_firsts.ge
      omega
    refine ⟨(firsts l)[n - 1], mem_firsts.mp (List.getElem_mem within), ?_⟩
    have low : 1 ≤ n := bounds.1
    rw [number, nodup_firsts.idxOf_getElem]
    omega

theorem number_lt_iff (seen : a ∈ l) (seen' : b ∈ l) :
    number l a < number l b ↔ l.idxOf a < l.idxOf b := by
  induction l using List.reverseRecOn with
  | nil => cases seen
  | append_singleton l c ih =>
      have cases_mem : ∀ x ∈ l ++ [c], x ∈ l ∨ x = c ∧ c ∉ l := by
        intro x mem
        by_cases old : x ∈ l
        · exact .inl old
        · have last : x = c := by simpa [old] using mem
          exact .inr ⟨last, last ▸ old⟩
      have old : ∀ x, x ∈ l → (l ++ [c]).idxOf x < l.length := fun x mem => by
        rw [List.idxOf_append_of_mem mem]
        exact List.idxOf_lt_length_iff.mpr mem
      have new : c ∉ l → (l ++ [c]).idxOf c = l.length := fun fresh => by
        rw [List.idxOf_append_of_notMem fresh]
        simp
      rcases cases_mem a seen with inside | ⟨rfl, fresh⟩
      · rcases cases_mem b seen' with inside' | ⟨rfl, fresh'⟩
        · rw [number_concat inside, number_concat inside', List.idxOf_append_of_mem inside,
            List.idxOf_append_of_mem inside']
          exact ih inside inside'
        · rw [number_concat inside, number_concat_self fresh', new fresh']
          exact iff_of_true (Nat.lt_succ_of_le (number_le inside)) (old a inside)
      · rcases cases_mem b seen' with inside' | ⟨rfl, _⟩
        · rw [number_concat_self fresh, number_concat inside', new fresh]
          have low := number_le inside'
          have low' := old b inside'
          omega
        · exact iff_of_false (Nat.lt_irrefl _) (Nat.lt_irrefl _)

end Tragach.Library
