import Mathlib.Data.List.TakeWhile
import Mathlib.Data.Nat.Digits.Defs
import Mathlib.Tactic.Ring

/-! # Cutting texts and reading numbers

The operations on strings that line-oriented parsers are made of, over lists of
characters: splitting at a separator, taking lines, and reading a number whose value has
to stay below a limit. Each is characterised by what it accepts.
-/

namespace Tragach.Library

section

variable {α : Type*} [DecidableEq α]

/-! ## Splitting -/

def firstPart (sep : α) (s : List α) : List α := s.takeWhile (· ≠ sep)

def splitOnce (sep : α) (s : List α) : Option (List α × List α) :=
  match s.dropWhile (· ≠ sep) with
  | [] => none
  | _ :: rest => some (firstPart sep s, rest)

/-- At most `n` parts, the last of which may contain the separator. -/
def splitn (sep : α) : Nat → List α → List (List α)
  | 0, _ => []
  | 1, s => [s]
  | n + 2, s =>
      match splitOnce sep s with
      | some (part, rest) => part :: splitn sep (n + 1) rest
      | none => [s]

/-- The parts of a text, each with the separator that ends it. -/
def splitInclusive (sep : α) : List α → List (List α)
  | [] => []
  | c :: s =>
      if c = sep then [c] :: splitInclusive sep s
      else
        match splitInclusive sep s with
        | [] => [[c]]
        | part :: parts => (c :: part) :: parts

def stripSuffix (c : α) (s : List α) : Option (List α) :=
  if s.getLast? = some c then some s.dropLast else none

variable {sep : α} {s a b c rest : List α}

theorem notMem_firstPart : sep ∉ firstPart sep s := by
  intro mem
  induction s with
  | nil => cases mem
  | cons d s ih =>
      unfold firstPart at mem ih
      by_cases other : d ≠ sep
      · rw [List.takeWhile_cons_of_pos (by simpa using other)] at mem
        rcases List.mem_cons.mp mem with same | later
        · exact other same.symm
        · exact ih later
      · rw [List.takeWhile_cons_of_neg (by simpa using other)] at mem
        cases mem

theorem splitOnce_eq_some_iff : splitOnce sep s = some (a, b) ↔ s = a ++ sep :: b ∧ sep ∉ a := by
  constructor
  · intro split
    unfold splitOnce at split
    split at split
    next => cases split
    next d rest dropped =>
        cases split
        have whole := List.takeWhile_append_dropWhile (p := (· ≠ sep)) (l := s)
        have here : d = sep := by
          have head := List.head?_dropWhile_not (· ≠ sep) s
          rw [dropped] at head
          simpa using head
        rw [dropped, here] at whole
        exact ⟨whole.symm, notMem_firstPart⟩
  · intro found
    rcases found with ⟨rfl, free⟩
    have keep : ∀ d ∈ a, decide (d ≠ sep) = true := fun d mem =>
      decide_eq_true fun same => free (same ▸ mem)
    unfold splitOnce firstPart
    rw [List.dropWhile_append_of_pos keep, List.dropWhile_cons_of_neg (by simp),
      List.takeWhile_append_of_pos keep, List.takeWhile_cons_of_neg (by simp), List.append_nil]

theorem splitn_three_iff :
    splitn sep 3 s = [a, b, c] ↔ s = a ++ sep :: (b ++ sep :: c) ∧ sep ∉ a ∧ sep ∉ b := by
  constructor
  · intro parts
    unfold splitn at parts
    split at parts
    next part rest first =>
        rw [List.cons.injEq] at parts
        rcases parts with ⟨rfl, parts⟩
        unfold splitn at parts
        split at parts
        next part' rest' second =>
            simp only [splitn, List.cons.injEq, and_true] at parts
            rcases parts with ⟨rfl, rfl⟩
            rcases splitOnce_eq_some_iff.mp first with ⟨whole, free⟩
            rcases splitOnce_eq_some_iff.mp second with ⟨whole', free'⟩
            exact ⟨whole' ▸ whole, free, free'⟩
        next => simp at parts
    next => simp at parts
  · intro found
    rcases found with ⟨whole, free, free'⟩
    have first : splitOnce sep s = some (a, b ++ sep :: c) := splitOnce_eq_some_iff.mpr ⟨whole, free⟩
    have second : splitOnce sep (b ++ sep :: c) = some (b, c) :=
      splitOnce_eq_some_iff.mpr ⟨rfl, free'⟩
    simp [splitn, first, second]

theorem splitn_length_le (n : Nat) : (splitn sep n s).length ≤ n := by
  induction n generalizing s with
  | zero => exact Nat.le_refl 0
  | succ n ih =>
      cases n with
      | zero => exact Nat.le_refl 1
      | succ n =>
          unfold splitn
          split
          next => exact Nat.succ_le_succ ih
          next => simp

theorem firstPart_eq_iff :
    firstPart sep s = a ↔ (s = a ∨ ∃ rest, s = a ++ sep :: rest) ∧ sep ∉ a := by
  constructor
  · intro part
    subst part
    refine ⟨?_, notMem_firstPart⟩
    have whole := List.takeWhile_append_dropWhile (p := (· ≠ sep)) (l := s)
    cases dropped : s.dropWhile (· ≠ sep) with
    | nil =>
        rw [dropped, List.append_nil] at whole
        exact .inl whole.symm
    | cons d rest =>
        have head := List.head?_dropWhile_not (· ≠ sep) s
        rw [dropped] at head whole
        have here : d = sep := by simpa using head
        rw [here] at whole
        exact .inr ⟨rest, whole.symm⟩
  · intro found
    rcases found with ⟨whole, free⟩
    have keep : ∀ d ∈ a, decide (d ≠ sep) = true := fun d mem =>
      decide_eq_true fun same => free (same ▸ mem)
    unfold firstPart
    rcases whole with rfl | ⟨rest, rfl⟩
    · exact List.takeWhile_eq_self_iff.mpr keep
    · rw [List.takeWhile_append_of_pos keep, List.takeWhile_cons_of_neg (by simp), List.append_nil]

end

/-! ## Numbers -/

section

variable {α : Type*} {s : List α}

/-- The value of some digits after the value `acc`, if all are digits and the value stays
below the limit. -/
def readDigits (digit : α → Option Nat) (base limit : Nat) : Nat → List α → Option Nat
  | acc, [] => some acc
  | acc, c :: s =>
      match digit c with
      | some d =>
          if acc * base + d < limit then readDigits digit base limit (acc * base + d) s else none
      | none => none

def lowerHex (n : Nat) : String := String.ofList (Nat.toDigits 16 n)

def IsNumeral (digit : α → Option Nat) (base : Nat) (s : List α) (v : Nat) : Prop :=
  ∃ ds, List.Forall₂ (fun c d => digit c = some d) s ds ∧ v = Nat.ofDigits base ds.reverse

theorem ofDigits_reverse_append (base acc d : Nat) (ds : List Nat) :
    Nat.ofDigits base ((d :: ds).reverse ++ [acc]) =
      Nat.ofDigits base (ds.reverse ++ [acc * base + d]) := by
  simp only [List.reverse_cons, Nat.ofDigits_append, Nat.ofDigits_singleton, List.length_append,
    List.length_reverse, List.length_singleton]
  ring

theorem readDigits_eq_some_iff {digit : α → Option Nat} {base limit acc v : Nat} (pos : 0 < base)
    (small : acc < limit) :
    readDigits digit base limit acc s = some v ↔
      v < limit ∧ ∃ ds, List.Forall₂ (fun c d => digit c = some d) s ds ∧
        v = Nat.ofDigits base (ds.reverse ++ [acc]) := by
  constructor
  · intro read
    induction s generalizing acc with
    | nil =>
        cases read
        exact ⟨small, [], .nil, by simp⟩
    | cons c s ih =>
        unfold readDigits at read
        split at read
        next d isDigit =>
            split at read
            next fits =>
                rcases ih fits read with ⟨lt, ds, all, value⟩
                exact ⟨lt, d :: ds, .cons isDigit all,
                  value.trans (ofDigits_reverse_append base acc d ds).symm⟩
            next => cases read
        next => cases read
  · intro found
    rcases found with ⟨lt, ds, all, rfl⟩
    induction all generalizing acc with
    | nil => simp [readDigits]
    | @cons c d s ds isDigit all ih =>
        rw [ofDigits_reverse_append] at lt ⊢
        have fits : acc * base + d < limit := by
          refine Nat.lt_of_le_of_lt ?_ lt
          rw [Nat.ofDigits_append, Nat.ofDigits_singleton]
          exact Nat.le_add_left_of_le (Nat.le_mul_of_pos_left _ (Nat.pow_pos pos))
        rw [readDigits, isDigit]
        simp only [if_pos fits]
        exact ih fits lt

/-- A number is read when the text is a numeral of a value below the limit. -/
theorem readDigits_zero_iff {digit : α → Option Nat} {base limit v : Nat} (pos : 0 < base)
    (small : 0 < limit) :
    readDigits digit base limit 0 s = some v ↔ v < limit ∧ IsNumeral digit base s v := by
  have pad : ∀ ds : List Nat, Nat.ofDigits base (ds.reverse ++ [0]) = Nat.ofDigits base ds.reverse := by
    intro ds
    rw [Nat.ofDigits_append, Nat.ofDigits_singleton, Nat.mul_zero, Nat.add_zero]
  simp only [readDigits_eq_some_iff pos small, pad, IsNumeral]

end

end Tragach.Library
