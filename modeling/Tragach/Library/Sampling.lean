import Mathlib.Data.List.GetD
import Tragach.Library.Runs

/-! # Copying a changing state word by word

A reader copies the words of a state one after another while the state changes, and goes on
with the words once it has copied all of them. Together they need not be the words of any
state there ever was, but each is the word of the state at the moment it was copied.
-/

namespace Tragach.Library

variable {σ ε α ρ : Type*}

/-- A system, a fixed number of words of its state, and what is made of each full copy. -/
structure Sampler (σ ε α ρ : Type*) where
  system : System σ ε
  size : Nat
  word : σ → Nat → α
  init : ρ
  finish : ρ → List α → ρ

/-- The system moves, the next word is copied, or the copy is finished. -/
inductive SampleStep (ε : Type*) where
  | move (e : ε)
  | copy
  | finish

namespace Sampler

structure State (σ α ρ : Type*) where
  state : σ
  copied : List α
  result : ρ

def next (S : Sampler σ ε α ρ) (m : State σ α ρ) : SampleStep ε → State σ α ρ
  | .move e => { m with state := S.system.step m.state e }
  | .copy =>
      if m.copied.length < S.size then
        { m with copied := m.copied ++ [S.word m.state m.copied.length] }
      else m
  | .finish =>
      if m.copied.length = S.size then
        { m with copied := [], result := S.finish m.result m.copied }
      else m

def sampled (S : Sampler σ ε α ρ) : System (State σ α ρ) (SampleStep ε) :=
  ⟨⟨S.system.init, [], S.init⟩, S.next⟩

def moves (h : List (SampleStep ε)) : List ε :=
  h.filterMap fun
    | .move e => some e
    | .copy => none
    | .finish => none

/-- The moves before each of the `size` words was copied, as far as the copy in progress has
come. -/
def reading (size : Nat) : List (SampleStep ε) → List (List ε)
  | [] => []
  | .move _ :: h => reading size h
  | .copy :: h => if (reading size h).length < size then reading size h ++ [moves h] else reading size h
  | .finish :: h => if (reading size h).length = size then [] else reading size h

/-- The moves before each word of the last finished copy was copied. -/
def lastRead (size : Nat) : List (SampleStep ε) → List (List ε)
  | [] => []
  | .finish :: h => if (reading size h).length = size then reading size h else lastRead size h
  | _ :: h => lastRead size h

/-- The finished copies, each with the one before it, oldest first. -/
def spans (size : Nat) : List (SampleStep ε) → List (List (List ε) × List (List ε))
  | [] => []
  | .finish :: h =>
      if (reading size h).length = size then spans size h ++ [(lastRead size h, reading size h)]
      else spans size h
  | _ :: h => spans size h

variable {S : Sampler σ ε α ρ} {size : Nat} {h : List (SampleStep ε)}

theorem run_sampled (h : List (SampleStep ε)) :
    (S.sampled.run h).state = S.system.run (moves h) ∧
      (S.sampled.run h).copied =
        (reading S.size h).mapIdx fun i g => S.word (S.system.run g) i := by
  induction h with
  | nil => exact ⟨rfl, rfl⟩
  | cons e h ih =>
      obtain ⟨state, copied⟩ := ih
      have length : (S.sampled.run h).copied.length = (reading S.size h).length := by
        rw [copied, List.length_mapIdx]
      rw [System.run_cons, sampled]
      rw [sampled] at state copied length
      cases e with
      | move e => exact ⟨congrArg (S.system.step · e) state, copied⟩
      | copy =>
          simp only [next, reading, length]
          split
          next =>
              refine ⟨state, ?_⟩
              rw [List.mapIdx_concat, ← copied, state]
          next => exact ⟨state, copied⟩
      | finish =>
          simp only [next, reading, length]
          split
          next => exact ⟨state, rfl⟩
          next => exact ⟨state, copied⟩

theorem suffix_of_mem_reading {g : List ε} (mem : g ∈ reading size h) : g <:+ moves h := by
  induction h with
  | nil => cases mem
  | cons e h ih =>
      cases e with
      | move e => exact (ih mem).trans (List.suffix_cons e (moves h))
      | copy =>
          rw [reading] at mem
          split at mem
          next =>
              rcases List.mem_append.mp mem with before | now
              · exact ih before
              · rw [List.mem_singleton] at now
                rw [now]
                exact List.suffix_rfl
          next => exact ih mem
      | finish =>
          rw [reading] at mem
          split at mem
          next => cases mem
          next => exact ih mem

theorem suffix_of_mem_lastRead {g : List ε} (mem : g ∈ lastRead size h) : g <:+ moves h := by
  induction h with
  | nil => cases mem
  | cons e h ih =>
      cases e with
      | move e => exact (ih mem).trans (List.suffix_cons e (moves h))
      | copy => exact ih mem
      | finish =>
          rw [lastRead] at mem
          split at mem
          next => exact suffix_of_mem_reading (h := h) mem
          next => exact ih mem

theorem length_lastRead_le (h : List (SampleStep ε)) : (lastRead size h).length ≤ size := by
  induction h with
  | nil => exact Nat.zero_le size
  | cons e h ih =>
      cases e with
      | move e => exact ih
      | copy => exact ih
      | finish =>
          rw [lastRead]
          split
          next complete => exact Nat.le_of_eq complete
          next => exact ih

theorem lastRead_getD_suffix (size i : Nat) (h : List (SampleStep ε)) :
    (lastRead size h).getD i [] <:+ moves h := by
  rcases Nat.lt_or_ge i (lastRead size h).length with read | unread
  · rw [List.getD_eq_getElem _ _ read]
    exact suffix_of_mem_lastRead (List.getElem_mem read)
  · rw [List.getD_eq_default _ _ unread]
    exact List.nil_suffix

/-- A copy in progress has copied nothing before the last finished copy did. -/
theorem lastRead_suffix_reading {g : List ε} (mem : g ∈ reading size h) (i : Nat) :
    (lastRead size h).getD i [] <:+ g := by
  induction h with
  | nil => cases mem
  | cons e h ih =>
      cases e with
      | move e => exact ih mem
      | copy =>
          rw [reading] at mem
          split at mem
          next =>
              rcases List.mem_append.mp mem with before | now
              · exact ih before
              · rw [List.mem_singleton.mp now]
                exact lastRead_getD_suffix size i h
          next => exact ih mem
      | finish =>
          rw [reading] at mem
          rw [lastRead]
          split at mem
          next => cases mem
          next incomplete =>
              rw [if_neg incomplete]
              exact ih mem

/-- A finished copy is full, and none of its words was copied before the same word of the
copy before it. -/
theorem mem_spans {x : List (List ε) × List (List ε)} (mem : x ∈ spans size h) :
    x.2.length = size ∧ x.1.length ≤ size ∧ ∀ i < size, x.1.getD i [] <:+ x.2.getD i [] := by
  induction h with
  | nil => cases mem
  | cons e h ih =>
      cases e with
      | move e => exact ih mem
      | copy => exact ih mem
      | finish =>
          rw [spans] at mem
          split at mem
          next complete =>
              rcases List.mem_append.mp mem with before | now
              · exact ih before
              · rw [List.mem_singleton.mp now]
                refine ⟨complete, length_lastRead_le h, fun i lt => ?_⟩
                have read : i < (reading size h).length := by rwa [complete]
                rw [List.getD_eq_getElem _ _ read]
                exact lastRead_suffix_reading (List.getElem_mem read) i
          next => exact ih mem

/-- What is made of the full copies is made of words of the moments at which they were
copied. -/
theorem result_induction {P : ρ → List (List ε) → List (List (List ε) × List (List ε)) → Prop}
    (start : P S.init [] [])
    (finish : ∀ r last reads before, P r last before → reads.length = S.size →
      P (S.finish r (reads.mapIdx fun i g => S.word (S.system.run g) i)) reads
        (before ++ [(last, reads)]))
    (h : List (SampleStep ε)) :
    P (S.sampled.run h).result (lastRead S.size h) (spans S.size h) := by
  induction h with
  | nil => exact start
  | cons e h ih =>
      have copied := (run_sampled (S := S) h).2
      have length : (S.sampled.run h).copied.length = (reading S.size h).length := by
        rw [copied, List.length_mapIdx]
      rw [System.run_cons, sampled]
      rw [sampled] at ih copied length
      cases e with
      | move e => exact ih
      | copy =>
          simp only [next]
          split <;> exact ih
      | finish =>
          simp only [next, lastRead, spans, length]
          split
          next complete =>
              rw [copied]
              exact finish _ _ _ _ ih complete
          next => exact ih

end Sampler

end Tragach.Library
