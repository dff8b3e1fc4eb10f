import Mathlib.Data.List.Basic

/-! # Histories and runs

A history lists the events of a finite run, newest first, so that the tail of a
history is the history one step earlier and every recursion below follows the
run backwards. The state after a history is computed by the step function; a
history is lawful when every event was admissible after the events before it.
-/

namespace Tragach.Library

variable {σ ε : Type*}

/-- A deterministic system: the environment's choices are part of its events. -/
structure System (σ ε : Type*) where
  init : σ
  step : σ → ε → σ

def System.run (M : System σ ε) : List ε → σ
  | [] => M.init
  | e :: h => M.step (M.run h) e

@[simp] theorem System.run_nil (M : System σ ε) : M.run [] = M.init := rfl

@[simp] theorem System.run_cons (M : System σ ε) (e : ε) (h : List ε) :
    M.run (e :: h) = M.step (M.run h) e := rfl

theorem System.run_map {ε' : Type*} (M : System σ ε) (f : ε' → ε) (h : List ε') :
    M.run (h.map f) = (⟨M.init, fun s e => M.step s (f e)⟩ : System σ ε').run h := by
  induction h with
  | nil => rfl
  | cons e h ih => rw [List.map_cons, run_cons, ih, run_cons]

/-- Every event was admissible after what came before it. -/
def Lawful (adm : List ε → ε → Prop) : List ε → Prop
  | [] => True
  | e :: h => adm h e ∧ Lawful adm h

instance Lawful.decidable (adm : List ε → ε → Prop) [∀ h e, Decidable (adm h e)] :
    ∀ h, Decidable (Lawful adm h)
  | [] => inferInstanceAs (Decidable True)
  | e :: h =>
      have := Lawful.decidable adm h
      inferInstanceAs (Decidable (adm h e ∧ Lawful adm h))

section

variable {adm adm' : List ε → ε → Prop}

@[simp] theorem lawful_nil : Lawful adm [] := trivial

@[simp] theorem lawful_cons {e : ε} {h : List ε} :
    Lawful adm (e :: h) ↔ adm h e ∧ Lawful adm h := Iff.rfl

theorem Lawful.mono {h : List ε} (law : Lawful adm h)
    (imp : ∀ h e, adm h e → Lawful adm h → adm' h e) : Lawful adm' h := by
  induction h with
  | nil => trivial
  | cons e h ih => exact ⟨imp h e law.1 law.2, ih law.2⟩

theorem Lawful.and {h : List ε} (law : Lawful adm h) (law' : Lawful adm' h) :
    Lawful (fun h e => adm h e ∧ adm' h e) h := by
  induction h with
  | nil => trivial
  | cons e h ih => exact ⟨⟨law.1, law'.1⟩, ih law.2 law'.2⟩

theorem lawful_congr (same : ∀ h e, adm h e ↔ adm' h e) {h : List ε} :
    Lawful adm h ↔ Lawful adm' h :=
  ⟨fun law => law.mono fun h e ok _ => (same h e).mp ok,
    fun law => law.mono fun h e ok _ => (same h e).mpr ok⟩

theorem Lawful.of_append {post pre : List ε} (law : Lawful adm (post ++ pre)) :
    Lawful adm pre := by
  induction post with
  | nil => exact law
  | cons e post ih => exact ih law.2

/-- The two readings of a lawful history: by recursion and at every position. -/
theorem lawful_iff_split {h : List ε} :
    Lawful adm h ↔ ∀ post e pre, h = post ++ e :: pre → adm pre e := by
  constructor
  · intro law post e pre split
    subst split
    exact law.of_append.1
  · intro split
    induction h with
    | nil => trivial
    | cons e h ih =>
        refine ⟨split [] e h rfl, ih ?_⟩
        intro post e' pre split
        subst split
        exact split (e :: post) e' pre rfl

/-- An invariant that may speak of the whole history: it holds at the start and
every admissible step preserves it. -/
theorem System.invariant (M : System σ ε) {I : List ε → σ → Prop} (base : I [] M.init)
    (step : ∀ h e, adm h e → Lawful adm h → I h (M.run h) → I (e :: h) (M.step (M.run h) e)) :
    ∀ h, Lawful adm h → I h (M.run h) := by
  intro h law
  induction h with
  | nil => exact base
  | cons e h ih => exact step h e law.1 law.2 (ih law.2)

end

end Tragach.Library
