import Mathlib.Data.List.Nodup

/-! # Reordering runs

Steps leave footprints, which may depend on the state they are taken in, and two
footprints may clash. When adjacent steps whose footprints do not clash can be swapped
without a visible difference, so can all the others: a run that keeps the order of every
clashing pair of another run's steps reaches the same state.
-/

namespace Tragach.Library

variable {σ ε φ : Type*}

/-- A system whose steps can be swapped unless they clash. -/
structure Concurrent (σ ε φ : Type*) where
  step : σ → ε → σ
  /-- States without a visible difference. -/
  Same : σ → σ → Prop
  equivalence : Equivalence Same
  footprint : σ → ε → φ
  Clash : φ → φ → Prop
  step_congr : ∀ {s s'}, Same s s' → ∀ e, Same (step s e) (step s' e)
  footprint_congr : ∀ {s s'}, Same s s' → ∀ e, footprint s e = footprint s' e
  swap : ∀ {s a b}, ¬ Clash (footprint s a) (footprint (step s a) b) →
    footprint (step s a) b = footprint s b ∧ footprint (step s b) a = footprint s a ∧
      Same (step (step s a) b) (step (step s b) a)

namespace Concurrent

variable (M : Concurrent σ ε φ)

/-- The state after a run, whose first step is the head of the list. -/
def run : σ → List ε → σ
  | s, [] => s
  | s, e :: l => run (M.step s e) l

def trace : σ → List ε → List (ε × φ)
  | _, [] => []
  | s, e :: l => (e, M.footprint s e) :: trace (M.step s e) l

/-- The run `l'` keeps the order of the clashing steps of the run `l`. -/
def Keeps (s : σ) (l l' : List ε) : Prop :=
  ∀ x y, [x, y].Sublist (M.trace s l) → M.Clash x.2 y.2 → [x.1, y.1].Sublist l'

variable {M} {s s' : σ} {e : ε} {l l' pre post : List ε}

theorem run_append (s : σ) (l l' : List ε) : M.run s (l ++ l') = M.run (M.run s l) l' := by
  induction l generalizing s with
  | nil => rfl
  | cons e l ih => exact ih (M.step s e)

theorem trace_append (s : σ) (l l' : List ε) :
    M.trace s (l ++ l') = M.trace s l ++ M.trace (M.run s l) l' := by
  induction l generalizing s with
  | nil => rfl
  | cons e l ih => exact congrArg (List.cons _) (ih (M.step s e))

theorem trace_map_fst (s : σ) (l : List ε) : (M.trace s l).map Prod.fst = l := by
  induction l generalizing s with
  | nil => rfl
  | cons e l ih => exact congrArg (List.cons e) (ih (M.step s e))

theorem run_congr (same : M.Same s s') (l : List ε) : M.Same (M.run s l) (M.run s' l) := by
  induction l generalizing s s' with
  | nil => exact same
  | cons e l ih => exact ih (M.step_congr same e)

theorem trace_congr (same : M.Same s s') (l : List ε) : M.trace s l = M.trace s' l := by
  induction l generalizing s s' with
  | nil => rfl
  | cons e l ih => rw [trace, trace, M.footprint_congr same, ih (M.step_congr same e)]

/-- A step that clashes with none of the steps before it can be taken first. -/
theorem advance (clear : ∀ x ∈ M.trace s pre, ¬ M.Clash x.2 (M.footprint (M.run s pre) e)) :
    M.footprint (M.run s pre) e = M.footprint s e ∧
      M.trace (M.step s e) pre = M.trace s pre ∧
      M.Same (M.step (M.run s pre) e) (M.run (M.step s e) pre) := by
  induction pre generalizing s with
  | nil => exact ⟨rfl, rfl, M.equivalence.refl _⟩
  | cons a pre ih =>
      obtain ⟨late, kept, last⟩ := ih (s := M.step s a) fun x mem =>
        clear x (List.mem_cons_of_mem _ mem)
      have apart : ¬ M.Clash (M.footprint s a) (M.footprint (M.step s a) e) := by
        have first := clear _ (List.mem_cons_self ..)
        rwa [run, late] at first
      obtain ⟨early, stays, swapped⟩ := M.swap apart
      refine ⟨?_, ?_, ?_⟩
      · rw [run, late, early]
      · rw [trace, trace, stays, ← trace_congr swapped, kept]
      · exact M.equivalence.trans last (run_congr swapped pre)

/-- A run that keeps the order of the clashing steps of another run of the same steps
reaches the same state. -/
theorem reorder (distinct : l.Nodup) (perm : l.Perm l') (keeps : M.Keeps s l l') :
    M.Same (M.run s l) (M.run s l') := by
  induction l' generalizing s l with
  | nil =>
      rw [List.perm_nil.mp perm]
      exact M.equivalence.refl _
  | cons e l' ih =>
      have distinct' : (e :: l').Nodup := perm.nodup_iff.mp distinct
      obtain ⟨pre, post, split⟩ := List.append_of_mem (perm.mem_iff.mpr (List.mem_cons_self ..))
      subst split
      have traced : M.trace s (pre ++ e :: post) = M.trace s pre ++
          (e, M.footprint (M.run s pre) e) :: M.trace (M.step (M.run s pre) e) post :=
        trace_append s pre (e :: post)
      have clear : ∀ x ∈ M.trace s pre, ¬ M.Clash x.2 (M.footprint (M.run s pre) e) := by
        intro x mem clash
        have ordered := keeps x (e, M.footprint (M.run s pre) e) (by
          rw [traced]
          exact (List.singleton_sublist.mpr mem).append
            (List.singleton_sublist.mpr (List.mem_cons_self ..))) clash
        -- the step would come before the first one of `l'`
        exact (List.nodup_cons.mp distinct').1 (List.singleton_sublist.mp ordered.tail)
      obtain ⟨-, kept, moved⟩ := advance clear
      have shorter : M.trace (M.step s e) (pre ++ post) =
          M.trace s pre ++ M.trace (M.step (M.run s pre) e) post := by
        rw [trace_append, kept, trace_congr moved]
      have rest : M.Same (M.run (M.step s e) (pre ++ post)) (M.run (M.step s e) l') := by
        have others := List.Sublist.append_left (List.sublist_cons_self e post) pre
        apply ih (distinct.sublist others) (List.perm_middle.symm.trans perm).cons_inv
        intro x y ordered clash
        have member : x.1 ∈ pre ++ post := by
          rw [← trace_map_fst (M := M) (M.step s e) (pre ++ post)]
          exact List.mem_map_of_mem (ordered.subset (List.mem_cons_self ..))
        have other : x.1 ≠ e := fun same =>
          (List.nodup_cons.mp (List.nodup_middle.mp distinct)).1 (same ▸ member)
        rw [shorter] at ordered
        refine (keeps x y ?_ clash).of_cons_of_ne other
        rw [traced]
        exact ordered.trans (List.Sublist.append_left (List.sublist_cons_self ..) _)
      refine M.equivalence.trans ?_ rest
      rw [run_append, run, run_append]
      exact run_congr moved post

end Concurrent

end Tragach.Library
