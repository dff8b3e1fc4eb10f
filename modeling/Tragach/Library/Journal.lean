import Tragach.Library.Runs

/-! # Keyed cells replayed from a history

A journal says, for every event and every key, whether the event leaves the cell
of that key alone, puts a value there or empties it. The content of a cell is
the replay of the journal: the latest operation that touched it decides. A map
kept by a system agrees with the replay as soon as every step performs exactly
the journal's operation.
-/

namespace Tragach.Library

variable {σ ε κ ν : Type*}

inductive CellOp (ν : Type*) where
  | keep
  | put (v : ν)
  | drop

def CellOp.apply : CellOp ν → Option ν → Option ν
  | .keep, c => c
  | .put v, _ => some v
  | .drop, _ => none

@[simp] theorem CellOp.apply_keep (c : Option ν) : CellOp.keep.apply c = c := rfl

@[simp] theorem CellOp.apply_put (v : ν) (c : Option ν) : (CellOp.put v).apply c = some v := rfl

@[simp] theorem CellOp.apply_drop (c : Option ν) : (CellOp.drop : CellOp ν).apply c = none := rfl

/-- The operation of an event on a key may depend on the history before it. -/
abbrev Journal (ε κ ν : Type*) := List ε → ε → κ → CellOp ν

def Journal.replay (J : Journal ε κ ν) : List ε → κ → Option ν
  | [], _ => none
  | e :: h, k => (J h e k).apply (J.replay h k)

/-- No event of `post` touches the cell `k` when they follow the history `pre`. -/
def Journal.Kept (J : Journal ε κ ν) (k : κ) (pre : List ε) : List ε → Prop
  | [] => True
  | e :: post => J (post ++ pre) e k = .keep ∧ J.Kept k pre post

section

variable {J : Journal ε κ ν} {k : κ} {v : ν}

@[simp] theorem Journal.replay_nil : J.replay [] k = none := rfl

theorem Journal.replay_cons {e : ε} {h : List ε} :
    J.replay (e :: h) k = (J h e k).apply (J.replay h k) := rfl

theorem Journal.replay_append_of_kept {post pre : List ε} (kept : J.Kept k pre post) :
    J.replay (post ++ pre) k = J.replay pre k := by
  induction post with
  | nil => rfl
  | cons e post ih =>
      rw [List.cons_append, Journal.replay_cons, kept.1]
      exact ih kept.2

theorem Journal.Kept.of_append {pre post post' : List ε} (kept : J.Kept k pre (post' ++ post)) :
    J.Kept k pre post := by
  induction post' with
  | nil => exact kept
  | cons e post' ih => exact ih kept.2

theorem Journal.Kept.mono {μ ν' : Type*} {J' : Journal ε μ ν'} {k' : μ} {pre post : List ε}
    (kept : J.Kept k pre post) (imp : ∀ h e, J h e k = .keep → J' h e k' = .keep) :
    J'.Kept k' pre post := by
  induction post with
  | nil => trivial
  | cons e post ih => exact ⟨imp _ e kept.1, ih kept.2⟩

/-- A cell holds a value exactly when some event put it there and no later event
touched the cell. -/
theorem Journal.replay_eq_some_iff {h : List ε} :
    J.replay h k = some v ↔
      ∃ post e pre, h = post ++ e :: pre ∧ J pre e k = .put v ∧ J.Kept k (e :: pre) post := by
  constructor
  · intro holds
    induction h with
    | nil => simp at holds
    | cons e h ih =>
        rw [Journal.replay_cons] at holds
        cases op : J h e k with
        | keep =>
            rw [op] at holds
            obtain ⟨post, e', pre, rfl, put, kept⟩ := ih holds
            exact ⟨e :: post, e', pre, rfl, put, op, kept⟩
        | put w =>
            rw [op] at holds
            cases holds
            exact ⟨[], e, h, rfl, op, trivial⟩
        | drop => simp [op] at holds
  · intro found
    rcases found with ⟨post, e, pre, rfl, put, kept⟩
    rw [Journal.replay_append_of_kept kept, Journal.replay_cons, put, CellOp.apply_put]

/-- A system whose steps perform the journal's operations on the cells it shows
holds the replay in them. -/
theorem System.view_eq_replay (M : System σ ε) {adm : List ε → ε → Prop}
    (view : σ → κ → Option ν) (J : Journal ε κ ν) (base : ∀ k, view M.init k = none)
    (step : ∀ h e k, adm h e → Lawful adm h →
      (∀ k, view (M.run h) k = J.replay h k) →
      view (M.step (M.run h) e) k = (J h e k).apply (view (M.run h) k))
    {h : List ε} (law : Lawful adm h) (k : κ) : view (M.run h) k = J.replay h k := by
  refine M.invariant (I := fun h s => ∀ k, view s k = J.replay h k) base ?_ h law k
  intro h e ok law ih k
  rw [step h e k ok law ih, ih k, Journal.replay_cons]

end

end Tragach.Library
