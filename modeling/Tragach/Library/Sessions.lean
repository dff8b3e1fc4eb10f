import Mathlib.Data.List.Basic
import Tragach.Library.Journal

/-! # Sessions in a stream

The events of a stream open and close sessions under keys. A stream is bracketed
when every event that closes a session finds one open, and stands in a given relation
to the event that opened it.
-/

namespace Tragach.Library

inductive Mark (κ : Type*) where
  | opens (k : κ)
  | closes (k : κ)
  deriving DecidableEq

variable {ε κ : Type*} [DecidableEq κ]

/-- The event that opened the session now open under a key. -/
def sessions (mark : ε → Option (Mark κ)) : Journal ε κ ε := fun _ e k =>
  if mark e = some (.opens k) then .put e
  else if mark e = some (.closes k) then .drop
  else .keep

/-- Every close finds the session it closes open, with the relation `R` to its opening. -/
def Bracketed (mark : ε → Option (Mark κ)) (R : ε → ε → Prop) : List ε → Prop :=
  Lawful fun before e => ∀ k, mark e = some (.closes k) →
    ∃ o, (sessions mark).replay before k = some o ∧ R o e

section

variable {mark : ε → Option (Mark κ)} {R : ε → ε → Prop} {k : κ} {h : List ε} {e o : ε}

theorem replay_sessions_opens (opens : mark e = some (.opens k)) :
    (sessions mark).replay (e :: h) k = some e := by
  simp [Journal.replay_cons, sessions, opens]

theorem replay_sessions_closes (closes : mark e = some (.closes k)) :
    (sessions mark).replay (e :: h) k = none := by
  simp [Journal.replay_cons, sessions, closes]

theorem replay_sessions_of_other (other : mark e ≠ some (.opens k) ∧ mark e ≠ some (.closes k)) :
    (sessions mark).replay (e :: h) k = (sessions mark).replay h k := by
  simp [Journal.replay_cons, sessions, other]

theorem kept_sessions_iff {pre post : List ε} :
    (sessions mark).Kept k pre post ↔
      ∀ e ∈ post, mark e ≠ some (.opens k) ∧ mark e ≠ some (.closes k) := by
  induction post with
  | nil => simp [Journal.Kept]
  | cons e post ih =>
      rw [Journal.Kept, ih, List.forall_mem_cons, sessions]
      by_cases opens : mark e = some (.opens k)
      · simp [opens]
      · by_cases closes : mark e = some (.closes k) <;> simp [opens, closes]

/-- A session is open exactly when it was opened and nothing has touched its key since. -/
theorem replay_sessions_iff :
    (sessions mark).replay h k = some o ↔
      ∃ between before, h = between ++ o :: before ∧ mark o = some (.opens k) ∧
        ∀ e ∈ between, mark e ≠ some (.opens k) ∧ mark e ≠ some (.closes k) := by
  rw [Journal.replay_eq_some_iff]
  constructor
  · intro found
    rcases found with ⟨between, e, before, rfl, put, kept⟩
    unfold sessions at put
    split at put
    next opens =>
        cases put
        exact ⟨between, before, rfl, opens, kept_sessions_iff.mp kept⟩
    next => split at put <;> cases put
  · intro found
    rcases found with ⟨between, before, rfl, opens, kept⟩
    exact ⟨between, o, before, rfl, by simp [sessions, opens], kept_sessions_iff.mpr kept⟩

theorem Bracketed.of_append {later earlier : List ε} (bracketed : Bracketed mark R (later ++ earlier)) :
    Bracketed mark R earlier := Lawful.of_append bracketed

/-- A close in a bracketed stream, with the opening of the session it closes. -/
theorem Bracketed.opening (bracketed : Bracketed mark R h) {after before : List ε}
    (split : h = after ++ e :: before) (closes : mark e = some (.closes k)) :
    ∃ between o earlier, before = between ++ o :: earlier ∧ mark o = some (.opens k) ∧
      (∀ b ∈ between, mark b ≠ some (.opens k) ∧ mark b ≠ some (.closes k)) ∧ R o e := by
  obtain ⟨o, isOpen, related⟩ := lawful_iff_split.mp bracketed after e before split k closes
  obtain ⟨between, earlier, rest, opens, kept⟩ := replay_sessions_iff.mp isOpen
  exact ⟨between, o, earlier, rest, opens, kept, related⟩

theorem Bracketed.opening_between (bracketed : Bracketed mark R h)
    {after between before : List ε} {e' : ε}
    (split : h = after ++ e' :: (between ++ e :: before)) (closes : mark e = some (.closes k))
    (closes' : mark e' = some (.closes k)) : ∃ o ∈ between, mark o = some (.opens k) := by
  obtain ⟨untouched, o, earlier, rest, opens, kept, -⟩ := bracketed.opening split closes'
  rcases List.append_eq_append_iff.mp rest with ⟨tail, rfl, last⟩ | ⟨tail, rfl, last⟩
  · -- the opening would lie before the earlier close
    cases tail with
    | nil =>
        obtain ⟨rfl, -⟩ := List.cons.inj last
        rw [closes] at opens
        cases opens
    | cons b tail =>
        obtain ⟨rfl, -⟩ := List.cons.inj last
        exact absurd closes (kept e (by simp)).2
  · cases tail with
    | nil =>
        obtain ⟨rfl, -⟩ := List.cons.inj last
        rw [closes] at opens
        cases opens
    | cons b tail =>
        obtain ⟨rfl, -⟩ := List.cons.inj last
        exact ⟨o, by simp, opens⟩

/-- Closes may be left out of a stream: a session that is open stays so. -/
theorem replay_sessions_filter {keep : ε → Bool}
    (opensKept : ∀ e k, mark e = some (.opens k) → keep e = true)
    (isOpen : (sessions mark).replay h k = some o) :
    (sessions mark).replay (h.filter keep) k = some o := by
  obtain ⟨between, before, rfl, opens, kept⟩ := replay_sessions_iff.mp isOpen
  refine replay_sessions_iff.mpr ⟨between.filter keep, before.filter keep, ?_, opens, ?_⟩
  · rw [List.filter_append, List.filter_cons_of_pos (opensKept o k opens)]
  · exact fun e mem => kept e (List.mem_of_mem_filter mem)

theorem Bracketed.filter {keep : ε → Bool}
    (opensKept : ∀ e k, mark e = some (.opens k) → keep e = true)
    (bracketed : Bracketed mark R h) : Bracketed mark R (h.filter keep) := by
  induction h with
  | nil => trivial
  | cons e h ih =>
      rw [List.filter_cons]
      split
      · refine ⟨fun k closes => ?_, ih bracketed.2⟩
        obtain ⟨o, isOpen, related⟩ := bracketed.1 k closes
        exact ⟨o, replay_sessions_filter opensKept isOpen, related⟩
      · exact ih bracketed.2

/-- The sessions of a stream seen through a function that keeps the marks. -/
theorem replay_sessions_map {ε' : Type*} {mark' : ε' → Option (Mark κ)} {f : ε → ε'}
    (same : ∀ e ∈ h, mark' (f e) = mark e) :
    (sessions mark').replay (h.map f) k = ((sessions mark).replay h k).map f := by
  induction h with
  | nil => rfl
  | cons e h ih =>
      rw [List.map_cons, Journal.replay_cons, Journal.replay_cons,
        ih fun e mem => same e (List.mem_cons_of_mem _ mem), sessions, sessions,
        same e List.mem_cons_self]
      split
      · rfl
      · split <;> rfl

/-- A bracketed stream stays so when each event is shown by something with its mark. -/
theorem Bracketed.map {ε' : Type*} {mark' : ε' → Option (Mark κ)} {R' : ε' → ε' → Prop}
    {f : ε → ε'} (same : ∀ e ∈ h, mark' (f e) = mark e)
    (related : ∀ o e k, mark e = some (.closes k) → R o e → R' (f o) (f e))
    (bracketed : Bracketed mark R h) : Bracketed mark' R' (h.map f) := by
  induction h with
  | nil => trivial
  | cons e h ih =>
      have before : ∀ e ∈ h, mark' (f e) = mark e := fun e mem => same e (List.mem_cons_of_mem _ mem)
      refine ⟨fun k closes => ?_, ih before bracketed.2⟩
      rw [same e List.mem_cons_self] at closes
      obtain ⟨o, isOpen, measured⟩ := bracketed.1 k closes
      refine ⟨f o, ?_, related o e k closes measured⟩
      have shown : (sessions mark').replay (h.map f) k = some (f o) := by
        rw [replay_sessions_map before, isOpen, Option.map_some]
      exact shown

/-- The closes of a key never outnumber its openings. -/
theorem Bracketed.closed_le_opened (bracketed : Bracketed mark R h) (k : κ) :
    h.countP (mark · = some (.closes k)) + (if ((sessions mark).replay h k).isSome then 1 else 0) ≤
      h.countP (mark · = some (.opens k)) := by
  induction h with
  | nil => simp
  | cons e h ih =>
      have before := ih bracketed.2
      by_cases opens : mark e = some (.opens k)
      · have counted : (e :: h).countP (mark · = some (.opens k)) =
            h.countP (mark · = some (.opens k)) + 1 := List.countP_cons_of_pos (by simpa using opens)
        have skipped : (e :: h).countP (mark · = some (.closes k)) =
            h.countP (mark · = some (.closes k)) := List.countP_cons_of_neg (by simp [opens])
        rw [counted, skipped, replay_sessions_opens opens, Option.isSome_some, if_pos rfl]
        omega
      · have skipped : (e :: h).countP (mark · = some (.opens k)) =
            h.countP (mark · = some (.opens k)) := List.countP_cons_of_neg (by simpa using opens)
        by_cases closes : mark e = some (.closes k)
        · have counted : (e :: h).countP (mark · = some (.closes k)) =
              h.countP (mark · = some (.closes k)) + 1 :=
            List.countP_cons_of_pos (by simpa using closes)
          obtain ⟨o, isOpen, -⟩ := bracketed.1 k closes
          rw [isOpen, Option.isSome_some, if_pos rfl] at before
          rw [counted, skipped, replay_sessions_closes closes]
          simpa using before
        · have skipped' : (e :: h).countP (mark · = some (.closes k)) =
              h.countP (mark · = some (.closes k)) := List.countP_cons_of_neg (by simpa using closes)
          rw [skipped, skipped', replay_sessions_of_other ⟨opens, closes⟩]
          exact before

end

end Tragach.Library
