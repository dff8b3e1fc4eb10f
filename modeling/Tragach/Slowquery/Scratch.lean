import Tragach.Slowquery.Actions

/-! # The scratch slots

Two per-CPU slots hold a record while it is being built. What they held before is
never looked at, so that a run is the same whatever they are loaded with.
-/

namespace Tragach.Slowquery

open Bpf Library

variable {L : Limits}

def State.forget (s : State L) : State L :=
  { s with
    withSqlScratch := (State.empty L).withSqlScratch
    preparedScratch := (State.empty L).preparedScratch }

def tracerFrom (L : Limits) (withSqlScratch : PerCpuArray WithSql 1)
    (preparedScratch : PerCpuArray PreparedStatement 1) : System (State L) Action :=
  ⟨{ State.empty L with withSqlScratch := withSqlScratch, preparedScratch := preparedScratch },
    fire⟩

/-- An action writes the scratch slots and does not depend on them. -/
theorem forget_fire (s : State L) (a : Action) : (fire s a).forget = (fire s.forget a).forget := by
  cases a with
  | entry f c =>
      cases f with
      | prepare => simp only [fire, entryProbe, final_prepareEntry, State.forget]
      | execute =>
          simp only [fire, entryProbe, final_executeEntry]
          split <;> rfl
      | executeImmediate => simp only [fire, entryProbe, final_immediateEntry, State.forget]
      | openCursor => simp only [fire, entryProbe, final_openCursorEntry, State.forget]
      | fetchNext =>
          simp only [fire, entryProbe, final_fetchNextEntry]
          split <;> rfl
  | exit f c =>
      cases f with
      | prepare =>
          simp only [fire, exitProbe, final_prepareExit, State.forget]
          cases s.prepareInProgress.get c.tid with
          | none => rfl
          | some e => dsimp only; split <;> rfl
      | execute =>
          simp only [fire, exitProbe, final_executeExit, State.forget]
          cases s.executeInProgress.get c.tid <;> rfl
      | executeImmediate =>
          simp only [fire, exitProbe, final_immediateExit, State.forget]
          cases s.immediateInProgress.get c.tid <;> rfl
      | openCursor =>
          simp only [fire, exitProbe, final_openCursorExit, State.forget]
          cases s.openCursorInProgress.get c.tid with
          | none => rfl
          | some e => dsimp only; split <;> rfl
      | fetchNext =>
          simp only [fire, exitProbe, final_fetchNextExit, State.forget]
          cases s.fetchInProgress.get c.tid with
          | none => rfl
          | some cursor =>
              dsimp only
              split
              · cases s.openCursors.get cursor <;> rfl
              · rfl
  | abandon f t => rfl

theorem forget_fire_congr {s s' : State L} (same : s.forget = s'.forget) (a : Action) :
    (fire s a).forget = (fire s' a).forget := by
  rw [forget_fire, same, ← forget_fire]

theorem forget_run (x : PerCpuArray WithSql 1) (y : PerCpuArray PreparedStatement 1)
    (h : History) : ((tracerFrom L x y).run h).forget = ((tracer L).run h).forget := by
  induction h with
  | nil => rfl
  | cons a h ih => exact forget_fire_congr ih a

theorem events_tracerFrom (x : PerCpuArray WithSql 1) (y : PerCpuArray PreparedStatement 1)
    (h : History) : ((tracerFrom L x y).run h).events = ((tracer L).run h).events := by
  show ((tracerFrom L x y).run h).forget.events = ((tracer L).run h).forget.events
  rw [forget_run]

end Tragach.Slowquery
