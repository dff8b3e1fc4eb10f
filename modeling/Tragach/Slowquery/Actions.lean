import Tragach.Slowquery.Steps

/-! # Runs of the slowquery probes

An action is what happens on one thread of the traced process: a probed function
is entered, returns, or is left by an exception, in which case no probe fires.
The effect of an action on each map is given cell by cell, uniformly over the
five functions.
-/

namespace Tragach.Slowquery

open Bpf Common Library

inductive Action where
  | entry (f : Fn) (ctx : Ctx)
  | exit (f : Fn) (ctx : Ctx)
  | abandon (f : Fn) (tid : UInt32)

abbrev History := List Action

/-- The clock read by the probe of an action. -/
def Action.time? : Action → Option UInt64
  | .entry _ c => some c.ktime
  | .exit _ c => some c.ktime
  | .abandon _ _ => none

/-- A firing on CPU 0 with room in the ring, no eviction and empty user strings. -/
def firing (tid time : UInt64) (regs : PtRegs) : Ctx where
  cpu := 0
  pidTgid := tid
  ktime := time
  regs := regs
  evicted := []
  slot := some ⟨0, 0, 0, 0, 0, 0, 0, 0, SqlBuf.zeroed⟩
  readUserStr := fun _ buf => ⟨buf, .ok []⟩

/-- Maps as loaded, before any probe has fired. -/
def State.empty (L : Limits) : State L where
  withSqlScratch := ⟨fun _ _ => ⟨0, 0, 0, 0, SqlBuf.zeroed⟩⟩
  preparedScratch := ⟨fun _ _ => ⟨0, 0, 0, 0, SqlBuf.zeroed⟩⟩
  prepareInProgress := .empty
  executeInProgress := .empty
  immediateInProgress := .empty
  openCursorInProgress := .empty
  fetchInProgress := .empty
  preparedStatements := .empty
  openCursors := .empty
  events := []

variable {L : Limits}

def fire (s : State L) : Action → State L
  | .entry f c => (entryProbe f c).final s
  | .exit f c => (exitProbe f c).final s
  | .abandon _ _ => s

/-- The tracer over the runs of the traced process. -/
def tracer (L : Limits) : System (State L) Action := ⟨State.empty L, fire⟩

@[simp] theorem tracer_step (s : State L) (a : Action) : (tracer L).step s a = fire s a := rfl

/-! ## In-flight records -/

abbrev Fn.Record : Fn → Type
  | .prepare => WithSql
  | .execute => ExecuteEntry
  | .executeImmediate => WithSql
  | .openCursor => OpenCursor
  | .fetchNext => UInt64

/-- The record an entry of `f` leaves; a null request or cursor is not recorded. -/
def Fn.record : (f : Fn) → Ctx → Option f.Record
  | .prepare, c => some (capture c)
  | .execute, c => if c.regs.rdx = 0 then none else some ⟨c.ktime, c.regs.rdx⟩
  | .executeImmediate, c => some (capture c)
  | .openCursor, c => some ⟨c.ktime, c.regs.rdi⟩
  | .fetchNext, c => if c.regs.rdi = 0 then none else some c.regs.rdi

def State.inflight (s : State L) : (f : Fn) → HashMap UInt32 f.Record L.hash
  | .prepare => s.prepareInProgress
  | .execute => s.executeInProgress
  | .executeImmediate => s.immediateInProgress
  | .openCursor => s.openCursorInProgress
  | .fetchNext => s.fetchInProgress

/-- What an action does to the record of `f` in flight on thread `t`. -/
def inflightOp (s : State L) (f : Fn) (a : Action) (t : UInt32) : CellOp f.Record :=
  match a with
  | .entry g c =>
      match f.record c with
      | some r => if g = f then HashMap.insertOp ((s.inflight f).accepts c.tid) c.tid r t else .keep
      | none => .keep
  | .exit g c => if g = f ∧ t = c.tid then .drop else .keep
  | .abandon _ _ => .keep

def preparedOp (s : State L) (a : Action) (r : UInt64) : CellOp PreparedStatement :=
  match a with
  | .exit .prepare c =>
      match s.prepareInProgress.get c.tid with
      | some e =>
          if c.regs.rax = 0 then .keep
          else LruHashMap.insertOp (s.preparedStatements.accepts c.regs.rax c.evicted) c.evicted
            c.regs.rax (e.statement c) r
      | none => .keep
  | _ => .keep

def cursorOp (s : State L) (a : Action) (k : UInt64) : CellOp OpenCursor :=
  match a with
  | .exit .openCursor c =>
      match s.openCursorInProgress.get c.tid with
      | some e =>
          if c.regs.rax = 0 then .keep
          else LruHashMap.insertOp (s.openCursors.accepts c.regs.rax c.evicted) c.evicted
            c.regs.rax e k
      | none => .keep
  | .exit .fetchNext c =>
      match s.fetchInProgress.get c.tid with
      | some cursor => if c.regs.rax = 1 ∧ k = cursor then .drop else .keep
      | none => .keep
  | _ => .keep

/-- The event an action takes to `emit_event`, if it gets there. -/
def attempted (s : State L) (a : Action) : Option SlowQueryEvent :=
  match a with
  | .exit .execute c =>
      match s.executeInProgress.get c.tid with
      | some e => some (statementEvent c e.tsNs (s.preparedStatements.get e.dsqlRequestPtr))
      | none => none
  | .exit .executeImmediate c =>
      match s.immediateInProgress.get c.tid with
      | some e => some (immediateEvent c e)
      | none => none
  | .exit .fetchNext c =>
      match s.fetchInProgress.get c.tid with
      | some cursor =>
          if c.regs.rax = 1 then
            match s.openCursors.get cursor with
            | some oc => some
                (statementEvent c oc.openTsNs (s.preparedStatements.get oc.dsqlRequestPtr))
            | none => none
          else none
      | none => none
  | _ => none

def Action.reserved : Action → Bool
  | .entry _ c => c.slot.isSome
  | .exit _ c => c.slot.isSome
  | .abandon _ _ => false

theorem reserved_exit (f : Fn) (c : Ctx) : (Action.exit f c).reserved = c.slot.isSome := rfl

/-- The records an action submits to the ring buffer. -/
def emitted (s : State L) (a : Action) : List SlowQueryEvent :=
  if a.reserved then (attempted s a).toList else []

/-! ## The effects are those of the handlers -/

theorem inflight_entry_self (s : State L) (f : Fn) (c : Ctx) :
    (fire s (.entry f c)).inflight f =
      match f.record c with
      | some r => (s.inflight f).upsert c.tid r
      | none => s.inflight f := by
  cases f with
  | prepare => simp [fire, entryProbe, final_prepareEntry, State.inflight, Fn.record]
  | execute =>
      by_cases null : c.regs.rdx = 0 <;>
        simp [fire, entryProbe, final_executeEntry, State.inflight, Fn.record, null]
  | executeImmediate => simp [fire, entryProbe, final_immediateEntry, State.inflight, Fn.record]
  | openCursor => simp [fire, entryProbe, final_openCursorEntry, State.inflight, Fn.record]
  | fetchNext =>
      by_cases null : c.regs.rdi = 0 <;>
        simp [fire, entryProbe, final_fetchNextEntry, State.inflight, Fn.record, null]

theorem inflight_entry_ne (s : State L) {f g : Fn} (c : Ctx) (ne : g ≠ f) :
    (fire s (.entry g c)).inflight f = s.inflight f := by
  cases g with
  | prepare =>
      rw [fire, entryProbe, final_prepareEntry]
      cases f <;> first | exact absurd rfl ne | rfl
  | execute =>
      rw [fire, entryProbe, final_executeEntry]
      split
      · rfl
      · cases f <;> first | exact absurd rfl ne | rfl
  | executeImmediate =>
      rw [fire, entryProbe, final_immediateEntry]
      cases f <;> first | exact absurd rfl ne | rfl
  | openCursor =>
      rw [fire, entryProbe, final_openCursorEntry]
      cases f <;> first | exact absurd rfl ne | rfl
  | fetchNext =>
      rw [fire, entryProbe, final_fetchNextEntry]
      split
      · rfl
      · cases f <;> first | exact absurd rfl ne | rfl

theorem inflight_exit_self (s : State L) (f : Fn) (c : Ctx) :
    (fire s (.exit f c)).inflight f = (s.inflight f).remove c.tid := by
  cases f with
  | prepare =>
      simp only [fire, exitProbe, final_prepareExit, State.inflight]
      cases entry : s.prepareInProgress.get c.tid with
      | none => exact (HashMap.remove_of_absent entry).symm
      | some e => dsimp only; split <;> rfl
  | execute =>
      simp only [fire, exitProbe, final_executeExit, State.inflight]
      cases entry : s.executeInProgress.get c.tid with
      | none => exact (HashMap.remove_of_absent entry).symm
      | some e => rfl
  | executeImmediate =>
      simp only [fire, exitProbe, final_immediateExit, State.inflight]
      cases entry : s.immediateInProgress.get c.tid with
      | none => exact (HashMap.remove_of_absent entry).symm
      | some e => rfl
  | openCursor =>
      simp only [fire, exitProbe, final_openCursorExit, State.inflight]
      cases entry : s.openCursorInProgress.get c.tid with
      | none => exact (HashMap.remove_of_absent entry).symm
      | some e => dsimp only; split <;> rfl
  | fetchNext =>
      simp only [fire, exitProbe, final_fetchNextExit, State.inflight]
      cases entry : s.fetchInProgress.get c.tid with
      | none => exact (HashMap.remove_of_absent entry).symm
      | some cursor =>
          dsimp only
          split
          · split <;> rfl
          · rfl

theorem inflight_exit_ne (s : State L) {f g : Fn} (c : Ctx) (ne : g ≠ f) :
    (fire s (.exit g c)).inflight f = s.inflight f := by
  cases g with
  | prepare =>
      rw [fire, exitProbe, final_prepareExit]
      split
      · rfl
      · split <;> cases f <;> first | exact absurd rfl ne | rfl
  | execute =>
      rw [fire, exitProbe, final_executeExit]
      split
      · rfl
      · cases f <;> first | exact absurd rfl ne | rfl
  | executeImmediate =>
      rw [fire, exitProbe, final_immediateExit]
      split
      · rfl
      · cases f <;> first | exact absurd rfl ne | rfl
  | openCursor =>
      rw [fire, exitProbe, final_openCursorExit]
      split
      · rfl
      · split <;> cases f <;> first | exact absurd rfl ne | rfl
  | fetchNext =>
      rw [fire, exitProbe, final_fetchNextExit]
      split
      · rfl
      · split
        · split <;> cases f <;> first | exact absurd rfl ne | rfl
        · cases f <;> first | exact absurd rfl ne | rfl

theorem get_inflight_fire (s : State L) (a : Action) (f : Fn) (t : UInt32) :
    ((fire s a).inflight f).get t = (inflightOp s f a t).apply ((s.inflight f).get t) := by
  cases a with
  | entry g c =>
      by_cases same : g = f
      · subst same
        rw [inflight_entry_self, inflightOp]
        cases g.record c with
        | none => rfl
        | some r => simp [HashMap.get_upsert]
      · rw [inflight_entry_ne s c same, inflightOp]
        cases f.record c with
        | none => rfl
        | some r => simp [same]
  | exit g c =>
      by_cases same : g = f
      · subst same
        rw [inflight_exit_self, HashMap.get_remove, inflightOp]
        by_cases at' : t = c.tid <;> simp [at']
      · rw [inflight_exit_ne s c same, inflightOp]
        simp [same]
  | abandon g u => rfl

/-! ## Filed statements, open cursors and events -/

/-- An entry changes nothing but its own in-flight map and the scratch slot. -/
theorem fire_entry_frame (s : State L) (f : Fn) (c : Ctx) :
    (fire s (.entry f c)).preparedStatements = s.preparedStatements ∧
      (fire s (.entry f c)).openCursors = s.openCursors ∧
      (fire s (.entry f c)).events = s.events := by
  cases f with
  | prepare => simp [fire, entryProbe, final_prepareEntry]
  | execute =>
      rw [fire, entryProbe, final_executeEntry]
      split <;> exact ⟨rfl, rfl, rfl⟩
  | executeImmediate => simp [fire, entryProbe, final_immediateEntry]
  | openCursor => simp [fire, entryProbe, final_openCursorEntry]
  | fetchNext =>
      rw [fire, entryProbe, final_fetchNextEntry]
      split <;> exact ⟨rfl, rfl, rfl⟩

theorem get_preparedStatements_fire (s : State L) (a : Action) (r : UInt64) :
    (fire s a).preparedStatements.get r =
      (preparedOp s a r).apply (s.preparedStatements.get r) := by
  cases a with
  | entry f c => rw [(fire_entry_frame s f c).1]; rfl
  | exit f c =>
      cases f with
      | prepare =>
          simp only [fire, exitProbe, final_prepareExit, preparedOp]
          cases s.prepareInProgress.get c.tid with
          | none => rfl
          | some e =>
              dsimp only
              split
              · rfl
              · exact LruHashMap.get_upsert ..
      | execute =>
          simp only [fire, exitProbe, final_executeExit, preparedOp]
          split <;> rfl
      | executeImmediate =>
          simp only [fire, exitProbe, final_immediateExit, preparedOp]
          split <;> rfl
      | openCursor =>
          simp only [fire, exitProbe, final_openCursorExit, preparedOp]
          split
          · rfl
          · split <;> rfl
      | fetchNext =>
          simp only [fire, exitProbe, final_fetchNextExit, preparedOp]
          split
          · rfl
          · split
            · split <;> rfl
            · rfl
  | abandon f t => rfl

theorem get_openCursors_fire (s : State L) (a : Action) (k : UInt64) :
    (fire s a).openCursors.get k = (cursorOp s a k).apply (s.openCursors.get k) := by
  cases a with
  | entry f c => rw [(fire_entry_frame s f c).2.1]; rfl
  | exit f c =>
      cases f with
      | prepare =>
          simp only [fire, exitProbe, final_prepareExit, cursorOp]
          split
          · rfl
          · split <;> rfl
      | execute =>
          simp only [fire, exitProbe, final_executeExit, cursorOp]
          split <;> rfl
      | executeImmediate =>
          simp only [fire, exitProbe, final_immediateExit, cursorOp]
          split <;> rfl
      | openCursor =>
          simp only [fire, exitProbe, final_openCursorExit, cursorOp]
          cases s.openCursorInProgress.get c.tid with
          | none => rfl
          | some e =>
              dsimp only
              split
              · rfl
              · exact LruHashMap.get_upsert ..
      | fetchNext =>
          simp only [fire, exitProbe, final_fetchNextExit, cursorOp]
          cases s.fetchInProgress.get c.tid with
          | none => rfl
          | some cursor =>
              dsimp only
              by_cases eof : c.regs.rax = 1
              · cases held : s.openCursors.get cursor with
                | none =>
                    by_cases same : k = cursor
                    · subst same
                      simp [eof, held]
                    · simp [eof, same]
                | some oc =>
                    by_cases same : k = cursor <;>
                      simp [eof, same, LruHashMap.get_remove]
              · simp [eof]
  | abandon f t => rfl

theorem events_fire (s : State L) (a : Action) :
    (fire s a).events = s.events ++ emitted s a := by
  cases a with
  | entry f c => simp [(fire_entry_frame s f c).2.2, emitted, attempted]
  | exit f c =>
      cases f with
      | prepare =>
          simp only [fire, exitProbe, final_prepareExit, emitted, attempted]
          split
          · simp
          · split <;> simp
      | execute =>
          simp only [fire, exitProbe, final_executeExit, emitted, attempted, submitted,
            reserved_exit]
          split <;> simp [*]
      | executeImmediate =>
          simp only [fire, exitProbe, final_immediateExit, emitted, attempted, submitted,
            reserved_exit]
          split <;> simp [*]
      | openCursor =>
          simp only [fire, exitProbe, final_openCursorExit, emitted, attempted]
          split
          · simp
          · split <;> simp
      | fetchNext =>
          simp only [fire, exitProbe, final_fetchNextExit, emitted, attempted, submitted,
            reserved_exit]
          cases s.fetchInProgress.get c.tid with
          | none => by_cases room : c.slot.isSome = true <;> simp [room]
          | some cursor =>
              dsimp only
              by_cases eof : c.regs.rax = 1
              · cases s.openCursors.get cursor <;> simp [eof]
              · simp [eof]
  | abandon f t => simp [fire, emitted, attempted]

end Tragach.Slowquery
