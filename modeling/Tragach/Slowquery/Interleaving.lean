import Tragach.Library.Footprints
import Tragach.Slowquery.Commute

/-! # The handlers one map access at a time

Handlers on other CPUs may come in between any two accesses of a handler, and the field
stores through a scratch pointer are accesses like those to the maps. Which request or
cursor an exit is about is known only once it has read the record in flight, so whether two
handlers keep apart depends on the maps.
-/

namespace Tragach.Slowquery

open Bpf Common Library

inductive Access where
  | sqlStore (cpu : Nat) (write : WithSql → WithSql)
  | sqlReadUserStr (cpu : Nat) (read : SqlBuf → UserStrRead)
  | sqlLoad (cpu : Nat)
  | preparedStore (cpu : Nat) (write : PreparedStatement → PreparedStatement)
  | preparedLoad (cpu : Nat)
  | inflightInsert (f : Fn) (tid : UInt32) (r : f.Record)
  | inflightGet (f : Fn) (tid : UInt32)
  | inflightRemove (f : Fn) (tid : UInt32)
  | preparedInsert (r : UInt64) (p : PreparedStatement) (evicted : List UInt64)
  | preparedGet (r : UInt64)
  | cursorInsert (k : UInt64) (oc : OpenCursor) (evicted : List UInt64)
  | cursorGet (k : UInt64)
  | cursorRemove (k : UInt64)
  | submit (ev : SlowQueryEvent)

/-- What each access answers; nothing follows an insert whose error is returned. -/
@[reducible] def Answer : Access → Type
  | .sqlReadUserStr _ _ => Except Int64 (List UInt8)
  | .sqlLoad _ => WithSql
  | .preparedLoad _ => PreparedStatement
  | .inflightGet f _ => Option f.Record
  | .preparedGet _ => Option PreparedStatement
  | .cursorGet _ => Option OpenCursor
  | _ => Unit

variable {L : Limits}

def State.withInflight (s : State L) : (f : Fn) → HashMap UInt32 f.Record L.hash → State L
  | .prepare, m => { s with prepareInProgress := m }
  | .execute, m => { s with executeInProgress := m }
  | .executeImmediate, m => { s with immediateInProgress := m }
  | .openCursor, m => { s with openCursorInProgress := m }
  | .fetchNext, m => { s with fetchInProgress := m }

/-- A store through the pointer to `WITH_SQL_SCRATCH`. -/
def State.storeSql (s : State L) (cpu : Nat) (write : WithSql → WithSql) : State L :=
  let scratch := s.withSqlScratch.slots cpu ⟨0, Nat.one_pos⟩
  { s with withSqlScratch := s.withSqlScratch.set cpu 0 (write scratch) }

/-- A store through the pointer to `PREPARED_SCRATCH`. -/
def State.storePrepared (s : State L) (cpu : Nat)
    (write : PreparedStatement → PreparedStatement) : State L :=
  let scratch := s.preparedScratch.slots cpu ⟨0, Nat.one_pos⟩
  { s with preparedScratch := s.preparedScratch.set cpu 0 (write scratch) }

def exec (L : Limits) : Exec (State L) Answer
  | .sqlStore cpu write, s => ((), s.storeSql cpu write)
  | .sqlReadUserStr cpu read, s =>
      let scratch := s.withSqlScratch.slots cpu ⟨0, Nat.one_pos⟩
      ((read scratch.sql).result, s.storeSql cpu fun r => { r with sql := (read r.sql).buf })
  | .sqlLoad cpu, s => (s.withSqlScratch.slots cpu ⟨0, Nat.one_pos⟩, s)
  | .preparedStore cpu write, s => ((), s.storePrepared cpu write)
  | .preparedLoad cpu, s => (s.preparedScratch.slots cpu ⟨0, Nat.one_pos⟩, s)
  | .inflightInsert f tid r, s => ((), s.withInflight f ((s.inflight f).upsert tid r))
  | .inflightGet f tid, s => ((s.inflight f).get tid, s)
  | .inflightRemove f tid, s => ((), s.withInflight f ((s.inflight f).remove tid))
  | .preparedInsert r p evicted, s =>
      ((), { s with preparedStatements := s.preparedStatements.upsert r p evicted })
  | .preparedGet r, s => (s.preparedStatements.get r, s)
  | .cursorInsert k oc evicted, s =>
      ((), { s with openCursors := s.openCursors.upsert k oc evicted })
  | .cursorGet k, s => (s.openCursors.get k, s)
  | .cursorRemove k, s => ((), { s with openCursors := s.openCursors.remove k })
  | .submit ev, s => ((), { s with events := s.events ++ [ev] })

/-! ## The ten programs -/

/-- `(*scratch_ptr).f = v`. -/
def storeSql (cpu : Nat) (write : WithSql → WithSql) (next : Prog Answer) : Prog Answer :=
  .access (.sqlStore cpu write) fun _ => next

def storePrepared (cpu : Nat) (write : PreparedStatement → PreparedStatement)
    (next : Prog Answer) : Prog Answer :=
  .access (.preparedStore cpu write) fun _ => next

/-- `copied.unwrap_or(&[]).len() as u32`. -/
def readLen : Except Int64 (List UInt8) → UInt32
  | .ok bytes => UInt32.ofNat bytes.length
  | .error _ => 0

/-- `try_capture_sql_entry` up to the insert. -/
def captureBody (ctx : Ctx) (insert : Prog Answer) : Prog Answer :=
  let cpu := ctx.cpu
  let length := ctx.regs.rcx
  storeSql cpu (fun r => { r with tsNs := ctx.ktime }) <|
    storeSql cpu (fun r => { r with attachmentPtr := ctx.regs.rsi }) <|
    storeSql cpu (fun r => { r with sqlLen := length.toUInt32 }) <|
    storeSql cpu (fun r => { r with sqlTruncated := 0 }) <|
    storeSql cpu (fun r => { r with sql := SqlBuf.zeroed }) <|
    if ctx.regs.r8 ≠ 0 then
      .access (.sqlReadUserStr cpu (ctx.readUserStr ctx.regs.r8)) fun
          (result : Except Int64 (List UInt8)) =>
        let copiedLen := readLen result
        let truncate :=
          if copiedLen ≥ UInt32.ofNat SQL_MAX - 1 ∧ length > copiedLen.toUInt64 then
            storeSql cpu (fun r => { r with sqlTruncated := 1 }) insert
          else insert
        if length = 0 then storeSql cpu (fun r => { r with sqlLen := copiedLen }) truncate
        else truncate
    else storeSql cpu (fun r => { r with sqlLen := 0 }) insert

def prepareEntryBody (ctx : Ctx) : Prog Answer :=
  captureBody ctx <|
    .access (.sqlLoad ctx.cpu) fun (scratch : WithSql) =>
      .access (.inflightInsert .prepare ctx.tid scratch) fun _ => .done

def immediateEntryBody (ctx : Ctx) : Prog Answer :=
  captureBody ctx <|
    .access (.sqlLoad ctx.cpu) fun (scratch : WithSql) =>
      .access (.inflightInsert .executeImmediate ctx.tid scratch) fun _ => .done

def executeEntryBody (ctx : Ctx) : Prog Answer :=
  if ctx.regs.rdx = 0 then .done
  else .access (.inflightInsert .execute ctx.tid ⟨ctx.ktime, ctx.regs.rdx⟩) fun _ => .done

def openCursorEntryBody (ctx : Ctx) : Prog Answer :=
  .access (.inflightInsert .openCursor ctx.tid ⟨ctx.ktime, ctx.regs.rdi⟩) fun _ => .done

def fetchNextEntryBody (ctx : Ctx) : Prog Answer :=
  if ctx.regs.rdi = 0 then .done
  else .access (.inflightInsert .fetchNext ctx.tid ctx.regs.rdi) fun _ => .done

/-- `emit_event`; a full ring hands out no slot. -/
def emitBody (ctx : Ctx) (ev : SlowQueryEvent) (next : Prog Answer) : Prog Answer :=
  match ctx.slot with
  | some _ => .access (.submit ev) fun _ => next
  | none => next

def prepareExitBody (ctx : Ctx) : Prog Answer :=
  .access (.inflightGet .prepare ctx.tid) fun (entry : Option WithSql) =>
    match entry with
    | none => .done
    | some entry =>
        if ctx.regs.rax = 0 then .access (.inflightRemove .prepare ctx.tid) fun _ => .done
        else
          storePrepared ctx.cpu (fun p => { p with attachmentPtr := entry.attachmentPtr }) <|
            storePrepared ctx.cpu
              (fun p => { p with prepareNs := saturatingSub ctx.ktime entry.tsNs }) <|
            storePrepared ctx.cpu (fun p => { p with sqlLen := entry.sqlLen }) <|
            storePrepared ctx.cpu (fun p => { p with sqlTruncated := entry.sqlTruncated }) <|
            storePrepared ctx.cpu (fun p => { p with sql := entry.sql }) <|
            .access (.inflightRemove .prepare ctx.tid) fun _ =>
              .access (.preparedLoad ctx.cpu) fun (scratch : PreparedStatement) =>
                .access (.preparedInsert ctx.regs.rax scratch ctx.evicted) fun _ => .done

def executeExitBody (ctx : Ctx) : Prog Answer :=
  .access (.inflightGet .execute ctx.tid) fun (entry : Option ExecuteEntry) =>
    match entry with
    | none => .done
    | some entry =>
        .access (.inflightRemove .execute ctx.tid) fun _ =>
          .access (.preparedGet entry.dsqlRequestPtr) fun (p : Option PreparedStatement) =>
            emitBody ctx (statementEvent ctx entry.tsNs p) .done

def immediateExitBody (ctx : Ctx) : Prog Answer :=
  .access (.inflightGet .executeImmediate ctx.tid) fun (entry : Option WithSql) =>
    match entry with
    | none => .done
    | some entry =>
        emitBody ctx (immediateEvent ctx entry) <|
          .access (.inflightRemove .executeImmediate ctx.tid) fun _ => .done

def openCursorExitBody (ctx : Ctx) : Prog Answer :=
  .access (.inflightGet .openCursor ctx.tid) fun (entry : Option OpenCursor) =>
    match entry with
    | none => .done
    | some entry =>
        .access (.inflightRemove .openCursor ctx.tid) fun _ =>
          if ctx.regs.rax = 0 then .done
          else .access (.cursorInsert ctx.regs.rax entry ctx.evicted) fun _ => .done

def fetchNextExitBody (ctx : Ctx) : Prog Answer :=
  .access (.inflightGet .fetchNext ctx.tid) fun (cursor : Option UInt64) =>
    match cursor with
    | none => .done
    | some cursor =>
        .access (.inflightRemove .fetchNext ctx.tid) fun _ =>
          if ctx.regs.rax ≠ 1 then .done
          else
            .access (.cursorGet cursor) fun (oc : Option OpenCursor) =>
              match oc with
              | none => .done
              | some oc =>
                  .access (.cursorRemove cursor) fun _ =>
                    .access (.preparedGet oc.dsqlRequestPtr) fun
                        (p : Option PreparedStatement) =>
                      emitBody ctx (statementEvent ctx oc.openTsNs p) .done

def body : Action → Prog Answer
  | .entry .prepare ctx => prepareEntryBody ctx
  | .entry .execute ctx => executeEntryBody ctx
  | .entry .executeImmediate ctx => immediateEntryBody ctx
  | .entry .openCursor ctx => openCursorEntryBody ctx
  | .entry .fetchNext ctx => fetchNextEntryBody ctx
  | .exit .prepare ctx => prepareExitBody ctx
  | .exit .execute ctx => executeExitBody ctx
  | .exit .executeImmediate ctx => immediateExitBody ctx
  | .exit .openCursor ctx => openCursorExitBody ctx
  | .exit .fetchNext ctx => fetchNextExitBody ctx
  | .abandon _ _ => .done

/-! ## A program alone -/

theorem set_set {ν : Type} (a : PerCpuArray ν 1) (cpu : Nat) (v w : ν) :
    (a.set cpu 0 v).set cpu 0 w = a.set cpu 0 w := by
  simp only [PerCpuArray.set]
  congr 1
  funext c j
  split <;> rfl

theorem slots_set {ν : Type} (a : PerCpuArray ν 1) (cpu cpu' : Nat) (v : ν) (i : Fin 1) :
    (a.set cpu 0 v).slots cpu' i = if cpu' = cpu then v else a.slots cpu' i := by
  simp [PerCpuArray.set]

theorem storeSql_storeSql (s : State L) (cpu : Nat) (write write' : WithSql → WithSql) :
    (s.storeSql cpu write).storeSql cpu write' = s.storeSql cpu fun r => write' (write r) := by
  simp only [State.storeSql, slots_set, if_true, set_set]

theorem run_storeSql (s : State L) (cpu : Nat) (write : WithSql → WithSql) (next : Prog Answer) :
    (storeSql cpu write next).run (exec L) s = next.run (exec L) (s.storeSql cpu write) := rfl

theorem run_storePrepared (s : State L) (cpu : Nat)
    (write : PreparedStatement → PreparedStatement) (next : Prog Answer) :
    (storePrepared cpu write next).run (exec L) s =
      next.run (exec L) (s.storePrepared cpu write) := rfl

theorem readLen_eq_copiedLen (ctx : Ctx) :
    readLen (ctx.readUserStr ctx.regs.r8 SqlBuf.zeroed).result = ctx.copiedLen := by
  unfold Ctx.copiedLen Ctx.copied
  cases (ctx.readUserStr ctx.regs.r8 SqlBuf.zeroed).result <;> rfl

theorem run_sqlReadUserStr (s : State L) (cpu : Nat) (write : WithSql → WithSql)
    (read : SqlBuf → UserStrRead) (next : Except Int64 (List UInt8) → Prog Answer) :
    (Prog.access (.sqlReadUserStr cpu read) next).run (exec L) (s.storeSql cpu write) =
      (next (read (write (s.withSqlScratch.slots cpu ⟨0, Nat.one_pos⟩)).sql).result).run (exec L)
        (s.storeSql cpu fun r => { write r with sql := (read (write r).sql).buf }) := by
  rw [Prog.run_access]
  simp only [exec, storeSql_storeSql]
  simp only [State.storeSql, slots_set, if_true]

/-- The capture overwrites the whole of the scratch record. -/
theorem run_captureBody (s : State L) (ctx : Ctx) (insert : Prog Answer) :
    (captureBody ctx insert).run (exec L) s =
      insert.run (exec L) (s.storeSql ctx.cpu fun _ => capture ctx) := by
  simp only [captureBody, run_storeSql, storeSql_storeSql]
  by_cases null : ctx.regs.r8 = 0
  · rw [if_neg (not_not_intro null), run_storeSql, storeSql_storeSql, capture_of_null null]
  · rw [if_pos null, run_sqlReadUserStr]
    simp only [readLen_eq_copiedLen, capture_of_ne null]
    by_cases strlen : ctx.regs.rcx = 0
    · rw [if_pos strlen, if_pos strlen, run_storeSql, storeSql_storeSql]
      split
      · rw [run_storeSql, storeSql_storeSql]
      · rfl
    · rw [if_neg strlen, if_neg strlen]
      split
      · rw [run_storeSql, storeSql_storeSql]
      · rfl

theorem run_emitBody (s : State L) (ctx : Ctx) (ev : SlowQueryEvent) (next : Prog Answer) :
    (emitBody ctx ev next).run (exec L) s =
      next.run (exec L) { s with events := s.events ++ submitted ctx ev } := by
  unfold emitBody submitted
  cases ctx.slot with
  | none => simp
  | some slot => rfl

theorem run_body (s : State L) (a : Action) : (body a).run (exec L) s = fire s a := by
  cases a with
  | abandon f t => rfl
  | entry f c =>
      cases f with
      | prepare =>
          rw [fire, entryProbe, final_prepareEntry, body, prepareEntryBody, run_captureBody]
          simp [exec, State.storeSql, slots_set, State.withInflight, State.inflight]
      | executeImmediate =>
          rw [fire, entryProbe, final_immediateEntry, body, immediateEntryBody, run_captureBody]
          simp [exec, State.storeSql, slots_set, State.withInflight, State.inflight]
      | execute =>
          rw [fire, entryProbe, final_executeEntry, body, executeEntryBody]
          split <;> rfl
      | openCursor =>
          rw [fire, entryProbe, final_openCursorEntry]
          rfl
      | fetchNext =>
          rw [fire, entryProbe, final_fetchNextEntry, body, fetchNextEntryBody]
          split <;> rfl
  | exit f c =>
      cases f with
      | prepare =>
          rw [fire, exitProbe, final_prepareExit, body, prepareExitBody]
          cases entry : s.prepareInProgress.get c.tid with
          | none => simp [exec, State.inflight, entry]
          | some e =>
              by_cases null : c.regs.rax = 0
              · simp [exec, State.inflight, entry, null, State.withInflight]
              · simp [exec, State.inflight, entry, null, State.withInflight, run_storePrepared,
                  State.storePrepared, slots_set, set_set, WithSql.statement]
      | execute =>
          rw [fire, exitProbe, final_executeExit, body, executeExitBody]
          cases entry : s.executeInProgress.get c.tid with
          | none => simp [exec, State.inflight, entry]
          | some e => simp [exec, State.inflight, entry, run_emitBody, State.withInflight]
      | executeImmediate =>
          rw [fire, exitProbe, final_immediateExit, body, immediateExitBody]
          cases entry : s.immediateInProgress.get c.tid with
          | none => simp [exec, State.inflight, entry]
          | some e => simp [exec, State.inflight, entry, run_emitBody, State.withInflight]
      | openCursor =>
          rw [fire, exitProbe, final_openCursorExit, body, openCursorExitBody]
          cases entry : s.openCursorInProgress.get c.tid with
          | none => simp [exec, State.inflight, entry]
          | some e =>
              by_cases null : c.regs.rax = 0 <;>
                simp [exec, State.inflight, entry, null, State.withInflight]
      | fetchNext =>
          rw [fire, exitProbe, final_fetchNextExit, body, fetchNextExitBody]
          cases entry : s.fetchInProgress.get c.tid with
          | none => simp [exec, State.inflight, entry]
          | some cursor =>
              by_cases eof : c.regs.rax = 1
              · cases open' : s.openCursors.get cursor with
                | none => simp [exec, State.inflight, entry, eof, open', State.withInflight]
                | some oc =>
                    simp [exec, State.inflight, entry, eof, open', run_emitBody,
                      State.withInflight]
              · simp [exec, State.inflight, entry, eof, State.withInflight]

/-! ## Cells -/

/-- A cell of the scratch areas, of the maps and, by thread, of the ring. -/
inductive Cell where
  | sqlScratch (cpu : Nat)
  | preparedScratch (cpu : Nat)
  | inflight (f : Fn) (tid : UInt32)
  | prepared (r : UInt64)
  | cursor (k : UInt64)
  | log (tid : UInt32)
  deriving DecidableEq

def Cell.Content : Cell → Type
  | .sqlScratch _ => WithSql
  | .preparedScratch _ => PreparedStatement
  | .inflight f _ => Option f.Record
  | .prepared _ => Option PreparedStatement
  | .cursor _ => Option OpenCursor
  | .log _ => List SlowQueryEvent

def State.eventsOf (s : State L) (tid : UInt32) : List SlowQueryEvent :=
  s.events.filter fun ev => ev.tid = tid

def State.cell (s : State L) : (c : Cell) → c.Content
  | .sqlScratch cpu => s.withSqlScratch.slots cpu ⟨0, Nat.one_pos⟩
  | .preparedScratch cpu => s.preparedScratch.slots cpu ⟨0, Nat.one_pos⟩
  | .inflight f tid => (s.inflight f).get tid
  | .prepared r => s.preparedStatements.get r
  | .cursor k => s.openCursors.get k
  | .log tid => s.eventsOf tid

def Access.reads : Access → List Cell
  | .sqlStore cpu _ | .sqlReadUserStr cpu _ | .sqlLoad cpu => [.sqlScratch cpu]
  | .preparedStore cpu _ | .preparedLoad cpu => [.preparedScratch cpu]
  | .inflightInsert f tid _ | .inflightGet f tid | .inflightRemove f tid => [.inflight f tid]
  | .preparedInsert _ _ _ | .cursorInsert _ _ _ => []
  | .preparedGet r => [.prepared r]
  | .cursorGet k | .cursorRemove k => [.cursor k]
  | .submit ev => [.log ev.tid]

/-- The cells an access changes; an insert into an LRU map also drops entries. -/
def Access.writes : Access → List Cell
  | .sqlLoad _ | .preparedLoad _ | .inflightGet _ _ | .preparedGet _ | .cursorGet _ => []
  | .sqlStore cpu _ | .sqlReadUserStr cpu _ => [.sqlScratch cpu]
  | .preparedStore cpu _ => [.preparedScratch cpu]
  | .inflightInsert f tid _ | .inflightRemove f tid => [.inflight f tid]
  | .preparedInsert r _ evicted => .prepared r :: evicted.map .prepared
  | .cursorInsert k _ evicted => .cursor k :: evicted.map .cursor
  | .cursorRemove k => [.cursor k]
  | .submit ev => [.log ev.tid]

def Access.answer : (a : Access) → ((c : Cell) → c.Content) → Answer a
  | .sqlReadUserStr cpu read, v => (read (WithSql.sql (v (.sqlScratch cpu)))).result
  | .sqlLoad cpu, v => v (.sqlScratch cpu)
  | .preparedLoad cpu, v => v (.preparedScratch cpu)
  | .inflightGet f tid, v => v (.inflight f tid)
  | .preparedGet r, v => v (.prepared r)
  | .cursorGet k, v => v (.cursor k)
  | .sqlStore _ _, _ | .preparedStore _ _, _ | .inflightInsert _ _ _, _ | .inflightRemove _ _, _
  | .preparedInsert _ _ _, _ | .cursorInsert _ _ _, _ | .cursorRemove _, _ | .submit _, _ => ()

/-- What an access does to a cell. -/
def Access.effect : Access → (c : Cell) → c.Content → c.Content
  | .sqlStore cpu write, .sqlScratch cpu', v => if cpu' = cpu then write v else v
  | .sqlReadUserStr cpu read, .sqlScratch cpu', v =>
      let r : WithSql := v
      if cpu' = cpu then { r with sql := (read r.sql).buf } else r
  | .preparedStore cpu write, .preparedScratch cpu', v => if cpu' = cpu then write v else v
  | .inflightInsert f tid r, .inflight g tid', v =>
      if h : f = g ∧ tid' = tid then some (h.1 ▸ r) else v
  | .inflightRemove f tid, .inflight g tid', v => if f = g ∧ tid' = tid then none else v
  | .preparedInsert r p evicted, .prepared r', v =>
      if r' ∈ evicted then none else if r' = r then some p else v
  | .cursorInsert k oc evicted, .cursor k', v =>
      if k' ∈ evicted then none else if k' = k then some oc else v
  | .cursorRemove k, .cursor k', v => if k' = k then none else v
  | .submit ev, .log tid, v =>
      let events : List SlowQueryEvent := v
      if tid = ev.tid then events ++ [ev] else events
  | _, _, v => v

/-- The access is not an insert into a full map. -/
def Accepts (s : State L) : Access → Prop
  | .inflightInsert f tid _ => (s.inflight f).accepts tid = true
  | .preparedInsert r _ evicted => s.preparedStatements.accepts r evicted = true
  | .cursorInsert k _ evicted => s.openCursors.accepts k evicted = true
  | _ => True

instance (s : State L) : ∀ a, Decidable (Accepts s a)
  | .inflightInsert f tid _ => inferInstanceAs (Decidable ((s.inflight f).accepts tid = true))
  | .preparedInsert r _ evicted =>
      inferInstanceAs (Decidable (s.preparedStatements.accepts r evicted = true))
  | .cursorInsert k _ evicted =>
      inferInstanceAs (Decidable (s.openCursors.accepts k evicted = true))
  | .sqlStore _ _ | .sqlReadUserStr _ _ | .sqlLoad _ | .preparedStore _ _ | .preparedLoad _
  | .inflightGet _ _ | .inflightRemove _ _ | .preparedGet _ | .cursorGet _ | .cursorRemove _
  | .submit _ => inferInstanceAs (Decidable True)

theorem inflight_withInflight (s : State L) (f : Fn) (m : HashMap UInt32 f.Record L.hash) :
    (s.withInflight f m).inflight f = m := by
  cases f <;> rfl

theorem inflight_withInflight_of_ne (s : State L) {f g : Fn} (other : f ≠ g)
    (m : HashMap UInt32 f.Record L.hash) : (s.withInflight f m).inflight g = s.inflight g := by
  cases f <;> cases g <;> first | exact absurd rfl other | rfl

theorem cell_withInflight (s : State L) (f : Fn) (m : HashMap UInt32 f.Record L.hash) {c : Cell}
    (other : ∀ g tid, c ≠ .inflight g tid) : (s.withInflight f m).cell c = s.cell c := by
  cases c with
  | inflight g tid => exact absurd rfl (other g tid)
  | _ => cases f <;> rfl

theorem cell_exec {s : State L} {a : Access} (accepts : Accepts s a) (c : Cell) :
    (exec L a s).2.cell c = a.effect c (s.cell c) := by
  cases a with
  | sqlStore cpu write =>
      cases c with
      | sqlScratch cpu' =>
          refine (slots_set s.withSqlScratch cpu cpu' _ _).trans ?_
          by_cases here : cpu' = cpu
          · subst here
            simp [Access.effect, State.cell]
          · simp [Access.effect, State.cell, here]
      | _ => rfl
  | sqlReadUserStr cpu read =>
      cases c with
      | sqlScratch cpu' =>
          refine (slots_set s.withSqlScratch cpu cpu' _ _).trans ?_
          by_cases here : cpu' = cpu
          · subst here
            simp [Access.effect, State.cell]
          · simp [Access.effect, State.cell, here]
      | _ => rfl
  | preparedStore cpu write =>
      cases c with
      | preparedScratch cpu' =>
          refine (slots_set s.preparedScratch cpu cpu' _ _).trans ?_
          by_cases here : cpu' = cpu
          · subst here
            simp [Access.effect, State.cell]
          · simp [Access.effect, State.cell, here]
      | _ => rfl
  | inflightInsert f tid r =>
      cases c with
      | inflight g tid' =>
          show ((s.withInflight f ((s.inflight f).upsert tid r)).inflight g).get tid' = _
          by_cases fns : f = g
          · subst fns
            have room : (s.inflight f).accepts tid = true := accepts
            rw [inflight_withInflight, HashMap.get_upsert, room]
            by_cases here : tid' = tid <;> simp [Access.effect, HashMap.insertOp, State.cell, here]
          · rw [inflight_withInflight_of_ne s fns]
            simp [Access.effect, State.cell, fns]
      | _ => exact cell_withInflight s f _ (fun g tid => by simp)
  | inflightRemove f tid =>
      cases c with
      | inflight g tid' =>
          show ((s.withInflight f ((s.inflight f).remove tid)).inflight g).get tid' = _
          by_cases fns : f = g
          · subst fns
            rw [inflight_withInflight, HashMap.get_remove]
            by_cases here : tid' = tid <;> simp [Access.effect, State.cell, here]
          · rw [inflight_withInflight_of_ne s fns]
            simp [Access.effect, State.cell, fns]
      | _ => exact cell_withInflight s f _ (fun g tid => by simp)
  | preparedInsert r p evicted =>
      cases c with
      | prepared r' =>
          have room : s.preparedStatements.accepts r evicted = true := accepts
          exact LruHashMap.get_upsert_of_accepts room p r'
      | _ => rfl
  | cursorInsert k oc evicted =>
      cases c with
      | cursor k' =>
          have room : s.openCursors.accepts k evicted = true := accepts
          exact LruHashMap.get_upsert_of_accepts room oc k'
      | _ => rfl
  | cursorRemove k =>
      cases c with
      | cursor k' => exact LruHashMap.get_remove s.openCursors k k'
      | _ => rfl
  | submit ev =>
      cases c with
      | log tid =>
          refine (List.filter_append ..).trans ?_
          by_cases own : tid = ev.tid
          · simp [Access.effect, State.cell, State.eventsOf, own]
          · simp [Access.effect, State.cell, State.eventsOf, own, Ne.symm own]
      | _ => rfl
  | sqlLoad cpu => rfl
  | preparedLoad cpu => rfl
  | inflightGet f tid => rfl
  | preparedGet r => rfl
  | cursorGet k => rfl

theorem byCells : ByCells State.cell (exec L) Accepts Access.answer Access.effect := by
  refine ⟨fun {s a} _ => ?_, fun accepts c => cell_exec accepts c⟩
  cases a <;> rfl

theorem answer_congr {a : Access} {v v' : (c : Cell) → c.Content}
    (same : ∀ c ∈ a.reads, v c = v' c) : a.answer v = a.answer v' := by
  cases a with
  | sqlReadUserStr cpu read =>
      exact congrArg (fun r : WithSql => (read r.sql).result) (same _ List.mem_cons_self)
  | sqlLoad cpu => exact same _ List.mem_cons_self
  | preparedLoad cpu => exact same _ List.mem_cons_self
  | inflightGet f tid => exact same _ List.mem_cons_self
  | preparedGet r => exact same _ List.mem_cons_self
  | cursorGet k => exact same _ List.mem_cons_self
  | _ => rfl

theorem effect_of_notMem {a : Access} {c : Cell} (off : c ∉ a.writes) (v : c.Content) :
    a.effect c v = v := by
  cases a with
  | sqlStore cpu write =>
      cases c with
      | sqlScratch cpu' => exact if_neg fun same => off (by simp [Access.writes, same])
      | _ => rfl
  | sqlReadUserStr cpu read =>
      cases c with
      | sqlScratch cpu' => exact if_neg fun same => off (by simp [Access.writes, same])
      | _ => rfl
  | preparedStore cpu write =>
      cases c with
      | preparedScratch cpu' => exact if_neg fun same => off (by simp [Access.writes, same])
      | _ => rfl
  | inflightInsert f tid r =>
      cases c with
      | inflight g tid' => exact dif_neg fun same => off (by simp [Access.writes, same])
      | _ => rfl
  | inflightRemove f tid =>
      cases c with
      | inflight g tid' => exact if_neg fun same => off (by simp [Access.writes, same])
      | _ => rfl
  | preparedInsert r p evicted =>
      cases c with
      | prepared r' =>
          simp only [Access.writes, List.mem_cons, List.mem_map, Cell.prepared.injEq,
            exists_eq_right, not_or] at off
          exact (if_neg off.2).trans (if_neg off.1)
      | _ => rfl
  | cursorInsert k oc evicted =>
      cases c with
      | cursor k' =>
          simp only [Access.writes, List.mem_cons, List.mem_map, Cell.cursor.injEq,
            exists_eq_right, not_or] at off
          exact (if_neg off.2).trans (if_neg off.1)
      | _ => rfl
  | cursorRemove k =>
      cases c with
      | cursor k' => exact if_neg fun same => off (by simp [Access.writes, same])
      | _ => rfl
  | submit ev =>
      cases c with
      | log tid => exact if_neg fun same => off (by simp [Access.writes, same])
      | _ => rfl
  | sqlLoad cpu => rfl
  | preparedLoad cpu => rfl
  | inflightGet f tid => rfl
  | preparedGet r => rfl
  | cursorGet k => rfl

theorem effect_congr {a : Access} {v v' : (c : Cell) → c.Content}
    (same : ∀ c ∈ a.reads, v c = v' c) {c : Cell} (mem : c ∈ a.writes) :
    a.effect c (v c) = a.effect c (v' c) := by
  cases a with
  | preparedInsert r p evicted =>
      rcases List.mem_cons.mp mem with rfl | mem
      · have own (v : Option PreparedStatement) :
            (if r ∈ evicted then none else if r = r then some p else v) =
              if r ∈ evicted then none else some p := by rw [if_pos (rfl : r = r)]
        exact (own _).trans (own _).symm
      · obtain ⟨r', dropped, rfl⟩ := List.mem_map.mp mem
        exact (if_pos dropped).trans (if_pos dropped).symm
  | cursorInsert k oc evicted =>
      rcases List.mem_cons.mp mem with rfl | mem
      · have own (v : Option OpenCursor) :
            (if k ∈ evicted then none else if k = k then some oc else v) =
              if k ∈ evicted then none else some oc := by rw [if_pos (rfl : k = k)]
        exact (own _).trans (own _).symm
      · obtain ⟨k', dropped, rfl⟩ := List.mem_map.mp mem
        exact (if_pos dropped).trans (if_pos dropped).symm
  | sqlLoad cpu => cases mem
  | preparedLoad cpu => cases mem
  | inflightGet f tid => cases mem
  | preparedGet r => cases mem
  | cursorGet k => cases mem
  | _ => rw [same c mem]

theorem accepts_unlimited (s : State unlimited) (a : Access) : Accepts s a := by
  cases a with
  | inflightInsert f tid r => exact HashMap.accepts_unlimited ..
  | preparedInsert r p evicted => exact LruHashMap.accepts_unlimited ..
  | cursorInsert k oc evicted => exact LruHashMap.accepts_unlimited ..
  | _ => trivial

theorem access_confined (a : Access) :
    Confined State.cell (exec unlimited) a a.reads a.writes :=
  byCells.confined accepts_unlimited
    (fun _ _ same => ⟨answer_congr same, fun _ mem => effect_congr same mem⟩)
    (fun _ v off => effect_of_notMem off v)

/-! ## Interleaved runs -/

abbrev running (L : Limits) :
    System (Threads (State L) UInt32 Action Answer) (ThreadStep UInt32 Action) :=
  interleaved body (exec L) (State.empty L)

/-- No handler begins while a running one has still to write what it would touch, or to
touch what it would write. -/
abbrev KeepingApart : List (ThreadStep UInt32 Action) → ThreadStep UInt32 Action → Prop :=
  KeepsApart body (exec unlimited) (State.empty unlimited) Access.reads Access.writes

abbrev NoneRefused (L : Limits) :
    List (ThreadStep UInt32 Action) → ThreadStep UInt32 Action → Prop :=
  AccessOk body (exec L) (State.empty L) Accepts

theorem serial_eq_tracer (h : History) :
    (serial body (exec L) (State.empty L)).run h = (tracer L).run h := by
  induction h with
  | nil => rfl
  | cons a h ih => exact (run_body _ a).trans (congrArg (fire · a) ih)

theorem imitates (L : Limits) :
    Imitates State.cell (exec L) Accepts (State.empty L) State.cell (exec unlimited)
      (State.empty unlimited) := by
  refine byCells.imitates byCells accepts_unlimited fun c => ?_
  cases c with
  | inflight f tid => cases f <;> exact (HashMap.get_empty _).trans (HashMap.get_empty _).symm
  | prepared r => exact (LruHashMap.get_empty r).trans (LruHashMap.get_empty r).symm
  | cursor k => exact (LruHashMap.get_empty k).trans (LruHashMap.get_empty k).symm
  | _ => rfl

def Ctx.onCpu (c : Ctx) (cpu : Nat) : Ctx := { c with cpu := cpu }

/-- The threads take turns in this order, `n` times over. -/
def turns (n : Nat) (threads : List UInt32) : List (ThreadStep UInt32 Action) :=
  (List.replicate n threads).flatten.map .advance

/-- On CPU 1 thread 8 executes immediately while on CPU 0 thread 7 prepares and executes;
the two take turns after every access. -/
def twoThreads : List (ThreadStep UInt32 Action) :=
  turns 6 [7, 8] ++
    .enter 7 (.exit .execute ((firing 7 60 {}).onCpu 0)) ::
    .enter 8 (.exit .executeImmediate ((firing 8 50 {}).onCpu 1)) ::
    (turns 2 [7] ++
    .enter 7 (.entry .execute ((firing 7 40 { rdx := 100 }).onCpu 0)) ::
    (turns 12 [7, 8] ++
    .enter 7 (.exit .prepare ((firing 7 20 { rax := 100 }).onCpu 0)) ::
    .enter 8 (.entry .executeImmediate ((firing 8 15 { rsi := 6, r8 := 1 }).onCpu 1)) ::
    (turns 12 [7] ++
    [.enter 7 (.entry .prepare ((firing 7 10 { rsi := 5, r8 := 1 }).onCpu 0))])))

example :
    (((running declared).run twoThreads).shared.eventsOf 7).map
        (fun ev => (ev.executeNs, ev.prepareNs, ev.attachmentId)) = [(20, 10, 5)] := by
  decide +kernel

end Tragach.Slowquery
