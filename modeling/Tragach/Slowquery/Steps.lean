import Tragach.Slowquery.Handlers

/-! # What each handler does

One closed form for every handler: the maps after a firing as a function of the
maps before it. Later modules use these forms and never unfold a handler.
-/

namespace Tragach.Slowquery

open Bpf Common

variable {L : Limits}

/-- What an entry probe captures of a statement, whatever the scratch slot held. -/
def capture (ctx : Ctx) : WithSql :=
  fillScratch ctx ctx.regs.rsi ctx.regs.rcx ctx.regs.r8 ⟨0, 0, 0, 0, SqlBuf.zeroed⟩

/-- The scratch slot is overwritten in full. -/
theorem fillScratch_eq_capture (ctx : Ctx) (scratch : WithSql) :
    fillScratch ctx ctx.regs.rsi ctx.regs.rcx ctx.regs.r8 scratch = capture ctx := rfl

/-- What the string helper read for the entry, nothing when it faulted. -/
def Ctx.copied (ctx : Ctx) : List UInt8 :=
  match (ctx.readUserStr ctx.regs.r8 SqlBuf.zeroed).result with
  | .ok bytes => bytes
  | .error _ => []

def Ctx.copiedLen (ctx : Ctx) : UInt32 := UInt32.ofNat ctx.copied.length

theorem capture_of_ne {ctx : Ctx} (nonNull : ctx.regs.r8 ≠ 0) :
    capture ctx =
      { tsNs := ctx.ktime
        attachmentPtr := ctx.regs.rsi
        sqlLen := if ctx.regs.rcx = 0 then ctx.copiedLen else ctx.regs.rcx.toUInt32
        sqlTruncated :=
          if ctx.copiedLen ≥ UInt32.ofNat SQL_MAX - 1 ∧ ctx.regs.rcx > ctx.copiedLen.toUInt64 then 1
          else 0
        sql := (ctx.readUserStr ctx.regs.r8 SqlBuf.zeroed).buf } := by
  unfold capture fillScratch Ctx.copiedLen Ctx.copied
  simp only [if_pos nonNull]
  cases (ctx.readUserStr ctx.regs.r8 SqlBuf.zeroed).result <;> by_cases strlen : ctx.regs.rcx = 0 <;>
    simp only [strlen, if_true, if_false] <;> split <;> rfl

theorem capture_of_null {ctx : Ctx} (null : ctx.regs.r8 = 0) :
    capture ctx = ⟨ctx.ktime, ctx.regs.rsi, 0, 0, SqlBuf.zeroed⟩ := by
  simp [capture, fillScratch, null]

def WithSql.statement (e : WithSql) (ctx : Ctx) : PreparedStatement where
  attachmentPtr := e.attachmentPtr
  prepareNs := saturatingSub ctx.ktime e.tsNs
  sqlLen := e.sqlLen
  sqlTruncated := e.sqlTruncated
  sql := e.sql

/-- The event of an execution that began at `startNs`, joined to its statement; the
unknown form has zeroes throughout. -/
def statementEvent (ctx : Ctx) (startNs : UInt64) (p : Option PreparedStatement) :
    SlowQueryEvent where
  tsNs := ctx.ktime
  prepareNs := (p.map PreparedStatement.prepareNs).getD 0
  executeNs := saturatingSub ctx.ktime startNs
  attachmentId := (p.map PreparedStatement.attachmentPtr).getD 0
  tid := ctx.tid
  sqlLen := (p.map PreparedStatement.sqlLen).getD 0
  sqlTruncated := (p.map PreparedStatement.sqlTruncated).getD 0
  pad := 0
  sql := (p.map PreparedStatement.sql).getD SqlBuf.zeroed

def immediateEvent (ctx : Ctx) (e : WithSql) : SlowQueryEvent where
  tsNs := ctx.ktime
  prepareNs := 0
  executeNs := saturatingSub ctx.ktime e.tsNs
  attachmentId := e.attachmentPtr
  tid := ctx.tid
  sqlLen := e.sqlLen
  sqlTruncated := e.sqlTruncated
  pad := 0
  sql := e.sql

def submitted (ctx : Ctx) (ev : SlowQueryEvent) : List SlowQueryEvent :=
  if ctx.slot.isSome then [ev] else []

/-! ## Entries -/

theorem final_captureEntry (targetMap : SqlMap L)
    (kept : ∀ s scratch, targetMap.map { s with withSqlScratch := scratch } = targetMap.map s)
    (same : ∀ s, targetMap.store s (targetMap.map s) = s) (ctx : Ctx) (s : State L) :
    (tryCaptureSqlEntry ctx targetMap).final s =
      targetMap.store { s with withSqlScratch := s.withSqlScratch.set ctx.cpu 0 (capture ctx) }
        ((targetMap.map s).upsert ctx.tid (capture ctx)) := by
  cases room : (targetMap.map s).accepts ctx.tid with
  | false =>
      rw [HashMap.upsert_of_not_accepts room,
        ← kept s (s.withSqlScratch.set ctx.cpu 0 (capture ctx)), same]
      simp [Probe.final, tryCaptureSqlEntry, ProbeContext.arg, PerCpuArray.get,
        fillScratch_eq_capture, kept, HashMap.insert_of_not_accepts room]
  | true =>
      simp [Probe.final, tryCaptureSqlEntry, ProbeContext.arg, PerCpuArray.get,
        fillScratch_eq_capture, kept, HashMap.insert_of_accepts room]

theorem final_prepareEntry (ctx : Ctx) (s : State L) :
    (tryCaptureSqlEntry ctx PREPARE_IN_PROGRESS).final s =
      { s with
        withSqlScratch := s.withSqlScratch.set ctx.cpu 0 (capture ctx)
        prepareInProgress := s.prepareInProgress.upsert ctx.tid (capture ctx) } :=
  final_captureEntry PREPARE_IN_PROGRESS (fun _ _ => rfl) (fun _ => rfl) ctx s

theorem final_immediateEntry (ctx : Ctx) (s : State L) :
    (tryCaptureSqlEntry ctx IMMEDIATE_IN_PROGRESS).final s =
      { s with
        withSqlScratch := s.withSqlScratch.set ctx.cpu 0 (capture ctx)
        immediateInProgress := s.immediateInProgress.upsert ctx.tid (capture ctx) } :=
  final_captureEntry IMMEDIATE_IN_PROGRESS (fun _ _ => rfl) (fun _ => rfl) ctx s

theorem final_executeEntry (ctx : Ctx) (s : State L) :
    (tryExecuteEntry ctx).final s =
      if ctx.regs.rdx = 0 then s
      else { s with executeInProgress :=
        s.executeInProgress.upsert ctx.tid ⟨ctx.ktime, ctx.regs.rdx⟩ } := by
  by_cases null : ctx.regs.rdx = 0
  · simp [Probe.final, tryExecuteEntry, ProbeContext.arg, null]
  · cases room : s.executeInProgress.accepts ctx.tid with
    | false =>
        simp [Probe.final, tryExecuteEntry, ProbeContext.arg, null,
          HashMap.insert_of_not_accepts room, HashMap.upsert_of_not_accepts room]
    | true =>
        simp [Probe.final, tryExecuteEntry, ProbeContext.arg, null,
          HashMap.insert_of_accepts room]

theorem final_openCursorEntry (ctx : Ctx) (s : State L) :
    (tryOpenCursorEntry ctx).final s =
      { s with openCursorInProgress :=
        s.openCursorInProgress.upsert ctx.tid ⟨ctx.ktime, ctx.regs.rdi⟩ } := by
  cases room : s.openCursorInProgress.accepts ctx.tid with
  | false =>
      simp [Probe.final, tryOpenCursorEntry, ProbeContext.arg,
        HashMap.insert_of_not_accepts room, HashMap.upsert_of_not_accepts room]
  | true =>
      simp [Probe.final, tryOpenCursorEntry, ProbeContext.arg, HashMap.insert_of_accepts room]

theorem final_fetchNextEntry (ctx : Ctx) (s : State L) :
    (tryFetchNextEntry ctx).final s =
      if ctx.regs.rdi = 0 then s
      else { s with fetchInProgress := s.fetchInProgress.upsert ctx.tid ctx.regs.rdi } := by
  by_cases null : ctx.regs.rdi = 0
  · simp [Probe.final, tryFetchNextEntry, ProbeContext.arg, null]
  · cases room : s.fetchInProgress.accepts ctx.tid with
    | false =>
        simp [Probe.final, tryFetchNextEntry, ProbeContext.arg, null,
          HashMap.insert_of_not_accepts room, HashMap.upsert_of_not_accepts room]
    | true =>
        simp [Probe.final, tryFetchNextEntry, ProbeContext.arg, null,
          HashMap.insert_of_accepts room]

/-! ## Exits -/

theorem run_emitEvent (ctx : Ctx) (tsNs attachmentPtr prepareNs executeNs : UInt64)
    (sqlLen sqlTruncated : UInt32) (sqlSrc : Option SqlBuf) (s : State L) :
    (emitEvent ctx tsNs attachmentPtr prepareNs executeNs sqlLen sqlTruncated sqlSrc).run s =
      match ctx.slot with
      | none => .error (-1) s
      | some _ => .ok () { s with events := s.events ++
          [⟨tsNs, prepareNs, executeNs, attachmentPtr, ctx.tid, sqlLen, sqlTruncated, 0,
            sqlSrc.getD SqlBuf.zeroed⟩] } := by
  cases room : ctx.slot with
  | none => simp [emitEvent, room]
  | some slot => cases sqlSrc <;> simp [emitEvent, room]

theorem final_prepareExit (ctx : Ctx) (s : State L) :
    (tryPrepareExit ctx).final s =
      match s.prepareInProgress.get ctx.tid with
      | none => s
      | some e =>
          if ctx.regs.rax = 0 then
            { s with prepareInProgress := s.prepareInProgress.remove ctx.tid }
          else
            { s with
              preparedScratch := s.preparedScratch.set ctx.cpu 0 (e.statement ctx)
              prepareInProgress := s.prepareInProgress.remove ctx.tid
              preparedStatements :=
                s.preparedStatements.upsert ctx.regs.rax (e.statement ctx) ctx.evicted } := by
  cases entry : s.prepareInProgress.get ctx.tid with
  | none => simp [Probe.final, tryPrepareExit, entry]
  | some e =>
      by_cases null : ctx.regs.rax = 0
      · simp [Probe.final, tryPrepareExit, entry, ProbeContext.ret, null]
      · cases room : s.preparedStatements.accepts ctx.regs.rax ctx.evicted with
        | false =>
            simp [Probe.final, tryPrepareExit, entry, ProbeContext.ret, null, PerCpuArray.get,
              WithSql.statement, LruHashMap.insert_of_not_accepts room,
              LruHashMap.upsert_of_not_accepts room]
        | true =>
            simp [Probe.final, tryPrepareExit, entry, ProbeContext.ret, null, PerCpuArray.get,
              WithSql.statement, LruHashMap.insert_of_accepts room]

theorem final_executeExit (ctx : Ctx) (s : State L) :
    (tryExecuteExit ctx).final s =
      match s.executeInProgress.get ctx.tid with
      | none => s
      | some e =>
          { s with
            executeInProgress := s.executeInProgress.remove ctx.tid
            events := s.events ++ submitted ctx
              (statementEvent ctx e.tsNs (s.preparedStatements.get e.dsqlRequestPtr)) } := by
  cases entry : s.executeInProgress.get ctx.tid with
  | none => simp [Probe.final, tryExecuteExit, entry]
  | some e =>
      cases join : s.preparedStatements.get e.dsqlRequestPtr <;> cases room : ctx.slot <;>
        simp [Probe.final, tryExecuteExit, entry, join, run_emitEvent, room, submitted,
          statementEvent]

theorem final_immediateExit (ctx : Ctx) (s : State L) :
    (tryImmediateExit ctx).final s =
      match s.immediateInProgress.get ctx.tid with
      | none => s
      | some e =>
          { s with
            immediateInProgress := s.immediateInProgress.remove ctx.tid
            events := s.events ++ submitted ctx (immediateEvent ctx e) } := by
  cases entry : s.immediateInProgress.get ctx.tid with
  | none => simp [Probe.final, tryImmediateExit, entry]
  | some e =>
      cases room : ctx.slot <;>
        simp [Probe.final, tryImmediateExit, entry, Probe.run_attempt, run_emitEvent, room,
          submitted, immediateEvent]

theorem final_openCursorExit (ctx : Ctx) (s : State L) :
    (tryOpenCursorExit ctx).final s =
      match s.openCursorInProgress.get ctx.tid with
      | none => s
      | some e =>
          if ctx.regs.rax = 0 then
            { s with openCursorInProgress := s.openCursorInProgress.remove ctx.tid }
          else
            { s with
              openCursorInProgress := s.openCursorInProgress.remove ctx.tid
              openCursors := s.openCursors.upsert ctx.regs.rax e ctx.evicted } := by
  cases entry : s.openCursorInProgress.get ctx.tid with
  | none => simp [Probe.final, tryOpenCursorExit, entry]
  | some e =>
      by_cases null : ctx.regs.rax = 0
      · simp [Probe.final, tryOpenCursorExit, entry, ProbeContext.ret, null]
      · cases room : s.openCursors.accepts ctx.regs.rax ctx.evicted with
        | false =>
            simp [Probe.final, tryOpenCursorExit, entry, ProbeContext.ret, null,
              LruHashMap.insert_of_not_accepts room, LruHashMap.upsert_of_not_accepts room]
        | true =>
            simp [Probe.final, tryOpenCursorExit, entry, ProbeContext.ret, null,
              LruHashMap.insert_of_accepts room]

theorem final_fetchNextExit (ctx : Ctx) (s : State L) :
    (tryFetchNextExit ctx).final s =
      match s.fetchInProgress.get ctx.tid with
      | none => s
      | some cursor =>
          if ctx.regs.rax = 1 then
            match s.openCursors.get cursor with
            | none => { s with fetchInProgress := s.fetchInProgress.remove ctx.tid }
            | some oc =>
                { s with
                  fetchInProgress := s.fetchInProgress.remove ctx.tid
                  openCursors := s.openCursors.remove cursor
                  events := s.events ++ submitted ctx
                    (statementEvent ctx oc.openTsNs
                      (s.preparedStatements.get oc.dsqlRequestPtr)) }
          else { s with fetchInProgress := s.fetchInProgress.remove ctx.tid } := by
  cases entry : s.fetchInProgress.get ctx.tid with
  | none => simp [Probe.final, tryFetchNextExit, entry]
  | some cursor =>
      by_cases eof : ctx.regs.rax = 1
      · cases open' : s.openCursors.get cursor with
        | none => simp [Probe.final, tryFetchNextExit, entry, ProbeContext.ret, eof, open']
        | some oc =>
            cases join : s.preparedStatements.get oc.dsqlRequestPtr <;> cases room : ctx.slot <;>
              simp [Probe.final, tryFetchNextExit, entry, ProbeContext.ret, eof, open', join,
                run_emitEvent, room, submitted, statementEvent]
      · simp [Probe.final, tryFetchNextExit, entry, ProbeContext.ret, eof]

end Tragach.Slowquery
