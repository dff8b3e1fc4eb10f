import Tragach.Bpf.Probe
import Tragach.Common.Event

/-! # The slowquery probe programs

Ten probes on five engine functions. Entry probes leave a record of the call in
progress under the thread id; exit probes take that record back. The exit of
`DSQL_prepare` files the statement under the request it returned, the exit of
`openCursor` files the cursor under the pointer it returned, and the exits of
`DSQL_execute`, `DSQL_execute_immediate` and of the `fetchNext` that reports end
of file emit an event.
-/

namespace Tragach.Slowquery

open Bpf Common

structure WithSql where
  tsNs : UInt64
  attachmentPtr : UInt64
  sqlLen : UInt32
  sqlTruncated : UInt32
  sql : SqlBuf
  deriving DecidableEq

structure PreparedStatement where
  attachmentPtr : UInt64
  prepareNs : UInt64
  sqlLen : UInt32
  sqlTruncated : UInt32
  sql : SqlBuf
  deriving DecidableEq

structure ExecuteEntry where
  tsNs : UInt64
  dsqlRequestPtr : UInt64
  deriving DecidableEq

structure OpenCursor where
  openTsNs : UInt64
  dsqlRequestPtr : UInt64
  deriving DecidableEq

structure Limits where
  hash : Capacity
  lru : Capacity

def declared : Limits := ⟨some 8192, some 1024⟩

/-- The maps of the program and the records submitted to its ring buffer, oldest
first. -/
structure State (L : Limits) where
  withSqlScratch : PerCpuArray WithSql 1
  preparedScratch : PerCpuArray PreparedStatement 1
  prepareInProgress : HashMap UInt32 WithSql L.hash
  executeInProgress : HashMap UInt32 ExecuteEntry L.hash
  immediateInProgress : HashMap UInt32 WithSql L.hash
  openCursorInProgress : HashMap UInt32 OpenCursor L.hash
  fetchInProgress : HashMap UInt32 UInt64 L.hash
  preparedStatements : LruHashMap UInt64 PreparedStatement L.lru
  openCursors : LruHashMap UInt64 OpenCursor L.lru
  events : List SlowQueryEvent

/-- What `bpf_probe_read_user_str_bytes` did: the destination buffer afterwards,
and the bytes read or the error. -/
structure UserStrRead where
  buf : SqlBuf
  result : Except Int64 (List UInt8)

/-- One firing of a slowquery probe, with the user memory its string helper sees. -/
structure Ctx extends ProbeContext SlowQueryEvent where
  readUserStr : UInt64 → SqlBuf → UserStrRead

variable {L : Limits}

/-- A reference to one of the two maps of captured statements. -/
structure SqlMap (L : Limits) where
  map : State L → HashMap UInt32 WithSql L.hash
  store : State L → HashMap UInt32 WithSql L.hash → State L

def PREPARE_IN_PROGRESS : SqlMap L :=
  ⟨State.prepareInProgress, fun s m => { s with prepareInProgress := m }⟩

def IMMEDIATE_IN_PROGRESS : SqlMap L :=
  ⟨State.immediateInProgress, fun s m => { s with immediateInProgress := m }⟩

/-- The scratch record after the entry probe has written it. -/
def fillScratch (ctx : Ctx) (attachmentPtr length sqlPtr : UInt64) (scratch : WithSql) :
    WithSql :=
  let scratch := { scratch with
    tsNs := ctx.ktime
    attachmentPtr := attachmentPtr
    sqlLen := length.toUInt32
    sqlTruncated := 0
    sql := SqlBuf.zeroed }
  if sqlPtr ≠ 0 then
    let read := ctx.readUserStr sqlPtr scratch.sql
    let scratch := { scratch with sql := read.buf }
    let copied := match read.result with
      | .ok bytes => bytes
      | .error _ => []
    let copiedLen := UInt32.ofNat copied.length
    -- length 0 asks for strlen: what was read stands for it
    let scratch := if length = 0 then { scratch with sqlLen := copiedLen } else scratch
    if copiedLen ≥ UInt32.ofNat SQL_MAX - 1 ∧ length > copiedLen.toUInt64 then
      { scratch with sqlTruncated := 1 }
    else scratch
  else { scratch with sqlLen := 0 }

def tryCaptureSqlEntry (ctx : Ctx) (targetMap : SqlMap L) : Probe (State L) Unit := do
  let attachmentPtr ← Probe.okOr (ctx.arg 1) (-1)
  let length ← Probe.okOr (ctx.arg 3) (-1)
  let sqlPtr ← Probe.okOr (ctx.arg 4) (-1)
  let scratch ← Probe.okOr ((← get).withSqlScratch.get ctx.cpu 0) (-1)
  let scratch := fillScratch ctx attachmentPtr length sqlPtr scratch
  modify fun s => { s with withSqlScratch := s.withSqlScratch.set ctx.cpu 0 scratch }
  let key := ctx.tid
  let map ← Probe.try' ((targetMap.map (← get)).insert key scratch)
  modify fun s => targetMap.store s map

/-- Every field of the reserved slot is written. -/
def emitEvent (ctx : Ctx) (tsNs attachmentPtr prepareNs executeNs : UInt64)
    (sqlLen sqlTruncated : UInt32) (sqlSrc : Option SqlBuf) : Probe (State L) Unit := do
  let slot ← Probe.okOr ctx.slot (-1)
  let slot := { slot with
    tsNs := tsNs
    prepareNs := prepareNs
    executeNs := executeNs
    attachmentId := attachmentPtr
    tid := ctx.tid
    sqlLen := sqlLen
    sqlTruncated := sqlTruncated
    pad := 0 }
  let slot := match sqlSrc with
    | some src => { slot with sql := src }
    | none => { slot with sql := SqlBuf.zeroed }
  modify fun s => { s with events := s.events ++ [slot] }

def tryPrepareExit (ctx : Ctx) : Probe (State L) Unit := do
  let key := ctx.tid
  let entry ← Probe.okOr ((← get).prepareInProgress.get key) (-1)
  let dsqlRequestPtr := ctx.ret.getD 0
  let now := ctx.ktime
  let prepareNs := saturatingSub now entry.tsNs
  if dsqlRequestPtr = 0 then
    modify fun s => { s with prepareInProgress := s.prepareInProgress.remove key }
  else
    let scratch ← Probe.okOr ((← get).preparedScratch.get ctx.cpu 0) (-1)
    let scratch := { scratch with
      attachmentPtr := entry.attachmentPtr
      prepareNs := prepareNs
      sqlLen := entry.sqlLen
      sqlTruncated := entry.sqlTruncated
      sql := entry.sql }
    modify fun s => { s with preparedScratch := s.preparedScratch.set ctx.cpu 0 scratch }
    modify fun s => { s with prepareInProgress := s.prepareInProgress.remove key }
    let map ← Probe.try' ((← get).preparedStatements.insert dsqlRequestPtr scratch ctx.evicted)
    modify fun s => { s with preparedStatements := map }

def tryExecuteEntry (ctx : Ctx) : Probe (State L) Unit := do
  let dsqlRequestPtr ← Probe.okOr (ctx.arg 2) (-1)
  if dsqlRequestPtr = 0 then
    pure ()
  else
    let entry : ExecuteEntry := { tsNs := ctx.ktime, dsqlRequestPtr := dsqlRequestPtr }
    let map ← Probe.try' ((← get).executeInProgress.insert ctx.tid entry)
    modify fun s => { s with executeInProgress := map }

def tryExecuteExit (ctx : Ctx) : Probe (State L) Unit := do
  let key := ctx.tid
  let entry ← Probe.okOr ((← get).executeInProgress.get key) (-1)
  modify fun s => { s with executeInProgress := s.executeInProgress.remove key }
  let now := ctx.ktime
  let executeNs := saturatingSub now entry.tsNs
  match (← get).preparedStatements.get entry.dsqlRequestPtr with
  | some p =>
      emitEvent ctx now p.attachmentPtr p.prepareNs executeNs p.sqlLen p.sqlTruncated (some p.sql)
  | none => emitEvent ctx now 0 0 executeNs 0 0 none

def tryImmediateExit (ctx : Ctx) : Probe (State L) Unit := do
  let key := ctx.tid
  let entry ← Probe.okOr ((← get).immediateInProgress.get key) (-1)
  let now := ctx.ktime
  let executeNs := saturatingSub now entry.tsNs
  -- the entry is removed whether or not the event found room in the ring
  let r ← Probe.attempt (emitEvent ctx now entry.attachmentPtr 0 executeNs entry.sqlLen
    entry.sqlTruncated (some entry.sql))
  modify fun s => { s with immediateInProgress := s.immediateInProgress.remove key }
  Probe.try' r

def tryOpenCursorEntry (ctx : Ctx) : Probe (State L) Unit := do
  let dsqlRequestPtr ← Probe.okOr (ctx.arg 0) (-1)
  let entry : OpenCursor := { openTsNs := ctx.ktime, dsqlRequestPtr := dsqlRequestPtr }
  let map ← Probe.try' ((← get).openCursorInProgress.insert ctx.tid entry)
  modify fun s => { s with openCursorInProgress := map }

def tryOpenCursorExit (ctx : Ctx) : Probe (State L) Unit := do
  let key := ctx.tid
  let entry ← Probe.okOr ((← get).openCursorInProgress.get key) (-1)
  modify fun s => { s with openCursorInProgress := s.openCursorInProgress.remove key }
  let cursorPtr := ctx.ret.getD 0
  if cursorPtr = 0 then
    pure ()
  else
    let map ← Probe.try' ((← get).openCursors.insert cursorPtr entry ctx.evicted)
    modify fun s => { s with openCursors := map }

def tryFetchNextEntry (ctx : Ctx) : Probe (State L) Unit := do
  let cursorPtr ← Probe.okOr (ctx.arg 0) (-1)
  if cursorPtr = 0 then
    pure ()
  else
    let map ← Probe.try' ((← get).fetchInProgress.insert ctx.tid cursorPtr)
    modify fun s => { s with fetchInProgress := map }

def tryFetchNextExit (ctx : Ctx) : Probe (State L) Unit := do
  let key := ctx.tid
  let cursorPtr ← Probe.okOr ((← get).fetchInProgress.get key) (-1)
  modify fun s => { s with fetchInProgress := s.fetchInProgress.remove key }
  -- 1 is end of file, 0 a fetched row
  let ret := ctx.ret.getD 0
  if ret ≠ 1 then
    pure ()
  else
    let oc ← Probe.okOr ((← get).openCursors.get cursorPtr) (-1)
    modify fun s => { s with openCursors := s.openCursors.remove cursorPtr }
    let now := ctx.ktime
    let executeNs := saturatingSub now oc.openTsNs
    match (← get).preparedStatements.get oc.dsqlRequestPtr with
    | some p =>
        emitEvent ctx now p.attachmentPtr p.prepareNs executeNs p.sqlLen p.sqlTruncated
          (some p.sql)
    | none => emitEvent ctx now 0 0 executeNs 0 0 none

/-! ## The ten programs -/

inductive Fn where
  | prepare
  | execute
  | executeImmediate
  | openCursor
  | fetchNext
  deriving DecidableEq

/-- `dsql_*_entry`. -/
def entryProbe : Fn → Ctx → Probe (State L) Unit
  | .prepare, ctx => tryCaptureSqlEntry ctx PREPARE_IN_PROGRESS
  | .execute, ctx => tryExecuteEntry ctx
  | .executeImmediate, ctx => tryCaptureSqlEntry ctx IMMEDIATE_IN_PROGRESS
  | .openCursor, ctx => tryOpenCursorEntry ctx
  | .fetchNext, ctx => tryFetchNextEntry ctx

/-- `dsql_*_exit`. -/
def exitProbe : Fn → Ctx → Probe (State L) Unit
  | .prepare, ctx => tryPrepareExit ctx
  | .execute, ctx => tryExecuteExit ctx
  | .executeImmediate, ctx => tryImmediateExit ctx
  | .openCursor, ctx => tryOpenCursorExit ctx
  | .fetchNext, ctx => tryFetchNextExit ctx

end Tragach.Slowquery
