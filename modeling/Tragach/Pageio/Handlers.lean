import Tragach.Bpf.Probe

/-! # The pageio probe programs

A uprobe pair around `CCH_fetch_page` times the page fetches of the target process,
and two block-layer tracepoints time its requests. An entry leaves its time under the
thread, an issue under the device and the sector; the exit and the completion take
that record back and add the difference to the counters of their CPU.
-/

namespace Tragach.Pageio

open Bpf

structure PageIoCounters where
  engineCount : UInt64 := 0
  engineTotalNs : UInt64 := 0
  engineMaxNs : UInt64 := 0
  blockCount : UInt64 := 0
  blockTotalBytes : UInt64 := 0
  blockTotalWaitNs : UInt64 := 0
  blockMaxWaitNs : UInt64 := 0
  deriving DecidableEq

structure FetchInfo where
  startTs : UInt64
  pageNum : UInt64
  deriving DecidableEq

structure BlockKey where
  dev : UInt32
  pad : UInt32
  sector : UInt64
  deriving DecidableEq

structure Limits where
  fetches : Capacity
  requests : Capacity

def declared : Limits := ⟨some 8192, some 16384⟩

structure State (L : Limits) where
  targetTgid : ArrayMap UInt32 1
  fetchInProgress : HashMap UInt32 FetchInfo L.fetches
  blockInflight : HashMap BlockKey UInt64 L.requests
  counters : PerCpuArray PageIoCounters 1

/-- One firing of a probe on `CCH_fetch_page`; no ring buffer, hence no slot. -/
structure FetchContext extends ProbeContext Empty where
  readUser : UInt64 → Except Int64 UInt64

/-- One firing of a block tracepoint: the record is read by offset. -/
structure TracePointContext where
  cpu : Nat
  pidTgid : UInt64
  ktime : UInt64
  readU32 : Nat → Except Int64 UInt32
  readU64 : Nat → Except Int64 UInt64

namespace TracePointContext

def tgid (ctx : TracePointContext) : UInt32 := (ctx.pidTgid >>> 32).toUInt32

def dev (ctx : TracePointContext) : Except Int64 UInt32 := (ctx.readU32 8).mapError fun _ => -1

def sector (ctx : TracePointContext) : Except Int64 UInt64 := (ctx.readU64 16).mapError fun _ => -1

def bytes (ctx : TracePointContext) : Except Int64 UInt32 := (ctx.readU32 28).mapError fun _ => -1

end TracePointContext

variable {L : Limits}

def tryCchEntry (ctx : FetchContext) : Probe (State L) Unit := do
  let tgid := ctx.tgid
  let target ← Probe.okOr ((← get).targetTgid.get 0) (-1)
  if target = 0 ∨ target ≠ tgid then
    pure ()
  else
    let winPtr ← Probe.okOr (ctx.arg 1) (-1)
    let pageNum := if winPtr ≠ 0 then (ctx.readUser winPtr).toOption.getD 0 else 0
    let info : FetchInfo := { startTs := ctx.ktime, pageNum := pageNum }
    let fetches ← Probe.try' ((← get).fetchInProgress.insert ctx.tid info)
    modify fun s => { s with fetchInProgress := fetches }

def tryCchExit (ctx : FetchContext) : Probe (State L) Unit := do
  let tid := ctx.tid
  let info ← Probe.okOr ((← get).fetchInProgress.get tid) (-1)
  modify fun s => { s with fetchInProgress := s.fetchInProgress.remove tid }
  let now := ctx.ktime
  let durationNs := saturatingSub now info.startTs
  let counters ← Probe.okOr ((← get).counters.get ctx.cpu 0) (-1)
  let counters := { counters with
    engineCount := counters.engineCount + 1
    engineTotalNs := counters.engineTotalNs + durationNs
    engineMaxNs := if durationNs > counters.engineMaxNs then durationNs else counters.engineMaxNs }
  modify fun s => { s with counters := s.counters.set ctx.cpu 0 counters }

def tryBlockIssue (ctx : TracePointContext) : Probe (State L) Unit := do
  let tgid := ctx.tgid
  let target ← Probe.okOr ((← get).targetTgid.get 0) (-1)
  if target = 0 ∨ target ≠ tgid then
    pure ()
  else
    let dev ← Probe.try' ctx.dev
    let sector ← Probe.try' ctx.sector
    let bytes ← Probe.try' ctx.bytes
    let now := ctx.ktime
    let key : BlockKey := { dev := dev, pad := 0, sector := sector }
    modify fun s => { s with blockInflight := s.blockInflight.upsert key now }
    let counters ← Probe.okOr ((← get).counters.get ctx.cpu 0) (-1)
    let counters := { counters with
      blockCount := counters.blockCount + 1
      blockTotalBytes := counters.blockTotalBytes + bytes.toUInt64 }
    modify fun s => { s with counters := s.counters.set ctx.cpu 0 counters }

def tryBlockComplete (ctx : TracePointContext) : Probe (State L) Unit := do
  -- no filter by process: completions run in whatever task the interrupt found
  let dev ← Probe.try' ctx.dev
  let sector ← Probe.try' ctx.sector
  let key : BlockKey := { dev := dev, pad := 0, sector := sector }
  let issueTs ← Probe.okOr ((← get).blockInflight.get key) (-1)
  modify fun s => { s with blockInflight := s.blockInflight.remove key }
  let now := ctx.ktime
  let waitNs := saturatingSub now issueTs
  let counters ← Probe.okOr ((← get).counters.get ctx.cpu 0) (-1)
  let counters := { counters with
    blockTotalWaitNs := counters.blockTotalWaitNs + waitNs
    blockMaxWaitNs := if waitNs > counters.blockMaxWaitNs then waitNs else counters.blockMaxWaitNs }
  modify fun s => { s with counters := s.counters.set ctx.cpu 0 counters }

/-! ## What each handler does -/

def State.target (s : State L) : UInt32 := s.targetTgid.slots ⟨0, Nat.one_pos⟩

theorem get_targetTgid (s : State L) : s.targetTgid.get 0 = some s.target := rfl

def State.slot (s : State L) (cpu : Nat) : PageIoCounters :=
  s.counters.slots cpu ⟨0, Nat.one_pos⟩

theorem get_counters (s : State L) (cpu : Nat) : s.counters.get cpu 0 = some (s.slot cpu) := rfl

/-- The page number at the window pointer, 0 when it cannot be read. -/
def FetchContext.pageNum (ctx : FetchContext) : UInt64 :=
  if ctx.regs.rsi ≠ 0 then (ctx.readUser ctx.regs.rsi).toOption.getD 0 else 0

/-- The record an entry leaves for its thread, if it is of the process `target`. -/
def fetchOf (target : UInt32) (ctx : FetchContext) : Option FetchInfo :=
  if target = 0 ∨ target ≠ ctx.tgid then none else some ⟨ctx.ktime, ctx.pageNum⟩

def TracePointContext.key (ctx : TracePointContext) : Option BlockKey :=
  match ctx.dev, ctx.sector with
  | .ok dev, .ok sector => some ⟨dev, 0, sector⟩
  | _, _ => none

/-- The request an issue begins and its size, if it is of the process `target`. -/
def issueOf (target : UInt32) (ctx : TracePointContext) : Option (BlockKey × UInt64) :=
  if target = 0 ∨ target ≠ ctx.tgid then none
  else
    match ctx.key, ctx.bytes with
    | some key, .ok bytes => some (key, bytes.toUInt64)
    | _, _ => none

def PageIoCounters.fetched (c : PageIoCounters) (durationNs : UInt64) : PageIoCounters :=
  { c with
    engineCount := c.engineCount + 1
    engineTotalNs := c.engineTotalNs + durationNs
    engineMaxNs := if durationNs > c.engineMaxNs then durationNs else c.engineMaxNs }

def PageIoCounters.issued (c : PageIoCounters) (bytes : UInt64) : PageIoCounters :=
  { c with
    blockCount := c.blockCount + 1
    blockTotalBytes := c.blockTotalBytes + bytes }

def PageIoCounters.joined (c : PageIoCounters) (waitNs : UInt64) : PageIoCounters :=
  { c with
    blockTotalWaitNs := c.blockTotalWaitNs + waitNs
    blockMaxWaitNs := if waitNs > c.blockMaxWaitNs then waitNs else c.blockMaxWaitNs }

theorem final_cchEntry (ctx : FetchContext) (s : State L) :
    (tryCchEntry ctx).final s =
      match fetchOf s.target ctx with
      | some info => { s with fetchInProgress := s.fetchInProgress.upsert ctx.tid info }
      | none => s := by
  by_cases foreign : s.target = 0 ∨ s.target ≠ ctx.tgid
  · simp [Probe.final, tryCchEntry, fetchOf, get_targetTgid, foreign]
  · have page : ctx.arg 1 = some ctx.regs.rsi := rfl
    cases room : s.fetchInProgress.accepts ctx.tid with
    | true =>
        simp [Probe.final, tryCchEntry, fetchOf, get_targetTgid, foreign, page,
          FetchContext.pageNum, HashMap.insert_of_accepts room]
    | false =>
        simp [Probe.final, tryCchEntry, fetchOf, get_targetTgid, foreign, page,
          HashMap.insert_of_not_accepts room, HashMap.upsert_of_not_accepts room]

theorem final_cchExit (ctx : FetchContext) (s : State L) :
    (tryCchExit ctx).final s =
      match s.fetchInProgress.get ctx.tid with
      | some info =>
          { s with
            fetchInProgress := s.fetchInProgress.remove ctx.tid
            counters := s.counters.set ctx.cpu 0
              ((s.slot ctx.cpu).fetched (saturatingSub ctx.ktime info.startTs)) }
      | none => s := by
  cases entry : s.fetchInProgress.get ctx.tid <;>
    simp [Probe.final, tryCchExit, entry, get_counters, State.slot, PageIoCounters.fetched]

theorem final_blockIssue (ctx : TracePointContext) (s : State L) :
    (tryBlockIssue ctx).final s =
      match issueOf s.target ctx with
      | some (key, bytes) =>
          { s with
            blockInflight := s.blockInflight.upsert key ctx.ktime
            counters := s.counters.set ctx.cpu 0 ((s.slot ctx.cpu).issued bytes) }
      | none => s := by
  by_cases foreign : s.target = 0 ∨ s.target ≠ ctx.tgid
  · simp [Probe.final, tryBlockIssue, issueOf, get_targetTgid, foreign]
  · cases dev : ctx.dev <;> cases sector : ctx.sector <;> cases bytes : ctx.bytes <;>
      simp [Probe.final, tryBlockIssue, issueOf, get_targetTgid, foreign, TracePointContext.key,
        dev, sector, bytes, get_counters, State.slot, PageIoCounters.issued]

theorem final_blockComplete (ctx : TracePointContext) (s : State L) :
    (tryBlockComplete ctx).final s =
      match ctx.key with
      | some key =>
          match s.blockInflight.get key with
          | some issueTs =>
              { s with
                blockInflight := s.blockInflight.remove key
                counters := s.counters.set ctx.cpu 0
                  ((s.slot ctx.cpu).joined (saturatingSub ctx.ktime issueTs)) }
          | none => s
      | none => s := by
  cases dev : ctx.dev with
  | error e => simp [Probe.final, tryBlockComplete, TracePointContext.key, dev]
  | ok dev' =>
      cases sector : ctx.sector with
      | error e => simp [Probe.final, tryBlockComplete, TracePointContext.key, dev, sector]
      | ok sector' =>
          cases entry : s.blockInflight.get ⟨dev', 0, sector'⟩ <;>
            simp [Probe.final, tryBlockComplete, TracePointContext.key, dev, sector, entry,
              get_counters, State.slot, PageIoCounters.joined]

end Tragach.Pageio
