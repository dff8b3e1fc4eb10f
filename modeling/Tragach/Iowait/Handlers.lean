import Tragach.Bpf.Probe

/-! # The iowait probe programs

Two scheduler tracepoints. A switch-out of a thread of the target process that is
going to sleep leaves its time and stack under the thread's pid; a wakeup takes
that record back and adds the time slept to the bucket of the pid and the stack.
-/

namespace Tragach.Iowait

open Bpf

structure StartInfo where
  tsNs : UInt64
  stackId : Int32
  pad : UInt32
  deriving DecidableEq

structure BucketKey where
  pid : UInt32
  stackId : Int32
  deriving DecidableEq

structure Limits where
  start : Capacity
  buckets : Capacity

def declared : Limits := ⟨some 16384, some 8192⟩

structure State (L : Limits) where
  targetTgid : ArrayMap UInt32 1
  start : HashMap UInt32 StartInfo L.start
  buckets : HashMap BucketKey UInt64 L.buckets

/-- One firing of a tracepoint: the record read by offset, and the stack the kernel
stored for it. -/
structure TracePointContext where
  pidTgid : UInt64
  ktime : UInt64
  readI32 : Nat → Except Int64 Int32
  readI64 : Nat → Except Int64 Int64
  stackid : Except Int64 Int64

namespace TracePointContext

def tgid (ctx : TracePointContext) : UInt32 := (ctx.pidTgid >>> 32).toUInt32

/-- `STACKS.get_stackid(ctx, 0).unwrap_or(-1) as i32`. -/
def stackId (ctx : TracePointContext) : Int32 :=
  match ctx.stackid with
  | .ok id => id.toInt32
  | .error _ => -1

/-- The `pid` or `prev_pid` field, at offset 24 in both records. -/
def pid (ctx : TracePointContext) : Except Int64 Int32 := (ctx.readI32 24).mapError fun _ => -1

def prevState (ctx : TracePointContext) : Except Int64 Int64 :=
  (ctx.readI64 32).mapError fun _ => -1

end TracePointContext

variable {L : Limits}

def trySchedSwitch (ctx : TracePointContext) : Probe (State L) Unit := do
  let prevPid ← Probe.try' ctx.pid
  let prevState ← Probe.try' ctx.prevState
  if prevState.toUInt64.toUInt8 = 0 then
    pure ()
  else
    let target ← Probe.okOr ((← get).targetTgid.get 0) (-1)
    if target = 0 ∨ target ≠ ctx.tgid then
      pure ()
    else
      let info : StartInfo := { tsNs := ctx.ktime, stackId := ctx.stackId, pad := 0 }
      let key := prevPid.toUInt32
      modify fun s => { s with start := s.start.upsert key info }

def trySchedWakeup (ctx : TracePointContext) : Probe (State L) Unit := do
  let wokenPid ← Probe.try' ctx.pid
  let key := wokenPid.toUInt32
  let info ← Probe.okOr ((← get).start.get key) (-1)
  modify fun s => { s with start := s.start.remove key }
  let now := ctx.ktime
  let delta := saturatingSub now info.tsNs
  let bkey : BucketKey := { pid := key, stackId := info.stackId }
  let newTotal := match (← get).buckets.get bkey with
    | some existing => existing + delta
    | none => delta
  modify fun s => { s with buckets := s.buckets.upsert bkey newTotal }

/-! ## What each handler does -/

/-- The sleep a switch-out begins, if the thread is going to sleep and is of the process
`target`. -/
def sleepOf (target : UInt32) (ctx : TracePointContext) : Option (UInt32 × StartInfo) :=
  match ctx.pid, ctx.prevState with
  | .ok prevPid, .ok prevState =>
      if prevState.toUInt64.toUInt8 = 0 ∨ target = 0 ∨ target ≠ ctx.tgid then none
      else some (prevPid.toUInt32, ⟨ctx.ktime, ctx.stackId, 0⟩)
  | _, _ => none

theorem sleepOf_tsNs {target p : UInt32} {c : TracePointContext} {info : StartInfo}
    (sleep : sleepOf target c = some (p, info)) : info.tsNs = c.ktime := by
  unfold sleepOf at sleep
  split at sleep
  next => split at sleep <;> cases sleep; rfl
  next => cases sleep

def wokenBy (ctx : TracePointContext) : Option UInt32 :=
  match ctx.pid with
  | .ok wokenPid => some wokenPid.toUInt32
  | .error _ => none

def State.target (s : State L) : UInt32 := s.targetTgid.slots 0

theorem get_targetTgid (s : State L) : s.targetTgid.get 0 = some s.target := rfl

theorem final_schedSwitch (ctx : TracePointContext) (s : State L) :
    (trySchedSwitch ctx).final s =
      match sleepOf s.target ctx with
      | some (key, info) => { s with start := s.start.upsert key info }
      | none => s := by
  cases pid : ctx.pid with
  | error e => simp [Probe.final, trySchedSwitch, sleepOf, pid]
  | ok prevPid =>
      cases state : ctx.prevState with
      | error e => simp [Probe.final, trySchedSwitch, sleepOf, pid, state]
      | ok prevState =>
          by_cases runnable : prevState.toUInt64.toUInt8 = 0
          · simp [Probe.final, trySchedSwitch, sleepOf, pid, state, runnable]
          · by_cases foreign : s.target = 0 ∨ s.target ≠ ctx.tgid
            · simp [Probe.final, trySchedSwitch, sleepOf, pid, state, runnable, get_targetTgid,
                foreign]
            · simp [Probe.final, trySchedSwitch, sleepOf, pid, state, runnable, get_targetTgid,
                foreign]

def StartInfo.slept (info : StartInfo) (now : UInt64) : UInt64 := saturatingSub now info.tsNs

def State.bucket (s : State L) (k : BucketKey) : UInt64 := (s.buckets.get k).getD 0

theorem final_schedWakeup (ctx : TracePointContext) (s : State L) :
    (trySchedWakeup ctx).final s =
      match wokenBy ctx with
      | some key =>
          match s.start.get key with
          | some info =>
              { s with
                start := s.start.remove key
                buckets := s.buckets.upsert ⟨key, info.stackId⟩
                  (s.bucket ⟨key, info.stackId⟩ + info.slept ctx.ktime) }
          | none => s
      | none => s := by
  cases pid : ctx.pid with
  | error e => simp [Probe.final, trySchedWakeup, wokenBy, pid]
  | ok wokenPid =>
      cases entry : s.start.get wokenPid.toUInt32 with
      | none => simp [Probe.final, trySchedWakeup, wokenBy, pid, entry]
      | some info =>
          cases total : s.buckets.get ⟨wokenPid.toUInt32, info.stackId⟩ <;>
            simp [Probe.final, trySchedWakeup, wokenBy, pid, entry, total, State.bucket,
              StartInfo.slept]

end Tragach.Iowait
