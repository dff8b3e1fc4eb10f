import Tragach.Bpf.Probe
import Tragach.Common.Event
import Tragach.Library.Runs

/-! # The attach probe programs

Two entry probes. The constructor of an attachment leaves a record of its time and
thread under the attachment pointer and emits an `Opened` event; the release takes
the record back and emits a `Closed` event with the time between.
-/

namespace Tragach.Attach

open Bpf Common Library

structure LiveAttachment where
  openTsNs : UInt64
  openPid : UInt32
  openTid : UInt32
  deriving DecidableEq

def declared : Capacity := some 1024

/-- The map of the program and the records submitted to its ring buffer, newest first. -/
structure State (cap : Capacity) where
  live : LruHashMap UInt64 LiveAttachment cap
  events : List AttachEvent

abbrev Ctx := ProbeContext AttachEvent

variable {cap : Capacity}

def pidTid (ctx : Ctx) : UInt32 × UInt32 :=
  let pid := (ctx.pidTgid >>> 32).toUInt32
  let tid := (ctx.pidTgid &&& 0xffffffff).toUInt32
  (pid, tid)

def tryAttachCtorEntry (ctx : Ctx) : Probe (State cap) Unit := do
  let attachmentPtr ← Probe.okOr (ctx.arg 0) (-1)
  if attachmentPtr = 0 then
    pure ()
  else
    let now := ctx.ktime
    let (pid, tid) := pidTid ctx
    let live : LiveAttachment := { openTsNs := now, openPid := pid, openTid := tid }
    let map ← Probe.try' ((← get).live.insert attachmentPtr live ctx.evicted)
    modify fun s => { s with live := map }
    match ctx.slot with
    | some slot =>
        let slot := { slot with
          tsNs := now
          durationNs := 0
          attachmentPtr := attachmentPtr
          pid := pid
          tid := tid
          kind := AttachEventKind.opened.toU32
          pad := 0 }
        modify fun s => { s with events := slot :: s.events }
    | none => pure ()

def tryReleaseAttachmentEntry (ctx : Ctx) : Probe (State cap) Unit := do
  let attachmentPtr ← Probe.okOr (ctx.arg 1) (-1)
  if attachmentPtr = 0 then
    pure ()
  else
    let live ← Probe.okOr ((← get).live.get attachmentPtr) (-1)
    modify fun s => { s with live := s.live.remove attachmentPtr }
    let now := ctx.ktime
    let durationNs := saturatingSub now live.openTsNs
    let (pid, tid) := pidTid ctx
    match ctx.slot with
    | some slot =>
        -- pid and tid are those of the releasing thread
        let slot := { slot with
          tsNs := now
          durationNs := durationNs
          attachmentPtr := attachmentPtr
          pid := pid
          tid := tid
          kind := AttachEventKind.closed.toU32
          pad := 0 }
        modify fun s => { s with events := slot :: s.events }
    | none => pure ()

inductive Action where
  | ctor (ctx : Ctx)
  | release (ctx : Ctx)

/-- The firings of a run, newest first. -/
abbrev History := List Action

def fire (s : State cap) : Action → State cap
  | .ctor c => (tryAttachCtorEntry c).final s
  | .release c => (tryReleaseAttachmentEntry c).final s

def tracer (cap : Capacity) : System (State cap) Action := ⟨⟨.empty, []⟩, fire⟩

@[simp] theorem tracer_step (s : State cap) (a : Action) : (tracer cap).step s a = fire s a := rfl

/-! ## What each handler does -/

def liveOf (c : Ctx) : LiveAttachment := ⟨c.ktime, (pidTid c).1, (pidTid c).2⟩

def openedEvent (c : Ctx) : AttachEvent where
  tsNs := c.ktime
  durationNs := 0
  attachmentPtr := c.regs.rdi
  pid := (pidTid c).1
  tid := (pidTid c).2
  kind := AttachEventKind.opened.toU32
  pad := 0

def closedEvent (c : Ctx) (live : LiveAttachment) : AttachEvent where
  tsNs := c.ktime
  durationNs := saturatingSub c.ktime live.openTsNs
  attachmentPtr := c.regs.rsi
  pid := (pidTid c).1
  tid := (pidTid c).2
  kind := AttachEventKind.closed.toU32
  pad := 0

/-- An event goes into the ring if a slot was reserved for it. -/
def submit (c : Ctx) (e : AttachEvent) : Option AttachEvent :=
  if c.slot.isSome then some e else none

def liveOp (s : State cap) (a : Action) (p : UInt64) : CellOp LiveAttachment :=
  match a with
  | .ctor c =>
      if c.regs.rdi = 0 then .keep
      else LruHashMap.insertOp (s.live.accepts c.regs.rdi c.evicted) c.evicted c.regs.rdi (liveOf c) p
  | .release c => if c.regs.rsi ≠ 0 ∧ p = c.regs.rsi then .drop else .keep

def emitted (s : State cap) (a : Action) : Option AttachEvent :=
  match a with
  | .ctor c =>
      if c.regs.rdi ≠ 0 ∧ s.live.accepts c.regs.rdi c.evicted then submit c (openedEvent c)
      else none
  | .release c =>
      if c.regs.rsi = 0 then none
      else
        match s.live.get c.regs.rsi with
        | some live => submit c (closedEvent c live)
        | none => none

theorem final_ctor (c : Ctx) (s : State cap) :
    (tryAttachCtorEntry c).final s =
      if c.regs.rdi ≠ 0 ∧ s.live.accepts c.regs.rdi c.evicted then
        { live := s.live.upsert c.regs.rdi (liveOf c) c.evicted
          events := (submit c (openedEvent c)).toList ++ s.events }
      else s := by
  by_cases null : c.regs.rdi = 0
  · simp [Probe.final, tryAttachCtorEntry, ProbeContext.arg, null]
  · cases room : s.live.accepts c.regs.rdi c.evicted with
    | false =>
        simp [Probe.final, tryAttachCtorEntry, ProbeContext.arg, null,
          LruHashMap.insert_of_not_accepts room]
    | true =>
        cases slot : c.slot <;>
          simp [Probe.final, tryAttachCtorEntry, ProbeContext.arg, null,
            LruHashMap.insert_of_accepts room, slot, submit, openedEvent, liveOf]

theorem final_release (c : Ctx) (s : State cap) :
    (tryReleaseAttachmentEntry c).final s =
      if c.regs.rsi = 0 then s
      else
        match s.live.get c.regs.rsi with
        | some live =>
            { live := s.live.remove c.regs.rsi
              events := (submit c (closedEvent c live)).toList ++ s.events }
        | none => s := by
  by_cases null : c.regs.rsi = 0
  · simp [Probe.final, tryReleaseAttachmentEntry, ProbeContext.arg, null]
  · cases entry : s.live.get c.regs.rsi with
    | none => simp [Probe.final, tryReleaseAttachmentEntry, ProbeContext.arg, null, entry]
    | some live =>
        cases slot : c.slot <;>
          simp [Probe.final, tryReleaseAttachmentEntry, ProbeContext.arg, null, entry, slot, submit,
            closedEvent]

theorem get_live_fire (s : State cap) (a : Action) (p : UInt64) :
    (fire s a).live.get p = (liveOp s a p).apply (s.live.get p) := by
  cases a with
  | ctor c =>
      rw [fire, final_ctor, liveOp]
      by_cases null : c.regs.rdi = 0
      · simp [null]
      · cases room : s.live.accepts c.regs.rdi c.evicted with
        | false => simp [null, LruHashMap.insertOp]
        | true => simp [null, LruHashMap.get_upsert, room]
  | release c =>
      rw [fire, final_release, liveOp]
      by_cases null : c.regs.rsi = 0
      · simp [null]
      · cases entry : s.live.get c.regs.rsi with
        | none => by_cases same : p = c.regs.rsi <;> simp [null, same, entry]
        | some live => by_cases same : p = c.regs.rsi <;> simp [null, same, LruHashMap.get_remove]

theorem events_fire (s : State cap) (a : Action) :
    (fire s a).events = (emitted s a).toList ++ s.events := by
  cases a with
  | ctor c =>
      rw [fire, final_ctor, emitted]
      split <;> rfl
  | release c =>
      rw [fire, final_release, emitted]
      split
      · rfl
      · cases s.live.get c.regs.rsi <;> rfl

end Tragach.Attach
