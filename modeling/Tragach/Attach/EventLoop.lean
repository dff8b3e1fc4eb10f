import Tragach.Attach.Handlers
import Tragach.Bpf.RingBuf
import Tragach.Common.Wire

/-! # From the probes to the printed line

As with the slow queries, the loop takes the events out of the ring one at a time. The
minimum duration applies to closed attachments only.
-/

namespace Tragach.Attach

open Bpf Common Library

variable {cap : Capacity}

/-! ## The loop -/

def decodeEvent (bytes : List UInt8) : Except Unit AttachEvent :=
  if AttachEvent.size ≤ bytes.length then .ok (.read bytes) else .error ()

/-- The line `write_human` prints, less its time; an opened attachment has no duration. -/
structure HumanEvent where
  attachmentPtr : UInt64
  duration : Option UInt64
  pid : UInt32
  tid : UInt32
  kindStr : String

def writeHuman (ev : AttachEvent) : HumanEvent where
  attachmentPtr := ev.attachmentPtr
  duration := if ev.kind = AttachEventKind.opened.toU32 then none else some ev.durationNs
  pid := ev.pid
  tid := ev.tid
  kindStr := if ev.kind = AttachEventKind.opened.toU32 then "opened" else "closed"

/-- The object `write_json` prints, less its time. -/
structure JsonEvent where
  event : String
  attPtr : UInt64
  durationUs : Option UInt64
  pid : UInt32
  tid : UInt32

def writeJson (ev : AttachEvent) : JsonEvent where
  event := if ev.kind = AttachEventKind.opened.toU32 then "opened" else "closed"
  attPtr := ev.attachmentPtr
  durationUs := if ev.kind = AttachEventKind.opened.toU32 then none else some (ev.durationNs / 1000)
  pid := ev.pid
  tid := ev.tid

structure Args where
  minDuration : Option UInt64
  json : Bool

/-- The body of the loop over `ring.next()`; its state is the variable `dropped`. -/
def handleRecord (args : Args) (dropped : UInt64) (bytes : List UInt8) :
    UInt64 × Outcome (JsonEvent ⊕ HumanEvent) :=
  match decodeEvent bytes with
  | .ok ev =>
      if ev.kind = AttachEventKind.closed.toU32 ∧ (args.minDuration.any fun t => ev.durationNs < t)
      then (dropped, .suppressed)
      else (dropped, .printed (if args.json then .inl (writeJson ev) else .inr (writeHuman ev)))
  | .error () => (dropped + 1, .dropped)

theorem handleRecord_of_size {args : Args} {dropped : UInt64} {bytes : List UInt8}
    (full : AttachEvent.size ≤ bytes.length) :
    (handleRecord args dropped bytes).1 = dropped ∧
      (handleRecord args dropped bytes).2.isDropped = false := by
  rw [handleRecord, decodeEvent, if_pos full]
  dsimp only
  split <;> exact ⟨rfl, rfl⟩

/-! ## Probes, ring and loop -/

/-- The event a firing tries to reserve a slot for. -/
def attempted (s : State cap) : Action → Option AttachEvent
  | .ctor c =>
      if c.regs.rdi ≠ 0 ∧ s.live.accepts c.regs.rdi c.evicted then some (openedEvent c) else none
  | .release c =>
      if c.regs.rsi = 0 then none else (s.live.get c.regs.rsi).map (closedEvent c)

/-- A firing and what the slot last held that it is given if there is room. -/
structure Firing where
  action : Action
  memory : AttachEvent

def Action.withSlot (slot : Option AttachEvent) : Action → Action
  | .ctor c => .ctor { c with slot := slot }
  | .release c => .release { c with slot := slot }

theorem emitted_withSlot (s : State cap) (a : Action) (slot : Option AttachEvent) :
    emitted s (a.withSlot slot) = if slot.isSome = true then attempted s a else none := by
  cases a with
  | ctor c =>
      simp only [emitted, attempted, Action.withSlot, submit]
      split
      · rfl
      · split <;> rfl
  | release c =>
      simp only [emitted, attempted, Action.withSlot, submit]
      by_cases null : c.regs.rsi = 0
      · simp only [null, if_true, ite_self]
      · simp only [null, if_false]
        cases held : s.live.get c.regs.rsi with
        | none => simp only [Option.map_none, ite_self]
        | some live => rfl

/-- The probes on a map of any size, a ring of any size and the loop with any options. -/
def pipeline (cap : Capacity) (byteSize : Nat) (args : Args) :
    Pipeline (State cap) Firing (List UInt8) UInt64 (JsonEvent ⊕ HumanEvent) where
  weight := ringSpace
  limit := ringLimit byteSize
  producer := (tracer cap).init
  offer s firing := (attempted s firing.action).map AttachEvent.toBytes
  fire s firing granted :=
    fire s (firing.action.withSlot (if granted = true then some firing.memory else none))
  submitted s := (s.events.map AttachEvent.toBytes).reverse
  submits := by
    intro s firing granted
    rw [events_fire, emitted_withSlot, List.map_append, List.reverse_append]
    cases granted with
    | false => rfl
    | true => cases attempted s firing.action <;> rfl
  fresh := rfl
  consumer := 0
  handle := handleRecord args

theorem offer_size {byteSize : Nat} {args : Args} (s : State cap) (firing : Firing)
    (bytes : List UInt8) (offered : (pipeline cap byteSize args).offer s firing = some bytes) :
    AttachEvent.size ≤ bytes.length := by
  obtain ⟨ev, -, same⟩ := Option.map_eq_some_iff.mp offered
  rw [← same, ev.length_toBytes]

/-- The loop never drops a record, for every record has the size of an event. -/
theorem never_dropped (cap : Capacity) (byteSize : Nat) (args : Args)
    (h : List (Pipeline.Step Firing)) :
    ((pipeline cap byteSize args).system.run h).consumer = 0 ∧
      (pipeline cap byteSize args).count Outcome.isDropped
        ((pipeline cap byteSize args).system.run h) = 0 :=
  Pipeline.none_dropped (P := pipeline cap byteSize args) id offer_size
    (fun _ _ => handleRecord_of_size) h

def reported (cap : Capacity) (byteSize : Nat) (args : Args) (h : List (Pipeline.Step Firing)) :
    Nat :=
  let P := pipeline cap byteSize args
  P.count Outcome.isPrinted (P.system.run h) + P.count Outcome.isSuppressed (P.system.run h) +
    (P.system.run h).consumer.toNat

theorem reported_eq (cap : Capacity) (byteSize : Nat) (args : Args)
    (h : List (Pipeline.Step Firing)) :
    reported cap byteSize args h + (pipeline cap byteSize args).refused h +
        ((pipeline cap byteSize args).system.run h).queue.records.length =
      (pipeline cap byteSize args).attempts h := by
  obtain ⟨shown, none⟩ := never_dropped cap byteSize args h
  have accounted := Pipeline.accounted (P := pipeline cap byteSize args) h
  rw [none] at accounted
  simp only [reported, shown]
  exact accounted

end Tragach.Attach
