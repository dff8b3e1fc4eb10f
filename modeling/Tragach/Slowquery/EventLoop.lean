import Tragach.Bpf.RingBuf
import Tragach.Slowquery.Actions
import Tragach.Slowquery.Output

/-! # From the probes to the printed line

The probes submit their events to the ring buffer, `run_event_loop` takes them out one at
a time, leaves out what is below the threshold and prints the rest. A handler has the
whole of its run to itself; whether it finds room in the ring depends on how far the loop
has come.
-/

namespace Tragach.Slowquery

open Bpf Common Library

variable {L : Limits}

/-! ## The loop -/

structure Args where
  threshold : Option UInt64
  json : Bool

structure LoopState where
  idTable : List (UInt64 × UInt32)
  nextId : UInt32
  dropped : UInt64

/-- `id_table.entry(attachment_id).or_insert_with(..)`. -/
def LoopState.smallId (st : LoopState) (attachmentId : UInt64) : LoopState × UInt32 :=
  match st.idTable.lookup attachmentId with
  | some id => (st, id)
  | none =>
      let nextId := st.nextId + 1
      ({ st with idTable := (attachmentId, nextId) :: st.idTable, nextId := nextId }, nextId)

def writeEvent (args : Args) (ev : SlowQueryEvent) (smallId : Option UInt32) :
    Outcome (JsonEvent ⊕ HumanEvent) :=
  .printed (if args.json then .inl (writeJson ev smallId) else .inr (writeHuman ev smallId))

def handleRecord (args : Args) (st : LoopState) (bytes : List UInt8) :
    LoopState × Outcome (JsonEvent ⊕ HumanEvent) :=
  match decodeEvent bytes with
  | .ok ev =>
      if args.threshold.any fun t => ev.executeNs < t then (st, .suppressed)
      else if ev.attachmentId = 0 then (st, writeEvent args ev none)
      else
        let (st, id) := st.smallId ev.attachmentId
        (st, writeEvent args ev (some id))
  | .error () => ({ st with dropped := st.dropped + 1 }, .dropped)

theorem handleRecord_of_size {args : Args} {st : LoopState} {bytes : List UInt8}
    (full : SlowQueryEvent.size ≤ bytes.length) :
    (handleRecord args st bytes).1.dropped = st.dropped ∧
      (handleRecord args st bytes).2.isDropped = false := by
  have kept : ∀ id, (st.smallId id).1.dropped = st.dropped := by
    intro id
    unfold LoopState.smallId
    split <;> rfl
  rw [handleRecord, decodeEvent, dif_pos full]
  dsimp only
  split
  · exact ⟨rfl, rfl⟩
  · split
    · exact ⟨rfl, rfl⟩
    · exact ⟨kept _, rfl⟩

/-! ## Probes, ring and loop -/

structure Firing where
  action : Action
  memory : SlowQueryEvent

def Action.withSlot (slot : Option SlowQueryEvent) : Action → Action
  | .entry f c => .entry f { c with slot := slot }
  | .exit f c => .exit f { c with slot := slot }
  | .abandon f t => .abandon f t

theorem attempted_withSlot (s : State L) (a : Action) (slot : Option SlowQueryEvent) :
    attempted s (a.withSlot slot) = attempted s a := by
  cases a with
  | entry f c => rfl
  | exit f c => cases f <;> rfl
  | abandon f t => rfl

theorem emitted_withSlot (s : State L) (a : Action) (slot : Option SlowQueryEvent) :
    emitted s (a.withSlot slot) = if slot.isSome = true then (attempted s a).toList else [] := by
  rw [emitted, attempted_withSlot]
  cases a with
  | entry f c => split <;> split <;> rfl
  | exit f c => rfl
  | abandon f t => split <;> split <;> rfl

def pipeline (L : Limits) (byteSize : Nat) (args : Args) :
    Pipeline (State L) Firing (List UInt8) LoopState (JsonEvent ⊕ HumanEvent) where
  weight := ringSpace
  limit := ringLimit byteSize
  producer := State.empty L
  offer s firing := (attempted s firing.action).map SlowQueryEvent.toBytes
  fire s firing granted :=
    fire s (firing.action.withSlot (if granted = true then some firing.memory else none))
  submitted s := s.events.map SlowQueryEvent.toBytes
  submits := by
    intro s firing granted
    rw [events_fire, emitted_withSlot, List.map_append]
    cases granted with
    | false => rfl
    | true => cases attempted s firing.action <;> rfl
  fresh := rfl
  consumer := ⟨[], 0, 0⟩
  handle := handleRecord args

theorem producer_produce {byteSize : Nat} {args : Args} (h : List (Pipeline.Step Firing))
    (firing : Firing) :
    ∃ slot, ((pipeline L byteSize args).system.run (.produce firing :: h)).producer =
      fire ((pipeline L byteSize args).system.run h).producer (firing.action.withSlot slot) :=
  ⟨_, rfl⟩

theorem offer_size {byteSize : Nat} {args : Args} (s : State L) (firing : Firing)
    (bytes : List UInt8) (offered : (pipeline L byteSize args).offer s firing = some bytes) :
    SlowQueryEvent.size ≤ bytes.length := by
  obtain ⟨ev, -, same⟩ := Option.map_eq_some_iff.mp offered
  rw [← same, ev.length_toBytes]

/-- The loop never drops a record, for every record has the size of an event. -/
theorem never_dropped (L : Limits) (byteSize : Nat) (args : Args)
    (h : List (Pipeline.Step Firing)) :
    ((pipeline L byteSize args).system.run h).consumer.dropped = 0 ∧
      (pipeline L byteSize args).count Outcome.isDropped
        ((pipeline L byteSize args).system.run h) = 0 :=
  Pipeline.none_dropped (P := pipeline L byteSize args) LoopState.dropped offer_size
    (fun _ _ => handleRecord_of_size) h

def reported (L : Limits) (byteSize : Nat) (args : Args) (h : List (Pipeline.Step Firing)) : Nat :=
  let P := pipeline L byteSize args
  P.count Outcome.isPrinted (P.system.run h) + P.count Outcome.isSuppressed (P.system.run h) +
    (P.system.run h).consumer.dropped.toNat

theorem reported_eq (L : Limits) (byteSize : Nat) (args : Args)
    (h : List (Pipeline.Step Firing)) :
    reported L byteSize args h + (pipeline L byteSize args).refused h +
        ((pipeline L byteSize args).system.run h).queue.records.length =
      (pipeline L byteSize args).attempts h := by
  obtain ⟨shown, none⟩ := never_dropped L byteSize args h
  have accounted := Pipeline.accounted (P := pipeline L byteSize args) h
  rw [none] at accounted
  simp only [reported, shown]
  exact accounted

end Tragach.Slowquery
