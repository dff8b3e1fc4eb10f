import Tragach.Attach.EventLoop
import Tragach.Slowquery.EventLoop

/-! # What becomes of the events

Both tools show at shutdown how many records they dropped. What the ring has no room for
is not among them: the handler that finds it full gives its event up, and nobody counts it.
-/

namespace Tragach

open Bpf Common Library

/-- Every event that a handler took to its reservation is printed, suppressed, counted as
dropped, still in the ring, or was refused by it and is counted nowhere. -/
theorem every_event_accounted :
    (∀ (L : Slowquery.Limits) (byteSize : Nat) (args : Slowquery.Args)
        (h : List (Pipeline.Step Slowquery.Firing)),
      Slowquery.reported L byteSize args h + (Slowquery.pipeline L byteSize args).refused h +
          ((Slowquery.pipeline L byteSize args).system.run h).queue.records.length =
        (Slowquery.pipeline L byteSize args).attempts h) ∧
      ∀ (cap : Capacity) (byteSize : Nat) (args : Attach.Args)
        (h : List (Pipeline.Step Attach.Firing)),
      Attach.reported cap byteSize args h + (Attach.pipeline cap byteSize args).refused h +
          ((Attach.pipeline cap byteSize args).system.run h).queue.records.length =
        (Attach.pipeline cap byteSize args).attempts h :=
  ⟨Slowquery.reported_eq, Attach.reported_eq⟩

/-- Once the ring is drained, all events are reported exactly when the ring refused none. -/
theorem all_reported_iff :
    (∀ (L : Slowquery.Limits) (byteSize : Nat) (args : Slowquery.Args)
        (h : List (Pipeline.Step Slowquery.Firing)),
      ((Slowquery.pipeline L byteSize args).system.run h).queue.records = [] →
        (Slowquery.reported L byteSize args h = (Slowquery.pipeline L byteSize args).attempts h ↔
          (Slowquery.pipeline L byteSize args).refused h = 0)) ∧
      ∀ (cap : Capacity) (byteSize : Nat) (args : Attach.Args)
        (h : List (Pipeline.Step Attach.Firing)),
      ((Attach.pipeline cap byteSize args).system.run h).queue.records = [] →
        (Attach.reported cap byteSize args h = (Attach.pipeline cap byteSize args).attempts h ↔
          (Attach.pipeline cap byteSize args).refused h = 0) := by
  constructor
  · intro L byteSize args h drained
    have accounted := Slowquery.reported_eq L byteSize args h
    rw [drained, List.length_nil] at accounted
    omega
  · intro cap byteSize args h drained
    have accounted := Attach.reported_eq cap byteSize args h
    rw [drained, List.length_nil] at accounted
    omega

/-- The ring hands out what was submitted to it, in order and once. -/
theorem events_in_order :
    (∀ (L : Slowquery.Limits) (byteSize : Nat) (args : Slowquery.Args)
        (h : List (Pipeline.Step Slowquery.Firing)),
      ((Slowquery.pipeline L byteSize args).system.run h).producer.events.map
          SlowQueryEvent.toBytes =
        ((Slowquery.pipeline L byteSize args).system.run h).handled.map Prod.fst ++
          ((Slowquery.pipeline L byteSize args).system.run h).queue.records) ∧
      ∀ (cap : Capacity) (byteSize : Nat) (args : Attach.Args)
        (h : List (Pipeline.Step Attach.Firing)),
      (((Attach.pipeline cap byteSize args).system.run h).producer.events.map
          AttachEvent.toBytes).reverse =
        ((Attach.pipeline cap byteSize args).system.run h).handled.map Prod.fst ++
          ((Attach.pipeline cap byteSize args).system.run h).queue.records :=
  ⟨fun L byteSize args h => Pipeline.submitted_eq (P := Slowquery.pipeline L byteSize args) h,
    fun cap byteSize args h => Pipeline.submitted_eq (P := Attach.pipeline cap byteSize args) h⟩

/-! ## A ring that fills up -/

section

open Slowquery

/-- The slow queries on maps and a ring as declared, every event printed. -/
def asDeclared : Pipeline (Slowquery.State Slowquery.declared) Slowquery.Firing (List UInt8)
    LoopState (Slowquery.JsonEvent ⊕ Slowquery.HumanEvent) :=
  Slowquery.pipeline Slowquery.declared declaredByteSize ⟨none, false⟩

/-- The ring has room for 461 events. -/
theorem pending_le (h : List (Pipeline.Step Slowquery.Firing)) :
    (asDeclared.system.run h).queue.records.length ≤ 461 := by
  have full := Pipeline.queued (P := asDeclared) Slowquery.offer_size h
  have bound := BoundedQueue.length_mul_le (w := 568) (asDeclared.system.run h).queue (by
    intro r mem
    have size := full r mem
    show 568 ≤ (r.length + RINGBUF_HDR_SZ + 7) / 8 * 8
    simp only [SlowQueryEvent.size, RINGBUF_HDR_SZ] at size ⊢
    omega)
  have limit : asDeclared.limit = 262143 := rfl
  omega

def blank : SlowQueryEvent := ⟨0, 0, 0, 0, 0, 0, 0, 0, SqlBuf.zeroed⟩

def entered : Slowquery.Firing := ⟨.entry .execute (Slowquery.firing 7 10 { rdx := 100 }), blank⟩

def returned : Slowquery.Firing := ⟨.exit .execute (Slowquery.firing 7 20 {}), blank⟩

def executions : Nat → List (Pipeline.Step Slowquery.Firing)
  | 0 => []
  | n + 1 => .produce returned :: .produce entered :: executions n

theorem execution_record {s : Slowquery.State Slowquery.declared} (c c' : Slowquery.Ctx)
    (idle : s.inflight .execute = .empty) (request : c.regs.rdx ≠ 0) (thread : c'.tid = c.tid) :
    ((fire s (.entry .execute c)).executeInProgress.get c.tid).isSome = true ∧
      (fire (fire s (.entry .execute c)) (.exit .execute c')).inflight .execute = .empty := by
  have room : (s.inflight .execute).accepts c.tid = true := by
    rw [idle]
    exact HashMap.accepts_of_card_lt (by decide)
  have record : Fn.record .execute c = some ⟨c.ktime, c.regs.rdx⟩ := if_neg request
  have left : (fire s (.entry .execute c)).inflight .execute =
      (s.inflight .execute).upsert c.tid ⟨c.ktime, c.regs.rdx⟩ := by
    rw [inflight_entry_self, record]
  constructor
  · show (((fire s (.entry .execute c)).inflight .execute).get c.tid).isSome = true
    rw [left, HashMap.get_upsert, HashMap.insertOp, if_pos ⟨room, rfl⟩]
    rfl
  · apply HashMap.ext_get
    intro t
    rw [inflight_exit_self, HashMap.get_remove, left, HashMap.get_upsert, thread, idle,
      HashMap.get_empty, HashMap.insertOp]
    by_cases here : t = c.tid
    · rw [if_pos here]
    · rw [if_neg here, if_neg fun both => here both.2, CellOp.apply_keep]

theorem attempted_execute {s : Slowquery.State Slowquery.declared} {c : Slowquery.Ctx}
    (entered : (s.executeInProgress.get c.tid).isSome = true) :
    (Slowquery.attempted s (.exit .execute c)).isSome = true := by
  obtain ⟨e, held⟩ := Option.isSome_iff_exists.mp entered
  simp only [Slowquery.attempted, held, Option.isSome_some]

theorem producer_asDeclared (h : List (Pipeline.Step Slowquery.Firing))
    (firing : Slowquery.Firing) :
    ∃ slot, (asDeclared.system.run (.produce firing :: h)).producer =
      fire (asDeclared.system.run h).producer (firing.action.withSlot slot) :=
  producer_produce h firing

theorem executions_attempts (n : Nat) :
    (asDeclared.system.run (executions n)).producer.inflight .execute = .empty ∧
      asDeclared.attempts (executions n) = n ∧
      (asDeclared.system.run (executions n)).handled = [] := by
  induction n with
  | zero => exact ⟨rfl, rfl, rfl⟩
  | succ n ih =>
      rcases ih with ⟨idle, attempts, handled⟩
      obtain ⟨slot, entry⟩ := producer_asDeclared (executions n) entered
      obtain ⟨slot', exit⟩ := producer_asDeclared (.produce entered :: executions n) returned
      have record := execution_record
        { Slowquery.firing 7 10 { rdx := 100 } with slot := slot }
        { Slowquery.firing 7 20 {} with slot := slot' } idle (show (100 : UInt64) ≠ 0 by decide) rfl
      have offer : ∀ s, asDeclared.offer s returned =
          (Slowquery.attempted s (.exit .execute (Slowquery.firing 7 20 {}))).map
            SlowQueryEvent.toBytes := fun _ => rfl
      have reached : (asDeclared.offer
          (asDeclared.system.run (.produce entered :: executions n)).producer
          returned).isSome = true := by
        rw [offer, Option.isSome_map, entry]
        exact attempted_execute record.1
      refine ⟨?_, ?_, handled⟩
      · rw [executions, exit, entry]
        exact record.2
      · rw [executions, Pipeline.attempts, Pipeline.attempts, attempts, if_pos reached]
        rfl

/-- When more than 461 statements are executed while the loop does not run, the ring
refuses the others. -/
theorem executions_refused (n : Nat) : n ≤ asDeclared.refused (executions n) + 461 := by
  obtain ⟨-, attempts, handled⟩ := executions_attempts n
  have accounted := Pipeline.attempts_eq (P := asDeclared) (executions n)
  have pending := pending_le (executions n)
  rw [attempts, handled, List.length_nil] at accounted
  omega

def drained (n : Nat) : List (Pipeline.Step Slowquery.Firing) :=
  List.replicate n .consume ++ executions n

/-- Of more than 461 executions some are neither printed nor suppressed nor counted as
dropped once the ring is drained. -/
theorem executions_lost {n : Nat} (many : 461 < n) :
    (asDeclared.system.run (drained n)).queue.records = [] ∧ asDeclared.attempts (drained n) = n ∧
      reported Slowquery.declared declaredByteSize ⟨none, false⟩ (drained n) < n := by
  obtain ⟨records, attempts, refused⟩ := Pipeline.drain (P := asDeclared) (executions n) n
  have pending := pending_le (executions n)
  have lost := executions_refused n
  have empty : (asDeclared.system.run (drained n)).queue.records = [] := by
    rw [drained, records, List.drop_eq_nil_iff]
    omega
  have all : asDeclared.attempts (drained n) = n := attempts.trans (executions_attempts n).2.1
  have accounted : reported Slowquery.declared declaredByteSize ⟨none, false⟩ (drained n) +
      asDeclared.refused (drained n) + (asDeclared.system.run (drained n)).queue.records.length =
      asDeclared.attempts (drained n) :=
    reported_eq _ _ _ (drained n)
  have same : asDeclared.refused (drained n) = asDeclared.refused (executions n) := refused
  rw [empty, all, same, List.length_nil] at accounted
  exact ⟨empty, all, by omega⟩

theorem one_execution_lost :
    (asDeclared.system.run (drained 462)).queue.records = [] ∧
      reported Slowquery.declared declaredByteSize ⟨none, false⟩ (drained 462) ≠
        asDeclared.attempts (drained 462) := by
  obtain ⟨empty, all, lost⟩ := executions_lost (show 461 < 462 by decide)
  exact ⟨empty, by rw [all]; exact lost.ne⟩

end

end Tragach
