import Tragach.Slowquery.Attribution
import Tragach.Slowquery.SmallIds

/-! # From the calls to the printed lines

The maps agree with the history, the ring hands out what the probes submit, the bytes of a
record are those of its event, and the loop is a filter that numbers the attachments. What
is printed is therefore a function of the calls alone, at whatever moments the loop runs.
-/

namespace Tragach.Slowquery

open Bpf Common Library

/-! ## The report of a history -/

def owedEvent (h : History) : Action → Option SlowQueryEvent
  | .exit .execute c =>
      (inProgress .execute c.tid h).map fun e =>
        Call.event ⟨e, c⟩ (filings.replay h e.regs.rdx)
  | .exit .executeImmediate c =>
      (inProgress .executeImmediate c.tid h).map fun e => Call.immediateEvent ⟨e, c⟩
  | .exit .fetchNext c =>
      if c.regs.rax = 1 then
        (inProgress .fetchNext c.tid h).bind fun e =>
          (openings.replay h e.regs.rdi).map fun o =>
            Call.event ⟨o, c⟩ (filings.replay h o.regs.rdi)
      else none
  | _ => none

/-- The events owed by a run, oldest first. -/
def owedEvents : History → List SlowQueryEvent
  | [] => []
  | a :: h => owedEvents h ++ (owedEvent h a).toList

/-- Those of them for which the ring had room. -/
def recordedEvents : History → List SlowQueryEvent
  | [] => []
  | a :: h => recordedEvents h ++ if a.reserved then (owedEvent h a).toList else []

/-- The events not below the threshold. -/
def shown (args : Args) (events : List SlowQueryEvent) : List SlowQueryEvent :=
  events.filter fun ev => !args.threshold.any fun t => ev.executeNs < t

/-- One line for every event shown, the attachments numbered as they first appear. -/
def report (args : Args) (events : List SlowQueryEvent) : List (JsonEvent ⊕ HumanEvent) :=
  let ptrs := ((shown args events).map SlowQueryEvent.attachmentId).filter (· ≠ 0)
  (shown args events).map fun ev => eventLine args ev (smallIdOf ptrs ev.attachmentId)

theorem Owed.eq {h : History} {a : Action} {owed : List SlowQueryEvent} (owes : Owed h a owed) :
    owed = (owedEvent h a).toList := by
  cases owes with
  | execute live order => simp [owedEvent, live]
  | executeImmediate live order => simp [owedEvent, live]
  | endOfFile eof live opened order => simp [owedEvent, eof, live, opened]
  | unopened eof live unopened => simp [owedEvent, eof, live, unopened]
  | row more => simp [owedEvent, more]
  | prepare => rfl
  | openCursor => rfl
  | entry => rfl
  | abandon => rfl

/-! ## The runs considered -/

variable {L : Limits} {byteSize : Nat} {args : Args}

def Firing.answered (x : Firing × Bool) : Action :=
  x.1.action.withSlot (if x.2 = true then some x.1.memory else none)

def probes (L : Limits) (byteSize : Nat) (args : Args) (h : List (Pipeline.Step Firing)) : History :=
  ((pipeline L byteSize args).answered h).map Firing.answered

structure Steady (L : Limits) (h : History) (a : Action) : Prop where
  timely : Timely h a
  alternating : Alternating h a
  nonNull : NonNull a
  inserts : InsertSucceeds ((tracer L).run h) a

instance (h : History) (a : Action) : Decidable (Steady L h a) :=
  decidable_of_iff (Timely h a ∧ Alternating h a ∧ NonNull a ∧
      InsertSucceeds ((tracer L).run h) a)
    ⟨fun ⟨t, b, n, i⟩ => ⟨t, b, n, i⟩, fun ⟨t, b, n, i⟩ => ⟨t, b, n, i⟩⟩

/-! ## The probes -/

/-- The maps agree with the history also when the ring is full at times. -/
theorem tracks_of_steady {h : History} (law : Lawful (Steady L) h) :
    Tracks h ((tracer L).run h) := by
  refine (tracer L).invariant (I := Tracks) ?_ ?_ h law
  · refine ⟨?_, ?_, fun r => LruHashMap.get_empty r, fun k => LruHashMap.get_empty k⟩
    · intro f t e live
      cases live
    · intro f t e live
      cases live
  · intro h a ok _ tracks
    refine ⟨inflight_step tracks ok.nonNull ok.inserts, recorded_step tracks ok.nonNull, ?_,
      cursor_step tracks ok.alternating ok.inserts⟩
    intro r
    rw [tracer_step, get_preparedStatements_fire, tracks.prepared r, Journal.replay_cons,
      preparedOp_eq_filings tracks ok.timely ok.alternating ok.inserts r]

theorem attempted_eq_owedEvent {h : History} {a : Action} (law : Lawful (Steady L) (a :: h)) :
    (attempted ((tracer L).run h) a).toList = (owedEvent h a).toList :=
  (attempted_owed (tracks_of_steady law.2) law.1.timely law.1.alternating).eq

/-- The probes submit what is owed and finds room. -/
theorem events_eq_recordedEvents {h : History} (law : Lawful (Steady L) h) :
    ((tracer L).run h).events = recordedEvents h := by
  induction h with
  | nil => rfl
  | cons a h ih =>
      rw [System.run_cons, tracer_step, events_fire, ih law.2, emitted, attempted_eq_owedEvent law,
        recordedEvents]

theorem producer_eq (h : List (Pipeline.Step Firing)) :
    ((pipeline L byteSize args).system.run h).producer =
      (tracer L).run (probes L byteSize args h) := by
  rw [Pipeline.producer_eq, probes, System.run_map]
  rfl

/-- Only exits take events to the ring. -/
theorem reserved_of_attempted {s : State L} {a : Action} {ev : SlowQueryEvent}
    (event : attempted s a = some ev) (memory : SlowQueryEvent) :
    (a.withSlot (some memory)).reserved = true := by
  cases a with
  | entry f c => cases event
  | exit f c => rfl
  | abandon f t => cases event

/-- As long as the ring refuses nothing, all that is owed is recorded. -/
theorem recordedEvents_of_room {h : List (Pipeline.Step Firing)}
    (law : Lawful (Steady L) (probes L byteSize args h))
    (room : (pipeline L byteSize args).refused h = 0) :
    recordedEvents (probes L byteSize args h) = owedEvents (probes L byteSize args h) := by
  induction h with
  | nil => rfl
  | cons e h ih =>
      cases e with
      | consume => exact ih law room
      | produce firing =>
          have before : (pipeline L byteSize args).refused h = 0 := by
            rw [Pipeline.refused] at room
            omega
          have own := attempted_eq_owedEvent law
          rw [← probes, ← producer_eq, Firing.answered, attempted_withSlot] at own
          have record : probes L byteSize args (.produce firing :: h) =
              Firing.answered (firing,
                (pipeline L byteSize args).granted ((pipeline L byteSize args).system.run h) firing) ::
              probes L byteSize args h := rfl
          rw [record, recordedEvents, owedEvents, ih law.2 before, Firing.answered, ← own]
          cases event : attempted ((pipeline L byteSize args).system.run h).producer
              firing.action with
          | none => simp
          | some ev =>
              have offered : ((pipeline L byteSize args).offer
                  ((pipeline L byteSize args).system.run h).producer firing).isSome = true := by
                show ((attempted _ firing.action).map SlowQueryEvent.toBytes).isSome = true
                rw [event]
                rfl
              rw [if_pos (Pipeline.granted_of_refused room offered), reserved_of_attempted event,
                if_pos rfl]

/-! ## The loop -/

def linesOf (s : (pipeline L byteSize args).State) : List (JsonEvent ⊕ HumanEvent) :=
  s.handled.filterMap fun x => x.2.line

theorem printedLines_toBytes (args : Args) (events : List SlowQueryEvent) :
    printedLines args (events.map SlowQueryEvent.toBytes) = report args events := by
  have own (ev : SlowQueryEvent) : keptEvent args ev.toBytes =
      if args.threshold.any (fun t => ev.executeNs < t) = true then none else some ev := by
    have enough : SlowQueryEvent.size ≤ ev.toBytes.length := ev.length_toBytes.ge
    rw [keptEvent, dif_pos enough, ev.read_toBytes enough]
  have all : kept args (events.map SlowQueryEvent.toBytes) = shown args events := by
    rw [kept, List.filterMap_map, shown, ← List.filterMap_eq_filter]
    refine List.filterMap_congr fun ev _ => ?_
    rw [Function.comp_apply, own, Option.guard]
    cases args.threshold.any (fun t => decide (ev.executeNs < t)) <;> rfl
  rw [(numbered args _).lines, pointers, all]
  rfl

/-! ## Calls and lines -/

/-- At every moment the lines printed are the report of the oldest events recorded, as many
as the loop has taken out; the others are in the ring. Once the ring is drained, if it
refused nothing, they are the report of all that the calls owe. -/
theorem lines_of_calls {h : List (Pipeline.Step Firing)}
    (law : Lawful (Steady L) (probes L byteSize args h)) :
    let s := (pipeline L byteSize args).system.run h
    let calls := probes L byteSize args h
    linesOf s = report args ((recordedEvents calls).take s.handled.length) ∧
      (recordedEvents calls).length = s.handled.length + s.queue.records.length ∧
      (s.queue.records = [] → (pipeline L byteSize args).refused h = 0 →
        linesOf s = report args (owedEvents calls)) := by
  intro s calls
  have submitted : (recordedEvents calls).map SlowQueryEvent.toBytes =
      s.handled.map Prod.fst ++ s.queue.records := by
    rw [← events_eq_recordedEvents law, ← producer_eq]
    exact Pipeline.submitted_eq (P := pipeline L byteSize args) h
  have taken : s.handled.map Prod.fst =
      ((recordedEvents calls).take s.handled.length).map SlowQueryEvent.toBytes := by
    rw [List.map_take, submitted, List.take_left' (List.length_map ..)]
  have loop : (runEventLoop args (s.handled.map Prod.fst)).2 = s.handled.map Prod.snd :=
    congrArg Prod.snd (Pipeline.consumed_eq (P := pipeline L byteSize args) h)
  have lines : linesOf s = report args ((recordedEvents calls).take s.handled.length) := by
    rw [← printedLines_toBytes, ← taken, printedLines, loop, List.filterMap_map]
    rfl
  have total : (recordedEvents calls).length = s.handled.length + s.queue.records.length := by
    simpa using congrArg List.length submitted
  refine ⟨lines, total, fun drained room => ?_⟩
  rw [drained, List.length_nil, Nat.add_zero] at total
  rw [lines, ← total, List.take_length]
  exact congrArg (report args) (recordedEvents_of_room law room)

def fired (a : Action) : Pipeline.Step Firing :=
  .produce ⟨a, ⟨1, 2, 3, 4, 5, 6, 7, 8, SqlBuf.zeroed⟩⟩

/-- Thread 7 prepares a statement, executes it in 10 and reads its cursor to the end; thread
8 executes one of another attachment in 4, which is below the threshold. The loop runs when
nothing is there yet, between the events and at the end. -/
def watchedRun : List (Pipeline.Step Firing) :=
  [.consume, .consume,
    fired (.exit .fetchNext (firing 7 90 { rax := 1 })),
    fired (.entry .fetchNext (firing 7 80 { rdi := 200 })),
    fired (.exit .executeImmediate (firing 8 74 {})),
    .consume,
    fired (.entry .executeImmediate (firing 8 70 { rsi := 6, r9 := 1 })),
    fired (.exit .openCursor (firing 7 70 { rax := 200 })),
    fired (.entry .openCursor (firing 7 60 { rdi := 100 })),
    fired (.exit .execute (firing 7 50 {})),
    .consume,
    fired (.entry .execute (firing 7 40 { rdx := 100 })),
    fired (.exit .prepare (firing 7 20 { rax := 100 })),
    fired (.entry .prepare (firing 7 10 { rsi := 5, r8 := 1 }))]

theorem watchedRun_lines :
    linesOf ((pipeline declared declaredByteSize ⟨some 5, true⟩).system.run watchedRun) =
      report ⟨some 5, true⟩
        (owedEvents (probes declared declaredByteSize ⟨some 5, true⟩ watchedRun)) :=
  (lines_of_calls (by decide +kernel)).2.2 (by decide +kernel) (by decide +kernel)

example :
    (linesOf ((pipeline declared declaredByteSize ⟨some 5, true⟩).system.run watchedRun)).map
        (fun line =>
          line.elim (fun json => (json.att, json.tid, json.executeUs)) fun _ => (none, 0, 0)) =
      [(some 1, 7, 0), (some 1, 7, 0)] := by
  decide +kernel

end Tragach.Slowquery
