import Tragach.Attach.EventLoop
import Tragach.Attach.Lifecycle

/-! # The printed lifecycle

The lines for an attachment stay paired from the probes to the screen: leaving out short
attachments takes away lines of closed attachments only, so the line of an opened one is
the latest about its pointer when the line of its end is printed.
-/

namespace Tragach.Attach

open Bpf Common Library

variable {cap : Capacity} {byteSize : Nat} {args : Args}

/-! ## Lines -/

def eventLine (args : Args) (ev : AttachEvent) : JsonEvent ⊕ HumanEvent :=
  if args.json then .inl (writeJson ev) else .inr (writeHuman ev)

def shown (args : Args) (ev : AttachEvent) : Bool :=
  !(ev.kind = AttachEventKind.closed.toU32 ∧ (args.minDuration.any fun t => ev.durationNs < t))

def lineMark : JsonEvent ⊕ HumanEvent → Option (Mark UInt64)
  | .inl json => some (if json.event = "opened" then .opens json.attPtr else .closes json.attPtr)
  | .inr human =>
      some (if human.kindStr = "opened" then .opens human.attachmentPtr
        else .closes human.attachmentPtr)

def lineDuration : JsonEvent ⊕ HumanEvent → Option UInt64
  | .inl json => json.durationUs
  | .inr human => human.duration

/-- A lifetime in the unit of the format asked for. -/
def inUnit (args : Args) (ns : UInt64) : UInt64 := if args.json then ns / 1000 else ns

def linesOf (s : (pipeline cap byteSize args).State) : List (JsonEvent ⊕ HumanEvent) :=
  s.handled.filterMap fun x => x.2.line

/-- The lines printed so far, each with the event whose bytes it was printed of. -/
def printed (s : (pipeline cap byteSize args).State) :
    List (AttachEvent × (JsonEvent ⊕ HumanEvent)) :=
  s.handled.filterMap fun x => x.2.line.map (AttachEvent.read x.1, ·)

/-- The second line shows the time from the event of the first to its own. -/
def ShowsTime (args : Args) (opened closed : AttachEvent × (JsonEvent ⊕ HumanEvent)) : Prop :=
  opened.1.tsNs ≤ closed.1.tsNs ∧
    lineDuration closed.2 = some (inUnit args (closed.1.tsNs - opened.1.tsNs))

theorem linesOf_eq_map (s : (pipeline cap byteSize args).State) :
    linesOf s = (printed s).map Prod.snd := by
  rw [linesOf, printed, List.map_filterMap]
  simp

theorem lineMark_eventLine {ev : AttachEvent}
    (kind : ev.kind = AttachEventKind.opened.toU32 ∨ ev.kind = AttachEventKind.closed.toU32) :
    lineMark (eventLine args ev) = mark ev := by
  have closedWord : ("closed" : String) ≠ "opened" := by decide
  unfold eventLine mark
  rcases kind with opened | closed
  · split <;> simp [lineMark, writeJson, writeHuman, opened]
  · split <;> simp [lineMark, writeJson, writeHuman, closed, toU32_closed_ne_opened, closedWord]

theorem lineDuration_of_closes {ev : AttachEvent} {p : UInt64}
    (closes : mark ev = some (.closes p)) :
    lineDuration (eventLine args ev) = some (inUnit args ev.durationNs) := by
  have other : ev.kind ≠ AttachEventKind.opened.toU32 := by
    rw [(mark_closes_iff.mp closes).2]
    exact toU32_closed_ne_opened
  unfold eventLine inUnit
  split <;> simp [lineDuration, writeJson, writeHuman, other]

theorem handleRecord_toBytes (dropped : UInt64) (ev : AttachEvent) :
    handleRecord args dropped ev.toBytes =
      (dropped, if shown args ev then .printed (eventLine args ev) else .suppressed) := by
  have enough : AttachEvent.size ≤ ev.toBytes.length := ev.length_toBytes.ge
  rw [handleRecord, decodeEvent, if_pos enough, ev.read_toBytes]
  dsimp only
  by_cases brief : ev.kind = AttachEventKind.closed.toU32 ∧
      (args.minDuration.any fun t => ev.durationNs < t) = true
  · have hidden : shown args ev = false := by
      rw [shown, decide_eq_true brief]
      rfl
    rw [if_pos brief, hidden]
    rfl
  · have visible : shown args ev = true := by
      rw [shown, decide_eq_false brief]
      rfl
    rw [if_neg brief, visible]
    rfl

theorem consumed_toBytes (events : List AttachEvent) :
    ((pipeline cap byteSize args).consumed (events.map AttachEvent.toBytes)).2 =
      events.map fun ev => if shown args ev then .printed (eventLine args ev) else .suppressed := by
  have all : (pipeline cap byteSize args).consumed (events.map AttachEvent.toBytes) =
      (0, events.map fun ev =>
        if shown args ev then .printed (eventLine args ev) else .suppressed) := by
    induction events using List.reverseRecOn with
    | nil => rfl
    | append_singleton events ev ih =>
        have last : (pipeline cap byteSize args).consumed
            ((events ++ [ev]).map AttachEvent.toBytes) =
              let before := (pipeline cap byteSize args).consumed (events.map AttachEvent.toBytes)
              ((handleRecord args before.1 ev.toBytes).1,
                before.2 ++ [(handleRecord args before.1 ev.toBytes).2]) := by
          rw [Pipeline.consumed, List.map_append, List.foldl_append]
          rfl
        rw [last, ih, List.map_append]
        simp only [handleRecord_toBytes, List.map_cons, List.map_nil]
  rw [all]

/-! ## The runs considered -/

def Firing.answered (x : Firing × Bool) : Action :=
  x.1.action.withSlot (if x.2 = true then some x.1.memory else none)

def probes (cap : Capacity) (byteSize : Nat) (args : Args) (h : List (Pipeline.Step Firing)) :
    History :=
  ((pipeline cap byteSize args).answered h).map Firing.answered

/-- The clock does not go back. -/
def Timely (h : History) (a : Action) : Prop := ∀ b ∈ h, b.ctx.ktime ≤ a.ctx.ktime

instance (h : History) (a : Action) : Decidable (Timely h a) := List.decidableBAll _ h

def Granted (cap : Capacity) (h : History) (a : Action) : Prop :=
  (attempted ((tracer cap).run h) a).isSome = true → a.ctx.slot.isSome = true

theorem producer_eq (h : List (Pipeline.Step Firing)) :
    ((pipeline cap byteSize args).system.run h).producer =
      (tracer cap).run (probes cap byteSize args h) := by
  rw [Pipeline.producer_eq, probes, System.run_map]
  rfl

theorem attempted_withSlot (s : State cap) (a : Action) (slot : Option AttachEvent) :
    attempted s (a.withSlot slot) = attempted s a := by
  cases a <;> rfl

theorem granted_of_refused {h : List (Pipeline.Step Firing)}
    (room : (pipeline cap byteSize args).refused h = 0) :
    Lawful (Granted cap) (probes cap byteSize args h) := by
  induction h with
  | nil => trivial
  | cons e h ih =>
      cases e with
      | consume => exact ih room
      | produce firing =>
          have before : (pipeline cap byteSize args).refused h = 0 := by
            rw [Pipeline.refused] at room
            omega
          refine ⟨fun event => ?_, ih before⟩
          rw [← probes, ← producer_eq, Firing.answered, attempted_withSlot] at event
          have offered : ((pipeline cap byteSize args).offer
              ((pipeline cap byteSize args).system.run h).producer firing).isSome = true := by
            show ((attempted _ firing.action).map AttachEvent.toBytes).isSome = true
            rw [Option.isSome_map, event]
          have granted := Pipeline.granted_of_refused room offered
          rw [Firing.answered, granted, if_pos rfl]
          cases firing.action <;> rfl

/-! ## Pairs -/

theorem record_of_granted {h : History} {a : Action} (timely : Timely h a)
    (granted : Lawful (Granted cap) h) {p : UInt64} {o : Ctx}
    (held : (records cap).replay h p = some o) :
    o.slot.isSome = true ∧ o.ktime ≤ a.ctx.ktime := by
  obtain ⟨later, b, earlier, rfl, put, -⟩ := Journal.replay_eq_some_iff.mp held
  obtain ⟨rfl, rfl, null, -⟩ := records_put put
  have tried : (attempted ((tracer cap).run earlier) (.ctor o)).isSome = true := by
    cases room : ((tracer cap).run earlier).live.accepts o.regs.rdi o.evicted with
    | false => simp [records, null, LruHashMap.insertOp, room] at put
    | true => simp [attempted, null, room]
  exact ⟨granted.of_append.1 tried, timely (.ctor o) (by simp)⟩

/-- When no event is refused the events are paired, also if inserts fail. -/
theorem granted_bracketed {h : History} (timely : Lawful Timely h)
    (granted : Lawful (Granted cap) h) : Bracketed mark Measures ((tracer cap).run h).events := by
  refine bracketed_events ?_ (timely.and granted)
  intro h a e p ok law emits closes
  obtain ⟨c, o, rfl, -, -, held, rfl⟩ := closed_emitted emits closes
  obtain ⟨slot, order⟩ := record_of_granted ok.1 (law.mono fun _ _ both _ => both.2) held
  exact ⟨openedEvent o, opened_of_record held slot, order, saturatingSub_of_le order⟩

theorem kind_of_event (h : History) : ∀ ev ∈ ((tracer cap).run h).events,
    ev.kind = AttachEventKind.opened.toU32 ∨ ev.kind = AttachEventKind.closed.toU32 := by
  induction h with
  | nil => exact fun ev none => absurd none List.not_mem_nil
  | cons a h ih =>
      intro ev mem
      rw [System.run_cons, tracer_step, events_fire] at mem
      rcases List.mem_append.mp mem with now | before
      · rw [Option.mem_toList] at now
        cases a with
        | ctor c =>
            simp only [emitted, submit] at now
            split at now
            · split at now <;> cases now
              exact .inl rfl
            · cases now
        | release c =>
            simp only [emitted, submit] at now
            split at now
            · cases now
            · split at now
              · split at now <;> cases now
                exact .inr rfl
              · cases now
      · exact ih ev before

theorem shown_of_opens (ev : AttachEvent) (p : UInt64) (opens : mark ev = some (.opens p)) :
    shown args ev = true := by
  have other : ev.kind ≠ AttachEventKind.closed.toU32 := by
    rw [(mark_opens_iff.mp opens).2]
    exact toU32_closed_ne_opened.symm
  simp [shown, other]

theorem printed_of_events (events : List AttachEvent) :
    (events.map fun ev => (ev.toBytes, if shown args ev = true then
        Outcome.printed (eventLine args ev) else .suppressed)).filterMap
        (fun x => x.2.line.map (AttachEvent.read x.1, ·)) =
      (events.filter (shown args)).map fun ev => (ev, eventLine args ev) := by
  induction events with
  | nil => rfl
  | cons ev events ih =>
      rw [List.map_cons, List.filterMap_cons, ih, List.filter_cons]
      dsimp only
      rw [ev.read_toBytes]
      cases shown args ev <;> rfl

theorem handled_eq_map (h : List (Pipeline.Step Firing)) :
    let s := (pipeline cap byteSize args).system.run h
    s.handled = (((tracer cap).run (probes cap byteSize args h)).events.reverse.take
      s.handled.length).map fun ev => (ev.toBytes, if shown args ev = true then
        Outcome.printed (eventLine args ev) else .suppressed) := by
  intro s
  have taken : s.handled.map Prod.fst =
      (((tracer cap).run (probes cap byteSize args h)).events.reverse.take
        s.handled.length).map AttachEvent.toBytes := by
    rw [Pipeline.handled_eq_take, List.map_take, List.map_reverse, ← producer_eq]
    rfl
  have alone : ((pipeline cap byteSize args).consumed (s.handled.map Prod.fst)).2 =
      s.handled.map Prod.snd :=
    congrArg Prod.snd (Pipeline.consumed_eq (P := pipeline cap byteSize args) h)
  rw [taken, consumed_toBytes] at alone
  exact (List.zip_of_prod taken alone.symm).trans (List.zip_map' ..)

def fired (a : Action) : Pipeline.Step Firing := .produce ⟨a, ⟨1, 2, 3, 4, 5, 6, 7⟩⟩

/-- Attachment 100 is released too soon to be shown, its pointer is used again, and the
loop runs in between. -/
def shortAttachment : List (Pipeline.Step Firing) :=
  [.consume, .consume, .consume,
    fired (.release (firing 70 { rsi := 100 })),
    fired (.ctor (firing 30 { rdi := 100 })),
    .consume,
    fired (.release (firing 25 { rsi := 100 })),
    fired (.ctor (firing 20 { rdi := 200 })),
    .consume,
    fired (.ctor (firing 10 { rdi := 100 }))]

example :
    (linesOf
          ((pipeline declared declaredByteSize ⟨some 20, false⟩).system.run shortAttachment)).map
        (fun line => (lineMark line, lineDuration line)) =
      [(some (.opens 100), none), (some (.opens 200), none), (some (.opens 100), none),
        (some (.closes 100), some 40)] := by
  decide +kernel

end Tragach.Attach
