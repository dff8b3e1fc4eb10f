import Tragach.Attach.Handlers
import Tragach.Library.Sessions

/-! # The lifecycle of an attachment

`LIVE` holds the record of the latest constructor of a pointer until a release takes
it or the kernel drops it. As long as reservations and inserts succeed, the event
stream is bracketed: every `Closed` event closes the latest `Opened` event of its
pointer, and gives the time since.
-/

namespace Tragach.Attach

open Bpf Common Library

variable {cap : Capacity}

/-! ## Records -/

/-- The constructors whose records are held. -/
def records (cap : Capacity) : Journal Action UInt64 Ctx := fun h a p =>
  match a with
  | .ctor c =>
      if c.regs.rdi = 0 then .keep
      else
        LruHashMap.insertOp (((tracer cap).run h).live.accepts c.regs.rdi c.evicted) c.evicted
          c.regs.rdi c p
  | .release c => if c.regs.rsi ≠ 0 ∧ p = c.regs.rsi then .drop else .keep

theorem live_eq_records (h : History) (p : UInt64) :
    ((tracer cap).run h).live.get p = ((records cap).replay h p).map liveOf := by
  induction h with
  | nil => exact LruHashMap.get_empty p
  | cons a h ih =>
      rw [System.run_cons, tracer_step, get_live_fire, Journal.replay_cons, ih]
      cases a with
      | ctor c =>
          simp only [liveOp, records, LruHashMap.insertOp]
          split
          · rfl
          · split
            · split
              · rfl
              · split <;> rfl
            · rfl
      | release c =>
          simp only [liveOp, records]
          split <;> rfl

theorem records_put {h : History} {a : Action} {p : UInt64} {o : Ctx}
    (put : records cap h a p = .put o) :
    a = .ctor o ∧ o.regs.rdi = p ∧ p ≠ 0 ∧ p ∉ o.evicted := by
  cases a with
  | ctor c =>
      simp only [records, LruHashMap.insertOp] at put
      split at put
      next => cases put
      next null =>
          split at put
          next =>
              split at put
              next => cases put
              next held =>
                  split at put
                  next same =>
                      cases put
                      subst same
                      exact ⟨rfl, rfl, null, held⟩
                  next => cases put
          next => cases put
  | release c =>
      simp only [records] at put
      split at put <;> cases put

/-! ## The event stream -/

def Opened (p : UInt64) (e : AttachEvent) : Prop :=
  e.attachmentPtr = p ∧ e.kind = AttachEventKind.opened.toU32

def Closed (p : UInt64) (e : AttachEvent) : Prop :=
  e.attachmentPtr = p ∧ e.kind = AttachEventKind.closed.toU32

def mark (e : AttachEvent) : Option (Mark UInt64) :=
  if e.kind = AttachEventKind.opened.toU32 then some (.opens e.attachmentPtr)
  else if e.kind = AttachEventKind.closed.toU32 then some (.closes e.attachmentPtr)
  else none

theorem toU32_closed_ne_opened : AttachEventKind.closed.toU32 ≠ AttachEventKind.opened.toU32 := by
  decide

theorem mark_opens_iff {e : AttachEvent} {p : UInt64} : mark e = some (.opens p) ↔ Opened p e := by
  unfold mark Opened
  by_cases isOpened : e.kind = AttachEventKind.opened.toU32
  · simp [isOpened]
  · by_cases isClosed : e.kind = AttachEventKind.closed.toU32 <;>
      simp [isOpened, isClosed, toU32_closed_ne_opened]

theorem mark_closes_iff {e : AttachEvent} {p : UInt64} :
    mark e = some (.closes p) ↔ Closed p e := by
  unfold mark Closed
  by_cases isOpened : e.kind = AttachEventKind.opened.toU32
  · simp [isOpened, toU32_closed_ne_opened.symm]
  · by_cases isClosed : e.kind = AttachEventKind.closed.toU32 <;>
      simp [isOpened, isClosed, toU32_closed_ne_opened]

theorem mark_openedEvent (c : Ctx) : mark (openedEvent c) = some (.opens c.regs.rdi) :=
  mark_opens_iff.mpr ⟨rfl, rfl⟩

theorem mark_of_other {e : AttachEvent} {p : UInt64} (other : e.attachmentPtr ≠ p) :
    mark e ≠ some (.opens p) ∧ mark e ≠ some (.closes p) := by
  rw [ne_eq, ne_eq, mark_opens_iff, mark_closes_iff]
  exact ⟨fun opens => other opens.1, fun closes => other closes.1⟩

/-- A firing that leaves the record of `p` alone emits no event about `p`. -/
theorem emitted_of_keep {h : History} {a : Action} {p : UInt64} {e : AttachEvent}
    (keep : records cap h a p = .keep) (emits : emitted ((tracer cap).run h) a = some e) :
    e.attachmentPtr ≠ p := by
  cases a with
  | ctor c =>
      simp only [emitted, submit] at emits
      split at emits
      next accepted =>
          split at emits
          next =>
              cases emits
              intro same
              subst same
              simp only [records, openedEvent, LruHashMap.insertOp, accepted, if_false, if_true] at keep
              split at keep <;> cases keep
          next => cases emits
      next => cases emits
  | release c =>
      simp only [emitted, submit] at emits
      split at emits
      next => cases emits
      next null =>
          split at emits
          next =>
              split at emits
              next =>
                  cases emits
                  intro same
                  subst same
                  simp [records, closedEvent, null] at keep
              next => cases emits
          next => cases emits

theorem emitted_of_put {h : History} {a : Action} {p : UInt64} {o : Ctx}
    (put : records cap h a p = .put o) :
    emitted ((tracer cap).run h) a = submit o (openedEvent o) := by
  obtain ⟨rfl, rfl, null, -⟩ := records_put put
  cases room : ((tracer cap).run h).live.accepts o.regs.rdi o.evicted with
  | false => simp [records, null, LruHashMap.insertOp, room] at put
  | true => simp [emitted, null, room]

/-- A record whose constructor had a slot has its `Opened` event open in the stream. -/
theorem opened_of_record {h : History} {p : UInt64} {o : Ctx}
    (held : (records cap).replay h p = some o) (announced : o.slot.isSome) :
    (sessions mark).replay ((tracer cap).run h).events p = some (openedEvent o) := by
  induction h with
  | nil => cases held
  | cons a h ih =>
      rw [Journal.replay_cons] at held
      rw [System.run_cons, tracer_step, events_fire]
      cases op : records cap h a p with
      | keep =>
          rw [op] at held
          cases emits : emitted ((tracer cap).run h) a with
          | none => exact ih held
          | some e =>
              have other := mark_of_other (emitted_of_keep op emits)
              exact (replay_sessions_of_other other).trans (ih held)
      | put c =>
          rw [op] at held
          obtain rfl : c = o := Option.some.inj held
          rw [emitted_of_put op, submit, if_pos announced]
          have opens := mark_openedEvent c
          rw [(records_put op).2.1] at opens
          exact replay_sessions_opens opens
      | drop =>
          rw [op] at held
          cases held

theorem closed_emitted {h : History} {a : Action} {e : AttachEvent} {p : UInt64}
    (emits : emitted ((tracer cap).run h) a = some e) (closes : Closed p e) :
    ∃ c o, a = .release c ∧ c.regs.rsi = p ∧ c.slot.isSome ∧
      (records cap).replay h p = some o ∧ e = closedEvent c (liveOf o) := by
  cases a with
  | ctor c =>
      simp only [emitted, submit] at emits
      split at emits
      next =>
          split at emits
          next =>
              cases emits
              exact absurd closes.2.symm toU32_closed_ne_opened
          next => cases emits
      next => cases emits
  | release c =>
      simp only [emitted, submit, live_eq_records] at emits
      split at emits
      next => cases emits
      next =>
          cases held : (records cap).replay h c.regs.rsi with
          | none => simp [held] at emits
          | some o =>
              simp only [held, Option.map_some] at emits
              split at emits
              next slot =>
                  cases emits
                  obtain rfl : c.regs.rsi = p := closes.1
                  exact ⟨c, o, rfl, rfl, slot, held, rfl⟩
              next => cases emits

/-- The stream of a run is bracketed as soon as each `Closed` event finds its opening. -/
theorem bracketed_events {adm : History → Action → Prop} {R : AttachEvent → AttachEvent → Prop}
    (closing : ∀ h a e p, adm h a → Lawful adm h → emitted ((tracer cap).run h) a = some e →
      Closed p e → ∃ o, (sessions mark).replay ((tracer cap).run h).events p = some o ∧ R o e)
    {h : History} (law : Lawful adm h) : Bracketed mark R ((tracer cap).run h).events := by
  induction h with
  | nil => trivial
  | cons a h ih =>
      rw [System.run_cons, tracer_step, events_fire]
      cases emits : emitted ((tracer cap).run h) a with
      | none => exact ih law.2
      | some e =>
          exact ⟨fun p closes => closing h a e p law.1 law.2 emits (mark_closes_iff.mp closes),
            ih law.2⟩

/-! ## What the history says -/

def Action.ctx : Action → Ctx
  | .ctor c => c
  | .release c => c

def Constructs (p : UInt64) : Action → Prop
  | .ctor c => c.regs.rdi = p ∧ p ≠ 0
  | .release _ => False

def Releases (p : UInt64) : Action → Prop
  | .ctor _ => False
  | .release c => c.regs.rsi = p ∧ p ≠ 0

/-- The firing inserts into `LIVE`, and the kernel drops the record of `p` for it. -/
def Evicts (p : UInt64) : Action → Prop
  | .ctor c => c.regs.rdi ≠ 0 ∧ p ∈ c.evicted
  | .release _ => False

def InsertSucceeds (s : State cap) : Action → Prop
  | .ctor c => c.regs.rdi ≠ 0 → s.live.accepts c.regs.rdi c.evicted = true
  | .release _ => True

def ReserveSucceeds : Action → Prop
  | .ctor c => c.regs.rdi ≠ 0 → c.slot.isSome = true
  | .release c => c.regs.rsi ≠ 0 → c.slot.isSome = true

/-- The clock does not go back, and reservations and inserts succeed. -/
structure Admissible (cap : Capacity) (h : History) (a : Action) : Prop where
  timely : ∀ b ∈ h, b.ctx.ktime ≤ a.ctx.ktime
  reserves : ReserveSucceeds a
  inserts : InsertSucceeds ((tracer cap).run h) a

instance (s : State cap) : ∀ a, Decidable (InsertSucceeds s a)
  | .ctor c => inferInstanceAs (Decidable (c.regs.rdi ≠ 0 → _ = true))
  | .release _ => .isTrue trivial

instance : ∀ a, Decidable (ReserveSucceeds a)
  | .ctor c => inferInstanceAs (Decidable (c.regs.rdi ≠ 0 → _ = true))
  | .release c => inferInstanceAs (Decidable (c.regs.rsi ≠ 0 → _ = true))

instance (h : History) (a : Action) : Decidable (Admissible cap h a) :=
  have : Decidable (∀ b ∈ h, b.ctx.ktime ≤ a.ctx.ktime) := List.decidableBAll _ h
  decidable_of_iff
    ((∀ b ∈ h, b.ctx.ktime ≤ a.ctx.ktime) ∧ ReserveSucceeds a ∧
      InsertSucceeds ((tracer cap).run h) a)
    ⟨fun ⟨t, r, i⟩ => ⟨t, r, i⟩, fun ⟨t, r, i⟩ => ⟨t, r, i⟩⟩

/-- The events the firings `later` emit after `earlier`. -/
def emissions (cap : Capacity) (earlier : History) : History → List AttachEvent
  | [] => []
  | a :: later =>
      (emitted ((tracer cap).run (later ++ earlier)) a).toList ++ emissions cap earlier later

/-- `p` has had a constructor since its last `Closed` event, and the record of the latest
one was not evicted. -/
def CloseDue (cap : Capacity) (h : History) (p : UInt64) : Prop :=
  ∃ later o earlier, h = later ++ .ctor o :: earlier ∧ Constructs p (.ctor o) ∧
    ¬ Evicts p (.ctor o) ∧ (∀ a ∈ later, ¬ Constructs p a ∧ ¬ Evicts p a) ∧
    ∀ e ∈ emissions cap (.ctor o :: earlier) later, ¬ Closed p e

section

variable {h : History} {a : Action} {p : UInt64}

theorem records_keep_iff (ok : Admissible cap h a) :
    records cap h a p = .keep ↔ ¬ Constructs p a ∧ ¬ Evicts p a ∧ ¬ Releases p a := by
  cases a with
  | ctor c =>
      by_cases null : c.regs.rdi = 0
      · simp only [records, null, if_true, Constructs, Evicts, Releases]
        simp [eq_comm]
      · have room := ok.inserts null
        by_cases dropped : p ∈ c.evicted
        · simp [records, null, LruHashMap.insertOp, room, Evicts, dropped]
        · by_cases same : p = c.regs.rdi
          · subst same
            simp [records, null, LruHashMap.insertOp, room, Constructs, dropped]
          · have other : c.regs.rdi ≠ p := fun eq => same eq.symm
            simp [records, null, LruHashMap.insertOp, room, Constructs, Evicts, Releases, dropped,
              same, other]
  | release c =>
      simp only [records, Constructs, Evicts, Releases]
      by_cases same : p = c.regs.rsi
      · subst same
        by_cases null : c.regs.rsi = 0 <;> simp [null]
      · have other : c.regs.rsi ≠ p := fun eq => same eq.symm
        simp [same, other]

theorem records_ctor {c : Ctx} (ok : Admissible cap h (.ctor c)) (constructs : Constructs p (.ctor c))
    (held : ¬ Evicts p (.ctor c)) : records cap h (.ctor c) p = .put c := by
  rcases constructs with ⟨rfl, null⟩
  have room := ok.inserts null
  have kept : c.regs.rdi ∉ c.evicted := fun dropped => held ⟨null, dropped⟩
  simp [records, null, LruHashMap.insertOp, room, kept]

theorem emitted_release {c o : Ctx} (releases : Releases p (.release c)) (slot : c.slot.isSome)
    (held : (records cap).replay h p = some o) :
    emitted ((tracer cap).run h) (.release c) = some (closedEvent c (liveOf o)) := by
  rcases releases with ⟨rfl, null⟩
  simp [emitted, null, live_eq_records, held, submit, slot]

/-- While the records of `p` are left alone, no event about `p` is emitted. -/
theorem emissions_of_kept {later earlier : History} (kept : (records cap).Kept p earlier later) :
    ∀ e ∈ emissions cap earlier later, e.attachmentPtr ≠ p := by
  induction later with
  | nil => simp [emissions]
  | cons a later ih =>
      intro e mem
      rcases List.mem_append.mp mem with now | before
      · exact emitted_of_keep kept.1 (Option.mem_toList.mp now)
      · exact ih kept.2 e before

/-- A record that is neither replaced nor evicted is held until its close is emitted. -/
theorem held_of_unclosed {later earlier : History} {o : Ctx}
    (law : Lawful (Admissible cap) (later ++ earlier))
    (held : (records cap).replay earlier p = some o)
    (untouched : ∀ a ∈ later, ¬ Constructs p a ∧ ¬ Evicts p a)
    (unclosed : ∀ e ∈ emissions cap earlier later, ¬ Closed p e) :
    (records cap).replay (later ++ earlier) p = some o := by
  induction later with
  | nil => exact held
  | cons a later ih =>
      have before := ih law.2 (fun b mem => untouched b (List.mem_cons_of_mem a mem))
        fun e mem => unclosed e (List.mem_append_right _ mem)
      have unreleased : ¬ Releases p a := by
        intro releases
        cases a with
        | ctor c => exact releases
        | release c =>
            have emits := emitted_release releases (law.1.reserves (releases.1 ▸ releases.2)) before
            refine unclosed (closedEvent c (liveOf o)) ?_ ⟨releases.1, rfl⟩
            rw [emissions, emits]
            exact List.mem_cons_self
      have now := untouched a List.mem_cons_self
      have keep : records cap (later ++ earlier) a p = .keep :=
        (records_keep_iff law.1).mpr ⟨now.1, now.2, unreleased⟩
      rw [List.cons_append, Journal.replay_cons, keep]
      exact before

theorem closeDue_iff (law : Lawful (Admissible cap) h) :
    CloseDue cap h p ↔ ∃ o, (records cap).replay h p = some o := by
  constructor
  · intro found
    rcases found with ⟨later, o, earlier, rfl, constructs, held, untouched, unclosed⟩
    have stored := records_ctor law.of_append.1 constructs held
    refine ⟨o, held_of_unclosed law ?_ untouched unclosed⟩
    rw [Journal.replay_cons, stored, CellOp.apply_put]
  · intro found
    rcases found with ⟨o, held⟩
    obtain ⟨later, a, earlier, rfl, put, kept⟩ := Journal.replay_eq_some_iff.mp held
    obtain ⟨rfl, constructs, null, stays⟩ := records_put put
    refine ⟨later, o, earlier, rfl, ⟨constructs, null⟩, fun evicts => stays evicts.2, ?_, ?_⟩
    · intro b mem
      obtain ⟨last, first, rfl⟩ := List.append_of_mem mem
      rw [List.append_assoc] at law
      have keep := (records_keep_iff law.of_append.1).mp kept.of_append.1
      exact ⟨keep.1, keep.2.1⟩
    · exact fun e mem closed => emissions_of_kept kept e mem closed.1

/-- The constructor whose record is held had a slot and was not later. -/
theorem record_admissible (law : Lawful (Admissible cap) (a :: h)) {o : Ctx}
    (held : (records cap).replay h p = some o) : o.slot.isSome ∧ o.ktime ≤ a.ctx.ktime := by
  obtain ⟨later, b, earlier, rfl, put, -⟩ := Journal.replay_eq_some_iff.mp held
  obtain ⟨rfl, rfl, null, -⟩ := records_put put
  have ok := law.2.of_append.1
  exact ⟨ok.reserves null, law.1.timely (.ctor o) (by simp)⟩

end

/-- A close gives the time since the event that opened its session. -/
def Measures (o e : AttachEvent) : Prop := o.tsNs ≤ e.tsNs ∧ e.durationNs = e.tsNs - o.tsNs

theorem run_bracketed {h : History} (law : Lawful (Admissible cap) h) :
    Bracketed mark Measures ((tracer cap).run h).events := by
  refine bracketed_events ?_ law
  intro h a e p ok law emits closes
  obtain ⟨c, o, rfl, -, -, held, rfl⟩ := closed_emitted emits closes
  obtain ⟨slot, order⟩ := record_admissible ⟨ok, law⟩ held
  exact ⟨openedEvent o, opened_of_record held slot, order, saturatingSub_of_le order⟩

/-- Constructors open, releases close what was opened and held, and every close is paired
with the latest opening of its pointer. -/
theorem lifecycle_paired {h : History} (law : Lawful (Admissible cap) h) :
    (∀ later c earlier, h = later ++ .ctor c :: earlier → c.regs.rdi ≠ 0 →
        ((tracer cap).run (.ctor c :: earlier)).events =
          openedEvent c :: ((tracer cap).run earlier).events) ∧
      (∀ later c earlier, h = later ++ .release c :: earlier →
        (CloseDue cap earlier c.regs.rsi →
          ∃ e, ((tracer cap).run (.release c :: earlier)).events =
              e :: ((tracer cap).run earlier).events ∧ Closed c.regs.rsi e ∧ e.tsNs = c.ktime) ∧
        (¬ CloseDue cap earlier c.regs.rsi →
          ((tracer cap).run (.release c :: earlier)).events =
            ((tracer cap).run earlier).events)) ∧
      (∀ p later e earlier, ((tracer cap).run h).events = later ++ e :: earlier → Closed p e →
        ∃ between o before, earlier = between ++ o :: before ∧ Opened p o ∧
          (∀ b ∈ between, ¬ Opened p b ∧ ¬ Closed p b) ∧
          o.tsNs ≤ e.tsNs ∧ e.durationNs = e.tsNs - o.tsNs) ∧
      ∀ p later e' between e earlier,
        ((tracer cap).run h).events = later ++ e' :: (between ++ e :: earlier) →
        Closed p e → Closed p e' → ∃ o ∈ between, Opened p o := by
  have bracketed := run_bracketed law
  refine ⟨?_, ?_, ?_, ?_⟩
  · intro later c earlier split null
    subst split
    have ok := law.of_append.1
    have room := ok.inserts null
    have slot := ok.reserves null
    rw [System.run_cons, tracer_step, events_fire]
    simp [emitted, null, room, submit, slot]
  · intro later c earlier split
    subst split
    have ok := law.of_append.1
    rw [System.run_cons, tracer_step, events_fire, closeDue_iff law.of_append.2]
    constructor
    · intro found
      rcases found with ⟨o, held⟩
      have null : c.regs.rsi ≠ 0 := by
        obtain ⟨_, _, _, -, put, -⟩ := Journal.replay_eq_some_iff.mp held
        exact (records_put put).2.2.1
      rw [emitted_release ⟨rfl, null⟩ (ok.reserves null) held]
      exact ⟨closedEvent c (liveOf o), rfl, ⟨rfl, rfl⟩, rfl⟩
    · intro absent
      have none : (records cap).replay earlier c.regs.rsi = none :=
        Option.eq_none_iff_forall_ne_some.mpr fun o held => absent ⟨o, held⟩
      simp [emitted, live_eq_records, none]
  · intro p later e earlier split closes
    obtain ⟨between, o, before, rest, opens, kept, measures⟩ :=
      bracketed.opening split (mark_closes_iff.mpr closes)
    refine ⟨between, o, before, rest, mark_opens_iff.mp opens, fun b mem => ?_, measures⟩
    rw [← mark_opens_iff, ← mark_closes_iff]
    exact kept b mem
  · intro p later e' between e earlier split closes closes'
    obtain ⟨o, mem, opens⟩ := bracketed.opening_between split (mark_closes_iff.mpr closes)
      (mark_closes_iff.mpr closes')
    exact ⟨o, mem, mark_opens_iff.mp opens⟩

def firing (time : UInt64) (regs : PtRegs) (slot : Option AttachEvent := some ⟨0, 0, 0, 0, 0, 0, 0⟩)
    (evicted : List UInt64 := []) : Ctx where
  cpu := 0
  pidTgid := 0
  ktime := time
  regs := regs
  evicted := evicted
  slot := slot

/-- Attachment 100 is released twice, its pointer is used again and released, and the
record of attachment 200 is evicted before its release. -/
def reusedPointer : History :=
  [.release (firing 70 { rsi := 200 }),
    .release (firing 60 { rsi := 100 }),
    .ctor (firing 50 { rdi := 100 } (some ⟨0, 0, 0, 0, 0, 0, 0⟩) [200]),
    .release (firing 40 { rsi := 100 }),
    .release (firing 30 { rsi := 100 }),
    .ctor (firing 20 { rdi := 200 }),
    .ctor (firing 10 { rdi := 100 })]

theorem reusedPointer_paired :
    ∃ o ∈ [openedEvent (firing 50 { rdi := 100 })], Opened 100 o :=
  (lifecycle_paired (show Lawful (Admissible declared) reusedPointer by decide +kernel)).2.2.2 100 []
    (closedEvent (firing 60 { rsi := 100 }) ⟨50, 0, 0⟩) [openedEvent (firing 50 { rdi := 100 })]
    (closedEvent (firing 30 { rsi := 100 }) ⟨10, 0, 0⟩)
    [openedEvent (firing 20 { rdi := 200 }), openedEvent (firing 10 { rdi := 100 })]
    (by decide +kernel) ⟨rfl, rfl⟩ ⟨rfl, rfl⟩

end Tragach.Attach
