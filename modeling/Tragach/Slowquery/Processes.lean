import Tragach.Slowquery.Attribution
import Tragach.Slowquery.Commute

/-! # Several traced processes

The probes are attached to the engine library, so they fire in every process that maps it.
Thread ids differ between processes; requests and cursors are addresses, which may not. A
process is traced as if it were alone as long as no address under which it looks something
up is handed out, ended or dropped for another process.
-/

namespace Tragach.Slowquery

open Bpf Common Library

variable {L : Limits}

def Action.lookups : Action → List UInt64
  | .entry .execute c => if c.regs.rdx = 0 then [] else [c.regs.rdx]
  | .entry .openCursor c => [c.regs.rdi]
  | .entry .fetchNext c => if c.regs.rdi = 0 then [] else [c.regs.rdi]
  | _ => []

/-- The requests and cursors that the action may file, drop or end. -/
def Action.files : Action → List UInt64
  | .exit .prepare c => if c.regs.rax = 0 then [] else c.regs.rax :: c.evicted
  | .exit .openCursor c => if c.regs.rax = 0 then [] else c.regs.rax :: c.evicted
  | .entry .fetchNext c => if c.regs.rdi = 0 then [] else [c.regs.rdi]
  | _ => []

/-- The threads of one process, and the addresses it looks up. -/
structure Process where
  owns : UInt32 → Bool
  uses : UInt64 → Bool

/-- The process looks up no other addresses, and nothing is filed or ended under one of them
for another process. -/
def Process.Apart (P : Process) (a : Action) : Prop :=
  if P.owns a.thread = true then ∀ p ∈ a.lookups, P.uses p = true
  else ∀ p ∈ a.files, P.uses p = false

instance (P : Process) (a : Action) : Decidable (P.Apart a) :=
  have : Decidable (∀ p ∈ a.lookups, P.uses p = true) := List.decidableBAll _ a.lookups
  have : Decidable (∀ p ∈ a.files, P.uses p = false) := List.decidableBAll _ a.files
  inferInstanceAs (Decidable (if P.owns a.thread = true then ∀ p ∈ a.lookups, P.uses p = true
    else ∀ p ∈ a.files, P.uses p = false))

def Process.own (P : Process) (h : History) : History := h.filter fun a => P.owns a.thread

def Fn.lookups : (f : Fn) → f.Record → List UInt64
  | .execute, e => [e.dsqlRequestPtr]
  | .openCursor, e => [e.dsqlRequestPtr]
  | .fetchNext, k => [k]
  | .prepare, _ => []
  | .executeImmediate, _ => []

/-- The state of a run of all processes agrees with that of a run of the process alone. -/
structure Process.Projects (P : Process) (s : State L) (s' : State unlimited) : Prop where
  inflight : ∀ f t, P.owns t = true → (s.inflight f).get t = (s'.inflight f).get t
  prepared : ∀ r, P.uses r = true →
    s.preparedStatements.get r = s'.preparedStatements.get r
  cursors : ∀ k, P.uses k = true → s.openCursors.get k = s'.openCursors.get k
  lookups : ∀ f t r, P.owns t = true → (s.inflight f).get t = some r →
    ∀ p ∈ f.lookups r, P.uses p = true
  opened : ∀ k oc, P.uses k = true → s.openCursors.get k = some oc →
    P.uses oc.dsqlRequestPtr = true
  fetched : ∀ t k, P.owns t = false → s.fetchInProgress.get t = some k → P.uses k = false
  events : s.events.filter (fun ev => P.owns ev.tid) = s'.events

section

variable {P : Process} {s : State L} {s' : State unlimited} {a : Action}

theorem lookups_of_record {f : Fn} {c : Ctx} {r : f.Record} (written : f.record c = some r) :
    f.lookups r = (Action.entry f c).lookups := by
  cases f with
  | execute =>
      simp only [Fn.record] at written
      split at written
      next => cases written
      next null =>
          cases written
          simp [Fn.lookups, Action.lookups, null]
  | fetchNext =>
      simp only [Fn.record] at written
      split at written
      next => cases written
      next null =>
          cases written
          simp [Fn.lookups, Action.lookups, null]
  | openCursor =>
      cases written
      rfl
  | prepare => rfl
  | executeImmediate => rfl

theorem inflight_after {f : Fn} {t : UInt32} {r : f.Record}
    (found : ((fire s a).inflight f).get t = some r) :
    (s.inflight f).get t = some r ∨ ∃ c, a = .entry f c ∧ c.tid = t ∧ f.record c = some r := by
  rw [get_inflight_fire] at found
  cases a with
  | entry g c =>
      simp only [inflightOp] at found
      cases written : f.record c with
      | none =>
          rw [written] at found
          exact .inl found
      | some v =>
          simp only [written, HashMap.insertOp] at found
          split at found
          next same =>
              subst same
              split at found
              next here =>
                  obtain rfl : v = r := Option.some.inj found
                  exact .inr ⟨c, rfl, here.2.symm, written⟩
              next => exact .inl found
          next => exact .inl found
  | exit g c =>
      simp only [inflightOp] at found
      split at found
      next => cases found
      next => exact .inl found
  | abandon g u => exact .inl found

/-! ## Actions of the process -/

theorem inflightOp_of_room (room : InsertSucceeds s a) (f : Fn) (t : UInt32) :
    inflightOp s f a t = inflightOp s' f a t := by
  cases a with
  | entry g c =>
      simp only [inflightOp]
      cases f.record c with
      | none => rfl
      | some r =>
          by_cases same : g = f
          · subst same
            have accepted : (s.inflight g).accepts c.tid = true := room
            have accepted' : (s'.inflight g).accepts c.tid = true := HashMap.accepts_unlimited ..
            simp only [if_true, accepted, accepted']
          · simp only [if_neg same]
  | exit g c => rfl
  | abandon g u => rfl

theorem Process.Projects.preparedOp (view : P.Projects s s') (own : P.owns a.thread = true)
    (room : InsertSucceeds s a) (r : UInt64) :
    Slowquery.preparedOp s a r = Slowquery.preparedOp s' a r := by
  cases a with
  | entry g c => rfl
  | abandon g u => rfl
  | exit g c =>
      cases g with
      | prepare =>
          have same : s.prepareInProgress.get c.tid = s'.prepareInProgress.get c.tid :=
            view.inflight .prepare c.tid own
          simp only [Slowquery.preparedOp, same]
          cases s'.prepareInProgress.get c.tid with
          | none => rfl
          | some e =>
              by_cases null : c.regs.rax = 0
              · simp only [if_pos null]
              · have accepted : s'.preparedStatements.accepts c.regs.rax c.evicted = true :=
                  LruHashMap.accepts_unlimited ..
                simp only [if_neg null, room null, accepted]
      | _ => rfl

theorem Process.Projects.cursorOp (view : P.Projects s s') (own : P.owns a.thread = true)
    (room : InsertSucceeds s a) (k : UInt64) :
    Slowquery.cursorOp s a k = Slowquery.cursorOp s' a k := by
  cases a with
  | entry g c => rfl
  | abandon g u => rfl
  | exit g c =>
      cases g with
      | openCursor =>
          have same : s.openCursorInProgress.get c.tid = s'.openCursorInProgress.get c.tid :=
            view.inflight .openCursor c.tid own
          simp only [Slowquery.cursorOp, same]
          cases s'.openCursorInProgress.get c.tid with
          | none => rfl
          | some e =>
              by_cases null : c.regs.rax = 0
              · simp only [if_pos null]
              · have accepted : s'.openCursors.accepts c.regs.rax c.evicted = true :=
                  LruHashMap.accepts_unlimited ..
                simp only [if_neg null, room null, accepted]
      | fetchNext =>
          have same : s.fetchInProgress.get c.tid = s'.fetchInProgress.get c.tid :=
            view.inflight .fetchNext c.tid own
          simp only [Slowquery.cursorOp, same]
      | _ => rfl

/-- The process emits the events it would emit alone. -/
theorem Process.Projects.attempted (view : P.Projects s s') (own : P.owns a.thread = true) :
    Slowquery.attempted s a = Slowquery.attempted s' a := by
  cases a with
  | entry g c => rfl
  | abandon g u => rfl
  | exit g c =>
      have inflight (f : Fn) : (s.inflight f).get c.tid = (s'.inflight f).get c.tid :=
        view.inflight f c.tid own
      cases g with
      | prepare => rfl
      | openCursor => rfl
      | executeImmediate =>
          have same : s.immediateInProgress.get c.tid = s'.immediateInProgress.get c.tid :=
            inflight .executeImmediate
          simp only [Slowquery.attempted, same]
      | execute =>
          have same : s.executeInProgress.get c.tid = s'.executeInProgress.get c.tid :=
            inflight .execute
          simp only [Slowquery.attempted, ← same]
          cases entry : s.executeInProgress.get c.tid with
          | none => rfl
          | some e =>
              have looked := view.lookups .execute c.tid e own entry e.dsqlRequestPtr
                List.mem_cons_self
              simp only [view.prepared _ looked]
      | fetchNext =>
          have same : s.fetchInProgress.get c.tid = s'.fetchInProgress.get c.tid :=
            inflight .fetchNext
          simp only [Slowquery.attempted, ← same]
          cases entry : s.fetchInProgress.get c.tid with
          | none => rfl
          | some k =>
              have looked := view.lookups .fetchNext c.tid k own entry k List.mem_cons_self
              simp only [← view.cursors k looked]
              cases cursor : s.openCursors.get k with
              | none => rfl
              | some oc => simp only [view.prepared _ (view.opened k oc looked cursor)]

/-! ## Actions of other processes -/

theorem preparedOp_foreign (apart : ∀ p ∈ a.files, P.uses p = false) {r : UInt64}
    (used : P.uses r = true) : preparedOp s a r = .keep := by
  have off (p : UInt64) (mem : p ∈ a.files) : r ≠ p := by
    rintro rfl
    rw [apart r mem] at used
    cases used
  cases a with
  | entry g c => rfl
  | abandon g u => rfl
  | exit g c =>
      cases g with
      | prepare =>
          simp only [preparedOp]
          cases s.prepareInProgress.get c.tid with
          | none => rfl
          | some e =>
              by_cases null : c.regs.rax = 0
              · simp only [if_pos null]
              · simp only [Action.files, if_neg null, List.mem_cons] at off
                have other := off c.regs.rax (.inl rfl)
                have kept : r ∉ c.evicted := fun mem => off r (.inr mem) rfl
                simp [null, LruHashMap.insertOp, other, kept]
      | _ => rfl

theorem cursorOp_foreign (apart : ∀ p ∈ a.files, P.uses p = false)
    (fetched : ∀ k, s.fetchInProgress.get a.thread = some k → P.uses k = false) {k : UInt64}
    (used : P.uses k = true) : cursorOp s a k = .keep := by
  have off (p : UInt64) (unused : P.uses p = false) : k ≠ p := by
    rintro rfl
    rw [unused] at used
    cases used
  cases a with
  | entry g c => rfl
  | abandon g u => rfl
  | exit g c =>
      cases g with
      | openCursor =>
          simp only [cursorOp]
          cases s.openCursorInProgress.get c.tid with
          | none => rfl
          | some e =>
              by_cases null : c.regs.rax = 0
              · simp only [if_pos null]
              · simp only [Action.files, if_neg null, List.mem_cons] at apart
                have other := off c.regs.rax (apart _ (.inl rfl))
                have kept : k ∉ c.evicted := fun mem => off k (apart _ (.inr mem)) rfl
                simp [null, LruHashMap.insertOp, other, kept]
      | fetchNext =>
          simp only [cursorOp]
          cases entry : s.fetchInProgress.get c.tid with
          | none => rfl
          | some cursor => simp [off cursor (fetched cursor entry)]
      | _ => rfl

theorem tid_of_attempted {ev : SlowQueryEvent} (event : attempted s a = some ev) :
    ev.tid = a.thread := by
  cases a with
  | entry g c => cases event
  | abandon g u => cases event
  | exit g c =>
      cases g with
      | prepare => cases event
      | openCursor => cases event
      | executeImmediate =>
          simp only [attempted] at event
          split at event
          · cases event
            rfl
          · cases event
      | execute =>
          simp only [attempted] at event
          split at event
          · cases event
            rfl
          · cases event
      | fetchNext =>
          simp only [attempted] at event
          split at event
          · split at event
            · split at event
              · cases event
                rfl
              · cases event
            · cases event
          · cases event

/-- An open cursor was open before or is the one whose `openCursor` returns. -/
theorem cursor_after {k : UInt64} {oc : OpenCursor}
    (found : (fire s a).openCursors.get k = some oc) :
    s.openCursors.get k = some oc ∨
      ∃ c, a = .exit .openCursor c ∧ s.openCursorInProgress.get c.tid = some oc := by
  rw [get_openCursors_fire] at found
  cases a with
  | entry g c => exact .inl found
  | abandon g u => exact .inl found
  | exit g c =>
      cases g with
      | openCursor =>
          simp only [cursorOp] at found
          cases entry : s.openCursorInProgress.get c.tid with
          | none =>
              rw [entry] at found
              exact .inl found
          | some e =>
              simp only [entry, LruHashMap.insertOp] at found
              split at found
              · exact .inl found
              · split at found
                · split at found
                  · cases found
                  · split at found
                    · obtain rfl : e = oc := Option.some.inj found
                      exact .inr ⟨c, rfl, entry⟩
                    · exact .inl found
                · exact .inl found
      | fetchNext =>
          simp only [cursorOp] at found
          cases entry : s.fetchInProgress.get c.tid with
          | none =>
              rw [entry] at found
              exact .inl found
          | some cursor =>
              simp only [entry] at found
              split at found
              · cases found
              · exact .inl found
      | _ => exact .inl found

theorem Process.Projects.fire_own (view : P.Projects s s') (own : P.owns a.thread = true)
    (apart : ∀ p ∈ a.lookups, P.uses p = true) (room : InsertSucceeds s a) :
    P.Projects (fire s a) (fire s' a) := by
  refine ⟨?_, ?_, ?_, ?_, ?_, ?_, ?_⟩
  · intro f t owned
    rw [get_inflight_fire, get_inflight_fire, inflightOp_of_room room, view.inflight f t owned]
  · intro r used
    rw [get_preparedStatements_fire, get_preparedStatements_fire, view.preparedOp own room,
      view.prepared r used]
  · intro k used
    rw [get_openCursors_fire, get_openCursors_fire, view.cursorOp own room, view.cursors k used]
  · intro f t r owned found
    rcases inflight_after found with before | ⟨c, rfl, -, written⟩
    · exact view.lookups f t r owned before
    · rw [lookups_of_record written]
      exact apart
  · intro k oc used found
    rcases cursor_after found with before | ⟨c, rfl, entry⟩
    · exact view.opened k oc used before
    · exact view.lookups .openCursor c.tid oc own entry _ List.mem_cons_self
  · intro t k foreign found
    rcases inflight_after (f := .fetchNext) found with before | ⟨c, rfl, rfl, -⟩
    · exact view.fetched t k foreign before
    · rw [show P.owns c.tid = true from own] at foreign
      cases foreign
  · rw [events_fire, events_fire, List.filter_append, view.events]
    have kept : (emitted s a).filter (fun ev => P.owns ev.tid) = emitted s a := by
      refine List.filter_eq_self.mpr fun ev mem => ?_
      rw [emitted] at mem
      split at mem
      · rw [tid_of_attempted (Option.mem_toList.mp mem)]
        exact own
      · cases mem
    rw [kept, emitted, emitted, view.attempted own]

theorem Process.Projects.fire_foreign (view : P.Projects s s')
    (foreign : P.owns a.thread = false) (apart : ∀ p ∈ a.files, P.uses p = false) :
    P.Projects (fire s a) s' := by
  have other (t : UInt32) (owned : P.owns t = true) : t ≠ a.thread := by
    rintro rfl
    rw [foreign] at owned
    cases owned
  have cursors (k : UInt64) (used : P.uses k = true) :
      (fire s a).openCursors.get k = s.openCursors.get k := by
    rw [get_openCursors_fire, cursorOp_foreign apart (fun k => view.fetched _ k foreign) used,
      CellOp.apply_keep]
  refine ⟨?_, ?_, ?_, ?_, ?_, ?_, ?_⟩
  · intro f t owned
    rw [get_inflight_other (other t owned), view.inflight f t owned]
  · intro r used
    rw [get_preparedStatements_fire, preparedOp_foreign apart used, CellOp.apply_keep,
      view.prepared r used]
  · intro k used
    rw [cursors k used, view.cursors k used]
  · intro f t r owned found
    rw [get_inflight_other (other t owned)] at found
    exact view.lookups f t r owned found
  · intro k oc used found
    rw [cursors k used] at found
    exact view.opened k oc used found
  · intro t k unowned found
    rcases inflight_after (f := .fetchNext) found with before | ⟨c, rfl, rfl, written⟩
    · exact view.fetched t k unowned before
    · simp only [Fn.record] at written
      split at written
      next => cases written
      next null =>
          cases written
          exact apart _ (by simp [Action.files, null])
  · rw [events_fire, List.filter_append, view.events]
    have none : (emitted s a).filter (fun ev => P.owns ev.tid) = [] := by
      refine List.filter_eq_nil_iff.mpr fun ev mem => ?_
      rw [emitted] at mem
      split at mem
      · rw [tid_of_attempted (Option.mem_toList.mp mem), foreign]
        exact Bool.false_ne_true
      · cases mem
    rw [none, List.append_nil]

end

/-! ## Runs of all processes -/

structure Process.Traced (P : Process) (L : Limits) (h : History) (a : Action) : Prop where
  apart : P.Apart a
  inserts : InsertSucceeds ((tracer L).run h) a

instance (P : Process) (h : History) (a : Action) : Decidable (P.Traced L h a) :=
  decidable_of_iff (P.Apart a ∧ InsertSucceeds ((tracer L).run h) a)
    ⟨fun ⟨apart, inserts⟩ => ⟨apart, inserts⟩, fun ⟨apart, inserts⟩ => ⟨apart, inserts⟩⟩

theorem Process.projects {P : Process} {h : History} (law : Lawful (P.Traced L) h) :
    P.Projects ((tracer L).run h) ((tracer unlimited).run (P.own h)) := by
  induction h with
  | nil =>
      have empty (f : Fn) (t : UInt32) (L : Limits) :
          ((State.empty L).inflight f).get t = none := by
        cases f <;> exact HashMap.get_empty t
      refine ⟨?_, ?_, ?_, ?_, ?_, ?_, rfl⟩
      · exact fun f t _ => (empty f t L).trans (empty f t unlimited).symm
      · exact fun r _ => (LruHashMap.get_empty r).trans (LruHashMap.get_empty r).symm
      · exact fun k _ => (LruHashMap.get_empty k).trans (LruHashMap.get_empty k).symm
      · intro f t r _ found
        rw [System.run_nil, show (tracer L).init = State.empty L from rfl, empty] at found
        cases found
      · intro k oc _ found
        exact absurd (found.symm.trans (LruHashMap.get_empty k)) (by simp)
      · intro t k _ found
        exact absurd (found.symm.trans (HashMap.get_empty t)) (by simp)
  | cons a h ih =>
      have view := ih law.2
      have apart := law.1.apart
      unfold Process.Apart at apart
      cases own : P.owns a.thread with
      | true =>
          rw [if_pos own] at apart
          rw [Process.own, List.filter_cons, if_pos own]
          exact view.fire_own own apart law.1.inserts
      | false =>
          have foreign : ¬ P.owns a.thread = true := by
            rw [own]
            exact Bool.false_ne_true
          rw [if_neg foreign] at apart
          rw [Process.own, List.filter_cons, if_neg foreign]
          exact view.fire_foreign own apart

/-- Among the events of all processes those of one process are the events it would have when
traced alone, and what the maps hold for it is the same. -/
theorem traced_as_if_alone {P : Process} {h : History} (law : Lawful (P.Traced L) h) :
    ((tracer L).run h).events.filter (fun ev => P.owns ev.tid) =
        ((tracer unlimited).run (P.own h)).events ∧
      (∀ f t, P.owns t = true → (((tracer L).run h).inflight f).get t =
        (((tracer unlimited).run (P.own h)).inflight f).get t) ∧
      (∀ r, P.uses r = true → ((tracer L).run h).preparedStatements.get r =
        ((tracer unlimited).run (P.own h)).preparedStatements.get r) ∧
      ∀ k, P.uses k = true → ((tracer L).run h).openCursors.get k =
        ((tracer unlimited).run (P.own h)).openCursors.get k :=
  have view := Process.projects law
  ⟨view.events, view.inflight, view.prepared, view.cursors⟩

/-- Thread 8 of another process prepares a statement at an address of its own while thread 7
prepares and executes one. -/
def twoProcesses (address : UInt64) : History :=
  [.exit .execute (firing 7 60 {}),
    .entry .execute (firing 7 50 { rdx := 100 }),
    .exit .prepare (firing 8 40 { rax := address }),
    .exit .prepare (firing 7 30 { rax := 100 }),
    .entry .prepare (firing 8 20 { rsi := 6 }),
    .entry .prepare (firing 7 10 { rsi := 5 })]

theorem twoProcesses_apart :
    ((tracer declared).run (twoProcesses 200)).events.filter (fun ev => ev.tid == 7) =
      ((tracer unlimited).run
        (Process.own ⟨(· == 7), (· == 100)⟩ (twoProcesses 200))).events :=
  (traced_as_if_alone (P := ⟨(· == 7), (· == 100)⟩) (by decide +kernel)).1

/-- At an address that both processes use, the event of one carries the statement of the
other. -/
example : ((tracer declared).run (twoProcesses 100)).events.map (fun ev => ev.attachmentId) = [6] ∧
    ((tracer unlimited).run
      (Process.own ⟨(· == 7), (· == 100)⟩ (twoProcesses 100))).events.map
        (fun ev => ev.attachmentId) = [5] := by
  decide +kernel

end Tragach.Slowquery
