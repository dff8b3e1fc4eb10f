import Tragach.Slowquery.Actions

/-! # Attribution refines the history

The history alone, without any map, says which activation of a function is in
progress on a thread, which statement the latest prepare that returned a request
filed, and which `openCursor` opened a cursor. As long as no function is
re-entered on a thread while it is in progress there, the maps agree with the
history, and every event carries the times and the statement of its own call.
-/

namespace Tragach.Slowquery

open Bpf Common Library

/-! ## What the history says -/

/-- One call of a probed function: the firings of its entry and of the exit that
closes it. -/
structure Call where
  entry : Ctx
  exit : Ctx

def Call.elapsed (x : Call) : UInt64 := x.exit.ktime - x.entry.ktime

def Call.statement (x : Call) : PreparedStatement where
  attachmentPtr := x.entry.regs.rsi
  prepareNs := x.elapsed
  sqlLen := (capture x.entry).sqlLen
  sqlTruncated := (capture x.entry).sqlTruncated
  sql := (capture x.entry).sql

def Call.event (x : Call) (p : Option PreparedStatement) : SlowQueryEvent where
  tsNs := x.exit.ktime
  prepareNs := (p.map PreparedStatement.prepareNs).getD 0
  executeNs := x.elapsed
  attachmentId := (p.map PreparedStatement.attachmentPtr).getD 0
  tid := x.exit.tid
  sqlLen := (p.map PreparedStatement.sqlLen).getD 0
  sqlTruncated := (p.map PreparedStatement.sqlTruncated).getD 0
  pad := 0
  sql := (p.map PreparedStatement.sql).getD SqlBuf.zeroed

/-- The event owed for a call of `DSQL_execute_immediate`, which carries its own
statement. -/
def Call.immediateEvent (x : Call) : SlowQueryEvent where
  tsNs := x.exit.ktime
  prepareNs := 0
  executeNs := x.elapsed
  attachmentId := x.entry.regs.rsi
  tid := x.exit.tid
  sqlLen := (capture x.entry).sqlLen
  sqlTruncated := (capture x.entry).sqlTruncated
  pad := 0
  sql := (capture x.entry).sql

/-- Entries open an activation; returns and exceptions close it. -/
def activations : Journal Action (Fn × UInt32) Ctx := fun _ a k =>
  match a with
  | .entry f c => if k = (f, c.tid) then .put c else .keep
  | .exit f c => if k = (f, c.tid) then .drop else .keep
  | .abandon f t => if k = (f, t) then .drop else .keep

def inProgress (f : Fn) (t : UInt32) (h : History) : Option Ctx := activations.replay h (f, t)

/-- A prepare that returns the request `r` files its statement there, and any insert
may drop the statement of any request. -/
def filings : Journal Action UInt64 PreparedStatement := fun h a r =>
  match a with
  | .exit .prepare c =>
      match inProgress .prepare c.tid h with
      | some e =>
          if c.regs.rax = 0 then .keep
          else LruHashMap.insertOp true c.evicted c.regs.rax (Call.statement ⟨e, c⟩) r
      | none => .keep
  | _ => .keep

/-- An `openCursor` that returns the cursor `k` opens it, an end of file on `k`
closes it, and any insert may drop any cursor. -/
def openings : Journal Action UInt64 Ctx := fun h a k =>
  match a with
  | .exit .openCursor c =>
      match inProgress .openCursor c.tid h with
      | some e =>
          if c.regs.rax = 0 then .keep
          else LruHashMap.insertOp true c.evicted c.regs.rax e k
      | none => .keep
  | .exit .fetchNext c =>
      match inProgress .fetchNext c.tid h with
      | some e => if c.regs.rax = 1 ∧ k = e.regs.rdi then .drop else .keep
      | none => .keep
  | _ => .keep

/-! ## The runs considered -/

/-- The clock never goes back. -/
def Timely (h : History) (a : Action) : Prop :=
  ∀ b ∈ h, ∀ t ∈ b.time?, ∀ t' ∈ a.time?, t ≤ t'

/-- No function is entered on a thread while it is in progress there, and only an
activation in progress ends. -/
def Alternating (h : History) : Action → Prop
  | .entry f c => (inProgress f c.tid h).isNone
  | .exit f c => (inProgress f c.tid h).isSome
  | .abandon f t => (inProgress f t h).isSome

def NonNull : Action → Prop
  | .entry .execute c => c.regs.rdx ≠ 0
  | .entry .openCursor c => c.regs.rdi ≠ 0
  | .entry .fetchNext c => c.regs.rdi ≠ 0
  | _ => True

variable {L : Limits}

def InsertSucceeds (s : State L) : Action → Prop
  | .entry f c => (s.inflight f).accepts c.tid = true
  | .exit .prepare c => c.regs.rax ≠ 0 → s.preparedStatements.accepts c.regs.rax c.evicted = true
  | .exit .openCursor c => c.regs.rax ≠ 0 → s.openCursors.accepts c.regs.rax c.evicted = true
  | _ => True

def ReserveSucceeds (s : State L) (a : Action) : Prop :=
  (attempted s a).isSome → a.reserved = true

structure Admissible (L : Limits) (h : History) (a : Action) : Prop where
  timely : Timely h a
  alternating : Alternating h a
  nonNull : NonNull a
  inserts : InsertSucceeds ((tracer L).run h) a
  reserves : ReserveSucceeds ((tracer L).run h) a

section

instance (h : History) (a : Action) : Decidable (Timely h a) :=
  have (b : Action) : Decidable (∀ t ∈ b.time?, ∀ t' ∈ a.time?, t ≤ t') :=
    have (t : UInt64) : Decidable (∀ t' ∈ a.time?, t ≤ t') := Option.decidableForallMem a.time?
    Option.decidableForallMem b.time?
  List.decidableBAll _ h

instance (h : History) : ∀ a, Decidable (Alternating h a)
  | .entry f c => inferInstanceAs (Decidable ((inProgress f c.tid h).isNone = true))
  | .exit f c => inferInstanceAs (Decidable ((inProgress f c.tid h).isSome = true))
  | .abandon f t => inferInstanceAs (Decidable ((inProgress f t h).isSome = true))

instance : ∀ a, Decidable (NonNull a)
  | .entry .execute c => inferInstanceAs (Decidable (c.regs.rdx ≠ 0))
  | .entry .openCursor c => inferInstanceAs (Decidable (c.regs.rdi ≠ 0))
  | .entry .fetchNext c => inferInstanceAs (Decidable (c.regs.rdi ≠ 0))
  | .entry .prepare _ => .isTrue trivial
  | .entry .executeImmediate _ => .isTrue trivial
  | .exit _ _ => .isTrue trivial
  | .abandon _ _ => .isTrue trivial

instance (s : State L) : ∀ a, Decidable (InsertSucceeds s a)
  | .entry f c => inferInstanceAs (Decidable ((s.inflight f).accepts c.tid = true))
  | .exit .prepare c => inferInstanceAs (Decidable (c.regs.rax ≠ 0 →
      s.preparedStatements.accepts c.regs.rax c.evicted = true))
  | .exit .openCursor c => inferInstanceAs (Decidable (c.regs.rax ≠ 0 →
      s.openCursors.accepts c.regs.rax c.evicted = true))
  | .exit .execute _ => .isTrue trivial
  | .exit .executeImmediate _ => .isTrue trivial
  | .exit .fetchNext _ => .isTrue trivial
  | .abandon _ _ => .isTrue trivial

instance (s : State L) (a : Action) : Decidable (ReserveSucceeds s a) := by
  unfold ReserveSucceeds
  infer_instance

instance (h : History) (a : Action) : Decidable (Admissible L h a) :=
  decidable_of_iff (Timely h a ∧ Alternating h a ∧ NonNull a ∧
      InsertSucceeds ((tracer L).run h) a ∧ ReserveSucceeds ((tracer L).run h) a)
    ⟨fun ⟨t, b, n, i, r⟩ => ⟨t, b, n, i, r⟩, fun ⟨t, b, n, i, r⟩ => ⟨t, b, n, i, r⟩⟩

end

/-! ## The maps agree with the history -/

private theorem fillScratch_fields (c : Ctx) (a l p : UInt64) (scratch : WithSql) :
    (fillScratch c a l p scratch).tsNs = c.ktime ∧
      (fillScratch c a l p scratch).attachmentPtr = a := by
  unfold fillScratch
  dsimp only
  split
  · split <;> split <;> exact ⟨rfl, rfl⟩
  · exact ⟨rfl, rfl⟩

@[simp] theorem capture_tsNs (c : Ctx) : (capture c).tsNs = c.ktime :=
  (fillScratch_fields c _ _ _ _).1

@[simp] theorem capture_attachmentPtr (c : Ctx) : (capture c).attachmentPtr = c.regs.rsi :=
  (fillScratch_fields c _ _ _ _).2

theorem Call.statement_eq {x : Call} (order : x.entry.ktime ≤ x.exit.ktime) :
    (capture x.entry).statement x.exit = x.statement := by
  simp [WithSql.statement, Call.statement, Call.elapsed, saturatingSub_of_le order]

theorem Call.event_eq {x : Call} (order : x.entry.ktime ≤ x.exit.ktime)
    (p : Option PreparedStatement) :
    statementEvent x.exit x.entry.ktime p = x.event p := by
  simp [statementEvent, Call.event, Call.elapsed, saturatingSub_of_le order]

theorem Call.immediateEvent_eq {x : Call} (order : x.entry.ktime ≤ x.exit.ktime) :
    Slowquery.immediateEvent x.exit (capture x.entry) = x.immediateEvent := by
  simp [Slowquery.immediateEvent, Call.immediateEvent, Call.elapsed, saturatingSub_of_le order]

/-- An activation in progress was entered on its own thread. -/
theorem inProgress_entered {f : Fn} {t : UInt32} {h : History} {e : Ctx}
    (live : inProgress f t h = some e) : .entry f e ∈ h ∧ e.tid = t := by
  obtain ⟨post, a, pre, rfl, put, -⟩ := Journal.replay_eq_some_iff.mp live
  cases a with
  | entry g c =>
      simp only [activations] at put
      split at put
      next key =>
          cases put
          cases key
          exact ⟨by simp, rfl⟩
      next => cases put
  | exit g c => simp only [activations] at put; split at put <;> cases put
  | abandon g u => simp only [activations] at put; split at put <;> cases put

theorem openings_put_iff {h : History} {a : Action} {k : UInt64} {o : Ctx} :
    openings h a k = .put o ↔
      ∃ c, a = .exit .openCursor c ∧ inProgress .openCursor c.tid h = some o ∧
        c.regs.rax = k ∧ k ≠ 0 ∧ k ∉ c.evicted := by
  constructor
  · intro put
    unfold openings at put
    split at put
    next c =>
        cases live : inProgress .openCursor c.tid h with
        | none => simp [live] at put
        | some e =>
            simp only [live, LruHashMap.insertOp, if_true] at put
            by_cases null : c.regs.rax = 0
            · simp [null] at put
            · by_cases evicted : k ∈ c.evicted
              · simp [null, evicted] at put
              · by_cases same : k = c.regs.rax
                · rw [if_neg null, if_neg evicted, if_pos same] at put
                  cases put
                  exact ⟨c, rfl, live, same.symm, same ▸ null, evicted⟩
                · simp [null, evicted, same] at put
    next c =>
        cases live : inProgress .fetchNext c.tid h with
        | none => simp [live] at put
        | some e => simp only [live] at put; split at put <;> cases put
    next => cases put
  · intro found
    rcases found with ⟨c, rfl, live, rfl, notNull, kept⟩
    simp [openings, live, LruHashMap.insertOp, notNull, kept]

/-- A cursor is open exactly when an `openCursor` returned it and nothing since has
returned it again, ended it or dropped it. -/
theorem openings_iff {k : UInt64} {h : History} {o : Ctx} :
    openings.replay h k = some o ↔
      ∃ post c pre, h = post ++ .exit .openCursor c :: pre ∧
        inProgress .openCursor c.tid pre = some o ∧ c.regs.rax = k ∧ k ≠ 0 ∧ k ∉ c.evicted ∧
        openings.Kept k (.exit .openCursor c :: pre) post := by
  rw [Journal.replay_eq_some_iff]
  constructor
  · intro found
    rcases found with ⟨post, a, pre, rfl, put, kept⟩
    obtain ⟨c, rfl, live, returned, notNull, notEvicted⟩ := openings_put_iff.mp put
    exact ⟨post, c, pre, rfl, live, returned, notNull, notEvicted, kept⟩
  · intro found
    rcases found with ⟨post, c, pre, rfl, live, returned, notNull, notEvicted, kept⟩
    exact ⟨post, _, pre, rfl,
      openings_put_iff.mpr ⟨c, rfl, live, returned, notNull, notEvicted⟩, kept⟩

theorem openings_entered {k : UInt64} {h : History} {o : Ctx}
    (opened : openings.replay h k = some o) : .entry .openCursor o ∈ h := by
  obtain ⟨post, c, pre, rfl, live, -⟩ := openings_iff.mp opened
  simp [(inProgress_entered live).1]

theorem Timely.le {h : History} {f g : Fn} {e c : Ctx} (timely : Timely h (.exit g c))
    (entered : .entry f e ∈ h) : e.ktime ≤ c.ktime :=
  timely _ entered _ rfl _ rfl

/-- The maps agree with what the history says. -/
structure Tracks (h : History) (s : State L) : Prop where
  inflight : ∀ f t e, inProgress f t h = some e → (s.inflight f).get t = f.record e
  recorded : ∀ f t e, inProgress f t h = some e → NonNull (.entry f e)
  prepared : ∀ r, s.preparedStatements.get r = filings.replay h r
  cursors : ∀ k, s.openCursors.get k =
    (openings.replay h k).map fun o => ⟨o.ktime, o.regs.rdi⟩

theorem record_of_nonNull {f : Fn} {c : Ctx} (nonNull : NonNull (.entry f c)) :
    (f.record c).isSome := by
  cases f with
  | execute => simpa [Fn.record, NonNull] using nonNull
  | fetchNext => simpa [Fn.record, NonNull] using nonNull
  | prepare => rfl
  | executeImmediate => rfl
  | openCursor => rfl

section

variable {h : History} {s : State L} {a : Action}

theorem inflight_step (tracks : Tracks h s) (nonNull : NonNull a)
    (succeeds : InsertSucceeds s a) (f : Fn) (t : UInt32) (e : Ctx)
    (live : inProgress f t (a :: h) = some e) : ((fire s a).inflight f).get t = f.record e := by
  rw [get_inflight_fire]
  rw [inProgress, Journal.replay_cons] at live
  cases a with
  | entry g c =>
      simp only [activations] at live
      split at live
      next key =>
          cases key
          cases live
          obtain ⟨r, hr⟩ := Option.isSome_iff_exists.mp (record_of_nonNull nonNull)
          have room : (s.inflight f).accepts e.tid = true := succeeds
          simp [inflightOp, hr, HashMap.insertOp, room]
      next other =>
          have same := tracks.inflight f t e live
          simp only [inflightOp, HashMap.insertOp]
          cases f.record c with
          | none => exact same
          | some r =>
              dsimp only
              split
              next fn =>
                  rw [if_neg (fun both => other (by rw [fn, both.2]))]
                  exact same
              next => exact same
  | exit g c =>
      simp only [activations] at live
      split at live
      next => cases live
      next other =>
          simp only [inflightOp]
          rw [if_neg (fun both => other (by rw [both.1, both.2]))]
          exact tracks.inflight f t e live
  | abandon g u =>
      simp only [activations] at live
      split at live
      next => cases live
      next => exact tracks.inflight f t e live

theorem recorded_step (tracks : Tracks h s) (nonNull : NonNull a) (f : Fn) (t : UInt32) (e : Ctx)
    (live : inProgress f t (a :: h) = some e) : NonNull (.entry f e) := by
  rw [inProgress, Journal.replay_cons] at live
  cases a with
  | entry g c =>
      simp only [activations] at live
      split at live
      next key =>
          cases key
          cases live
          exact nonNull
      next => exact tracks.recorded f t e live
  | exit g c =>
      simp only [activations] at live
      split at live
      next => cases live
      next => exact tracks.recorded f t e live
  | abandon g u =>
      simp only [activations] at live
      split at live
      next => cases live
      next => exact tracks.recorded f t e live

/-- The record an exit finds is the one its own entry left. -/
theorem own_record (tracks : Tracks h s) {f : Fn} {c : Ctx}
    (alternating : Alternating h (.exit f c)) :
    ∃ e, inProgress f c.tid h = some e ∧ NonNull (.entry f e) ∧
      (s.inflight f).get c.tid = f.record e := by
  obtain ⟨e, live⟩ := Option.isSome_iff_exists.mp alternating
  exact ⟨e, live, tracks.recorded _ _ _ live, tracks.inflight _ _ _ live⟩

theorem preparedOp_eq_filings (tracks : Tracks h s) (timely : Timely h a)
    (alternating : Alternating h a) (succeeds : InsertSucceeds s a) (r : UInt64) :
    preparedOp s a r = filings h a r := by
  match a with
  | .exit .prepare c =>
      obtain ⟨e, live, -, own⟩ := own_record tracks alternating
      have own : s.prepareInProgress.get c.tid = some (capture e) := own
      have order : e.ktime ≤ c.ktime := timely.le (inProgress_entered live).1
      simp only [preparedOp, filings, live, own]
      split
      next => rfl
      next notNull =>
          rw [succeeds notNull, Call.statement_eq (x := ⟨e, c⟩) order]
  | .exit .execute c => rfl
  | .exit .executeImmediate c => rfl
  | .exit .openCursor c => rfl
  | .exit .fetchNext c => rfl
  | .entry f c => rfl
  | .abandon f t => rfl

theorem cursor_step (tracks : Tracks h s) (alternating : Alternating h a)
    (succeeds : InsertSucceeds s a) (k : UInt64) :
    (fire s a).openCursors.get k =
      (openings.replay (a :: h) k).map fun o => ⟨o.ktime, o.regs.rdi⟩ := by
  rw [get_openCursors_fire, Journal.replay_cons, tracks.cursors k]
  match a with
  | .exit .openCursor c =>
      obtain ⟨e, live, -, own⟩ := own_record tracks alternating
      have own : s.openCursorInProgress.get c.tid = some ⟨e.ktime, e.regs.rdi⟩ := own
      simp only [cursorOp, openings, live, own]
      split
      next => rfl
      next notNull =>
          rw [succeeds notNull]
          simp only [LruHashMap.insertOp, if_true]
          split
          · rfl
          · split <;> rfl
  | .exit .fetchNext c =>
      obtain ⟨e, live, nonNull, own⟩ := own_record tracks alternating
      have own : s.fetchInProgress.get c.tid = some e.regs.rdi :=
        own.trans (if_neg nonNull)
      simp only [cursorOp, openings, live, own]
      split <;> rfl
  | .exit .prepare c => rfl
  | .exit .execute c => rfl
  | .exit .executeImmediate c => rfl
  | .entry f c => rfl
  | .abandon f t => rfl

end

/-- The maps agree with the history in every admissible run. -/
theorem run_tracks {h : History} (law : Lawful (Admissible L) h) :
    Tracks h ((tracer L).run h) := by
  refine (tracer L).invariant (I := Tracks) ?_ ?_ h law
  · refine ⟨?_, ?_, fun r => LruHashMap.get_empty r, fun k => LruHashMap.get_empty k⟩
    · intro f t e live
      cases live
    · intro f t e live
      cases live
  · intro h a ok _ tracks
    refine ⟨inflight_step tracks ok.nonNull ok.inserts, recorded_step tracks ok.nonNull, ?_,
      cursor_step tracks ok.alternating ok.inserts⟩
    intro r
    rw [tracer_step, get_preparedStatements_fire, tracks.prepared r, Journal.replay_cons,
      preparedOp_eq_filings tracks ok.timely ok.alternating ok.inserts r]

/-! ## Events owed by the history -/

/-- What an action owes the ring after the history `h`: one event for the exit of an
execution, one for the end of file of a cursor that is open, nothing else. -/
inductive Owed (h : History) : Action → List SlowQueryEvent → Prop
  | execute {c e : Ctx} : inProgress .execute c.tid h = some e → e.ktime ≤ c.ktime →
      Owed h (.exit .execute c) [Call.event ⟨e, c⟩ (filings.replay h e.regs.rdx)]
  | executeImmediate {c e : Ctx} : inProgress .executeImmediate c.tid h = some e →
      e.ktime ≤ c.ktime → Owed h (.exit .executeImmediate c) [Call.immediateEvent ⟨e, c⟩]
  | endOfFile {c e o : Ctx} : c.regs.rax = 1 → inProgress .fetchNext c.tid h = some e →
      openings.replay h e.regs.rdi = some o → o.ktime ≤ c.ktime →
      Owed h (.exit .fetchNext c) [Call.event ⟨o, c⟩ (filings.replay h o.regs.rdi)]
  | unopened {c e : Ctx} : c.regs.rax = 1 → inProgress .fetchNext c.tid h = some e →
      openings.replay h e.regs.rdi = none → Owed h (.exit .fetchNext c) []
  | row {c : Ctx} : c.regs.rax ≠ 1 → Owed h (.exit .fetchNext c) []
  | prepare {c : Ctx} : Owed h (.exit .prepare c) []
  | openCursor {c : Ctx} : Owed h (.exit .openCursor c) []
  | entry {f : Fn} {c : Ctx} : Owed h (.entry f c) []
  | abandon {f : Fn} {t : UInt32} : Owed h (.abandon f t) []

theorem attempted_owed {h : History} {s : State L} {a : Action} (tracks : Tracks h s)
    (timely : Timely h a) (alternating : Alternating h a) :
    Owed h a (attempted s a).toList := by
  match a with
  | .exit .execute c =>
      obtain ⟨e, live, nonNull, own⟩ := own_record tracks alternating
      have own : s.executeInProgress.get c.tid = some ⟨e.ktime, e.regs.rdx⟩ :=
        own.trans (if_neg nonNull)
      have order : e.ktime ≤ c.ktime := timely.le (inProgress_entered live).1
      simp only [attempted, own, tracks.prepared]
      rw [Call.event_eq (x := ⟨e, c⟩) order]
      exact .execute live order
  | .exit .executeImmediate c =>
      obtain ⟨e, live, -, own⟩ := own_record tracks alternating
      have own : s.immediateInProgress.get c.tid = some (capture e) := own
      have order : e.ktime ≤ c.ktime := timely.le (inProgress_entered live).1
      simp only [attempted, own]
      rw [Call.immediateEvent_eq (x := ⟨e, c⟩) order]
      exact .executeImmediate live order
  | .exit .fetchNext c =>
      obtain ⟨e, live, nonNull, own⟩ := own_record tracks alternating
      have own : s.fetchInProgress.get c.tid = some e.regs.rdi := own.trans (if_neg nonNull)
      by_cases eof : c.regs.rax = 1
      · simp only [attempted, own, eof, if_true, tracks.cursors]
        cases opened : openings.replay h e.regs.rdi with
        | none => exact .unopened eof live opened
        | some o =>
            have order : o.ktime ≤ c.ktime := timely.le (openings_entered opened)
            simp only [Option.map_some, tracks.prepared]
            rw [Call.event_eq (x := ⟨o, c⟩) order]
            exact .endOfFile eof live opened order
      · simp only [attempted, own, eof, if_false]
        exact .row eof
  | .exit .prepare c => exact .prepare
  | .exit .openCursor c => exact .openCursor
  | .entry f c => exact .entry
  | .abandon f t => exact .abandon

theorem emitted_of_reserve {s : State L} {a : Action} (reserves : ReserveSucceeds s a) :
    emitted s a = (attempted s a).toList := by
  unfold emitted
  cases event : attempted s a with
  | none => simp
  | some ev => rw [if_pos (reserves (by simp [event]))]

/-- Every action of an admissible run emits exactly what the history before it owes. -/
theorem attribution_refines_history {h : History} (law : Lawful (Admissible L) h) :
    ∀ post a pre, h = post ++ a :: pre → ∃ owed, Owed pre a owed ∧
      ((tracer L).run (a :: pre)).events = ((tracer L).run pre).events ++ owed := by
  intro post a pre split
  subst split
  obtain ⟨ok, law⟩ := law.of_append
  refine ⟨_, attempted_owed (run_tracks law) ok.timely ok.alternating, ?_⟩
  rw [System.run_cons, tracer_step, events_fire, emitted_of_reserve ok.reserves]

/-- A statement prepared once and executed after an abandoned attempt, then read
through a cursor to its end. -/
def sampleRun : History :=
  [.exit .fetchNext (firing 7 90 { rax := 1 }),
    .entry .fetchNext (firing 7 80 { rdi := 200 }),
    .exit .openCursor (firing 7 70 { rax := 200 }),
    .entry .openCursor (firing 7 60 { rdi := 100 }),
    .exit .execute (firing 7 50 {}),
    .entry .execute (firing 7 40 { rdx := 100 }),
    .abandon .execute 7,
    .entry .execute (firing 7 30 { rdx := 100 }),
    .exit .prepare (firing 7 20 { rax := 100 }),
    .entry .prepare (firing 7 10 { rsi := 5, r8 := 1 })]

theorem sampleRun_owed :
    ∃ owed, Owed sampleRun.tail (.exit .fetchNext (firing 7 90 { rax := 1 })) owed ∧
      ((tracer declared).run sampleRun).events =
        ((tracer declared).run sampleRun.tail).events ++ owed :=
  attribution_refines_history (h := sampleRun) (by decide +kernel) [] _ _ rfl

end Tragach.Slowquery
