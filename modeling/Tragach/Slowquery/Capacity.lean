import Tragach.Slowquery.StaleRecords

/-! # Exhausted capacity

A prepare whose entry found the in-flight map full leaves no record, and its exit
then leaves the statement filed under the returned request as it was. When the
request address had been returned before, the older statement stays on file. Every
other refusal only costs information: the events carry the unknown form.
-/

namespace Tragach.Slowquery

open Bpf Common Library

variable {L : Limits}

/-! ## The statement of a request -/

/-- The statement of the latest prepare that returned the request `r`, tracked or not. -/
def returnedStatements : Journal Action UInt64 PreparedStatement := fun h a r =>
  match a with
  | .exit .prepare c =>
      match (frames c.tid h).head? with
      | some X =>
          if c.regs.rax ≠ 0 ∧ r = c.regs.rax then .put (Call.statement ⟨X.ctx, c⟩) else .keep
      | none => .keep
  | _ => .keep

def statementOf (ev : SlowQueryEvent) : PreparedStatement :=
  ⟨ev.attachmentId, ev.prepareNs, ev.sqlLen, ev.sqlTruncated, ev.sql⟩

/-- The unknown form: no statement was on file. -/
def unknownStatement : PreparedStatement := ⟨0, 0, 0, 0, SqlBuf.zeroed⟩

def requestOf (s : State L) : Action → Option UInt64
  | .exit .execute c => (s.executeInProgress.get c.tid).map ExecuteEntry.dsqlRequestPtr
  | .exit .fetchNext c =>
      ((s.fetchInProgress.get c.tid).bind s.openCursors.get).map OpenCursor.dsqlRequestPtr
  | _ => none

/-- An execute or cursor event carries the statement of the latest prepare that
returned its request, or the unknown form. -/
def RightStatement (L : Limits) (h : History) (a : Action) : Prop :=
  ∀ ev ∈ emitted ((tracer L).run h) a, ∀ r ∈ requestOf ((tracer L).run h) a,
    statementOf ev = unknownStatement ∨ returnedStatements.replay h r = some (statementOf ev)

/-! ## The runs considered -/

/-- The kernel makes room for an insert into an LRU map. -/
def LruMakesRoom (s : State L) : Action → Prop
  | .exit .prepare c => c.regs.rax ≠ 0 → s.preparedStatements.accepts c.regs.rax c.evicted = true
  | .exit .openCursor c => c.regs.rax ≠ 0 → s.openCursors.accepts c.regs.rax c.evicted = true
  | _ => True

/-- Any calls, abandoned or not, on maps that may refuse inserts of new keys. -/
structure Bounded (L : Limits) (h : History) (a : Action) : Prop where
  timely : Timely h a
  nested : Nested h a
  lru : LruMakesRoom ((tracer L).run h) a

/-- Whether the latest prepare that returned a request was tracked: its exit found the
record of its own entry. -/
def trackedReturns (L : Limits) : Journal Action UInt64 Bool := fun h a r =>
  match a with
  | .exit .prepare c =>
      match (frames c.tid h).head? with
      | some X =>
          if c.regs.rax ≠ 0 ∧ r = c.regs.rax then
            .put (decide ((lastRecorded L .prepare).replay h c.tid = some X.id))
          else .keep
      | none => .keep
  | _ => .keep

/-- The request of an event that is emitted has no statement on file, or the latest prepare
that returned it was tracked. -/
def StatementTracked (L : Limits) (h : History) (a : Action) : Prop :=
  emitted ((tracer L).run h) a ≠ [] → ∀ r ∈ requestOf ((tracer L).run h) a,
    ((tracer L).run h).preparedStatements.get r = none ∨
      (trackedReturns L).replay h r = some true

section

instance (s : State L) : ∀ a, Decidable (LruMakesRoom s a)
  | .exit .prepare c => inferInstanceAs (Decidable (c.regs.rax ≠ 0 →
      s.preparedStatements.accepts c.regs.rax c.evicted = true))
  | .exit .openCursor c => inferInstanceAs (Decidable (c.regs.rax ≠ 0 →
      s.openCursors.accepts c.regs.rax c.evicted = true))
  | .exit .execute _ => .isTrue trivial
  | .exit .executeImmediate _ => .isTrue trivial
  | .exit .fetchNext _ => .isTrue trivial
  | .entry _ _ => .isTrue trivial
  | .abandon _ _ => .isTrue trivial

instance (h : History) (a : Action) : Decidable (Bounded L h a) :=
  decidable_of_iff (Timely h a ∧ Nested h a ∧ LruMakesRoom ((tracer L).run h) a)
    ⟨fun ⟨t, n, l⟩ => ⟨t, n, l⟩, fun ⟨t, n, l⟩ => ⟨t, n, l⟩⟩

instance (h : History) (a : Action) : Decidable (StatementTracked L h a) :=
  have : Decidable (emitted ((tracer L).run h) a = []) :=
    decidable_of_iff _ (List.isEmpty_iff (l := emitted ((tracer L).run h) a))
  have : Decidable (∀ r ∈ requestOf ((tracer L).run h) a,
      ((tracer L).run h).preparedStatements.get r = none ∨
        (trackedReturns L).replay h r = some true) :=
    Option.decidableForallMem (requestOf ((tracer L).run h) a)
  inferInstanceAs (Decidable (emitted ((tracer L).run h) a ≠ [] → _))

end

/-! ## Statements on file -/

section

variable {h : History}

theorem inflight_own_of_lastRecorded {f : Fn} {t : UInt32} {X : Frame} (mem : X ∈ frames t h)
    (own : X.fn = f) (latest : (lastRecorded L f).replay h t = some X.id) :
    (((tracer L).run h).inflight f).get t = f.record X.ctx := by
  obtain ⟨-, post', pre', split', id'⟩ := frames_entered mem
  obtain ⟨r, c, post, pre, split, id, put, kept⟩ := lastRecorded_written latest
  obtain ⟨same, -⟩ := position_unique split split' (id.trans id'.symm)
  obtain ⟨c', same', -, record, -⟩ := inflightCells_put_iff.mp put
  subst own
  cases same
  cases same'
  rw [inflight_written.mpr ⟨X.ctx, post, pre, split, put, kept⟩, record]

/-- A statement on file is that of the latest prepare that returned its request, if that
prepare was tracked. -/
def FilesTracked (L : Limits) (h : History) (s : State L) : Prop :=
  ∀ r p, s.preparedStatements.get r = some p → (trackedReturns L).replay h r = some true →
    returnedStatements.replay h r = some p

theorem filesTracked_prepare {c : Ctx} (ok : Bounded L h (.exit .prepare c))
    (files : FilesTracked L h ((tracer L).run h)) :
    FilesTracked L (.exit .prepare c :: h) (fire ((tracer L).run h) (.exit .prepare c)) := by
  obtain ⟨X, rest, stack, own⟩ := innermost_cons ok.nested
  have mem : X ∈ frames c.tid h := by simp [stack]
  have order : X.ctx.ktime ≤ c.ktime := ok.timely.le (frames_mem_entry mem)
  intro r p held tracked
  rw [get_preparedStatements_fire] at held
  simp only [Journal.replay_cons, trackedReturns, stack, List.head?_cons] at tracked
  simp only [Journal.replay_cons, returnedStatements, stack, List.head?_cons]
  by_cases returned : c.regs.rax ≠ 0 ∧ r = c.regs.rax
  · rcases returned with ⟨notNull, rfl⟩
    rw [if_pos ⟨notNull, rfl⟩, CellOp.apply_put, Option.some.injEq, decide_eq_true_eq] at tracked
    have found : ((tracer L).run h).prepareInProgress.get c.tid = some (capture X.ctx) :=
      inflight_own_of_lastRecorded mem own tracked
    simp only [preparedOp, found, if_neg notNull, ok.lru notNull, LruHashMap.insertOp, if_true,
      Call.statement_eq (x := ⟨X.ctx, c⟩) order] at held
    rw [if_pos ⟨notNull, rfl⟩, CellOp.apply_put]
    split at held
    · cases held
    · exact held
  · rw [if_neg returned, CellOp.apply_keep] at tracked ⊢
    refine files r p ?_ tracked
    -- whatever record the exit found, it was filed under another request
    cases found : ((tracer L).run h).prepareInProgress.get c.tid with
    | none => simpa [preparedOp, found] using held
    | some e =>
        by_cases null : c.regs.rax = 0
        · simpa [preparedOp, found, null] using held
        · have other : r ≠ c.regs.rax := fun same => returned ⟨null, same⟩
          simp only [preparedOp, found, if_neg null, LruHashMap.insertOp, if_neg other] at held
          split at held
          · split at held
            · cases held
            · exact held
          · exact held

theorem run_filesTracked (law : Lawful (Bounded L) h) : FilesTracked L h ((tracer L).run h) := by
  refine (tracer L).invariant (I := FilesTracked L) ?_ ?_ h law
  · intro r p held
    simp [tracer, State.empty] at held
  · intro h a ok _ files
    have keep (same : ∀ r, preparedOp ((tracer L).run h) a r = .keep)
        (tracks : ∀ r, trackedReturns L h a r = .keep)
        (returns : ∀ r, returnedStatements h a r = .keep) :
        FilesTracked L (a :: h) (fire ((tracer L).run h) a) := by
      intro r p held tracked
      rw [get_preparedStatements_fire, same] at held
      rw [Journal.replay_cons, tracks] at tracked
      rw [Journal.replay_cons, returns]
      exact files r p held tracked
    match a with
    | .exit .prepare c => exact filesTracked_prepare ok files
    | .exit .execute c => exact keep (fun _ => rfl) (fun _ => rfl) fun _ => rfl
    | .exit .executeImmediate c => exact keep (fun _ => rfl) (fun _ => rfl) fun _ => rfl
    | .exit .openCursor c => exact keep (fun _ => rfl) (fun _ => rfl) fun _ => rfl
    | .exit .fetchNext c => exact keep (fun _ => rfl) (fun _ => rfl) fun _ => rfl
    | .entry f c => exact keep (fun _ => rfl) (fun _ => rfl) fun _ => rfl
    | .abandon f t => exact keep (fun _ => rfl) (fun _ => rfl) fun _ => rfl

end

/-! ## Events -/

theorem statementOf_statementEvent (c : Ctx) (startNs : UInt64) (p : Option PreparedStatement) :
    statementOf (statementEvent c startNs p) = p.getD unknownStatement := by
  cases p <;> rfl

theorem emitted_statement {s : State L} {a : Action} {ev : SlowQueryEvent}
    (mem : ev ∈ emitted s a) {r : UInt64} (request : r ∈ requestOf s a) :
    statementOf ev = (s.preparedStatements.get r).getD unknownStatement := by
  unfold emitted at mem
  split at mem
  next =>
      match a with
      | .exit .execute c =>
          cases found : s.executeInProgress.get c.tid with
          | none => simp [requestOf, found] at request
          | some e =>
              simp only [requestOf, found, Option.map_some, Option.mem_some_iff] at request
              simp only [attempted, found, Option.mem_toList, Option.some.injEq] at mem
              subst request mem
              exact statementOf_statementEvent c e.tsNs _
      | .exit .fetchNext c =>
          cases found : s.fetchInProgress.get c.tid with
          | none => simp [requestOf, found] at request
          | some cursor =>
              cases opened : s.openCursors.get cursor with
              | none => simp [requestOf, found, opened] at request
              | some oc =>
                  simp only [requestOf, found, Option.bind_some, opened, Option.map_some,
                    Option.mem_some_iff] at request
                  simp only [attempted, found, opened] at mem
                  split at mem
                  · simp only [Option.mem_toList, Option.some.injEq] at mem
                    subst request mem
                    exact statementOf_statementEvent c oc.openTsNs _
                  · cases mem
      | .exit .prepare c => cases request
      | .exit .executeImmediate c => cases request
      | .exit .openCursor c => cases request
      | .entry f c => cases request
      | .abandon f t => cases request
  next => cases mem

theorem rightStatement_of_tracked {h : History} {a : Action} (law : Lawful (Bounded L) h)
    (tracked : StatementTracked L h a) : RightStatement L h a := by
  intro ev mem r request
  have carried := emitted_statement mem request
  cases filed : ((tracer L).run h).preparedStatements.get r with
  | none => exact .inl (by rw [carried, filed]; rfl)
  | some p =>
      refine .inr ?_
      rw [carried, filed, Option.getD_some]
      rcases tracked (List.ne_nil_of_mem mem) r request with unfiled | tracked
      · rw [filed] at unfiled
        cases unfiled
      · exact run_filesTracked law r p filed tracked

/-- Events carry the right statement or none as long as the latest prepare that returned
their request was tracked or left nothing on file. -/
theorem right_statement_of_tracked {h : History} (law : Lawful (Bounded L) h)
    (tracked : Lawful (StatementTracked L) h) : Lawful (RightStatement L) h := by
  induction h with
  | nil => trivial
  | cons a h ih => exact ⟨rightStatement_of_tracked law.2 tracked.1, ih law.2 tracked.2⟩

/-- A request prepared and executed on one attachment, then on another. -/
def reusedRun : History :=
  [.exit .execute (firing 7 80 {}),
    .entry .execute (firing 7 70 { rdx := 100 }),
    .exit .prepare (firing 7 60 { rax := 100 }),
    .entry .prepare (firing 7 50 { rsi := 2 }),
    .exit .execute (firing 7 40 {}),
    .entry .execute (firing 7 30 { rdx := 100 }),
    .exit .prepare (firing 7 20 { rax := 100 }),
    .entry .prepare (firing 7 10 { rsi := 1 })]

theorem reusedRun_right_statement : Lawful (RightStatement declared) reusedRun :=
  right_statement_of_tracked (by decide +kernel) (by decide +kernel)

/-! ## A full map -/

/-- A prepare that returns the request 100, on attachment 1. -/
def preparedOnce : History :=
  [.exit .prepare (firing 0 20 { rax := 100 }), .entry .prepare (firing 0 10 { rsi := 1 })]

/-- Then every thread of `ts` enters `DSQL_prepare` and leaves it by an exception. -/
def abandonedPrepares : List UInt32 → History
  | [] => preparedOnce
  | t :: ts =>
      .abandon .prepare t :: .entry .prepare (firing t.toUInt64 30 {}) :: abandonedPrepares ts

def reprepared (ts : List UInt32) : History :=
  .entry .execute (firing 0 60 { rdx := 100 }) ::
  .exit .prepare (firing 0 50 { rax := 100 }) ::
  .entry .prepare (firing 0 40 { rsi := 2 }) :: abandonedPrepares ts

def crowdedRun (ts : List UInt32) : History :=
  .exit .execute (firing 0 70 {}) :: reprepared ts

@[simp] theorem firing_tid (t : UInt32) (time : UInt64) (regs : PtRegs) :
    (firing t.toUInt64 time regs).tid = t := by
  simp only [firing, ProbeContext.tid, UInt64.toUInt32_and, UInt32.toUInt32_toUInt64]
  exact UInt32.and_neg_one

section

variable {ts : List UInt32}

theorem run_abandonedPrepares (distinct : ts.Nodup) (fits : ts.length ≤ 8192) :
    let s := (tracer declared).run (abandonedPrepares ts)
    let base := (tracer declared).run preparedOnce
    s.prepareInProgress.entries.keys = ts.toFinset ∧
      s.preparedStatements = base.preparedStatements ∧
      s.executeInProgress = base.executeInProgress := by
  induction ts with
  | nil => exact ⟨by decide +kernel, rfl, rfl⟩
  | cons t ts ih =>
      obtain ⟨keys, prepared, execute⟩ :=
        ih distinct.of_cons (by simp only [List.length_cons] at fits; omega)
      let s := (tracer declared).run (abandonedPrepares ts)
      let c := firing t.toUInt64 30 {}
      have room : s.prepareInProgress.accepts c.tid = true := by
        refine HashMap.accepts_of_card_lt (n := 8192) ?_
        simp only [List.length_cons] at fits
        rw [keys, List.toFinset_card_of_nodup distinct.of_cons]
        omega
      have entered : (fire s (.entry .prepare c)).prepareInProgress =
          s.prepareInProgress.upsert c.tid (capture c) := inflight_entry_self s .prepare c
      refine ⟨?_, ?_, ?_⟩
      · change (fire s (.entry .prepare c)).prepareInProgress.entries.keys = _
        rw [entered, HashMap.keys_upsert room, List.toFinset_cons, ← keys]
        simp [s, c]
      · exact (fire_entry_frame s .prepare c).1.trans prepared
      · exact (inflight_entry_ne s (f := .execute) c (by decide)).trans execute

/-- With the map full, the second prepare is not tracked and the first statement stays
on file. -/
theorem run_reprepared (distinct : ts.Nodup) (full : ts.length = 8192) (others : 0 ∉ ts) :
    let s := (tracer declared).run (reprepared ts)
    let base := (tracer declared).run preparedOnce
    s.preparedStatements = base.preparedStatements ∧
      s.executeInProgress.get 0 = some ⟨60, 100⟩ := by
  obtain ⟨keys, prepared, execute⟩ := run_abandonedPrepares distinct (by omega)
  let s := (tracer declared).run (abandonedPrepares ts)
  let entry : Ctx := firing 0 40 { rsi := 2 }
  let exit : Ctx := firing 0 50 { rax := 100 }
  let next : Ctx := firing 0 60 { rdx := 100 }
  let s' := fire s (.entry .prepare entry)
  have absent : s.prepareInProgress.get entry.tid = none := by
    rw [HashMap.get, Finmap.lookup_eq_none, ← Finmap.mem_keys, keys,
      show entry.tid = 0 by decide]
    simpa using others
  have refused : (s.inflight .prepare).accepts entry.tid = false := by
    refine HashMap.not_accepts_of_full (n := 8192) absent ?_
    change s.prepareInProgress.entries.keys.card = 8192
    rw [keys, List.toFinset_card_of_nodup distinct, full]
  have untracked : s'.prepareInProgress.get exit.tid = none := by
    have kept : s'.inflight .prepare = (s.inflight .prepare).upsert entry.tid (capture entry) :=
      inflight_entry_self s .prepare entry
    rw [HashMap.upsert_of_not_accepts refused] at kept
    exact (congrArg (HashMap.get · exit.tid) kept).trans absent
  have returned : fire s' (.exit .prepare exit) = s' := by
    rw [fire, exitProbe, final_prepareExit, untracked]
  have step : (tracer declared).run (reprepared ts) = fire s' (.entry .execute next) := by
    change fire (fire s' (.exit .prepare exit)) (.entry .execute next) = _
    rw [returned]
  rw [step]
  refine ⟨?_, ?_⟩
  · rw [(fire_entry_frame s' .execute _).1, (fire_entry_frame s .prepare entry).1, prepared]
  · have same : s'.inflight .execute = ((tracer declared).run preparedOnce).inflight .execute :=
      (inflight_entry_ne s (f := .execute) entry (by decide)).trans execute
    have entered : (fire s' (.entry .execute next)).inflight .execute =
        (s'.inflight .execute).upsert next.tid ⟨60, 100⟩ := inflight_entry_self s' .execute next
    rw [same] at entered
    apply (congrArg (HashMap.get · 0) entered).trans
    decide +kernel

end

/-! ## The run is one of those considered -/

def Before (n : UInt64) (h : History) : Prop := ∀ b ∈ h, ∀ t ∈ b.time?, t ≤ n

theorem Before.cons {m n : UInt64} {a : Action} {h : History} (before : Before m h) (le : m ≤ n)
    (now : ∀ t ∈ a.time?, t ≤ n) : Before n (a :: h) := by
  intro b mem t time
  rcases List.mem_cons.mp mem with rfl | mem
  · exact now t time
  · exact UInt64.le_trans (before b mem t time) le

theorem Before.timely {n : UInt64} {a : Action} {h : History} (before : Before n h)
    (now : ∀ t ∈ a.time?, n ≤ t) : Timely h a :=
  fun b mem t time t' time' => UInt64.le_trans (before b mem t time) (now t' time')

theorem abandonedPrepares_before (ts : List UInt32) : Before 30 (abandonedPrepares ts) := by
  induction ts with
  | nil => simp [Before, abandonedPrepares, preparedOnce, Action.time?, firing]
  | cons t ts ih =>
      exact (ih.cons (UInt64.le_refl 30) (by simp [Action.time?, firing])).cons
        (UInt64.le_refl 30) (by simp [Action.time?])

theorem abandonedPrepares_bounded (ts : List UInt32) :
    Lawful (Bounded declared) (abandonedPrepares ts) := by
  induction ts with
  | nil => decide +kernel
  | cons t ts ih =>
      have early := abandonedPrepares_before ts
      refine ⟨⟨?_, ?_, trivial⟩, ⟨early.timely (by simp [Action.time?, firing]), trivial, trivial⟩,
        ih⟩
      · intro b _ u _ u' now
        cases now
      · simp [Nested, Innermost, frames]

section

variable {ts : List UInt32}

theorem crowdedRun_bounded (distinct : ts.Nodup) (full : ts.length = 8192) :
    Lawful (Bounded declared) (crowdedRun ts) := by
  have crowd := abandonedPrepares_before ts
  have entered : Before 40 (.entry .prepare (firing 0 40 { rsi := 2 }) :: abandonedPrepares ts) :=
    crowd.cons (by decide) (by simp [Action.time?, firing])
  have returned : Before 50 (.exit .prepare (firing 0 50 { rax := 100 }) :: _) :=
    entered.cons (by decide) (by simp [Action.time?, firing])
  have executed : Before 60 (reprepared ts) :=
    returned.cons (by decide) (by simp [Action.time?, firing])
  have prepared := (run_abandonedPrepares distinct (by omega)).2.1
  refine ⟨⟨executed.timely (by simp [Action.time?, firing]), ?_, trivial⟩,
    ⟨returned.timely (by simp [Action.time?, firing]), trivial, trivial⟩,
    ⟨entered.timely (by simp [Action.time?, firing]), ?_, ?_⟩,
    ⟨crowd.timely (by simp [Action.time?, firing]), trivial, trivial⟩,
    abandonedPrepares_bounded ts⟩
  · simp [Nested, Innermost, reprepared, frames, firing, ProbeContext.tid]
  · simp [Nested, Innermost, frames, firing, ProbeContext.tid]
  · intro _
    rw [System.run_cons, tracer_step, (fire_entry_frame _ .prepare _).1, prepared]
    decide +kernel

/-- The execution carries the statement of the first prepare although the second one
returned the request last. -/
theorem crowdedRun_wrong_statement (distinct : ts.Nodup) (full : ts.length = 8192)
    (others : 0 ∉ ts) : ¬ Lawful (RightStatement declared) (crowdedRun ts) := by
  obtain ⟨prepared, entered⟩ := run_reprepared distinct full others
  let s := (tracer declared).run (reprepared ts)
  let exit : Ctx := firing 0 70 {}
  have found : s.executeInProgress.get exit.tid = some ⟨60, 100⟩ := by
    rw [show exit.tid = 0 by decide]
    exact entered
  have filed : (s.preparedStatements.get 100).map PreparedStatement.attachmentPtr = some 1 := by
    rw [prepared]
    decide +kernel
  intro right
  have event : statementEvent exit 60 (s.preparedStatements.get 100) ∈
      emitted s (.exit .execute exit) := by
    rw [emitted, if_pos (show (Action.exit .execute exit).reserved = true from rfl)]
    simp only [attempted, found, Option.toList_some, List.mem_singleton]
  have request : requestOf s (.exit .execute exit) = some 100 := by
    simp only [requestOf, found, Option.map_some]
  have carried := right.1 _ event 100 request
  rw [statementOf_statementEvent] at carried
  have latest : returnedStatements.replay (reprepared ts) 100 =
      some (Call.statement ⟨firing 0 40 { rsi := 2 }, firing 0 50 { rax := 100 }⟩) := by
    simp [reprepared, Journal.replay_cons, returnedStatements, frames, firing, ProbeContext.tid]
  obtain ⟨p, filed, one⟩ := Option.map_eq_some_iff.mp filed
  rw [filed, latest, Option.getD_some, Option.some.injEq] at carried
  rcases carried with rfl | rfl
  · exact absurd one (by decide)
  · exact absurd one (by decide)

end

def crowd : List UInt32 := (List.range 8192).map fun i => UInt32.ofNat (i + 1)

theorem crowd_nodup : crowd.Nodup := by
  refine List.Nodup.map_on ?_ List.nodup_range
  intro i hi j hj same
  have := congrArg UInt32.toNat same
  simp only [UInt32.toNat_ofNat'] at this
  have := List.mem_range.mp hi
  have := List.mem_range.mp hj
  omega

theorem zero_notMem_crowd : 0 ∉ crowd := by
  intro mem
  obtain ⟨i, hi, zero⟩ := List.mem_map.mp mem
  have := congrArg UInt32.toNat zero
  simp only [UInt32.toNat_ofNat', UInt32.toNat_zero] at this
  have := List.mem_range.mp hi
  omega

/-- With the declared maps, 8192 abandoned prepares are enough to misattribute an
execution. -/
theorem crowd_misattributes :
    Lawful (Bounded declared) (crowdedRun crowd) ∧
      ¬ Lawful (RightStatement declared) (crowdedRun crowd) :=
  have full : crowd.length = 8192 := by simp [crowd]
  ⟨crowdedRun_bounded crowd_nodup full,
    crowdedRun_wrong_statement crowd_nodup full zero_notMem_crowd⟩

end Tragach.Slowquery
