import Tragach.Slowquery.Frames

/-! # Re-entrant calls

Calls on a thread nest, but the in-flight maps have one cell per thread: a call of
a function inside a call of the same function overwrites the outer record, and the
inner exit removes it. An exit whose call was re-entered finds nothing. Every other
exit finds the record of its own call.
-/

namespace Tragach.Slowquery

open Bpf Common Library

/-! ## What the calls owe -/

/-- An `openCursor` call that returns the cursor `k` opens it; a `fetchNext` call on
`k` that returns 1 ends it. -/
def cursorCalls : Journal Action UInt64 Frame := fun h a k =>
  match a with
  | .exit .openCursor c =>
      match (frames c.tid h).head? with
      | some X => if c.regs.rax ≠ 0 ∧ k = c.regs.rax then .put X else .keep
      | none => .keep
  | .exit .fetchNext c =>
      match (frames c.tid h).head? with
      | some Y => if c.regs.rax = 1 ∧ k = Y.ctx.regs.rdi then .drop else .keep
      | none => .keep
  | _ => .keep

/-- The entry of the execution an action completes: its own call for the exit of an
execution, the `openCursor` call for the first end of file of a cursor. -/
def completes (h : History) : Action → Option Ctx
  | .exit .execute c => (frames c.tid h).head?.map Frame.ctx
  | .exit .executeImmediate c => (frames c.tid h).head?.map Frame.ctx
  | .exit .fetchNext c =>
      if c.regs.rax = 1 then
        match (frames c.tid h).head? with
        | some Y => (cursorCalls.replay h Y.ctx.regs.rdi).map Frame.ctx
        | none => none
      else none
  | _ => none

def timing (ev : SlowQueryEvent) : UInt64 × UInt32 × UInt64 := (ev.tsNs, ev.tid, ev.executeNs)

def owedTimings (h : History) (a : Action) : List (UInt64 × UInt32 × UInt64) :=
  match a, completes h a with
  | .exit _ c, some e => [(c.ktime, c.tid, c.ktime - e.ktime)]
  | _, _ => []

variable {L : Limits}

/-- An action emits one event for the execution it completes, timed from the entry of
that execution, and none if it completes none. -/
def OneEventPerCall (L : Limits) (h : History) (a : Action) : Prop :=
  ∃ evs, ((tracer L).run (a :: h)).events = ((tracer L).run h).events ++ evs ∧
    evs.map timing = owedTimings h a

/-! ## The runs considered -/

/-- No call is left by an exception. -/
def Returns : Action → Prop
  | .abandon _ _ => False
  | _ => True

def DropsNothing : Action → Prop
  | .exit _ c => c.evicted = []
  | _ => True

/-- Calls nest on every thread and all return, pointers are not null, and neither the
maps nor the ring ever lack room. -/
structure WellNested (L : Limits) (h : History) (a : Action) : Prop where
  timely : Timely h a
  nested : Nested h a
  returns : Returns a
  nonNull : NonNull a
  inserts : InsertSucceeds ((tracer L).run h) a
  keeps : DropsNothing a
  reserves : ReserveSucceeds ((tracer L).run h) a

/-- The call that ends an execution was not re-entered, nor was the call that opened
the cursor it ends. -/
def Unreentered (h : History) : Action → Prop
  | .exit .execute c => ∀ X ∈ (frames c.tid h).head?, X.reentered = false
  | .exit .executeImmediate c => ∀ X ∈ (frames c.tid h).head?, X.reentered = false
  | .exit .fetchNext c => c.regs.rax = 1 →
      ∀ Y ∈ (frames c.tid h).head?, ∀ O ∈ cursorCalls.replay h Y.ctx.regs.rdi,
        Y.reentered = false ∧ O.reentered = false
  | _ => True

/-- No two firings read the same time. -/
def Ticking (h : History) (a : Action) : Prop :=
  ∀ b ∈ h, ∀ t ∈ b.time?, ∀ t' ∈ a.time?, t < t'

section

instance : ∀ a, Decidable (Returns a)
  | .entry _ _ => .isTrue trivial
  | .exit _ _ => .isTrue trivial
  | .abandon _ _ => .isFalse id

instance : ∀ a, Decidable (DropsNothing a)
  | .entry _ _ => .isTrue trivial
  | .exit _ c => inferInstanceAs (Decidable (c.evicted = []))
  | .abandon _ _ => .isTrue trivial

instance (h : History) (a : Action) : Decidable (WellNested L h a) :=
  decidable_of_iff (Timely h a ∧ Nested h a ∧ Returns a ∧ NonNull a ∧
      InsertSucceeds ((tracer L).run h) a ∧ DropsNothing a ∧
      ReserveSucceeds ((tracer L).run h) a)
    ⟨fun ⟨t, n, r, p, i, k, e⟩ => ⟨t, n, r, p, i, k, e⟩,
      fun ⟨t, n, r, p, i, k, e⟩ => ⟨t, n, r, p, i, k, e⟩⟩

instance (h : History) : ∀ a, Decidable (Unreentered h a)
  | .exit .execute c => inferInstanceAs
      (Decidable (∀ X ∈ (frames c.tid h).head?, X.reentered = false))
  | .exit .executeImmediate c => inferInstanceAs
      (Decidable (∀ X ∈ (frames c.tid h).head?, X.reentered = false))
  | .exit .fetchNext c => inferInstanceAs
      (Decidable (c.regs.rax = 1 → ∀ Y ∈ (frames c.tid h).head?,
        ∀ O ∈ cursorCalls.replay h Y.ctx.regs.rdi, Y.reentered = false ∧ O.reentered = false))
  | .exit .prepare _ => .isTrue trivial
  | .exit .openCursor _ => .isTrue trivial
  | .entry _ _ => .isTrue trivial
  | .abandon _ _ => .isTrue trivial

end

/-! ## The in-flight maps under nesting -/

/-- The call of `f` whose record thread `t` holds: the innermost one, unless it has
been re-entered. -/
def recorded (f : Fn) (t : UInt32) (h : History) : Option Frame :=
  ((frames t h).find? fun X => X.fn = f).filter fun X => !X.reentered

theorem recorded_entry_self (f : Fn) (c : Ctx) (h : History) :
    recorded f c.tid (.entry f c :: h) = some ⟨f, c, h.length, false⟩ := by
  simp [recorded, frames]

theorem find_map_enter {f g : Fn} (ne : g ≠ f) (stack : List Frame) :
    (stack.map (Frame.enter g)).find? (fun X => X.fn = f) = stack.find? fun X => X.fn = f := by
  induction stack with
  | nil => rfl
  | cons X rest ih =>
      by_cases own : X.fn = f
      · have other : X.fn ≠ g := fun same => ne (same.symm.trans own)
        simp [own, Frame.enter_of_ne other]
      · simp [own, ih]

theorem recorded_entry_ne {f g : Fn} {t : UInt32} {c : Ctx} {h : History}
    (other : ¬(g = f ∧ t = c.tid)) : recorded f t (.entry g c :: h) = recorded f t h := by
  unfold recorded
  by_cases same : c.tid = t
  · have ne : g ≠ f := fun fn => other ⟨fn, same.symm⟩
    simp [frames, same, ne, find_map_enter ne]
  · simp [frames, same]

theorem recorded_exit_self {f : Fn} {c : Ctx} {h : History} (inner : Innermost f c.tid h) :
    recorded f c.tid (.exit f c :: h) = none := by
  obtain ⟨X, rest, stack, own⟩ := innermost_cons inner
  have below := (List.pairwise_cons.mp (stack ▸ frames_pairwise c.tid h)).1
  simp only [recorded, frames, if_true, stack, List.tail_cons]
  cases found : rest.find? fun X => X.fn = f with
  | none => rfl
  | some Y =>
      have fn : Y.fn = f := by simpa using List.find?_some found
      have again := below Y (List.mem_of_find?_eq_some found) (fn.trans own.symm)
      simp [Option.filter, again]

theorem recorded_exit_ne {f g : Fn} {t : UInt32} {c : Ctx} {h : History}
    (inner : Innermost g c.tid h) (other : ¬(g = f ∧ t = c.tid)) :
    recorded f t (.exit g c :: h) = recorded f t h := by
  obtain ⟨X, rest, stack, own⟩ := innermost_cons inner
  unfold recorded
  by_cases same : c.tid = t
  · have ne : X.fn ≠ f := fun fn => other ⟨own.symm.trans fn, same.symm⟩
    subst same
    simp [frames, stack, ne]
  · simp [frames, same]

/-- Every thread holds the records of its calls that were not re-entered. -/
theorem inflight_eq_recorded {h : History} (law : Lawful (WellNested L) h) (f : Fn) (t : UInt32) :
    (((tracer L).run h).inflight f).get t = (recorded f t h).bind fun X => f.record X.ctx := by
  refine (tracer L).invariant
    (I := fun h s => ∀ f t, (s.inflight f).get t = (recorded f t h).bind fun X => f.record X.ctx)
    ?_ ?_ h law f t
  · intro f t
    cases f <;> exact HashMap.get_empty t
  · intro h a ok _ ih f t
    rw [tracer_step, get_inflight_fire, ih f t]
    cases a with
    | entry g c =>
        by_cases same : g = f ∧ t = c.tid
        · rcases same with ⟨rfl, rfl⟩
          obtain ⟨r, left⟩ := Option.isSome_iff_exists.mp (record_of_nonNull ok.nonNull)
          have room : ((((tracer L).run h).inflight g).accepts c.tid) = true := ok.inserts
          simp [recorded_entry_self, inflightOp, left, HashMap.insertOp, room]
        · rw [recorded_entry_ne same]
          simp only [inflightOp, HashMap.insertOp]
          cases f.record c with
          | none => rfl
          | some r =>
              dsimp only
              split
              next fn => rw [if_neg (fun both => same ⟨fn, both.2⟩), CellOp.apply_keep]
              next => rfl
    | exit g c =>
        by_cases same : g = f ∧ t = c.tid
        · rcases same with ⟨rfl, rfl⟩
          simp [recorded_exit_self ok.nested, inflightOp]
        · rw [recorded_exit_ne ok.nested same, inflightOp, if_neg same, CellOp.apply_keep]
    | abandon g u => exact ok.returns.elim

/-- What an exit finds: the record of its own call unless that was re-entered. -/
theorem exit_finds {h : History} (law : Lawful (WellNested L) h) {f : Fn} {c : Ctx}
    {X : Frame} {rest : List Frame} (stack : frames c.tid h = X :: rest) (own : X.fn = f) :
    (((tracer L).run h).inflight f).get c.tid =
      if X.reentered then none else f.record X.ctx := by
  rw [inflight_eq_recorded law, recorded, stack]
  cases again : X.reentered <;> simp [own, Option.filter, again]

/-! ## Open cursors under nesting -/

theorem frame_nonNull {h : History} (law : Lawful (WellNested L) h) {t : UInt32} {X : Frame}
    (mem : X ∈ frames t h) : NonNull (.entry X.fn X.ctx) := by
  obtain ⟨-, post, pre, split, -⟩ := frames_entered mem
  exact (lawful_iff_split.mp law post _ pre split).nonNull

theorem fetch_finds {h : History} (law : Lawful (WellNested L) h) {c : Ctx} {Y : Frame}
    {rest : List Frame} (stack : frames c.tid h = Y :: rest) (own : Y.fn = .fetchNext) :
    ((tracer L).run h).fetchInProgress.get c.tid =
      if Y.reentered then none else some Y.ctx.regs.rdi := by
  have nonNull : Y.ctx.regs.rdi ≠ 0 := by
    have := frame_nonNull law (t := c.tid) (X := Y) (by simp [stack])
    rwa [own] at this
  have found := exit_finds law stack own
  rwa [show Fn.record .fetchNext Y.ctx = some Y.ctx.regs.rdi from if_neg nonNull] at found

/-- The cursor map records a returned cursor under its own call, unless that was
re-entered. -/
theorem cursorOp_openCursor {h : History} (law : Lawful (WellNested L) h) {c : Ctx}
    (ok : WellNested L h (.exit .openCursor c)) {X : Frame} {rest : List Frame}
    (stack : frames c.tid h = X :: rest) (own : X.fn = .openCursor) (k : UInt64) :
    cursorOp ((tracer L).run h) (.exit .openCursor c) k =
      if X.reentered = false ∧ c.regs.rax ≠ 0 ∧ k = c.regs.rax then
        .put ⟨X.ctx.ktime, X.ctx.regs.rdi⟩
      else .keep := by
  have found : ((tracer L).run h).openCursorInProgress.get c.tid =
      if X.reentered then none else some ⟨X.ctx.ktime, X.ctx.regs.rdi⟩ :=
    exit_finds law stack own
  simp only [cursorOp, found]
  cases again : X.reentered with
  | true => simp
  | false =>
      by_cases null : c.regs.rax = 0
      · simp [null]
      · have kept : c.evicted = [] := ok.keeps
        have room := ok.inserts null
        rw [kept] at room
        simp [null, kept, room, LruHashMap.insertOp]

/-- An end of file removes the cursor of its own call, unless that was re-entered. -/
theorem cursorOp_fetchNext {h : History} (law : Lawful (WellNested L) h) {c : Ctx} {Y : Frame}
    {rest : List Frame} (stack : frames c.tid h = Y :: rest) (own : Y.fn = .fetchNext)
    (k : UInt64) :
    cursorOp ((tracer L).run h) (.exit .fetchNext c) k =
      if Y.reentered = false ∧ c.regs.rax = 1 ∧ k = Y.ctx.regs.rdi then .drop else .keep := by
  simp only [cursorOp, fetch_finds law stack own]
  cases again : Y.reentered <;> simp

theorem cursorCalls_openCursor {h : History} {c : Ctx} {X : Frame} {rest : List Frame}
    (stack : frames c.tid h = X :: rest) (k : UInt64) :
    cursorCalls h (.exit .openCursor c) k =
      if c.regs.rax ≠ 0 ∧ k = c.regs.rax then .put X else .keep := by
  simp [cursorCalls, stack]

theorem cursorCalls_fetchNext {h : History} {c : Ctx} {Y : Frame} {rest : List Frame}
    (stack : frames c.tid h = Y :: rest) (k : UInt64) :
    cursorCalls h (.exit .fetchNext c) k =
      if c.regs.rax = 1 ∧ k = Y.ctx.regs.rdi then .drop else .keep := by
  simp [cursorCalls, stack]

theorem cursorCalls_put {h : History} {a : Action} {k : UInt64} {O : Frame}
    (put : cursorCalls h a k = .put O) :
    ∃ c, a = .exit .openCursor c ∧ (frames c.tid h).head? = some O := by
  unfold cursorCalls at put
  split at put
  next c =>
      cases top : (frames c.tid h).head? with
      | none => simp [top] at put
      | some X =>
          simp only [top] at put
          split at put
          · cases put
            exact ⟨c, rfl, top⟩
          · cases put
  next c =>
      cases top : (frames c.tid h).head? with
      | none => simp [top] at put
      | some Y => simp only [top] at put; split at put <;> cases put
  next => cases put

theorem cursorCalls_entered {h : History} {k : UInt64} {O : Frame}
    (opened : cursorCalls.replay h k = some O) :
    ∃ post pre, h = post ++ .entry O.fn O.ctx :: pre ∧ pre.length = O.id := by
  obtain ⟨post, a, mid, rfl, put, -⟩ := Journal.replay_eq_some_iff.mp opened
  obtain ⟨c, rfl, top⟩ := cursorCalls_put put
  obtain ⟨-, post', pre, split, id⟩ := frames_entered (List.mem_of_head? top)
  exact ⟨post ++ .exit .openCursor c :: post', pre, by simp [split], id⟩

/-- The cursor map holds no cursor that is not open, and holds the record of an open
cursor under its own call, unless that was re-entered. -/
structure CursorsAgree (h : History) (s : State L) : Prop where
  closed : ∀ k, cursorCalls.replay h k = none → s.openCursors.get k = none
  opened : ∀ k O, cursorCalls.replay h k = some O → O.reentered = false →
    s.openCursors.get k = some ⟨O.ctx.ktime, O.ctx.regs.rdi⟩

theorem CursorsAgree.of_keep {h : History} {s : State L} {a : Action} (agree : CursorsAgree h s)
    (call : ∀ k, cursorCalls h a k = .keep) (cell : ∀ k, cursorOp s a k = .keep) :
    CursorsAgree (a :: h) (fire s a) := by
  constructor
  · intro k closed
    rw [Journal.replay_cons, call] at closed
    rw [get_openCursors_fire, cell]
    exact agree.closed k closed
  · intro k O opened fresh
    rw [Journal.replay_cons, call] at opened
    rw [get_openCursors_fire, cell]
    exact agree.opened k O opened fresh

theorem cursorsAgree_openCursor {h : History} (law : Lawful (WellNested L) h) {c : Ctx}
    (ok : WellNested L h (.exit .openCursor c)) (agree : CursorsAgree h ((tracer L).run h)) :
    CursorsAgree (.exit .openCursor c :: h) (fire ((tracer L).run h) (.exit .openCursor c)) := by
  obtain ⟨X, rest, stack, own⟩ := innermost_cons ok.nested
  constructor
  · intro k closed
    rw [Journal.replay_cons, cursorCalls_openCursor stack] at closed
    rw [get_openCursors_fire, cursorOp_openCursor law ok stack own]
    split at closed
    next => cases closed
    next other => rw [if_neg (fun all => other all.2), agree.closed k closed, CellOp.apply_keep]
  · intro k O opened fresh
    rw [Journal.replay_cons, cursorCalls_openCursor stack] at opened
    rw [get_openCursors_fire, cursorOp_openCursor law ok stack own]
    split at opened
    next returned =>
        cases opened
        rw [if_pos ⟨fresh, returned⟩, CellOp.apply_put]
    next other =>
        rw [if_neg (fun all => other all.2), CellOp.apply_keep]
        exact agree.opened k O opened fresh

theorem cursorsAgree_fetchNext {h : History} (law : Lawful (WellNested L) h) {c : Ctx}
    (ok : WellNested L h (.exit .fetchNext c)) (plain : Unreentered h (.exit .fetchNext c))
    (agree : CursorsAgree h ((tracer L).run h)) :
    CursorsAgree (.exit .fetchNext c :: h) (fire ((tracer L).run h) (.exit .fetchNext c)) := by
  obtain ⟨Y, rest, stack, own⟩ := innermost_cons ok.nested
  constructor
  · intro k closed
    rw [Journal.replay_cons, cursorCalls_fetchNext stack] at closed
    rw [get_openCursors_fire, cursorOp_fetchNext law stack own]
    split at closed
    next ended =>
        cases open' : cursorCalls.replay h k with
        | none =>
            rw [agree.closed k open']
            split <;> rfl
        | some O =>
            have fresh := (plain ended.1 Y (by simp [stack]) O (ended.2 ▸ open')).1
            rw [if_pos ⟨fresh, ended⟩, CellOp.apply_drop]
    next other => rw [if_neg (fun all => other all.2), agree.closed k closed, CellOp.apply_keep]
  · intro k O opened fresh
    rw [Journal.replay_cons, cursorCalls_fetchNext stack] at opened
    rw [get_openCursors_fire, cursorOp_fetchNext law stack own]
    split at opened
    next => cases opened
    next other =>
        rw [if_neg (fun all => other all.2), CellOp.apply_keep]
        exact agree.opened k O opened fresh

theorem run_cursorsAgree {h : History} (law : Lawful (WellNested L) h)
    (plain : Lawful Unreentered h) : CursorsAgree h ((tracer L).run h) := by
  induction h with
  | nil =>
      refine ⟨fun k _ => LruHashMap.get_empty k, fun k O opened _ => ?_⟩
      cases opened
  | cons a h ih =>
      have agree := ih law.2 plain.2
      match a, law.1, plain.1 with
      | .exit .openCursor c, ok, _ => exact cursorsAgree_openCursor law.2 ok agree
      | .exit .fetchNext c, ok, plain => exact cursorsAgree_fetchNext law.2 ok plain agree
      | .exit .prepare c, _, _ => exact agree.of_keep (fun _ => rfl) fun _ => rfl
      | .exit .execute c, _, _ => exact agree.of_keep (fun _ => rfl) fun _ => rfl
      | .exit .executeImmediate c, _, _ => exact agree.of_keep (fun _ => rfl) fun _ => rfl
      | .entry f c, _, _ => exact agree.of_keep (fun _ => rfl) fun _ => rfl
      | .abandon f t, _, _ => exact agree.of_keep (fun _ => rfl) fun _ => rfl

/-! ## Events under nesting -/

section

variable {h : History} {a : Action}

theorem oneEventPerCall_iff (ok : WellNested L h a) :
    OneEventPerCall L h a ↔
      (attempted ((tracer L).run h) a).toList.map timing = owedTimings h a := by
  unfold OneEventPerCall
  rw [System.run_cons, tracer_step, events_fire, emitted_of_reserve ok.reserves]
  constructor
  · intro found
    rcases found with ⟨evs, same, timed⟩
    rw [List.append_cancel_left same]
    exact timed
  · intro timed
    exact ⟨_, rfl, timed⟩

theorem timing_statementEvent {c e : Ctx} (order : e.ktime ≤ c.ktime)
    (p : Option PreparedStatement) :
    timing (statementEvent c e.ktime p) = (c.ktime, c.tid, c.ktime - e.ktime) := by
  simp [timing, statementEvent, saturatingSub_of_le order]

theorem timing_immediateEvent {c e : Ctx} (order : e.ktime ≤ c.ktime) :
    timing (immediateEvent c (capture e)) = (c.ktime, c.tid, c.ktime - e.ktime) := by
  simp [timing, immediateEvent, saturatingSub_of_le order]

/-- An execute that was not re-entered emits its event, and one that was emits none. -/
theorem execute_event (law : Lawful (WellNested L) h) {c : Ctx}
    (ok : WellNested L h (.exit .execute c)) {X : Frame} {rest : List Frame}
    (stack : frames c.tid h = X :: rest) (own : X.fn = .execute) :
    (attempted ((tracer L).run h) (.exit .execute c)).toList.map timing =
      if X.reentered then [] else [(c.ktime, c.tid, c.ktime - X.ctx.ktime)] := by
  have mem : X ∈ frames c.tid h := by simp [stack]
  have order : X.ctx.ktime ≤ c.ktime := ok.timely.le (frames_mem_entry mem)
  have nonNull : X.ctx.regs.rdx ≠ 0 := by
    have := frame_nonNull law mem
    rwa [own] at this
  have found : ((tracer L).run h).executeInProgress.get c.tid =
      if X.reentered then none else some ⟨X.ctx.ktime, X.ctx.regs.rdx⟩ := by
    have := exit_finds law stack own
    rwa [show Fn.record .execute X.ctx = some ⟨X.ctx.ktime, X.ctx.regs.rdx⟩ from
      if_neg nonNull] at this
  simp only [attempted, found]
  cases again : X.reentered with
  | true => rfl
  | false => simp [timing_statementEvent order]

theorem immediate_event (law : Lawful (WellNested L) h) {c : Ctx}
    (ok : WellNested L h (.exit .executeImmediate c)) {X : Frame} {rest : List Frame}
    (stack : frames c.tid h = X :: rest) (own : X.fn = .executeImmediate) :
    (attempted ((tracer L).run h) (.exit .executeImmediate c)).toList.map timing =
      if X.reentered then [] else [(c.ktime, c.tid, c.ktime - X.ctx.ktime)] := by
  have mem : X ∈ frames c.tid h := by simp [stack]
  have order : X.ctx.ktime ≤ c.ktime := ok.timely.le (frames_mem_entry mem)
  have found : ((tracer L).run h).immediateInProgress.get c.tid =
      if X.reentered then none else some (capture X.ctx) := exit_finds law stack own
  simp only [attempted, found]
  cases again : X.reentered with
  | true => rfl
  | false => simp [timing_immediateEvent order]

theorem fetch_event (law : Lawful (WellNested L) h) {c : Ctx} {Y : Frame} {rest : List Frame}
    (stack : frames c.tid h = Y :: rest) (own : Y.fn = .fetchNext) :
    attempted ((tracer L).run h) (.exit .fetchNext c) =
      if Y.reentered = false ∧ c.regs.rax = 1 then
        (((tracer L).run h).openCursors.get Y.ctx.regs.rdi).map fun oc =>
          statementEvent c oc.openTsNs
            (((tracer L).run h).preparedStatements.get oc.dsqlRequestPtr)
      else none := by
  simp only [attempted, fetch_finds law stack own]
  cases again : Y.reentered with
  | true => simp
  | false =>
      by_cases eof : c.regs.rax = 1
      · cases held : ((tracer L).run h).openCursors.get Y.ctx.regs.rdi <;> simp [eof, held]
      · simp [eof]

theorem owedTimings_fetchNext {c : Ctx} {Y : Frame} {rest : List Frame}
    (stack : frames c.tid h = Y :: rest) :
    owedTimings h (.exit .fetchNext c) =
      if c.regs.rax = 1 then
        ((cursorCalls.replay h Y.ctx.regs.rdi).map fun O =>
          (c.ktime, c.tid, c.ktime - O.ctx.ktime)).toList
      else [] := by
  by_cases eof : c.regs.rax = 1
  · cases opened : cursorCalls.replay h Y.ctx.regs.rdi <;>
      simp [owedTimings, completes, stack, eof, opened]
  · simp [owedTimings, completes, eof]

theorem oneEventPerCall_of_unreentered (law : Lawful (WellNested L) h) (ok : WellNested L h a)
    (plain : Unreentered h a) (agree : CursorsAgree h ((tracer L).run h)) :
    OneEventPerCall L h a := by
  rw [oneEventPerCall_iff ok]
  match a with
  | .exit .execute c =>
      obtain ⟨X, rest, stack, own⟩ := innermost_cons ok.nested
      have fresh : X.reentered = false := plain X (by simp [stack])
      rw [execute_event law ok stack own]
      simp [fresh, owedTimings, completes, stack]
  | .exit .executeImmediate c =>
      obtain ⟨X, rest, stack, own⟩ := innermost_cons ok.nested
      have fresh : X.reentered = false := plain X (by simp [stack])
      rw [immediate_event law ok stack own]
      simp [fresh, owedTimings, completes, stack]
  | .exit .fetchNext c =>
      obtain ⟨Y, rest, stack, own⟩ := innermost_cons ok.nested
      rw [fetch_event law stack own, owedTimings_fetchNext stack]
      by_cases eof : c.regs.rax = 1
      · cases opened : cursorCalls.replay h Y.ctx.regs.rdi with
        | none => simp [eof, agree.closed _ opened]
        | some O =>
            obtain ⟨fetch, cursor⟩ := plain eof Y (by simp [stack]) O opened
            obtain ⟨post, pre, split, -⟩ := cursorCalls_entered opened
            have order : O.ctx.ktime ≤ c.ktime :=
              ok.timely.le (f := O.fn) (by simp [split])
            simp [eof, fetch, agree.opened _ O opened cursor, timing_statementEvent order]
      · simp [eof]
  | .exit .prepare c => rfl
  | .exit .openCursor c => rfl
  | .entry f c => rfl
  | .abandon f t => rfl

/-! ## The converse -/

def Entered (h : History) (i : Nat) (e : Ctx) : Prop :=
  ∃ f post pre, h = post ++ .entry f e :: pre ∧ pre.length = i

theorem Entered.cons {i : Nat} {e : Ctx} (a : Action) (entered : Entered h i e) :
    Entered (a :: h) i e := by
  rcases entered with ⟨f, post, pre, rfl, id⟩
  exact ⟨f, a :: post, pre, rfl, id⟩

theorem Entered.lt {i : Nat} {e : Ctx} (entered : Entered h i e) : i < h.length := by
  rcases entered with ⟨f, post, pre, rfl, rfl⟩
  simp only [List.length_append, List.length_cons]
  omega

/-- On a ticking clock two calls entered at different positions began at different
times. -/
theorem Entered.time_ne {i j : Nat} {e e' : Ctx} (ticking : Lawful Ticking h)
    (entered : Entered h i e) (entered' : Entered h j e') (ne : i ≠ j) :
    e.ktime ≠ e'.ktime := by
  have earlier : ∀ {i j : Nat} {e e' : Ctx}, Entered h i e → Entered h j e' → i < j →
      e.ktime < e'.ktime := by
    rintro i j e e' ⟨f, post, pre, split, rfl⟩ ⟨g, post', pre', split', rfl⟩ lt
    have suffix : .entry f e :: pre <:+ h := ⟨post, split.symm⟩
    have suffix' : pre' <:+ h := ⟨post' ++ [.entry g e'], by simp [split']⟩
    have nested := List.suffix_of_suffix_length_le suffix suffix' (by simp; omega)
    exact lawful_iff_split.mp ticking post' _ pre' split' _
      (nested.subset (List.mem_cons_self ..)) _ rfl _ rfl
  intro same
  rcases Nat.lt_or_gt_of_ne ne with lt | gt
  · exact absurd same (UInt64.ne_of_lt (earlier entered entered' lt))
  · exact absurd same.symm (UInt64.ne_of_lt (earlier entered' entered gt))

/-- Where the records of the cursor map come from: from calls that are over, and never
from the re-entered call that opened the cursor. -/
def CursorOrigins (h : History) (s : State L) : Prop :=
  ∀ k r, s.openCursors.get k = some r → ∃ i e, Entered h i e ∧ r = ⟨e.ktime, e.regs.rdi⟩ ∧
    (∀ t, ∀ X ∈ frames t h, X.id ≠ i) ∧
    ∀ O, cursorCalls.replay h k = some O → O.reentered = true → O.id ≠ i

theorem frames_cons_id {t : UInt32} {a : Action} {X : Frame} (mem : X ∈ frames t (a :: h)) :
    (∃ Y ∈ frames t h, Y.id = X.id) ∨ X.id = h.length := by
  cases a with
  | entry f c =>
      simp only [frames] at mem
      split at mem
      · rcases List.mem_cons.mp mem with rfl | mem
        · exact .inr rfl
        · obtain ⟨Y, memY, rfl⟩ := List.mem_map.mp mem
          exact .inl ⟨Y, memY, by simp⟩
      · exact .inl ⟨X, mem, rfl⟩
  | exit f c =>
      simp only [frames] at mem
      split at mem
      · exact .inl ⟨X, List.mem_of_mem_tail mem, rfl⟩
      · exact .inl ⟨X, mem, rfl⟩
  | abandon f u =>
      simp only [frames] at mem
      split at mem
      · exact .inl ⟨X, List.mem_of_mem_tail mem, rfl⟩
      · exact .inl ⟨X, mem, rfl⟩

/-- The innermost call is over once it has returned. -/
theorem frames_exit_id {f : Fn} {c : Ctx} {X : Frame} {rest : List Frame}
    (stack : frames c.tid h = X :: rest) :
    ∀ t, ∀ Z ∈ frames t (.exit f c :: h), Z.id ≠ X.id := by
  intro t Z mem same
  simp only [frames] at mem
  split at mem
  next own =>
      subst own
      rw [stack, List.tail_cons] at mem
      have lt := (List.pairwise_cons.mp (stack ▸ frames_sorted c.tid h)).1 Z mem
      omega
  next other => exact other (frames_thread_unique (by simp [stack]) mem same.symm)

/-- A record that stays in its cell keeps its origin when its cursor is not opened
anew. -/
theorem CursorOrigins.kept {s : State L} (origins : CursorOrigins h s) {k : UInt64}
    {r : OpenCursor} (held : s.openCursors.get k = some r) (call : ∀ O,
      cursorCalls.replay (a :: h) k = some O →
        cursorCalls.replay h k = some O ∨ ∃ t, O ∈ frames t h) :
    ∃ i e, Entered (a :: h) i e ∧ r = ⟨e.ktime, e.regs.rdi⟩ ∧
      (∀ t, ∀ X ∈ frames t (a :: h), X.id ≠ i) ∧
      ∀ O, cursorCalls.replay (a :: h) k = some O → O.reentered = true → O.id ≠ i := by
  obtain ⟨i, e, entered, own, ended, other⟩ := origins k r held
  refine ⟨i, e, entered.cons a, own, ?_, ?_⟩
  · intro t X mem
    have lt := entered.lt
    rcases frames_cons_id mem with ⟨Y, memY, same⟩ | new
    · exact same ▸ ended t Y memY
    · omega
  · intro O opened again
    rcases call O opened with before | ⟨t, mem⟩
    · exact other O before again
    · exact ended t O mem

theorem run_cursorOrigins (law : Lawful (WellNested L) h) :
    CursorOrigins h ((tracer L).run h) := by
  refine (tracer L).invariant (I := CursorOrigins) ?_ ?_ h law
  · intro k r held
    simp [tracer, State.empty] at held
  · intro h a ok law origins k r held
    rw [tracer_step, get_openCursors_fire] at held
    match a with
    | .exit .openCursor c =>
        obtain ⟨X, rest, stack, own⟩ := innermost_cons ok.nested
        have mem : X ∈ frames c.tid h := by simp [stack]
        have call := Journal.replay_cons (J := cursorCalls) (k := k)
          (e := .exit .openCursor c) (h := h)
        rw [cursorCalls_openCursor stack] at call
        rw [cursorOp_openCursor law ok stack own] at held
        split at held
        next fresh =>
            cases held
            obtain ⟨-, post, pre, split, id⟩ := frames_entered mem
            refine ⟨X.id, X.ctx, Entered.cons _ ⟨X.fn, post, pre, split, id⟩, rfl,
              frames_exit_id stack, ?_⟩
            intro O opened again
            rw [call, if_pos fresh.2] at opened
            cases opened
            rw [fresh.1] at again
            cases again
        next =>
            apply origins.kept held
            intro O opened
            rw [call] at opened
            split at opened
            · cases opened
              exact .inr ⟨c.tid, mem⟩
            · exact .inl opened
    | .exit .fetchNext c =>
        obtain ⟨Y, rest, stack, own⟩ := innermost_cons ok.nested
        rw [cursorOp_fetchNext law stack own] at held
        split at held
        next => cases held
        next =>
            refine origins.kept held fun O opened => .inl ?_
            rw [Journal.replay_cons, cursorCalls_fetchNext stack] at opened
            split at opened
            · cases opened
            · exact opened
    | .exit .prepare c => exact origins.kept held fun O opened => .inl opened
    | .exit .execute c => exact origins.kept held fun O opened => .inl opened
    | .exit .executeImmediate c => exact origins.kept held fun O opened => .inl opened
    | .entry f c => exact origins.kept held fun O opened => .inl opened
    | .abandon f t => exact origins.kept held fun O opened => .inl opened

theorem unreentered_of_oneEventPerCall (law : Lawful (WellNested L) h) (ok : WellNested L h a)
    (ticking : Lawful Ticking h) (one : OneEventPerCall L h a) : Unreentered h a := by
  rw [oneEventPerCall_iff ok] at one
  match a with
  | .exit .execute c =>
      obtain ⟨X, rest, stack, own⟩ := innermost_cons ok.nested
      rw [execute_event law ok stack own] at one
      intro Z top
      obtain rfl : X = Z := by simpa [stack] using top
      cases again : X.reentered with
      | false => rfl
      | true => simp [again, owedTimings, completes, stack] at one
  | .exit .executeImmediate c =>
      obtain ⟨X, rest, stack, own⟩ := innermost_cons ok.nested
      rw [immediate_event law ok stack own] at one
      intro Z top
      obtain rfl : X = Z := by simpa [stack] using top
      cases again : X.reentered with
      | false => rfl
      | true => simp [again, owedTimings, completes, stack] at one
  | .exit .fetchNext c =>
      obtain ⟨Y, rest, stack, own⟩ := innermost_cons ok.nested
      intro eof Z top O opened
      obtain rfl : Y = Z := by simpa [stack] using top
      rw [fetch_event law stack own, owedTimings_fetchNext stack, opened] at one
      have fetch : Y.reentered = false := by
        cases again : Y.reentered with
        | false => rfl
        | true => simp [again, eof] at one
      refine ⟨fetch, ?_⟩
      cases again : O.reentered with
      | false => rfl
      | true =>
          -- the record found is of another call, which began at another time
          cases held : ((tracer L).run h).openCursors.get Y.ctx.regs.rdi with
          | none => simp [eof, fetch, held] at one
          | some oc =>
              obtain ⟨i, e, entered, rfl, -, other⟩ := run_cursorOrigins law _ _ held
              obtain ⟨post, pre, split, id⟩ := cursorCalls_entered opened
              rcases entered with ⟨f, post', pre', split', id'⟩
              have order : e.ktime ≤ c.ktime := ok.timely.le (f := f) (by simp [split'])
              have differ : O.ctx.ktime ≠ e.ktime :=
                Entered.time_ne ticking ⟨O.fn, post, pre, split, id⟩
                  ⟨f, post', pre', split', id'⟩ (other O opened again)
              simp only [fetch, eof, held, Option.map_some, and_self, if_true,
                Option.toList_some, List.map_cons, List.map_nil, timing_statementEvent order,
                List.cons.injEq, Prod.mk.injEq, true_and, and_true] at one
              exact absurd ((UInt64.sub_right_inj _).mp one).symm differ
  | .exit .prepare c => trivial
  | .exit .openCursor c => trivial
  | .entry f c => trivial
  | .abandon f t => trivial

end

/-- Every call yields its own event as long as none that ends an execution is
re-entered; on a ticking clock, only then. -/
theorem one_event_per_call {h : History} (law : Lawful (WellNested L) h) :
    (Lawful Unreentered h → Lawful (OneEventPerCall L) h) ∧
      (Lawful Ticking h → Lawful (OneEventPerCall L) h → Lawful Unreentered h) := by
  constructor
  · intro plain
    induction h with
    | nil => trivial
    | cons a h ih =>
        exact ⟨oneEventPerCall_of_unreentered law.2 law.1 plain.1
          (run_cursorsAgree law.2 plain.2), ih law.2 plain.2⟩
  · intro ticking one
    induction h with
    | nil => trivial
    | cons a h ih =>
        exact ⟨unreentered_of_oneEventPerCall law.2 law.1 ticking.2 one.1,
          ih law.2 ticking.2 one.2⟩

/-- A cursor read to its end inside a call of `DSQL_execute`. -/
def triggerRun : History :=
  [.exit .execute (firing 7 60 {}),
    .exit .fetchNext (firing 7 50 { rax := 1 }),
    .entry .fetchNext (firing 7 40 { rdi := 200 }),
    .exit .openCursor (firing 7 30 { rax := 200 }),
    .entry .openCursor (firing 7 20 { rdi := 100 }),
    .entry .execute (firing 7 10 { rdx := 100 })]

theorem triggerRun_one_event_per_call : Lawful (OneEventPerCall declared) triggerRun :=
  (one_event_per_call (by decide +kernel)).1 (by decide +kernel)

/-- A call of `DSQL_execute` inside a call of `DSQL_execute`. -/
def recursiveRun : History :=
  [.exit .execute (firing 7 40 {}),
    .exit .execute (firing 7 30 {}),
    .entry .execute (firing 7 20 { rdx := 200 }),
    .entry .execute (firing 7 10 { rdx := 100 })]

/-- The outer call yields no event. -/
theorem recursiveRun_loses_event :
    Lawful (WellNested declared) recursiveRun ∧
      ¬ Lawful (OneEventPerCall declared) recursiveRun ∧
      ((tracer declared).run recursiveRun).events.map timing = [(30, 7, 10)] := by
  have law : Lawful (WellNested declared) recursiveRun := by decide +kernel
  refine ⟨law, fun one => ?_, by decide +kernel⟩
  have outer := (oneEventPerCall_iff law.1).mp one.1
  revert outer
  decide +kernel

end Tragach.Slowquery
