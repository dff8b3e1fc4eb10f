import Tragach.Slowquery.StaleRecords

/-! # Which entry an event's statement comes from

A statement is captured by the entry of `DSQL_prepare` or `DSQL_execute_immediate`, left
in flight, filed under a request by the exit of `DSQL_prepare` and copied into events
from there. Every record on this way has one entry it comes from, named by its position
in the run, and carries what that entry captured.
-/

namespace Tragach.Slowquery

open Bpf Common Library

variable {L : Limits}

/-- The entry that the statement filed under a request comes from. -/
def preparedOrigin (L : Limits) : Journal Action UInt64 Nat := fun h a r =>
  match a, preparedOp ((tracer L).run h) a r with
  | .exit _ c, .put _ =>
      match (lastRecorded L .prepare).replay h c.tid with
      | some i => .put i
      | none => .keep
  | _, .drop => .drop
  | _, _ => .keep

def eventOrigin (L : Limits) (h : History) : Action → Option Nat
  | .exit .execute c =>
      match ((tracer L).run h).executeInProgress.get c.tid with
      | some e => (preparedOrigin L).replay h e.dsqlRequestPtr
      | none => none
  | .exit .executeImmediate c => (lastRecorded L .executeImmediate).replay h c.tid
  | .exit .fetchNext c =>
      match ((tracer L).run h).fetchInProgress.get c.tid with
      | some cursor =>
          match ((tracer L).run h).openCursors.get cursor with
          | some oc => (preparedOrigin L).replay h oc.dsqlRequestPtr
          | none => none
      | none => none
  | _ => none

/-- The events of a run, oldest first, each with the entry its statement comes from. -/
def labelled (L : Limits) : History → List (SlowQueryEvent × Option Nat)
  | [] => []
  | a :: h => labelled L h ++ (emitted ((tracer L).run h) a).map fun ev => (ev, eventOrigin L h a)

theorem labelled_events (h : History) :
    (labelled L h).map Prod.fst = ((tracer L).run h).events := by
  induction h with
  | nil => rfl
  | cons a h ih =>
      rw [labelled, List.map_append, ih, List.map_map, System.run_cons, tracer_step, events_fire]
      simp [Function.comp_def]

/-! ## What a record carries -/

structure SqlText where
  len : UInt32
  truncated : UInt32
  buf : SqlBuf

def WithSql.text (e : WithSql) : SqlText := ⟨e.sqlLen, e.sqlTruncated, e.sql⟩

def PreparedStatement.text (p : PreparedStatement) : SqlText := ⟨p.sqlLen, p.sqlTruncated, p.sql⟩

def CapturedAt (h : History) (i : Nat) (text : SqlText) : Prop :=
  ∃ f c post pre, h = post ++ .entry f c :: pre ∧ pre.length = i ∧ text = (capture c).text

section

variable {h : History} {i : Nat} {text : SqlText}

theorem CapturedAt.cons (captured : CapturedAt h i text) (a : Action) :
    CapturedAt (a :: h) i text := by
  rcases captured with ⟨f, c, post, pre, split, position, same⟩
  exact ⟨f, c, a :: post, pre, congrArg (List.cons a) split, position, same⟩

theorem CapturedAt.eq {f : Fn} {c : Ctx} {post pre : History} (captured : CapturedAt h i text)
    (split : h = post ++ .entry f c :: pre) (position : pre.length = i) :
    text = (capture c).text := by
  rcases captured with ⟨f', c', post', pre', split', position', same⟩
  obtain ⟨same', -⟩ := position_unique split split' (position.trans position'.symm)
  cases same'
  exact same

theorem inflight_origin {f : Fn} {t : UInt32} {e : f.Record}
    (held : (((tracer L).run h).inflight f).get t = some e) :
    ∃ i c post pre, (lastRecorded L f).replay h t = some i ∧ h = post ++ .entry f c :: pre ∧
      pre.length = i ∧ f.record c = some e := by
  rcases inflight_written.mp held with ⟨c, post, pre, split, put, kept⟩
  obtain ⟨c', same, -, record, -⟩ := inflightCells_put_iff.mp put
  cases same
  exact ⟨pre.length, c, post, pre, lastRecorded_of_written split put kept, split, rfl, record⟩

theorem inflight_of_origin {f : Fn} {t : UInt32} (origin : (lastRecorded L f).replay h t = some i) :
    ((((tracer L).run h).inflight f).get t).isSome := by
  rcases lastRecorded_written origin with ⟨r, c, post, pre, split, -, put, kept⟩
  rw [inflight_written.mpr ⟨c, post, pre, split, put, kept⟩]
  rfl

theorem origin_none {f : Fn} {t : UInt32}
    (absent : (((tracer L).run h).inflight f).get t = none) :
    (lastRecorded L f).replay h t = none := by
  by_contra present
  obtain ⟨i, origin⟩ := Option.ne_none_iff_exists'.mp present
  have filled := inflight_of_origin origin
  rw [absent] at filled
  cases filled

/-- The exit of `DSQL_prepare` finds no record, returns null or files a statement. -/
theorem preparedOp_exit (s : State L) (c : Ctx) (r : UInt64) :
    preparedOp s (.exit .prepare c) r =
      match (s.inflight .prepare).get c.tid with
      | none => .keep
      | some e =>
          if c.regs.rax = 0 then .keep
          else LruHashMap.insertOp (s.preparedStatements.accepts c.regs.rax c.evicted) c.evicted
            c.regs.rax (e.statement c) r := by
  simp only [preparedOp, State.inflight]
  cases s.prepareInProgress.get c.tid <;> rfl

/-- It files the origin of the record it finds. -/
theorem preparedOrigin_exit (h : History) (c : Ctx) (r : UInt64) :
    preparedOrigin L h (.exit .prepare c) r =
      match (lastRecorded L .prepare).replay h c.tid with
      | none => .keep
      | some i =>
          if c.regs.rax = 0 then .keep
          else LruHashMap.insertOp
            (((tracer L).run h).preparedStatements.accepts c.regs.rax c.evicted) c.evicted
            c.regs.rax i r := by
  simp only [preparedOrigin, preparedOp_exit]
  cases held : (((tracer L).run h).inflight .prepare).get c.tid with
  | none => simp only [origin_none held]
  | some e =>
      obtain ⟨i, -, -, -, origin, -⟩ := inflight_origin held
      simp only [origin]
      by_cases null : c.regs.rax = 0
      · simp only [if_pos null]
      · simp only [if_neg null, LruHashMap.insertOp]
        by_cases room : ((tracer L).run h).preparedStatements.accepts c.regs.rax c.evicted = true
        · by_cases gone : r ∈ c.evicted
          · simp only [if_pos room, if_pos gone]
          · by_cases key : r = c.regs.rax
            · simp only [if_pos room, if_neg gone, if_pos key, origin]
            · simp only [if_pos room, if_neg gone, if_neg key]
        · simp only [if_neg room]

theorem preparedOrigin_eq (h : History) (a : Action) (r : UInt64) :
    (preparedOp ((tracer L).run h) a r = .keep ∧ preparedOrigin L h a r = .keep) ∨
      (preparedOp ((tracer L).run h) a r = .drop ∧ preparedOrigin L h a r = .drop) ∨
      ∃ c e i, a = .exit .prepare c ∧ ((tracer L).run h).prepareInProgress.get c.tid = some e ∧
        (lastRecorded L .prepare).replay h c.tid = some i ∧
        preparedOp ((tracer L).run h) a r = .put (e.statement c) ∧
        preparedOrigin L h a r = .put i := by
  cases a with
  | entry f c => exact .inl ⟨rfl, rfl⟩
  | abandon f t => exact .inl ⟨rfl, rfl⟩
  | exit f c =>
      cases f with
      | prepare =>
          rw [preparedOp_exit, preparedOrigin_exit]
          cases held : (((tracer L).run h).inflight .prepare).get c.tid with
          | none =>
              simp only [origin_none held]
              exact .inl ⟨trivial, trivial⟩
          | some e =>
              obtain ⟨i, -, -, -, origin, -⟩ := inflight_origin held
              simp only [origin]
              by_cases null : c.regs.rax = 0
              · exact .inl ⟨if_pos null, if_pos null⟩
              · simp only [if_neg null, LruHashMap.insertOp]
                split
                · split
                  · exact .inr (.inl ⟨rfl, rfl⟩)
                  · split
                    · exact .inr (.inr ⟨c, e, i, rfl, held, origin, rfl, rfl⟩)
                    · exact .inl ⟨rfl, rfl⟩
                · exact .inl ⟨rfl, rfl⟩
      | _ => exact .inl ⟨rfl, rfl⟩

/-- A filed statement has one origin and carries what was captured there. -/
theorem prepared_origin (h : History) (r : UInt64) :
    match ((tracer L).run h).preparedStatements.get r, (preparedOrigin L).replay h r with
    | some p, some i => CapturedAt h i p.text
    | none, none => True
    | _, _ => False := by
  induction h with
  | nil => simp [tracer, State.empty]
  | cons a h ih =>
      rw [System.run_cons, tracer_step, get_preparedStatements_fire, Journal.replay_cons]
      rcases preparedOrigin_eq h a r with ⟨op, op'⟩ | ⟨op, op'⟩ | ⟨c, e, i, rfl, held, origin, op, op'⟩
      · rw [op, op', CellOp.apply_keep, CellOp.apply_keep]
        revert ih
        cases ((tracer L).run h).preparedStatements.get r <;>
          cases (preparedOrigin L).replay h r <;> intro ih
        · trivial
        · exact ih
        · exact ih
        · exact ih.cons a
      · rw [op, op', CellOp.apply_drop, CellOp.apply_drop]
        trivial
      · rw [op, op', CellOp.apply_put, CellOp.apply_put]
        obtain ⟨j, c', post, pre, origin', split, position, record⟩ :=
          inflight_origin (f := .prepare) held
        rw [origin, Option.some.injEq] at origin'
        subst origin'
        cases record
        exact CapturedAt.cons ⟨.prepare, c', post, pre, split, position, rfl⟩ _

/-! ## What an event carries -/

def eventText (ev : SlowQueryEvent) : SqlText := ⟨ev.sqlLen, ev.sqlTruncated, ev.sql⟩

def SqlText.unknown : SqlText := ⟨0, 0, SqlBuf.zeroed⟩

/-- An event carries what its origin captured, or the unknown text. -/
def Carries (h : History) (text : SqlText) : Option Nat → Prop
  | some i => CapturedAt h i text
  | none => text = .unknown

theorem statementEvent_carries (c : Ctx) (startNs : UInt64) (r : UInt64) :
    Carries h (eventText
        (statementEvent c startNs (((tracer L).run h).preparedStatements.get r)))
      ((preparedOrigin L).replay h r) := by
  have origin := prepared_origin (L := L) h r
  revert origin
  cases ((tracer L).run h).preparedStatements.get r <;>
    cases (preparedOrigin L).replay h r <;> intro origin
  · rfl
  · exact origin.elim
  · exact origin.elim
  · exact origin

theorem emitted_carries {a : Action} {ev : SlowQueryEvent}
    (mem : ev ∈ emitted ((tracer L).run h) a) : Carries h (eventText ev) (eventOrigin L h a) := by
  have attempt : attempted ((tracer L).run h) a = some ev := by
    unfold emitted at mem
    split at mem
    · exact Option.mem_toList.mp mem
    · cases mem
  cases a with
  | entry f c => cases attempt
  | abandon f t => cases attempt
  | exit f c =>
      cases f with
      | prepare => cases attempt
      | openCursor => cases attempt
      | execute =>
          simp only [attempted, eventOrigin] at attempt ⊢
          cases held : ((tracer L).run h).executeInProgress.get c.tid with
          | none => simp [held] at attempt
          | some e =>
              simp only [held, Option.some.injEq] at attempt ⊢
              subst attempt
              exact statementEvent_carries c e.tsNs e.dsqlRequestPtr
      | executeImmediate =>
          simp only [attempted, eventOrigin] at attempt ⊢
          cases held : ((tracer L).run h).immediateInProgress.get c.tid with
          | none => simp [held] at attempt
          | some e =>
              simp only [held, Option.some.injEq] at attempt
              subst attempt
              obtain ⟨i, c', post, pre, origin, split, position, record⟩ :=
                inflight_origin (f := .executeImmediate) held
              rw [origin]
              cases record
              exact ⟨.executeImmediate, c', post, pre, split, position, rfl⟩
      | fetchNext =>
          simp only [attempted, eventOrigin] at attempt ⊢
          cases held : ((tracer L).run h).fetchInProgress.get c.tid with
          | none => simp [held] at attempt
          | some cursor =>
              simp only [held] at attempt ⊢
              split at attempt
              · cases opened : ((tracer L).run h).openCursors.get cursor with
                | none => simp [opened] at attempt
                | some oc =>
                    simp only [opened, Option.some.injEq] at attempt ⊢
                    subst attempt
                    exact statementEvent_carries c oc.openTsNs oc.dsqlRequestPtr
              · cases attempt

/-- Every event of a run carries the text of its origin. -/
theorem labelled_carries {x : SlowQueryEvent × Option Nat} (mem : x ∈ labelled L h) :
    Carries h (eventText x.1) x.2 := by
  induction h with
  | nil => cases mem
  | cons a h ih =>
      have grows : ∀ {text : SqlText} {origin : Option Nat},
          Carries h text origin → Carries (a :: h) text origin := by
        intro text origin carries
        cases origin with
        | none => exact carries
        | some i => exact CapturedAt.cons carries a
      rcases List.mem_append.mp mem with before | now
      · exact grows (ih before)
      · obtain ⟨ev, here, same⟩ := List.mem_map.mp now
        subst same
        exact grows (emitted_carries here)

end

end Tragach.Slowquery
