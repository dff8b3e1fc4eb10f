import Tragach.Slowquery.Frames

/-! # Stale records

A call left by an exception, and a call whose exit probe finds the cell already
emptied, leave records behind; a call with a null request or cursor leaves none of
its own. The exit of a call takes whatever record of its function the thread holds.
It is the record of its own entry exactly when the latest entry that left one, with
no exit of that function since, is its own.
-/

namespace Tragach.Slowquery

open Bpf Common Library

variable {L : Limits}

/-! ## Where a record comes from -/

def inflightCells (L : Limits) (f : Fn) : Journal Action UInt32 f.Record :=
  fun h a t => inflightOp ((tracer L).run h) f a t

theorem inflight_eq_replay (h : History) (f : Fn) (t : UInt32) :
    (((tracer L).run h).inflight f).get t = (inflightCells L f).replay h t := by
  have law : Lawful (fun _ _ => True) h := by
    induction h with
    | nil => trivial
    | cons a h ih => exact ⟨trivial, ih⟩
  refine (tracer L).view_eq_replay (fun s t => (s.inflight f).get t) _ ?_ ?_ law t
  · intro t
    cases f <;> exact HashMap.get_empty t
  · intro h a t _ _ _
    exact get_inflight_fire _ a f t

/-- The record `r` that thread `t` holds for `f` was left by the entry of the call `X`
and has not been touched since. -/
def WrittenBy (L : Limits) (h : History) (f : Fn) (t : UInt32) (X : Frame) (r : f.Record) : Prop :=
  ∃ post pre, h = post ++ .entry f X.ctx :: pre ∧ pre.length = X.id ∧
    inflightCells L f pre (.entry f X.ctx) t = .put r ∧
    (inflightCells L f).Kept t (.entry f X.ctx :: pre) post

def eventFrom (s : State L) (c : Ctx) : (f : Fn) → f.Record → Option SlowQueryEvent
  | .prepare, _ => none
  | .execute, e => some (statementEvent c e.tsNs (s.preparedStatements.get e.dsqlRequestPtr))
  | .executeImmediate, e => some (immediateEvent c e)
  | .openCursor, _ => none
  | .fetchNext, cursor =>
      if c.regs.rax = 1 then
        (s.openCursors.get cursor).map fun oc =>
          statementEvent c oc.openTsNs (s.preparedStatements.get oc.dsqlRequestPtr)
      else none

/-- The exit of the call `X` uses the record of its own entry or none. -/
structure OwnRecord (L : Limits) (h : History) (f : Fn) (c : Ctx) (X : Frame) : Prop where
  consumes : ∀ r, (((tracer L).run h).inflight f).get c.tid = some r → WrittenBy L h f c.tid X r
  computed : ∀ ev ∈ emitted ((tracer L).run h) (.exit f c),
    ∃ r, WrittenBy L h f c.tid X r ∧ eventFrom ((tracer L).run h) c f r = some ev
  silent : (¬∃ r, WrittenBy L h f c.tid X r) → emitted ((tracer L).run h) (.exit f c) = []
  others : f = .fetchNext → ∀ k ≠ X.ctx.regs.rdi,
    ((tracer L).run (.exit f c :: h)).openCursors.get k =
      ((tracer L).run h).openCursors.get k

def OwnRecordOnly (L : Limits) (h : History) : Action → Prop
  | .exit f c => ∀ X ∈ (frames c.tid h).head?, OwnRecord L h f c X
  | _ => True

/-! ## The latest recording entry -/

/-- The entry leaves a record: its argument is not null and the map takes it. -/
def Records (L : Limits) (h : History) (f : Fn) (c : Ctx) : Bool :=
  (f.record c).isSome && (((tracer L).run h).inflight f).accepts c.tid

/-- The position of the latest entry of `f` on a thread that left a record and that no
exit of `f` has followed there. -/
def lastRecorded (L : Limits) (f : Fn) : Journal Action UInt32 Nat := fun h a t =>
  match a with
  | .entry g c =>
      if g = f ∧ t = c.tid ∧ Records L h f c = true then .put h.length else .keep
  | .exit g c => if g = f ∧ t = c.tid then .drop else .keep
  | .abandon _ _ => .keep

/-- The record an exit would find is of its own call. -/
def NoStaleRecord (L : Limits) (h : History) : Action → Prop
  | .exit f c => ∀ X ∈ (frames c.tid h).head?,
      ∀ i ∈ (lastRecorded L f).replay h c.tid, i = X.id
  | _ => True

section

instance (h : History) : ∀ a, Decidable (NoStaleRecord L h a)
  | .exit f c => inferInstanceAs (Decidable (∀ X ∈ (frames c.tid h).head?,
      ∀ i ∈ (lastRecorded L f).replay h c.tid, i = X.id))
  | .entry _ _ => .isTrue trivial
  | .abandon _ _ => .isTrue trivial

end

section

variable {h : History} {f : Fn} {t : UInt32}

theorem inflightCells_put_iff {a : Action} {r : f.Record} :
    inflightCells L f h a t = .put r ↔
      ∃ c, a = .entry f c ∧ t = c.tid ∧ f.record c = some r ∧ Records L h f c = true := by
  cases a with
  | entry g c =>
      cases left : f.record c with
      | none => simp [inflightCells, inflightOp, left]
      | some r' =>
          by_cases fn : g = f
          · subst fn
            by_cases at' : t = c.tid <;>
              by_cases room : (((tracer L).run h).inflight g).accepts c.tid = true <;>
              simp [inflightCells, inflightOp, left, HashMap.insertOp, Records, at', room]
          · simp [inflightCells, inflightOp, left, fn]
  | exit g c =>
      by_cases both : g = f ∧ t = c.tid <;> simp [inflightCells, inflightOp, both]
  | abandon g u => simp [inflightCells, inflightOp]

theorem lastRecorded_put_iff {a : Action} {i : Nat} :
    lastRecorded L f h a t = .put i ↔
      ∃ c, a = .entry f c ∧ t = c.tid ∧ Records L h f c = true ∧ h.length = i := by
  cases a with
  | entry g c =>
      simp only [lastRecorded]
      split
      next all =>
          rcases all with ⟨rfl, at', left⟩
          simp [at', left]
      next other =>
          simp only [Action.entry.injEq, reduceCtorEq, false_iff, not_exists, not_and]
          rintro c' ⟨rfl, rfl⟩ at' left
          exact absurd ⟨rfl, at', left⟩ other
  | exit g c => by_cases both : g = f ∧ t = c.tid <;> simp [lastRecorded, both]
  | abandon g u => simp [lastRecorded]

theorem inflightCells_keep_iff {a : Action} :
    inflightCells L f h a t = .keep ↔ lastRecorded L f h a t = .keep := by
  cases a with
  | entry g c =>
      cases left : f.record c with
      | none => simp [inflightCells, inflightOp, lastRecorded, Records, left]
      | some r =>
          by_cases fn : g = f
          · subst fn
            by_cases at' : t = c.tid <;>
              by_cases room : (((tracer L).run h).inflight g).accepts c.tid = true <;>
              simp [inflightCells, inflightOp, lastRecorded, Records, left, HashMap.insertOp,
                at', room]
          · simp [inflightCells, inflightOp, lastRecorded, left, fn]
  | exit g c =>
      by_cases both : g = f ∧ t = c.tid <;> simp [inflightCells, inflightOp, lastRecorded, both]
  | abandon g u => simp [inflightCells, inflightOp, lastRecorded]

/-- The map holds a record exactly when an entry is the latest recording one. -/
theorem inflight_written {r : f.Record} :
    (((tracer L).run h).inflight f).get t = some r ↔
      ∃ c post pre, h = post ++ .entry f c :: pre ∧
        inflightCells L f pre (.entry f c) t = .put r ∧
        (inflightCells L f).Kept t (.entry f c :: pre) post := by
  rw [inflight_eq_replay, Journal.replay_eq_some_iff]
  constructor
  · intro found
    rcases found with ⟨post, a, pre, split, put, kept⟩
    obtain ⟨c, rfl, -⟩ := inflightCells_put_iff.mp put
    exact ⟨c, post, pre, split, put, kept⟩
  · intro found
    rcases found with ⟨c, post, pre, split, put, kept⟩
    exact ⟨post, _, pre, split, put, kept⟩

theorem lastRecorded_of_written {c : Ctx} {post pre : History} {r : f.Record}
    (split : h = post ++ .entry f c :: pre)
    (put : inflightCells L f pre (.entry f c) t = .put r)
    (kept : (inflightCells L f).Kept t (.entry f c :: pre) post) :
    (lastRecorded L f).replay h t = some pre.length := by
  obtain ⟨c', same, at', -, left⟩ := inflightCells_put_iff.mp put
  exact Journal.replay_eq_some_iff.mpr ⟨post, _, pre, split,
    lastRecorded_put_iff.mpr ⟨c', same, at', left, rfl⟩,
    kept.mono fun h a => (inflightCells_keep_iff (h := h) (a := a)).mp⟩

theorem lastRecorded_written {i : Nat} (latest : (lastRecorded L f).replay h t = some i) :
    ∃ r c post pre, h = post ++ .entry f c :: pre ∧ pre.length = i ∧
      inflightCells L f pre (.entry f c) t = .put r ∧
      (inflightCells L f).Kept t (.entry f c :: pre) post := by
  obtain ⟨post, a, pre, split, put, kept⟩ := Journal.replay_eq_some_iff.mp latest
  obtain ⟨c, rfl, at', left, position⟩ := lastRecorded_put_iff.mp put
  obtain ⟨r, record⟩ := Option.isSome_iff_exists.mp (Bool.and_eq_true_iff.mp left).1
  exact ⟨r, c, post, pre, split, position,
    inflightCells_put_iff.mpr ⟨c, rfl, at', record, left⟩,
    kept.mono fun h a => (inflightCells_keep_iff (h := h) (a := a)).mpr⟩

/-! ## Exits and the record they find -/

theorem WrittenBy.found {X : Frame} {r : f.Record} (written : WrittenBy L h f t X r) :
    (((tracer L).run h).inflight f).get t = some r := by
  rcases written with ⟨post, pre, split, -, put, kept⟩
  exact inflight_written.mpr ⟨X.ctx, post, pre, split, put, kept⟩

theorem WrittenBy.record_eq {X : Frame} {r : f.Record} (written : WrittenBy L h f t X r) :
    f.record X.ctx = some r := by
  rcases written with ⟨post, pre, split, -, put, kept⟩
  obtain ⟨c, same, -, record, -⟩ := inflightCells_put_iff.mp put
  cases same
  exact record

theorem attempted_eq_eventFrom (s : State L) (f : Fn) (c : Ctx) :
    attempted s (.exit f c) = ((s.inflight f).get c.tid).bind (eventFrom s c f) := by
  cases f with
  | prepare => cases held : (s.inflight .prepare).get c.tid <;> rfl
  | execute =>
      simp only [attempted, State.inflight]
      cases held : s.executeInProgress.get c.tid <;> rfl
  | executeImmediate =>
      simp only [attempted, State.inflight]
      cases held : s.immediateInProgress.get c.tid <;> rfl
  | openCursor => cases held : (s.inflight .openCursor).get c.tid <;> rfl
  | fetchNext =>
      simp only [attempted, State.inflight]
      cases held : s.fetchInProgress.get c.tid with
      | none => rfl
      | some cursor =>
          simp only [Option.bind_some, eventFrom]
          split
          · cases s.openCursors.get cursor <;> rfl
          · rfl

/-- Everything an exit does follows from the record it finds. -/
theorem ownRecord_of_consumes {c : Ctx} {X : Frame}
    (consumes : ∀ r, (((tracer L).run h).inflight f).get c.tid = some r →
      WrittenBy L h f c.tid X r) : OwnRecord L h f c X := by
  have computed : ∀ ev ∈ emitted ((tracer L).run h) (.exit f c),
      ∃ r, WrittenBy L h f c.tid X r ∧ eventFrom ((tracer L).run h) c f r = some ev := by
    intro ev mem
    unfold emitted at mem
    split at mem
    · rw [attempted_eq_eventFrom, Option.mem_toList, Option.bind_eq_some_iff] at mem
      rcases mem with ⟨r, found, computed⟩
      exact ⟨r, consumes r found, computed⟩
    · cases mem
  refine ⟨consumes, computed, ?_, ?_⟩
  · intro unwritten
    apply List.eq_nil_iff_forall_not_mem.mpr
    intro ev mem
    obtain ⟨r, written, -⟩ := computed ev mem
    exact unwritten ⟨r, written⟩
  · rintro rfl k other
    rw [System.run_cons, tracer_step, get_openCursors_fire]
    cases found : ((tracer L).run h).fetchInProgress.get c.tid with
    | none => simp [cursorOp, found]
    | some cursor =>
        have own : cursor = X.ctx.regs.rdi := by
          have record := (consumes cursor found).record_eq
          simp only [Fn.record] at record
          split at record
          · cases record
          · exact (Option.some.inj record).symm
        simp [cursorOp, found, own, other]

/-- An exit uses no foreign record exactly when the latest recording entry of its
function, if none of its exits has followed, is its own. -/
theorem ownRecordOnly_iff {a : Action} (nested : Nested h a) :
    OwnRecordOnly L h a ↔ NoStaleRecord L h a := by
  cases a with
  | entry g c => exact Iff.rfl
  | abandon g u => exact Iff.rfl
  | exit f c =>
      obtain ⟨X, rest, stack, own⟩ := innermost_cons nested
      subst own
      obtain ⟨-, post', pre', split', id⟩ := frames_entered (t := c.tid) (h := h) (X := X)
        (by simp [stack])
      simp only [OwnRecordOnly, NoStaleRecord, stack, List.head?_cons, Option.mem_def,
        Option.some.injEq, forall_eq']
      constructor
      · intro record i latest
        obtain ⟨r, e, post, pre, split, rfl, put, kept⟩ := lastRecorded_written latest
        have found := inflight_written.mpr ⟨e, post, pre, split, put, kept⟩
        obtain ⟨post'', pre'', split'', id'', put', kept'⟩ := record.consumes r found
        have again := lastRecorded_of_written split'' put' kept'
        rw [latest, Option.some.injEq] at again
        rw [again, id'']
      · intro latest
        apply ownRecord_of_consumes
        intro r found
        obtain ⟨e, post, pre, split, put, kept⟩ := inflight_written.mp found
        have position := latest _ (lastRecorded_of_written split put kept)
        obtain ⟨same, rfl⟩ := position_unique split split' (position.trans id.symm)
        cases same
        exact ⟨post, pre, split, position, put, kept⟩

end

/-- The exits of a run use only the records of their own entries exactly when none of
them is preceded by a foreign recording entry that no exit has followed. -/
theorem own_records_iff {h : History} (law : Lawful Nested h) :
    Lawful (OwnRecordOnly L) h ↔ Lawful (NoStaleRecord L) h := by
  induction h with
  | nil => exact Iff.rfl
  | cons a h ih =>
      rw [lawful_cons, lawful_cons, ownRecordOnly_iff law.1, ih law.2]

/-- An abandoned execute, one that returns after it and one of a null request. -/
def resumedRun : History :=
  [.exit .execute (firing 7 50 {}),
    .entry .execute (firing 7 40 {}),
    .exit .execute (firing 7 30 {}),
    .entry .execute (firing 7 20 { rdx := 100 }),
    .abandon .execute 7,
    .entry .execute (firing 7 10 { rdx := 100 })]

theorem resumedRun_own_records : Lawful (OwnRecordOnly declared) resumedRun :=
  (own_records_iff (L := declared) (h := resumedRun) (by decide +kernel)).mpr (by decide +kernel)

/-- A fetch from the cursor 200 during which a fetch from the cursor 300 is left by an
exception. -/
def unwoundFetchRun : History :=
  [.exit .fetchNext (firing 7 80 { rax := 1 }),
    .abandon .fetchNext 7,
    .entry .fetchNext (firing 7 70 { rdi := 300 }),
    .entry .fetchNext (firing 7 60 { rdi := 200 }),
    .exit .openCursor (firing 7 50 { rax := 300 }),
    .entry .openCursor (firing 7 40 { rdi := 101 }),
    .exit .openCursor (firing 7 30 { rax := 200 }),
    .entry .openCursor (firing 7 20 { rdi := 100 })]

/-- The end of file of the cursor 200 emits the event of the cursor 300 and removes it. -/
theorem unwoundFetchRun_ends_other_cursor :
    Lawful Nested unwoundFetchRun ∧ ¬ Lawful (OwnRecordOnly declared) unwoundFetchRun ∧
      ((tracer declared).run unwoundFetchRun).events.map SlowQueryEvent.executeNs = [40] ∧
      ((tracer declared).run unwoundFetchRun).openCursors.get 300 = none ∧
      ((tracer declared).run unwoundFetchRun).openCursors.get 200 = some ⟨20, 100⟩ := by
  have nested : Lawful Nested unwoundFetchRun := by decide +kernel
  refine ⟨nested, fun own => ?_, by decide +kernel⟩
  have fresh := (ownRecordOnly_iff nested.1).mp own.1
  revert fresh
  decide +kernel

end Tragach.Slowquery
