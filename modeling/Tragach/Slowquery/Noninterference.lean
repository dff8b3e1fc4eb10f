import Tragach.Library.TwoRuns
import Tragach.Slowquery.Provenance
import Tragach.Slowquery.Scratch
import Tragach.Common.Wire

/-! # Where the text of a statement can be seen

Two runs are compared that differ in the user memory that one entry reads. What the
entry captured stays in the cells and events it is the origin of: whether a cell is
filled, which calls emit and what every other cell and event holds is the same in both.
-/

namespace Tragach.Slowquery

open Bpf Common Library

variable {L : Limits}

/-! ## Two firings -/

/-- The same firing, but for the user memory and what the ring slot last held. -/
structure Ctx.SameFiring (c c' : Ctx) : Prop where
  cpu : c.cpu = c'.cpu
  pidTgid : c.pidTgid = c'.pidTgid
  ktime : c.ktime = c'.ktime
  regs : c.regs = c'.regs
  evicted : c.evicted = c'.evicted
  slot : c.slot.isSome = c'.slot.isSome

/-- The same action; its user memory is the same, too, where `memory` says so. -/
inductive Action.Same (memory : Prop) : Action → Action → Prop
  | entry (f : Fn) {c c' : Ctx} (firing : c.SameFiring c')
      (read : memory → c.readUserStr = c'.readUserStr) : Same memory (.entry f c) (.entry f c')
  | exit (f : Fn) {c c' : Ctx} (firing : c.SameFiring c') : Same memory (.exit f c) (.exit f c')
  | abandon (f : Fn) (t : UInt32) : Same memory (.abandon f t) (.abandon f t)

/-- Runs that differ only in the user memory that the entry at position `E` reads. -/
def DifferAt (E : Nat) : History → History → Prop := Paired fun i => Action.Same (i ≠ E)

def Fn.readsText : Fn → Bool
  | .prepare => true
  | .executeImmediate => true
  | _ => false

/-- The origins in which the records of `f` may differ. -/
def Fn.secret (f : Fn) (E i : Nat) : Prop := f.readsText = true ∧ i = E

section

variable {c c' : Ctx}

theorem Ctx.SameFiring.tid (same : c.SameFiring c') : c.tid = c'.tid := by
  rw [ProbeContext.tid, ProbeContext.tid, same.pidTgid]

theorem Ctx.SameFiring.capture (same : c.SameFiring c')
    (read : c.readUserStr = c'.readUserStr) : capture c = capture c' := by
  simp only [Slowquery.capture, fillScratch, same.ktime, same.regs, read]

theorem Ctx.SameFiring.record (same : c.SameFiring c') {f : Fn}
    (read : f.readsText = true → c.readUserStr = c'.readUserStr) : f.record c = f.record c' := by
  cases f with
  | prepare => exact congrArg some (same.capture (read rfl))
  | executeImmediate => exact congrArg some (same.capture (read rfl))
  | _ => simp only [Fn.record, same.ktime, same.regs]

theorem Ctx.SameFiring.record_isSome (same : c.SameFiring c') (f : Fn) :
    (f.record c).isSome = (f.record c').isSome := by
  cases f with
  | prepare => rfl
  | executeImmediate => rfl
  | _ => simp only [Fn.record, same.ktime, same.regs]

theorem Ctx.SameFiring.statementEvent (same : c.SameFiring c') (startNs : UInt64)
    (p : Option PreparedStatement) :
    Slowquery.statementEvent c startNs p = Slowquery.statementEvent c' startNs p := by
  simp only [Slowquery.statementEvent, same.ktime, same.tid]

end

/-! ## What the two runs share -/

/-- The maps of both runs hold the same, but for what the entry at `E` captured. -/
structure Agree (L : Limits) (E : Nat) (h h' : History) : Prop where
  latest : ∀ f t, (lastRecorded L f).replay h t = (lastRecorded L f).replay h' t
  inflight : ∀ f t, SameUnless (f.secret E) ((lastRecorded L f).replay h t)
    ((((tracer L).run h).inflight f).get t) ((((tracer L).run h').inflight f).get t)
  filed : ∀ r, (preparedOrigin L).replay h r = (preparedOrigin L).replay h' r
  statements : ∀ r, SameUnless (· = E) ((preparedOrigin L).replay h r)
    (((tracer L).run h).preparedStatements.get r) (((tracer L).run h').preparedStatements.get r)
  cursors : ((tracer L).run h).openCursors = ((tracer L).run h').openCursors

section

variable {E : Nat} {h h' : History} {a a' : Action} {c c' : Ctx}

theorem Agree.accepts (agree : Agree L E h h') (f : Fn) (t : UInt32) :
    (((tracer L).run h).inflight f).accepts t = (((tracer L).run h').inflight f).accepts t :=
  HashMap.accepts_congr (fun t => (agree.inflight f t).present) t

theorem Agree.records (agree : Agree L E h h') (same : c.SameFiring c') (f : Fn) :
    Records L h f c = Records L h' f c' := by
  rw [Records, Records, same.record_isSome, agree.accepts, same.tid]

theorem Agree.inflight_eq (agree : Agree L E h h') {f : Fn} (noText : f.readsText = false)
    (t : UInt32) :
    (((tracer L).run h).inflight f).get t = (((tracer L).run h').inflight f).get t := by
  apply (agree.inflight f t).same
  intro i _ secret
  rw [secret.1] at noText
  cases noText

theorem Agree.lastRecorded_op (agree : Agree L E h h') (length : h.length = h'.length)
    {memory : Prop} (same : a.Same memory a') (f : Fn) (t : UInt32) :
    lastRecorded L f h a t = lastRecorded L f h' a' t := by
  cases same with
  | entry g firing read => simp only [lastRecorded, firing.tid, agree.records firing, length]
  | exit g firing => simp only [lastRecorded, firing.tid]
  | abandon g u => rfl

theorem Agree.inflight_op (agree : Agree L E h h') (same : a.Same (h.length ≠ E) a') (f : Fn)
    (t : UInt32) :
    SameOpUnless (f.secret E) (lastRecorded L f h a t) (inflightOp ((tracer L).run h) f a t)
      (inflightOp ((tracer L).run h') f a' t) := by
  cases same with
  | abandon g u => exact .keep
  | exit g firing =>
      simp only [lastRecorded, inflightOp, firing.tid]
      split
      · exact .drop
      · exact .keep
  | @entry g c c' firing read =>
      have present := firing.record_isSome f
      cases record : f.record c with
      | none =>
          rw [record] at present
          have record' : f.record c' = none := Option.isNone_iff_eq_none.mp (by simpa using present.symm)
          simp only [lastRecorded, inflightOp, record, record', Records]
          simpa using SameOpUnless.keep
      | some r =>
          rw [record] at present
          obtain ⟨r', record'⟩ := Option.isSome_iff_exists.mp present.symm
          have value : ¬ f.secret E h.length → r = r' := by
            intro shown
            have equal := firing.record (f := f) fun reads => read fun here => shown ⟨reads, here⟩
            rw [record, record'] at equal
            exact Option.some.inj equal
          simp only [lastRecorded, inflightOp, record, record', Records, Option.isSome_some,
            Bool.true_and, ← firing.tid, ← agree.accepts f, HashMap.insertOp]
          by_cases fn : g = f
          · by_cases here : (((tracer L).run h).inflight f).accepts c.tid = true ∧ t = c.tid
            · simpa [fn, here] using SameOpUnless.put value
            · have there : ¬ (t = c.tid ∧ (((tracer L).run h).inflight f).accepts c.tid = true) :=
                fun both => here ⟨both.2, both.1⟩
              simpa [fn, here, there] using SameOpUnless.keep
          · simpa [fn] using SameOpUnless.keep

theorem insertOp_same {ι ν : Type} {secret : ι → Prop} {i : ι} {v v' : ν}
    (same : ¬ secret i → v = v') (accepted : Bool) (evicted : List UInt64) (k r : UInt64) :
    SameOpUnless secret (LruHashMap.insertOp accepted evicted k i r)
      (LruHashMap.insertOp accepted evicted k v r) (LruHashMap.insertOp accepted evicted k v' r) := by
  unfold LruHashMap.insertOp
  split
  · split
    · exact .drop
    · split
      · exact .put same
      · exact .keep
  · exact .keep

theorem Agree.accepts_statement (agree : Agree L E h h') (r : UInt64) (evicted : List UInt64) :
    ((tracer L).run h).preparedStatements.accepts r evicted =
      ((tracer L).run h').preparedStatements.accepts r evicted :=
  LruHashMap.accepts_congr (fun r => (agree.statements r).present) r evicted

theorem Agree.prepared_op (agree : Agree L E h h') {memory : Prop} (same : a.Same memory a')
    (r : UInt64) :
    preparedOrigin L h a r = preparedOrigin L h' a' r ∧
      SameOpUnless (· = E) (preparedOrigin L h a r) (preparedOp ((tracer L).run h) a r)
        (preparedOp ((tracer L).run h') a' r) := by
  cases same with
  | entry g firing read => exact ⟨rfl, .keep⟩
  | abandon g u => exact ⟨rfl, .keep⟩
  | @exit g c c' firing =>
      cases g with
      | prepare =>
          have latest := agree.latest .prepare c.tid
          simp only [preparedOrigin_exit, preparedOp_exit, ← firing.tid, ← firing.regs,
            ← firing.evicted, ← agree.accepts_statement, ← latest, true_and]
          rcases (agree.inflight .prepare c.tid).cases with
            ⟨held, held'⟩ | ⟨e, e', held, held', equal⟩
          · simp only [held, held', origin_none held]
            exact .keep
          · obtain ⟨i, -, -, -, origin, -⟩ := inflight_origin held
            simp only [held, held', origin]
            split
            · exact .keep
            · refine insertOp_same (fun shown => ?_) _ _ _ _
              have captured : e = e' := equal fun j here secret => by
                rw [origin, Option.mem_some_iff] at here
                exact shown (here.trans secret.2)
              simp only [captured, WithSql.statement, firing.ktime]
      | _ => exact ⟨rfl, .keep⟩

theorem Agree.cursor_op (agree : Agree L E h h') {memory : Prop} (same : a.Same memory a')
    (k : UInt64) : cursorOp ((tracer L).run h) a k = cursorOp ((tracer L).run h') a' k := by
  cases same with
  | entry g firing read => rfl
  | abandon g u => rfl
  | @exit g c c' firing =>
      cases g with
      | openCursor =>
          have cell := agree.inflight_eq (f := .openCursor) rfl c.tid
          simp only [State.inflight] at cell
          simp only [cursorOp, ← firing.tid, ← firing.regs, ← firing.evicted, cell, agree.cursors]
      | fetchNext =>
          have cell := agree.inflight_eq (f := .fetchNext) rfl c.tid
          simp only [State.inflight] at cell
          simp only [cursorOp, ← firing.tid, ← firing.regs, cell]
      | _ => rfl

theorem Agree.cons (agree : Agree L E h h') (length : h.length = h'.length)
    (same : a.Same (h.length ≠ E) a') : Agree L E (a :: h) (a' :: h') where
  latest f t := by
    rw [Journal.replay_cons, Journal.replay_cons, agree.lastRecorded_op length same, agree.latest]
  inflight f t := by
    rw [System.run_cons, System.run_cons, tracer_step, tracer_step, get_inflight_fire,
      get_inflight_fire, Journal.replay_cons]
    exact (agree.inflight_op same f t).apply (agree.inflight f t)
  filed r := by
    rw [Journal.replay_cons, Journal.replay_cons, (agree.prepared_op same r).1, agree.filed]
  statements r := by
    rw [System.run_cons, System.run_cons, tracer_step, tracer_step, get_preparedStatements_fire,
      get_preparedStatements_fire, Journal.replay_cons]
    exact (agree.prepared_op same r).2.apply (agree.statements r)
  cursors := by
    apply LruHashMap.ext_get
    intro k
    rw [System.run_cons, System.run_cons, tracer_step, tracer_step, get_openCursors_fire,
      get_openCursors_fire, agree.cursor_op same, agree.cursors]

theorem agree_of_differAt (twins : DifferAt E h h') : Agree L E h h' := by
  refine Paired.induction (I := Agree L E) ?_ ?_ twins
  · refine ⟨fun _ _ => rfl, fun f t => ?_, fun _ => rfl, fun _ => ⟨rfl, fun _ => rfl⟩, rfl⟩
    exact ⟨rfl, fun _ => rfl⟩
  · intro h a h' a' length same agree
    exact agree.cons length same

/-! ## What both runs emit -/

theorem Agree.join (agree : Agree L E h h') (firing : c.SameFiring c') (startNs r : UInt64) :
    SameUnless (· = E) ((preparedOrigin L).replay h r)
      (some (statementEvent c startNs (((tracer L).run h).preparedStatements.get r)))
      (some (statementEvent c' startNs (((tracer L).run h').preparedStatements.get r))) := by
  refine ⟨rfl, fun shown => ?_⟩
  rw [(agree.statements r).same shown, firing.statementEvent]

/-- Both runs reach `emit_event` together, with the same event unless it is of `E`. -/
theorem Agree.attempted (agree : Agree L E h h') {memory : Prop} (same : a.Same memory a') :
    eventOrigin L h a = eventOrigin L h' a' ∧
      SameUnless (· = E) (eventOrigin L h a) (attempted ((tracer L).run h) a)
        (attempted ((tracer L).run h') a') := by
  cases same with
  | entry g firing read => exact ⟨rfl, .none⟩
  | abandon g u => exact ⟨rfl, .none⟩
  | @exit g c c' firing =>
      cases g with
      | prepare => exact ⟨rfl, .none⟩
      | openCursor => exact ⟨rfl, .none⟩
      | execute =>
          have cell := agree.inflight_eq (f := .execute) rfl c.tid
          simp only [State.inflight] at cell
          simp only [eventOrigin, Slowquery.attempted, ← firing.tid, ← cell]
          cases ((tracer L).run h).executeInProgress.get c.tid with
          | none => exact ⟨rfl, .none⟩
          | some e => exact ⟨agree.filed _, agree.join firing _ _⟩
      | executeImmediate =>
          refine ⟨?_, ?_⟩
          · rw [eventOrigin, eventOrigin, ← firing.tid, agree.latest]
          · simp only [eventOrigin, Slowquery.attempted, ← firing.tid]
            rcases (agree.inflight .executeImmediate c.tid).cases with
              ⟨held, held'⟩ | ⟨e, e', held, held', equal⟩
            · simp only [State.inflight] at held held'
              rw [held, held']
              exact .none
            · simp only [State.inflight] at held held'
              rw [held, held']
              refine ⟨rfl, fun shown => ?_⟩
              have captured : e = e' := equal fun j here secret => shown j here secret.2
              simp only [captured, immediateEvent, firing.ktime, firing.tid]
      | fetchNext =>
          have cell := agree.inflight_eq (f := .fetchNext) rfl c.tid
          simp only [State.inflight] at cell
          simp only [eventOrigin, Slowquery.attempted, ← firing.tid, ← firing.regs, ← cell,
            ← agree.cursors]
          cases ((tracer L).run h).fetchInProgress.get c.tid with
          | none => exact ⟨rfl, .none⟩
          | some cursor =>
              dsimp only
              cases ((tracer L).run h).openCursors.get cursor with
              | none =>
                  refine ⟨rfl, ?_⟩
                  dsimp only
                  split <;> exact .none
              | some oc =>
                  refine ⟨agree.filed _, ?_⟩
                  dsimp only
                  split
                  · exact agree.join firing _ _
                  · exact ⟨rfl, fun _ => rfl⟩

/-- Two events of one origin, the same unless they are of `E`. -/
def SameEvent (E : Nat) (x x' : SlowQueryEvent × Option Nat) : Prop :=
  x.2 = x'.2 ∧ (x.2 ≠ some E → x.1 = x'.1)

theorem Action.Same.reserved {memory : Prop} (same : a.Same memory a') :
    a.reserved = a'.reserved := by
  cases same with
  | entry g firing read => exact firing.slot
  | exit g firing => exact firing.slot
  | abandon g u => rfl

theorem Agree.emitted (agree : Agree L E h h') {memory : Prop} (same : a.Same memory a') :
    List.Forall₂ (SameEvent E)
      ((emitted ((tracer L).run h) a).map fun ev => (ev, eventOrigin L h a))
      ((emitted ((tracer L).run h') a').map fun ev => (ev, eventOrigin L h' a')) := by
  obtain ⟨origin, cells⟩ := agree.attempted same
  simp only [Slowquery.emitted, ← same.reserved, ← origin]
  split
  · rcases cells.cases with ⟨none, none'⟩ | ⟨ev, ev', some, some', equal⟩
    · rw [none, none']
      exact .nil
    · rw [some, some']
      refine .cons ⟨rfl, fun other => equal ?_⟩ .nil
      intro i here secret
      exact other (here.trans (congrArg Option.some secret))
  · exact .nil

theorem labelled_same (twins : DifferAt E h h') :
    List.Forall₂ (SameEvent E) (labelled L h) (labelled L h') := by
  have both : Agree L E h h' ∧ List.Forall₂ (SameEvent E) (labelled L h) (labelled L h') := by
    refine Paired.induction (I := fun h h' => Agree L E h h' ∧
      List.Forall₂ (SameEvent E) (labelled L h) (labelled L h')) ?_ ?_ twins
    · exact ⟨agree_of_differAt trivial, .nil⟩
    · intro h a h' a' length same before
      rcases before with ⟨agree, shown⟩
      exact ⟨agree.cons length same, List.rel_append shown (agree.emitted same)⟩
  exact both.2

end

/-- Runs that differ in what one entry reads from user memory, and in what the scratch
slots are loaded with, emit the same events but for those of that entry's statement. -/
theorem text_stays_with_statement {E : Nat} {h h' : History} (twins : DifferAt E h h')
    (x x' : PerCpuArray WithSql 1) (y y' : PerCpuArray PreparedStatement 1) :
    ((tracerFrom L x y).run h).events = (labelled L h).map Prod.fst ∧
      ((tracerFrom L x' y').run h').events = (labelled L h').map Prod.fst ∧
      List.Forall₂ (fun e e' => e.2 = e'.2 ∧ (e.2 ≠ some E → e.1.toBytes = e'.1.toBytes))
        (labelled L h) (labelled L h') := by
  refine ⟨?_, ?_, (labelled_same twins).imp fun e e' same => ?_⟩
  · rw [events_tracerFrom, labelled_events]
  · rw [events_tracerFrom, labelled_events]
  · exact ⟨same.1, fun other => congrArg _ (same.2 other)⟩

/-- A statement is prepared and executed on thread 7, another one executed on thread 8. -/
def twoStatements (readUserStr : UInt64 → SqlBuf → UserStrRead) : History :=
  [.exit .executeImmediate (firing 8 60 {}),
    .exit .execute (firing 7 50 {}),
    .entry .executeImmediate (firing 8 40 { rsi := 2, rcx := 4, r8 := 4096 }),
    .entry .execute (firing 7 30 { rdx := 100 }),
    .exit .prepare (firing 7 20 { rax := 100 }),
    .entry .prepare { firing 7 10 { rsi := 1, r8 := 4096 } with readUserStr := readUserStr }]

def faulted : UInt64 → SqlBuf → UserStrRead := fun _ buf => ⟨buf, .error (-14)⟩

def filled : UInt64 → SqlBuf → UserStrRead := fun _ _ =>
  ⟨⟨List.replicate 511 65 ++ [0], by
      rw [List.length_append, List.length_replicate]
      decide⟩, .ok (List.replicate 511 65)⟩

theorem twoStatements_differAt : DifferAt 0 (twoStatements faulted) (twoStatements filled) := by
  have same : ∀ c : Ctx, c.SameFiring c := fun c => ⟨rfl, rfl, rfl, rfl, rfl, rfl⟩
  refine ⟨.exit _ (same _), .exit _ (same _), .entry _ (same _) fun _ => rfl,
    .entry _ (same _) fun _ => rfl, .exit _ (same _), .entry _ ⟨rfl, rfl, rfl, rfl, rfl, rfl⟩ ?_, trivial⟩
  intro other
  exact absurd rfl other

theorem twoStatements_apart :
    (labelled declared (twoStatements faulted)).map Prod.snd = [some 0, some 3] ∧
      List.Forall₂ (fun e e' => e.2 = e'.2 ∧ (e.2 ≠ some 0 → e.1.toBytes = e'.1.toBytes))
        (labelled declared (twoStatements faulted)) (labelled declared (twoStatements filled)) :=
  ⟨by decide +kernel,
    (text_stays_with_statement twoStatements_differAt ⟨fun _ _ => ⟨1, 1, 1, 1, SqlBuf.zeroed⟩⟩
      ⟨fun _ _ => ⟨2, 2, 2, 2, SqlBuf.zeroed⟩⟩ ⟨fun _ _ => ⟨1, 1, 1, 1, SqlBuf.zeroed⟩⟩
      ⟨fun _ _ => ⟨2, 2, 2, 2, SqlBuf.zeroed⟩⟩).2.2⟩

end Tragach.Slowquery
