import Tragach.Slowquery.Text

/-! # Halves of registers

The length of a statement and the result of `fetchNext` are 32-bit values whose registers
the probes read in full. Firings whose registers differ in an upper half only are
compared.
-/

namespace Tragach.Slowquery

open Bpf Common

variable {L : Limits}

def Ctx.withRcx (c : Ctx) (v : UInt64) : Ctx := { c with regs := { c.regs with rcx := v } }

def Ctx.withRax (c : Ctx) (v : UInt64) : Ctx := { c with regs := { c.regs with rax := v } }

/-- The two lengths are zero together, unless nothing was copied, and exceed a copy that
filled the buffer together. -/
def LengthsAgree (copiedLen : UInt32) (v w : UInt64) : Prop :=
  ((v = 0 ↔ w = 0) ∨ copiedLen = 0) ∧
    (copiedLen < UInt32.ofNat SQL_MAX - 1 ∨ (v > copiedLen.toUInt64 ↔ w > copiedLen.toUInt64))

instance (copiedLen : UInt32) (v w : UInt64) : Decidable (LengthsAgree copiedLen v w) :=
  inferInstanceAs (Decidable (_ ∧ _))

def State.fetched (s : State L) (t : UInt32) : Option OpenCursor :=
  (s.fetchInProgress.get t).bind s.openCursors.get

section

variable {copiedLen : UInt32} {v w : UInt64}

theorem sqlLen_eq_iff (low : v.toUInt32 = w.toUInt32) :
    (if v = 0 then copiedLen else v.toUInt32) = (if w = 0 then copiedLen else w.toUInt32) ↔
      (v = 0 ↔ w = 0) ∨ copiedLen = 0 := by
  by_cases vZero : v = 0
  · by_cases wZero : w = 0
    · simp [vZero, wZero]
    · have zero : w.toUInt32 = 0 := by rw [← low, vZero]; rfl
      simp [vZero, wZero, zero]
  · by_cases wZero : w = 0
    · have zero : v.toUInt32 = 0 := by rw [low, wZero]; rfl
      simp [vZero, wZero, zero, eq_comm]
    · simp [vZero, wZero, low]

theorem sqlTruncated_eq_iff {p q r : Prop} [Decidable p] [Decidable q] [Decidable r] :
    (if p ∧ q then (1 : UInt32) else 0) = (if p ∧ r then 1 else 0) ↔ ¬ p ∨ (q ↔ r) := by
  by_cases filled : p
  · by_cases first : q <;> by_cases second : r <;> simp [filled, first, second]
  · simp [filled]

end

/-- What is captured of a statement depends on the upper half of its length unless the
two lengths agree. -/
theorem capture_withRcx_iff {c : Ctx} {v : UInt64} (low : v.toUInt32 = c.regs.rcx.toUInt32) :
    capture (c.withRcx v) = capture c ↔
      c.regs.r8 = 0 ∨ LengthsAgree c.copiedLen v c.regs.rcx := by
  by_cases null : c.regs.r8 = 0
  · have null' : (c.withRcx v).regs.r8 = 0 := null
    rw [capture_of_null null, capture_of_null null']
    simp only [null, true_or, iff_true]
    rfl
  · have null' : (c.withRcx v).regs.r8 ≠ 0 := null
    have copied : (c.withRcx v).copiedLen = c.copiedLen := rfl
    have regs : (c.withRcx v).regs.rcx = v := rfl
    have flag := sqlTruncated_eq_iff (p := c.copiedLen ≥ UInt32.ofNat SQL_MAX - 1)
      (q := v > c.copiedLen.toUInt64) (r := c.regs.rcx > c.copiedLen.toUInt64)
    have filled : ¬ c.copiedLen ≥ UInt32.ofNat SQL_MAX - 1 ↔
        c.copiedLen < UInt32.ofNat SQL_MAX - 1 := UInt32.not_le
    rw [capture_of_ne null, capture_of_ne null', copied, regs, WithSql.mk.injEq,
      sqlLen_eq_iff low, flag, filled, LengthsAgree]
    constructor
    · intro fields
      exact .inr ⟨fields.2.2.1, fields.2.2.2.1⟩
    · intro agree
      rcases agree with zero | agree
      · exact absurd zero null
      · exact ⟨rfl, rfl, agree.1, agree.2, rfl⟩

theorem captureEntry_eq_iff {f : Fn} (reads : f = .prepare ∨ f = .executeImmediate)
    (s : State L) (c c' : Ctx) (cpu : c'.cpu = c.cpu) (tid : c'.tid = c.tid) :
    fire s (.entry f c') = fire s (.entry f c) ↔ capture c' = capture c := by
  constructor
  · intro same
    have slot : ∀ c : Ctx, (fire s (.entry f c)).withSqlScratch.get c.cpu 0 = some (capture c) := by
      intro c
      rcases reads with prepare | immediate
      · subst prepare
        rw [fire, entryProbe, final_prepareEntry]
        exact PerCpuArray.get_set_self _ _ _ _ Nat.one_pos
      · subst immediate
        rw [fire, entryProbe, final_immediateEntry]
        exact PerCpuArray.get_set_self _ _ _ _ Nat.one_pos
    have slots := slot c'
    rw [same, cpu, slot c, Option.some.injEq] at slots
    exact slots.symm
  · intro same
    rcases reads with prepare | immediate
    · subst prepare
      rw [fire, fire, entryProbe, entryProbe, final_prepareEntry, final_prepareEntry, same, cpu, tid]
    · subst immediate
      rw [fire, fire, entryProbe, entryProbe, final_immediateEntry, final_immediateEntry, same, cpu,
        tid]

theorem openCursors_fetchNextExit {s : State L} {c : Ctx} {cursor : UInt64} {oc : OpenCursor}
    (fetching : s.fetchInProgress.get c.tid = some cursor)
    (opened : s.openCursors.get cursor = some oc) :
    (fire s (.exit .fetchNext c)).openCursors.get cursor =
      if c.regs.rax = 1 then none else some oc := by
  rw [get_openCursors_fire]
  by_cases eof : c.regs.rax = 1 <;> simp [cursorOp, fetching, opened, eof]

theorem fetchNextExit_eq_iff (s : State L) (c : Ctx) (v : UInt64) :
    fire s (.exit .fetchNext (c.withRax v)) = fire s (.exit .fetchNext c) ↔
      (v = 1 ↔ c.regs.rax = 1) ∨ s.fetched c.tid = none := by
  have tid : (c.withRax v).tid = c.tid := rfl
  have rax : (c.withRax v).regs.rax = v := rfl
  constructor
  · intro same
    cases fetching : s.fetchInProgress.get c.tid with
    | none => exact .inr (by simp [State.fetched, fetching])
    | some cursor =>
        cases opened : s.openCursors.get cursor with
        | none => exact .inr (by simp [State.fetched, fetching, opened])
        | some oc =>
            have kept := openCursors_fetchNextExit fetching opened
            have kept' := openCursors_fetchNextExit (c := c.withRax v) fetching opened
            rw [same, kept, rax] at kept'
            refine .inl ?_
            by_cases eof : c.regs.rax = 1 <;> by_cases eof' : v = 1 <;> simp_all
  · intro agree
    rw [fire, fire, exitProbe, exitProbe, final_fetchNextExit, final_fetchNextExit, tid, rax]
    cases fetching : s.fetchInProgress.get c.tid with
    | none => rfl
    | some cursor =>
        rcases agree with eof | untracked
        · by_cases ended : c.regs.rax = 1
          · simp only [ended, eof.mpr ended, if_true]
            rfl
          · simp only [ended, mt eof.mp ended, if_false]
        · have absent : s.openCursors.get cursor = none := by
            simpa [State.fetched, fetching] using untracked
          simp only [absent, ite_self]

/-- Firings whose registers differ in the upper half of the length, or of what `fetchNext`
returned, have the same effect exactly when that half does not decide how the whole
register compares with 0 and with the copied length, or with 1, or when nothing depends on
the comparison. -/
theorem upper_half_iff (s : State L) (c : Ctx) (v : UInt64) :
    (∀ f, f = .prepare ∨ f = .executeImmediate → v.toUInt32 = c.regs.rcx.toUInt32 →
      (fire s (.entry f (c.withRcx v)) = fire s (.entry f c) ↔
        c.regs.r8 = 0 ∨ LengthsAgree c.copiedLen v c.regs.rcx)) ∧
      (v.toUInt32 = c.regs.rax.toUInt32 →
        (fire s (.exit .fetchNext (c.withRax v)) = fire s (.exit .fetchNext c) ↔
          (v = 1 ↔ c.regs.rax = 1) ∨ s.fetched c.tid = none)) := by
  refine ⟨fun f reads low => ?_, fun _ => fetchNextExit_eq_iff s c v⟩
  rw [captureEntry_eq_iff reads s c (c.withRcx v) rfl rfl, capture_withRcx_iff low]

theorem upper_half_unseen :
    fire (State.empty declared) (.entry .prepare ((entryOf 3 3).withRcx 4294967299)) =
        fire (State.empty declared) (.entry .prepare (entryOf 3 3)) ∧
      fire (State.empty declared) (.exit .fetchNext ((firing 7 10 { rax := 1 }).withRax 4294967297)) =
        fire (State.empty declared) (.exit .fetchNext (firing 7 10 { rax := 1 })) :=
  ⟨((upper_half_iff (State.empty declared) (entryOf 3 3) 4294967299).1 .prepare (.inl rfl)
      (by decide)).mpr (by decide +kernel),
    ((upper_half_iff (State.empty declared) (firing 7 10 { rax := 1 }) 4294967297).2
      (by decide)).mpr (by decide +kernel)⟩

/-- A cursor is open and a fetch from it in progress on thread 7. -/
def fetchingRun : History :=
  [.entry .fetchNext (firing 7 30 { rdi := 200 }),
    .exit .openCursor (firing 7 20 { rax := 200 }),
    .entry .openCursor (firing 7 10 { rdi := 100 })]

/-- With a bit set in the upper half, the length 0 no longer asks for the NUL, and the end
of file of a cursor passes for a row. -/
theorem upper_half_seen :
    ((fire (State.empty declared) (.entry .prepare (entryOf 0 3))).prepareInProgress.get 7).map
          WithSql.sqlLen = some 3 ∧
      ((fire (State.empty declared)
          (.entry .prepare ((entryOf 0 3).withRcx 4294967296))).prepareInProgress.get 7).map
          WithSql.sqlLen = some 0 ∧
      (fire ((tracer declared).run fetchingRun)
          (.exit .fetchNext (firing 7 40 { rax := 1 }))).events.map SlowQueryEvent.executeNs = [30] ∧
      (fire ((tracer declared).run fetchingRun)
          (.exit .fetchNext ((firing 7 40 { rax := 1 }).withRax 4294967297))).events = [] := by
  decide +kernel

end Tragach.Slowquery
