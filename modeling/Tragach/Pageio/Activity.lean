import Tragach.Pageio.Report

/-! # Which windows the outputs say are active

The human output decides by two counts whether a window has something to show; the waits
are added by completions, which may come in a later window than the issue that was
counted. A wait joined in a window without a fetch or a request of its own is in the JSON
output only.
-/

namespace Tragach.Pageio

open Bpf Library

/-! ## The two outputs of a window -/

def Field.line (c : PageIoCounters) : Field → HumanLine
  | .engineCount => .engineCount c.engineCount
  | .engineTotalNs => .engineTotalWait c.engineTotalNs
  | .blockCount => .blockRequests c.blockCount
  | .blockTotalBytes => .blockTotalBytes c.blockTotalBytes
  | .blockTotalWaitNs => .blockTotalWait c.blockTotalWaitNs

def Field.json (w : JsonWindow) : Field → UInt64
  | .engineCount => w.engine.count
  | .engineTotalNs => w.engine.totalNs
  | .blockCount => w.block.count
  | .blockTotalBytes => w.block.totalBytes
  | .blockTotalWaitNs => w.block.totalWaitNs

theorem Field.json_writeJson (f : Field) (c : PageIoCounters) (windowMs : UInt64) (pid : UInt32) :
    f.json (writeJson c windowMs pid) = f.of c := by
  cases f <;> rfl

/-- The human output shows what the JSON output has unless all of it is zero, and says
that there is no activity in no other case. -/
def AgreesOnActivity (c : PageIoCounters) : Prop :=
  ∀ windowMs pid,
    ((∃ f : Field, f.json (writeJson c windowMs pid) ≠ 0) →
        ∀ f : Field, f.line c ∈ writeHuman c windowMs pid) ∧
      (.noActivity ∈ writeHuman c windowMs pid →
        ∀ f : Field, f.json (writeJson c windowMs pid) = 0)

def HumanLine.blockWait : HumanLine → UInt64
  | .blockTotalWait ns => ns
  | _ => 0

/-- The block waits that the human output of some windows shows. -/
def blockWaitShown (reported : List PageIoCounters) (windowMs : UInt64) (pid : UInt32) : UInt64 :=
  (reported.map fun c => ((writeHuman c windowMs pid).map HumanLine.blockWait).sum).sum

theorem line_mem_writeHuman {c : PageIoCounters} {windowMs : UInt64} {pid : UInt32}
    (counted : ¬ (c.engineCount = 0 ∧ c.blockCount = 0)) (f : Field) :
    f.line c ∈ writeHuman c windowMs pid := by
  rw [writeHuman, if_neg counted]
  cases f <;> simp [Field.line]

theorem noActivity_mem_iff {c : PageIoCounters} {windowMs : UInt64} {pid : UInt32} :
    .noActivity ∈ writeHuman c windowMs pid ↔ c.engineCount = 0 ∧ c.blockCount = 0 := by
  rw [writeHuman]
  split
  next quiet => simp [quiet]
  next counted =>
      have ratio : .noActivity ∉ (if c.engineTotalNs > 0 then
          [HumanLine.ratio c.blockTotalWaitNs c.engineTotalNs] else []) := by
        split <;> simp
      simp [counted, ratio]

/-- The two outputs agree on a window unless it has something besides its two counts. -/
theorem agreesOnActivity_iff {c : PageIoCounters} :
    AgreesOnActivity c ↔
      (c.engineCount = 0 → c.blockCount = 0 → ∀ f : Field, f.of c = 0) := by
  constructor
  · intro agrees engine block f
    have quiet : .noActivity ∈ writeHuman c 0 0 := noActivity_mem_iff.mpr ⟨engine, block⟩
    rw [← f.json_writeJson c 0 0]
    exact (agrees 0 0).2 quiet f
  · intro nothing windowMs pid
    refine ⟨fun some f => line_mem_writeHuman (fun quiet => ?_) f, fun line f => ?_⟩
    · rcases some with ⟨g, nonzero⟩
      rw [g.json_writeJson] at nonzero
      exact nonzero (nothing quiet.1 quiet.2 g)
    · rw [f.json_writeJson]
      rcases noActivity_mem_iff.mp line with ⟨engine, block⟩
      exact nothing engine block f

theorem sum_blockWait {c : PageIoCounters} {windowMs : UInt64} {pid : UInt32} :
    ((writeHuman c windowMs pid).map HumanLine.blockWait).sum =
      if c.engineCount = 0 ∧ c.blockCount = 0 then 0 else c.blockTotalWaitNs := by
  rw [writeHuman]
  split
  next => rfl
  next =>
      have ratio : ((if c.engineTotalNs > 0 then
          [HumanLine.ratio c.blockTotalWaitNs c.engineTotalNs] else []).map
            HumanLine.blockWait).sum = 0 := by
        split <;> rfl
      simp [HumanLine.blockWait, ratio]

/-! ## When the outputs agree -/

section

variable {L : Limits} {target : UInt32} {n : Nat}

/-- A window in which no fetch ends and no request is issued has no duration, no size and
no wait either. All are numbers as a counter holds them, modulo `2 ^ 64`. -/
def Counted (L : Limits) (target : UInt32) (n : Nat) (w : Nat → Window) : Prop :=
  2 ^ 64 ∣ contributedIn L target n w .engineCount →
    2 ^ 64 ∣ contributedIn L target n w .blockCount →
      ∀ f : Field, 2 ^ 64 ∣ contributedIn L target n w f

/-- Over a run the two outputs agree on every window, and the human output shows all the
waits that the last flush has found in the counters. -/
def HumanFaithful (L : Limits) (target : UInt32) (n : Nat) (h : List Step) : Prop :=
  (∀ c ∈ ((monitor L target n).run h).result.reported, AgreesOnActivity c) ∧
    ∀ windowMs pid,
      blockWaitShown ((monitor L target n).run h).result.reported windowMs pid =
        ((monitor L target n).run h).result.prevSnapshot.blockTotalWaitNs

theorem ofNat_eq_zero_iff {x : Nat} : UInt64.ofNat x = 0 ↔ 2 ^ 64 ∣ x := by
  rw [← UInt64.toNat_inj, UInt64.toNat_ofNat', UInt64.toNat_zero]
  exact (Nat.dvd_iff_mod_eq_zero ..).symm

theorem contributedIn_eq_zero {w : Nat → Window} {count total : Field}
    (follows : ∀ (s : State L) a, s.contribution a count = 0 → s.contribution a total = 0)
    (none : contributedIn L target n w count = 0) : contributedIn L target n w total = 0 := by
  have turnover : ∀ acts pre cpu, (contributions L target count).turnover acts pre cpu = 0 →
      (contributions L target total).turnover acts pre cpu = 0 := by
    intro acts pre cpu idle
    induction acts with
    | nil => rfl
    | cons a acts ih =>
        rw [Ledger.turnover, Nat.add_eq_zero_iff] at idle ⊢
        refine ⟨ih idle.1, ?_⟩
        have own := idle.2
        unfold contributions at own ⊢
        split at own
        next same => rw [if_pos same, follows _ a own]
        next other => rw [if_neg other]
  rw [contributedIn, Finset.sum_eq_zero_iff] at none
  exact Finset.sum_eq_zero fun cpu mem => turnover _ _ cpu (none cpu mem)

/-- In a window of fewer than `2 ^ 64` fetches and requests, only the waits can be missing
from the counts. -/
theorem counted_iff_waits {w : Nat → Window}
    (fetches : contributedIn L target n w .engineCount < 2 ^ 64)
    (requests : contributedIn L target n w .blockCount < 2 ^ 64) :
    Counted L target n w ↔
      (contributedIn L target n w .engineCount = 0 → contributedIn L target n w .blockCount = 0 →
        2 ^ 64 ∣ contributedIn L target n w .blockTotalWaitNs) := by
  have small : ∀ {x : Nat}, x < 2 ^ 64 → (2 ^ 64 ∣ x ↔ x = 0) := fun lt =>
    ⟨fun dvd => Nat.eq_zero_of_dvd_of_lt dvd lt, fun zero => zero ▸ dvd_zero _⟩
  have durations : contributedIn L target n w .engineCount = 0 →
      contributedIn L target n w .engineTotalNs = 0 := by
    apply contributedIn_eq_zero
    intro s a none
    cases fetched : s.fetched a with
    | none => simp [State.contribution, Field.amount, fetched]
    | some ns => simp [State.contribution, Field.amount, fetched] at none
  have sizes : contributedIn L target n w .blockCount = 0 →
      contributedIn L target n w .blockTotalBytes = 0 := by
    apply contributedIn_eq_zero
    intro s a none
    cases issued : s.issued a with
    | none => simp [State.contribution, Field.amount, issued]
    | some bytes => simp [State.contribution, Field.amount, issued] at none
  rw [Counted, small fetches, small requests]
  constructor
  · intro counted engine block
    exact counted engine block .blockTotalWaitNs
  · intro waits engine block f
    cases f with
    | engineCount => exact engine ▸ dvd_zero _
    | engineTotalNs => exact durations engine ▸ dvd_zero _
    | blockCount => exact block ▸ dvd_zero _
    | blockTotalBytes => exact sizes block ▸ dvd_zero _
    | blockTotalWaitNs => exact waits engine block

theorem blockWaitShown_of_agrees {reported : List PageIoCounters} {windowMs : UInt64} {pid : UInt32}
    (agrees : ∀ c ∈ reported, AgreesOnActivity c) :
    blockWaitShown reported windowMs pid = (reported.map Field.blockTotalWaitNs.of).sum := by
  refine congrArg List.sum (List.map_congr_left fun c mem => ?_)
  rw [sum_blockWait]
  split
  next quiet =>
      exact (agreesOnActivity_iff.mp (agrees c mem) quiet.1 quiet.2 .blockTotalWaitNs).symm
  next => rfl

theorem agreesOnActivity_iff_counted {w : Nat → Window} {c : PageIoCounters}
    (reports : ∀ f : Field, f.of c = UInt64.ofNat (contributedIn L target n w f)) :
    AgreesOnActivity c ↔ Counted L target n w := by
  have engine : c.engineCount = UInt64.ofNat (contributedIn L target n w .engineCount) :=
    reports .engineCount
  have block : c.blockCount = UInt64.ofNat (contributedIn L target n w .blockCount) :=
    reports .blockCount
  simp only [agreesOnActivity_iff, engine, block, reports, ofNat_eq_zero_iff, Counted]

end

/-- The outputs agree on the windows, interrupted flushes included, in which something
besides the waits is counted or there are no waits, and the human output accounts for all
waits of a run as soon as all its windows are such. -/
theorem human_faithful_iff {L : Limits} {target : UInt32} {n : Nat} (h : List Step) :
    List.Forall₂ (fun w c => AgreesOnActivity c ↔ Counted L target n w)
        (readWindows n h) ((monitor L target n).run h).result.reported ∧
      (HumanFaithful L target n h ↔ ∀ w ∈ readWindows n h, Counted L target n w) := by
  have each : List.Forall₂ (fun w c => AgreesOnActivity c ↔ Counted L target n w)
      (readWindows n h) ((monitor L target n).run h).result.reported :=
    forall_readWindows fun _ mem => agreesOnActivity_iff_counted fun f => f.of_reportOf mem
  have all : (∀ c ∈ ((monitor L target n).run h).result.reported, AgreesOnActivity c) ↔
      ∀ w ∈ readWindows n h, Counted L target n w := by
    generalize readWindows n h = ws, ((monitor L target n).run h).result.reported = cs at each
    induction each with
    | nil => simp
    | cons head _ ih => rw [List.forall_mem_cons, List.forall_mem_cons, head, ih]
  refine ⟨each, fun faithful => all.mp faithful.1, fun counted => ?_⟩
  refine ⟨all.mpr counted, fun windowMs pid => ?_⟩
  rw [blockWaitShown_of_agrees (all.mpr counted), sum_reported]
  rfl

/-- A request of process 42 is issued before a flush and completes after it. -/
def lateCompletion : List Step :=
  [.finish, .copy,
    .move (.blockComplete (requestAt 0 100 60)),
    .finish, .copy,
    .move (.blockIssue (requestAt 0 100 20 42))]

/-- The second window has a wait of 40 in the JSON output and no activity in the human one,
which shows no wait over the whole run. -/
theorem lateCompletion_hidden :
    ¬ HumanFaithful declared 42 1 lateCompletion ∧
      ((monitor declared 42 1).run lateCompletion).result.reported.map
          (fun c => (writeJson c 10000 42).block.totalWaitNs) = [0, 40] ∧
      (((monitor declared 42 1).run lateCompletion).result.reported.map (writeHuman · 10000 42)).drop 1 =
        [[.window 10000 42, .noActivity, .blank]] ∧
      blockWaitShown ((monitor declared 42 1).run lateCompletion).result.reported 10000 42 = 0 := by
  refine ⟨fun faithful => ?_, ?_, ?_, ?_⟩
  · have shown := faithful.2 10000 42
    revert shown
    decide +kernel
  · decide +kernel
  · decide +kernel
  · decide +kernel

end Tragach.Pageio
