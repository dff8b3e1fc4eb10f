import Mathlib.Algebra.BigOperators.Group.Finset.Basic
import Tragach.Library.Sampling
import Tragach.Pageio.Accounting

/-! # Flushing the counters

A flush copies the counters of one CPU after another, while the probes keep adding to
them, sums the copies and reports the difference to the sums of the flush before. The
differences telescope: what a CPU has counted when a flush reads it has been reported
once by the end of that flush.
-/

namespace Tragach.Pageio

open Bpf Library

/-- One turn of the loop of `snapshot_counters`. -/
def PageIoCounters.merge (out c : PageIoCounters) : PageIoCounters where
  engineCount := out.engineCount + c.engineCount
  engineTotalNs := out.engineTotalNs + c.engineTotalNs
  engineMaxNs := if c.engineMaxNs > out.engineMaxNs then c.engineMaxNs else out.engineMaxNs
  blockCount := out.blockCount + c.blockCount
  blockTotalBytes := out.blockTotalBytes + c.blockTotalBytes
  blockTotalWaitNs := out.blockTotalWaitNs + c.blockTotalWaitNs
  blockMaxWaitNs := if c.blockMaxWaitNs > out.blockMaxWaitNs then c.blockMaxWaitNs
    else out.blockMaxWaitNs

def snapshotCounters (perCpu : List PageIoCounters) : PageIoCounters :=
  perCpu.foldl PageIoCounters.merge {}

/-- The maxima cannot be subtracted and are those of the present snapshot. -/
def deltaCounters (prev now : PageIoCounters) : PageIoCounters where
  engineCount := now.engineCount - prev.engineCount
  engineTotalNs := now.engineTotalNs - prev.engineTotalNs
  engineMaxNs := now.engineMaxNs
  blockCount := now.blockCount - prev.blockCount
  blockTotalBytes := now.blockTotalBytes - prev.blockTotalBytes
  blockTotalWaitNs := now.blockTotalWaitNs - prev.blockTotalWaitNs
  blockMaxWaitNs := now.blockMaxWaitNs

/-- The snapshot before, and the differences reported, oldest first. -/
structure Flushes where
  prevSnapshot : PageIoCounters
  reported : List PageIoCounters

/-- The rest of a flush, once it has copied the counters of every CPU. -/
def Flushes.report (m : Flushes) (copied : List PageIoCounters) : Flushes :=
  let snapshot := snapshotCounters copied
  { prevSnapshot := snapshot
    reported := m.reported ++ [deltaCounters m.prevSnapshot snapshot] }

def flusher (L : Limits) (target : UInt32) (n : Nat) :
    Sampler (State L) Action PageIoCounters Flushes where
  system := programs L target
  size := n
  word := State.slot
  init := ⟨{}, []⟩
  finish := Flushes.report

/-- A firing, the copy of the counters of the next CPU, or the report. -/
abbrev Step := SampleStep Action

/-- The maps, the counters the flush in progress has copied, and the flushes before. -/
abbrev Monitor (L : Limits) := Sampler.State (State L) PageIoCounters Flushes

def monitor (L : Limits) (target : UInt32) (n : Nat) : System (Monitor L) Step :=
  (flusher L target n).sampled

/-- The firings before the last completed flush read the CPU. -/
def lastRead (n : Nat) (h : List Step) (cpu : Nat) : History := (Sampler.lastRead n h).getD cpu []

/-! ## Sums and differences -/

theorem sum_map_range {α : Type*} [AddCommMonoid α] (n : Nat) (g : Nat → α) :
    ((List.range n).map g).sum = ∑ i ∈ Finset.range n, g i := rfl

theorem ofNat_sum_range (n : Nat) (g : Nat → Nat) :
    UInt64.ofNat (∑ i ∈ Finset.range n, g i) = ∑ i ∈ Finset.range n, UInt64.ofNat (g i) := by
  induction n with
  | zero => rfl
  | succ n ih => rw [Finset.sum_range_succ, Finset.sum_range_succ, UInt64.ofNat_add, ih]

theorem Field.of_merge (f : Field) (out c : PageIoCounters) :
    f.of (out.merge c) = f.of out + f.of c := by
  cases f <;> rfl

theorem Field.of_delta (f : Field) (prev now : PageIoCounters) :
    f.of (deltaCounters prev now) = f.of now - f.of prev := by
  cases f <;> rfl

theorem Field.of_snapshot (f : Field) (perCpu : List PageIoCounters) :
    f.of (snapshotCounters perCpu) = (perCpu.map f.of).sum := by
  have fold : ∀ out, f.of (perCpu.foldl PageIoCounters.merge out) =
      f.of out + (perCpu.map f.of).sum := by
    induction perCpu with
    | nil => simp
    | cons c perCpu ih =>
        intro out
        rw [List.foldl_cons, ih, f.of_merge, List.map_cons, List.sum_cons, add_assoc]
  have empty : f.of {} = 0 := by cases f <;> rfl
  rw [snapshotCounters, fold, empty, zero_add]

section

variable {L : Limits} {target : UInt32} {n : Nat}

def slotAfter (L : Limits) (target : UInt32) (cpu : Nat) (g : History) : PageIoCounters :=
  ((programs L target).run g).slot cpu

def snapshotOf (L : Limits) (target : UInt32) (reads : List History) : PageIoCounters :=
  snapshotCounters (reads.mapIdx (slotAfter L target))

theorem slotAfter_nil (f : Field) (cpu : Nat) : f.of (slotAfter L target cpu []) = 0 := by
  cases f <;> rfl

theorem Field.sum_mapIdx (f : Field) (reads : List History) :
    ((reads.mapIdx (slotAfter L target)).map f.of).sum =
      ∑ cpu ∈ Finset.range reads.length, f.of (slotAfter L target cpu (reads.getD cpu [])) := by
  induction reads using List.reverseRecOn with
  | nil => rfl
  | append_singleton reads g ih =>
      have before : ∀ cpu ∈ Finset.range reads.length,
          f.of (slotAfter L target cpu ((reads ++ [g]).getD cpu [])) =
            f.of (slotAfter L target cpu (reads.getD cpu [])) := by
        intro cpu mem
        rw [List.getD_append _ _ _ _ (Finset.mem_range.mp mem)]
      have last : (reads ++ [g]).getD reads.length [] = g := by simp
      rw [List.mapIdx_concat, List.map_append, List.sum_append, ih, List.length_append,
        List.length_singleton, Finset.sum_range_succ, last, Finset.sum_congr rfl before,
        List.map_singleton, List.sum_singleton]

/-- A snapshot sums what was read on each CPU. -/
theorem Field.of_snapshotOf (f : Field) {reads : List History} (few : reads.length ≤ n) :
    f.of (snapshotOf L target reads) =
      ∑ cpu ∈ Finset.range n, f.of (slotAfter L target cpu (reads.getD cpu [])) := by
  rw [snapshotOf, f.of_snapshot, f.sum_mapIdx]
  refine Finset.sum_subset (Finset.range_mono few) fun cpu _ unread => ?_
  rw [Finset.mem_range, Nat.not_lt] at unread
  rw [List.getD_eq_default _ _ unread, slotAfter_nil]

/-- A flush reports the difference of two snapshots. -/
theorem result_monitor (h : List Step) :
    ((monitor L target n).run h).result =
      { prevSnapshot := snapshotOf L target (Sampler.lastRead n h)
        reported := (Sampler.spans n h).map fun x =>
          deltaCounters (snapshotOf L target x.1) (snapshotOf L target x.2) } := by
  refine Sampler.result_induction (S := flusher L target n)
    (P := fun r last spans => r =
      { prevSnapshot := snapshotOf L target last
        reported := spans.map fun x =>
          deltaCounters (snapshotOf L target x.1) (snapshotOf L target x.2) }) rfl ?_ h
  intro r last reads spans before _
  rw [before, List.map_append]
  rfl

/-- The snapshot of the last completed flush sums what it read on each CPU. -/
theorem of_prevSnapshot (f : Field) (h : List Step) :
    f.of ((monitor L target n).run h).result.prevSnapshot =
      ∑ cpu ∈ Finset.range n, f.of (slotAfter L target cpu (lastRead n h cpu)) := by
  rw [result_monitor]
  exact f.of_snapshotOf (Sampler.length_lastRead_le h)

/-- The reported differences add up to the last snapshot. -/
theorem sum_reported (f : Field) (h : List Step) :
    (((monitor L target n).run h).result.reported.map f.of).sum =
      f.of ((monitor L target n).run h).result.prevSnapshot := by
  refine Sampler.result_induction (S := flusher L target n)
    (P := fun r _ _ => (r.reported.map f.of).sum = f.of r.prevSnapshot) ?_ ?_ h
  · cases f <;> rfl
  · intro r last reads _ before _
    show ((r.reported ++ [deltaCounters r.prevSnapshot _]).map f.of).sum = _
    rw [List.map_append, List.sum_append, before, List.map_singleton, List.sum_singleton,
      f.of_delta]
    exact add_sub_cancel ..

end

/-- Over all completed flushes a counter is reported as what the firings contributed that
preceded, on their own CPU, the last flush's read of that CPU. -/
theorem flushes_telescope {L : Limits} {target : UInt32} {n : Nat} {h : List Step}
    (law : Lawful (Roomy L target) (Sampler.moves h)) (f : Field) :
    (((monitor L target n).run h).result.reported.map f.of).sum =
      UInt64.ofNat (∑ cpu ∈ Finset.range n,
        (contributed target f).balance (lastRead n h cpu) cpu) := by
  have read : ∀ cpu, f.of (slotAfter L target cpu (lastRead n h cpu)) =
      UInt64.ofNat ((contributed target f).balance (lastRead n h cpu) cpu) := by
    intro cpu
    obtain ⟨post, split⟩ := Sampler.lastRead_getD_suffix n cpu h
    have law' : Lawful (Roomy L target) (lastRead n h cpu) := (split ▸ law).of_append
    rw [slotAfter, of_slot, balance_contributions law']
  rw [sum_reported, of_prevSnapshot, Finset.sum_congr rfl fun cpu _ => read cpu, ofNat_sum_range]

/-- A thread of process 42 changes from CPU 0 to CPU 1 within a fetch, and its request
completes on CPU 0 after the first flush has read that CPU and before it ends. -/
def overlappingFlush : List Step :=
  [.finish, .copy, .copy,
    .finish, .copy,
    .move (.blockComplete (requestAt 0 100 60)),
    .move (.cchExit (fetchAt 1 7 50 42)),
    .copy,
    .move (.blockIssue (requestAt 0 100 20 42)),
    .move (.cchEntry (fetchAt 0 7 10 42))]

theorem overlappingFlush_waits :
    (((monitor declared 42 2).run overlappingFlush).result.reported.map Field.blockTotalWaitNs.of).sum = 40 :=
  (flushes_telescope (by decide +kernel) .blockTotalWaitNs).trans (by decide +kernel)

/-- The fetch is reported by the first flush and the wait by the second. -/
example : ((monitor declared 42 2).run overlappingFlush).result.reported.map
    (fun c => (c.engineTotalNs, c.blockTotalWaitNs)) = [(40, 0), (0, 40)] := by decide +kernel

end Tragach.Pageio
