import Tragach.Pageio.Reads

/-! # The averages a window shows

Both outputs divide the wait of the requests joined in a window by the number of
requests issued in it. That is the mean wait when the two numbers agree.
-/

namespace Tragach.Pageio

open Bpf Library

structure EngineStats where
  count : UInt64
  totalNs : UInt64
  avgNs : UInt64
  maxNs : UInt64
  deriving DecidableEq

structure BlockStats where
  count : UInt64
  totalBytes : UInt64
  totalWaitNs : UInt64
  avgWaitNs : UInt64
  maxWaitNs : UInt64
  deriving DecidableEq

/-- The object `write_json` prints, less the time of printing. -/
structure JsonWindow where
  windowMs : UInt64
  pid : UInt32
  engine : EngineStats
  block : BlockStats
  deriving DecidableEq

def writeJson (c : PageIoCounters) (windowMs : UInt64) (pid : UInt32) : JsonWindow :=
  let engineAvg := if c.engineCount > 0 then c.engineTotalNs / c.engineCount else 0
  let blockAvg := if c.blockCount > 0 then c.blockTotalWaitNs / c.blockCount else 0
  { windowMs := windowMs
    pid := pid
    engine :=
      { count := c.engineCount
        totalNs := c.engineTotalNs
        avgNs := engineAvg
        maxNs := c.engineMaxNs }
    block :=
      { count := c.blockCount
        totalBytes := c.blockTotalBytes
        totalWaitNs := c.blockTotalWaitNs
        avgWaitNs := blockAvg
        maxWaitNs := c.blockMaxWaitNs } }

/-- A line of `write_human`, with the numbers that are formatted in it. -/
inductive HumanLine where
  | window (windowMs : UInt64) (pid : UInt32)
  | noActivity
  | enginePageReads
  | engineCount (count : UInt64)
  | engineTotalWait (ns : UInt64)
  | engineAvgMax (avg max : UInt64)
  | blockDeviceIo
  | blockRequests (count : UInt64)
  | blockTotalBytes (bytes : UInt64)
  | blockTotalWait (ns : UInt64)
  | blockAvgMax (avg max : UInt64)
  | ratio (blockNs engineNs : UInt64)
  | blank
  deriving DecidableEq

def writeHuman (c : PageIoCounters) (windowMs : UInt64) (pid : UInt32) : List HumanLine :=
  if c.engineCount = 0 ∧ c.blockCount = 0 then
    [.window windowMs pid, .noActivity, .blank]
  else
    let engineAvg := if c.engineCount > 0 then c.engineTotalNs / c.engineCount else 0
    let blockAvg := if c.blockCount > 0 then c.blockTotalWaitNs / max c.blockCount 1 else 0
    [.window windowMs pid,
      .enginePageReads,
      .engineCount c.engineCount,
      .engineTotalWait c.engineTotalNs,
      .engineAvgMax engineAvg c.engineMaxNs,
      .blockDeviceIo,
      .blockRequests c.blockCount,
      .blockTotalBytes c.blockTotalBytes,
      .blockTotalWait c.blockTotalWaitNs,
      .blockAvgMax blockAvg c.blockMaxWaitNs] ++
    (if c.engineTotalNs > 0 then [.ratio c.blockTotalWaitNs c.engineTotalNs] else []) ++ [.blank]

/-! ## What the average is -/

/-- The number shown is the integer mean of the waits, no more than the maximum shown
with it, and not zero when no wait is. -/
structure IsAverage (waits : List Nat) (avg max : UInt64) : Prop where
  mean : avg.toNat = waits.sum / waits.length
  le_max : avg ≤ max
  nonzero : waits ≠ [] → (∀ wait ∈ waits, 1 ≤ wait) → avg ≠ 0

def ShowsAverage (waits : List Nat) (c : PageIoCounters) : Prop :=
  ∀ windowMs pid,
    IsAverage waits (writeJson c windowMs pid).block.avgWaitNs
        (writeJson c windowMs pid).block.maxWaitNs ∧
      ∀ avg max, .blockAvgMax avg max ∈ writeHuman c windowMs pid → IsAverage waits avg max

/-- The waits of the requests that are joined in a window, each on its own CPU. -/
def waitsIn (L : Limits) (target : UInt32) (n : Nat) (w : Nat → Window) : List Nat :=
  measuredIn (L := L) State.joined target n w

def sizesIn (L : Limits) (target : UInt32) (n : Nat) (w : Nat → Window) : List Nat :=
  measuredIn (L := L) State.issued target n w

/-- The requests joined in a window are as many as those issued in it. -/
def Settled (L : Limits) (target : UInt32) (n : Nat) (w : Nat → Window) : Prop :=
  waitsIn L target n w = [] ∨
    (sizesIn L target n w).length = (waitsIn L target n w).length ∧
      (sizesIn L target n w).length < 2 ^ 64 ∧ (waitsIn L target n w).sum < 2 ^ 64

/-- The quotient both outputs compute. -/
def blockAvg (c : PageIoCounters) : UInt64 :=
  if c.blockCount > 0 then c.blockTotalWaitNs / c.blockCount else 0

theorem human_avg {c : PageIoCounters} {windowMs : UInt64} {pid : UInt32} {avg max : UInt64}
    (line : .blockAvgMax avg max ∈ writeHuman c windowMs pid) :
    avg = blockAvg c ∧ max = c.blockMaxWaitNs := by
  unfold writeHuman at line
  split at line
  next => simp at line
  next =>
      have ratio : .blockAvgMax avg max ∉ (if c.engineTotalNs > 0 then
          [HumanLine.ratio c.blockTotalWaitNs c.engineTotalNs] else []) := by
        split <;> simp
      simp only [List.mem_append, ratio, or_false] at line
      simp only [List.mem_cons, HumanLine.blockAvgMax.injEq, reduceCtorEq, List.not_mem_nil,
        or_false, false_or] at line
      rcases line with ⟨value, top⟩
      refine ⟨?_, top⟩
      rw [value, blockAvg]
      split
      next some =>
          have one : (1 : UInt64) ≤ c.blockCount := UInt64.le_iff_toNat_le.mpr some
          have divisor : Max.max c.blockCount 1 = c.blockCount := by
            change (if c.blockCount ≤ 1 then 1 else c.blockCount) = c.blockCount
            split
            next small => exact UInt64.le_antisymm one small
            next => rfl
          rw [divisor]
      next => rfl

theorem toNat_blockAvg {c : PageIoCounters} :
    (blockAvg c).toNat = c.blockTotalWaitNs.toNat / c.blockCount.toNat := by
  unfold blockAvg
  split
  next => exact UInt64.toNat_div _ _
  next none =>
      have zero : c.blockCount.toNat = 0 := Nat.eq_zero_of_not_pos none
      rw [zero, Nat.div_zero]
      rfl

theorem showsAverage_iff {waits : List Nat} {c : PageIoCounters}
    (max : largest waits ≤ c.blockMaxWaitNs.toNat) :
    ShowsAverage waits c ↔ (blockAvg c).toNat = waits.sum / waits.length := by
  constructor
  · intro shown
    exact (shown 0 0).1.mean
  · intro mean
    have average : IsAverage waits (blockAvg c) c.blockMaxWaitNs := by
      refine ⟨mean, ?_, fun joined atLeast zero => ?_⟩
      · have sum : waits.sum ≤ waits.length * largest waits :=
          List.sum_le_card_nsmul waits _ fun _ mem => le_largest mem
        rw [UInt64.le_iff_toNat_le, mean]
        exact (Nat.div_le_of_le_mul sum).trans max
      · have count : waits.length ≤ waits.sum := by
          have sum := List.card_nsmul_le_sum waits 1 atLeast
          rwa [nsmul_eq_mul, Nat.mul_one] at sum
        have pos : 0 < waits.sum / waits.length :=
          Nat.div_pos count (List.length_pos_iff.mpr joined)
        rw [zero] at mean
        exact absurd mean (by simpa using pos.ne)
    intro windowMs pid
    refine ⟨average, fun avg max' line => ?_⟩
    rcases human_avg line with ⟨rfl, rfl⟩
    exact average

theorem div_inj {w i j : Nat} (joined : 0 < j) (large : (i + 1) * j ≤ w) (same : w / i = w / j) :
    i = j := by
  have quotient : i + 1 ≤ w / j := (Nat.le_div_iff_mul_le joined).mpr large
  have pos : 0 < i := by
    rcases Nat.eq_zero_or_pos i with zero | pos
    · subst zero
      rw [Nat.div_zero] at same
      omega
    · exact pos
  have low : w / j * i ≤ w := by
    rw [← same]
    exact Nat.div_mul_le_self w i
  have low' : w / j * j ≤ w := Nat.div_mul_le_self w j
  have high : w < (w / j + 1) * i := by
    rw [← same, Nat.mul_comm]
    exact Nat.lt_mul_div_succ w pos
  have high' : w < (w / j + 1) * j := by
    rw [Nat.mul_comm]
    exact Nat.lt_mul_div_succ w joined
  rcases Nat.lt_trichotomy i j with lt | eq | gt
  · have more : w / j * (i + 1) ≤ w / j * j := Nat.mul_le_mul_left _ lt
    rw [Nat.mul_add, Nat.mul_one] at more
    rw [Nat.add_mul, Nat.one_mul] at high
    omega
  · exact eq
  · have more : w / j * (j + 1) ≤ w / j * i := Nat.mul_le_mul_left _ gt
    rw [Nat.mul_add, Nat.mul_one] at more
    rw [Nat.add_mul, Nat.one_mul] at high'
    omega

/-- A window, of an interrupted flush included, in which as many requests are joined as
issued shows the mean of its waits; one whose mean is above the number of its requests shows
it in no other case. -/
theorem average_when_settled {L : Limits} {target : UInt32} {n : Nat} (h : List Step) :
    List.Forall₂
      (fun w r =>
        (Settled L target n w → ShowsAverage (waitsIn L target n w) r) ∧
          ((sizesIn L target n w).length < 2 ^ 64 → (waitsIn L target n w).sum < 2 ^ 64 →
            ((sizesIn L target n w).length + 1) * (waitsIn L target n w).length ≤
              (waitsIn L target n w).sum →
            ShowsAverage (waitsIn L target n w) r → Settled L target n w))
      (readWindows n h) ((monitor L target n).run h).result.reported := by
  refine forall_readWindows fun x mem => ?_
  have count : (reportOf L target x).blockCount =
      UInt64.ofNat (sizesIn L target n (windowOf x)).length := by
    rw [sizesIn, length_measuredIn]
    exact Field.blockCount.of_reportOf mem
  have wait : (reportOf L target x).blockTotalWaitNs =
      UInt64.ofNat (waitsIn L target n (windowOf x)).sum := by
    rw [waitsIn, sum_measuredIn]
    exact Field.blockTotalWaitNs.of_reportOf mem
  have max : largest (waitsIn L target n (windowOf x)) ≤
      (reportOf L target x).blockMaxWaitNs.toNat := largest_le_iff.mpr (Peak.block.le_reportOf mem)
  rw [showsAverage_iff max, toNat_blockAvg, count, wait]
  constructor
  · intro settled
    rcases settled with none | ⟨same, fits, sum⟩
    · simp [none]
    · rw [UInt64.toNat_ofNat_of_lt' fits, UInt64.toNat_ofNat_of_lt' sum, same]
  · intro fits sum large mean
    rw [UInt64.toNat_ofNat_of_lt' fits, UInt64.toNat_ofNat_of_lt' sum] at mean
    rcases List.eq_nil_or_concat (waitsIn L target n (windowOf x)) with none | ⟨_, _, some⟩
    · exact .inl none
    · have joined : 0 < (waitsIn L target n (windowOf x)).length := by simp [some]
      exact .inr ⟨div_inj joined large mean, fits, sum⟩

/-- Two requests are issued before a flush and complete after it, and one is issued after
it. -/
def straddlingFlush : List Step :=
  [.finish, .copy,
    .move (.blockIssue (requestAt 0 102 50 42)),
    .move (.blockComplete (requestAt 0 101 40)),
    .move (.blockComplete (requestAt 0 100 30)),
    .finish, .copy,
    .move (.blockIssue (requestAt 0 101 12 42)),
    .move (.blockIssue (requestAt 0 100 10 42))]

/-- The second window joins waits of 20 and 28 and shows an average of 48, in both outputs
above the maximum of 28. -/
theorem straddlingFlush_average :
    (readWindows 1 straddlingFlush).map (waitsIn declared 42 1) = [[], [28, 20]] ∧
      ((monitor declared 42 1).run straddlingFlush).result.reported.map
        (fun r => ((writeJson r 10000 42).block.avgWaitNs, (writeJson r 10000 42).block.maxWaitNs)) =
        [(0, 0), (48, 28)] ∧
      ((monitor declared 42 1).run straddlingFlush).result.reported.map
        (fun r => decide (.blockAvgMax 48 28 ∈ writeHuman r 10000 42)) = [false, true] := by
  refine ⟨?_, ?_, ?_⟩ <;> decide +kernel

end Tragach.Pageio
