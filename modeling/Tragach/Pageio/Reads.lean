import Tragach.Pageio.Window

/-! # What an interrupted flush reports

A flush reads one CPU after another while the probes go on, so every CPU has a window of its
own between two flushes. Together they are what a flush reports.
-/

namespace Tragach.Pageio

open Bpf Library

/-- The firings of a CPU between two reads of its counters. -/
def Window.between (before upTo : History) : Window :=
  ⟨upTo.take (upTo.length - before.length), before⟩

def windowOf (x : List History × List History) (cpu : Nat) : Window :=
  Window.between (x.1.getD cpu []) (x.2.getD cpu [])

/-- For every completed flush and every CPU, the firings that this flush has read and the
flush before had not, oldest flush first. -/
def readWindows (n : Nat) (h : List Step) : List (Nat → Window) := (Sampler.spans n h).map windowOf

/-- What the firings of a window contribute to a counter, each on its own CPU. -/
def contributedIn (L : Limits) (target : UInt32) (n : Nat) (w : Nat → Window) (f : Field) : Nat :=
  ∑ cpu ∈ Finset.range n,
    (contributions L target f).turnover (w cpu).acts (w cpu).before cpu

theorem append_between {before upTo : History} (earlier : before <:+ upTo) :
    (Window.between before upTo).acts ++ (Window.between before upTo).before = upTo := by
  rcases earlier with ⟨acts, rfl⟩
  simp [Window.between]

section

variable {L : Limits} {target : UInt32} {n : Nat}

/-- Between two reads of a CPU its counter grows by what the firings contribute. -/
theorem of_slotAfter_between {before upTo : History} (earlier : before <:+ upTo) (f : Field)
    (cpu : Nat) :
    f.of (slotAfter L target cpu upTo) = f.of (slotAfter L target cpu before) + UInt64.ofNat
      ((contributions L target f).turnover (Window.between before upTo).acts
        (Window.between before upTo).before cpu) := by
  have both := append_between earlier
  conv_lhs => rw [← both]
  rw [slotAfter, of_slot, Ledger.balance_append, UInt64.ofNat_add, slotAfter, of_slot]
  rfl

def reportOf (L : Limits) (target : UInt32) (x : List History × List History) : PageIoCounters :=
  deltaCounters (snapshotOf L target x.1) (snapshotOf L target x.2)

theorem forall_readWindows {P : (Nat → Window) → PageIoCounters → Prop} {h : List Step}
    (holds : ∀ x ∈ Sampler.spans n h, P (windowOf x) (reportOf L target x)) :
    List.Forall₂ P (readWindows n h) ((monitor L target n).run h).result.reported := by
  rw [result_monitor, readWindows, List.forall₂_map_left_iff, List.forall₂_map_right_iff,
    List.forall₂_same]
  exact holds

/-- A flush reports what the firings of its window contribute, modulo the width of a
counter. -/
theorem Field.of_reportOf (f : Field) {h : List Step} {x : List History × List History}
    (mem : x ∈ Sampler.spans n h) :
    f.of (reportOf L target x) = UInt64.ofNat (contributedIn L target n (windowOf x) f) := by
  obtain ⟨full, few, earlier⟩ := Sampler.mem_spans mem
  have grown := Finset.sum_congr rfl fun cpu mem =>
    @of_slotAfter_between L target _ _ (earlier cpu (Finset.mem_range.mp mem)) f cpu
  rw [reportOf, f.of_delta, f.of_snapshotOf few, f.of_snapshotOf full.le, grown,
    Finset.sum_add_distrib, add_sub_cancel_left, contributedIn, ofNat_sum_range]
  rfl

/-! ## The amounts of a window -/

def onCpu (what : State L → Action → Option UInt64) (cpu : Nat) (s : State L) (a : Action) :
    Option UInt64 :=
  if cpu = a.cpu then what s a else none

/-- What the firings of a window measure, each on its own CPU. -/
def measuredIn (what : State L → Action → Option UInt64) (target : UInt32) (n : Nat)
    (w : Nat → Window) : List Nat :=
  (List.range n).flatMap fun cpu =>
    measured (onCpu what cpu) target (w cpu).acts (w cpu).before

section

variable {f : Field} {what : State L → Action → Option UInt64} {weigh : Nat → Nat}

theorem turnover_measured
    (each : ∀ (s : State L) a, s.contribution a f =
      (((what s a).map UInt64.toNat).toList.map weigh).sum)
    (acts pre : History) (cpu : Nat) :
    (contributions L target f).turnover acts pre cpu =
      ((measured (onCpu what cpu) target acts pre).map weigh).sum := by
  induction acts with
  | nil => rfl
  | cons a acts ih =>
      rw [Ledger.turnover, measured, List.map_append, List.sum_append, ih, Nat.add_comm]
      congr 1
      rw [contributions, onCpu]
      split
      · exact each _ a
      · rfl

/-- A counter that weighs what is measured grows over a window by the weights of what the
window measures. -/
theorem contributedIn_eq
    (each : ∀ (s : State L) a, s.contribution a f =
      (((what s a).map UInt64.toNat).toList.map weigh).sum)
    (w : Nat → Window) :
    contributedIn L target n w f = ((measuredIn what target n w).map weigh).sum := by
  rw [measuredIn, List.map_flatMap, List.flatMap, List.sum_flatten, List.map_map, sum_map_range,
    contributedIn]
  exact Finset.sum_congr rfl fun cpu _ => turnover_measured each _ _ cpu

end

theorem sum_measuredIn (w : Nat → Window) :
    (measuredIn (L := L) State.joined target n w).sum =
      contributedIn L target n w .blockTotalWaitNs := by
  have each (s : State L) (a : Action) : s.contribution a .blockTotalWaitNs =
      (((s.joined a).map UInt64.toNat).toList.map id).sum := by
    cases joined : s.joined a <;> simp [State.contribution, Field.amount, joined]
  rw [contributedIn_eq each, List.map_id]

theorem length_measuredIn (w : Nat → Window) :
    (measuredIn (L := L) State.issued target n w).length =
      contributedIn L target n w .blockCount := by
  have each (s : State L) (a : Action) : s.contribution a .blockCount =
      (((s.issued a).map UInt64.toNat).toList.map fun _ => 1).sum := by
    cases issued : s.issued a <;> simp [State.contribution, Field.amount, issued]
  rw [contributedIn_eq each, List.map_const', List.sum_replicate_nat, Nat.mul_one]

/-- A maximum of a CPU is not below what was measured on it. -/
theorem Peak.le_slotAfter (p : Peak) (cpu : Nat) (g : History) :
    ∀ x ∈ measured (L := L) (onCpu p.what cpu) target g [],
      x ≤ (p.of (slotAfter L target cpu g)).toNat := by
  induction g with
  | nil => exact fun x mem => absurd mem List.not_mem_nil
  | cons a g ih =>
      obtain ⟨before, own⟩ := (@Peak.slot_le_iff L target p cpu a g _).mp le_rfl
      rw [measured, List.append_nil]
      intro x mem
      rcases List.mem_append.mp mem with now | earlier
      · rw [Option.mem_toList] at now
        obtain ⟨y, found, value⟩ := Option.map_eq_some_iff.mp now
        rw [onCpu] at found
        split at found
        next here => exact value ▸ own here y found
        next => cases found
      · exact (ih x earlier).trans before

theorem Peak.le_snapshotOf (p : Peak) {reads : List History} {cpu : Nat} (lt : cpu < reads.length) :
    (p.of (slotAfter L target cpu (reads.getD cpu []))).toNat ≤
      (p.of (snapshotOf L target reads)).toNat := by
  refine (p.snapshot_le_iff _).mp le_rfl _ (List.mem_mapIdx.mpr ⟨cpu, lt, ?_⟩)
  rw [List.getD_eq_getElem _ _ lt]

/-- A flush reports maxima that nothing measured in its window exceeds. -/
theorem Peak.le_reportOf (p : Peak) {h : List Step} {x : List History × List History}
    (mem : x ∈ Sampler.spans n h) :
    ∀ y ∈ measuredIn (L := L) p.what target n (windowOf x),
      y ≤ (p.of (reportOf L target x)).toNat := by
  intro y measuredHere
  obtain ⟨full, -, earlier⟩ := Sampler.mem_spans mem
  obtain ⟨cpu, lt, own⟩ := List.mem_flatMap.mp measuredHere
  rw [List.mem_range] at lt
  have whole : y ∈ measured (L := L) (onCpu p.what cpu) target (x.2.getD cpu []) [] := by
    rw [← append_between (earlier cpu lt), measured_append, List.append_nil]
    exact List.mem_append_left _ own
  have peak : p.of (reportOf L target x) = p.of (snapshotOf L target x.2) := by
    cases p <;> rfl
  rw [peak]
  exact (p.le_slotAfter cpu _ y whole).trans (p.le_snapshotOf (by rwa [full]))

end

end Tragach.Pageio
