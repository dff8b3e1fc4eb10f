import Mathlib.Algebra.Order.BigOperators.Group.List
import Mathlib.Algebra.Order.Group.Nat
import Mathlib.Tactic.Abel
import Tragach.Pageio.Flush

/-! # What a window reports

Flushes that no firing interrupts cut a run into windows. A window reports the sums of
what its own firings added, and the maxima of everything that was added since the
programs were loaded.
-/

namespace Tragach.Pageio

open Bpf Library

inductive Tick where
  | probe (a : Action)
  | flush

def Tick.steps (n : Nat) : Tick → List Step
  | .probe a => [.move a]
  | .flush => List.replicate n .copy ++ [.finish]

variable {L : Limits}

def windows (L : Limits) (target : UInt32) (n : Nat) : System (Monitor L) Tick :=
  ⟨(monitor L target n).init, fun m t => (t.steps n).foldl (monitor L target n).step m⟩

/-! ## The windows of a run -/

def Tick.firing : Tick → Option Action
  | .probe a => some a
  | .flush => none

def probes (h : List Tick) : History := h.filterMap Tick.firing

def sinceFlush : List Tick → History
  | [] => []
  | .probe a :: h => a :: sinceFlush h
  | .flush :: _ => []

def beforeFlush : List Tick → History
  | [] => []
  | .probe _ :: h => beforeFlush h
  | .flush :: h => probes h

/-- The firings of a window and those before it. -/
structure Window where
  acts : History
  before : History

/-- The windows that the flushes of a run end, oldest first. -/
def windowsOf : List Tick → List Window
  | [] => []
  | .probe _ :: h => windowsOf h
  | .flush :: h => windowsOf h ++ [⟨sinceFlush h, beforeFlush h⟩]

/-- Everything up to the end of a window as one window. -/
def Window.sinceStart (w : Window) : Window := ⟨w.acts ++ w.before, []⟩

theorem probes_eq (h : List Tick) : probes h = sinceFlush h ++ beforeFlush h := by
  induction h with
  | nil => rfl
  | cons t h ih =>
      cases t with
      | probe a => exact congrArg (List.cons a) ih
      | flush => rfl

theorem suffix_of_mem_windowsOf {h : List Tick} {w : Window} (mem : w ∈ windowsOf h) :
    w.acts ++ w.before <:+ probes h := by
  induction h with
  | nil => cases mem
  | cons t h ih =>
      cases t with
      | probe a => exact (ih mem).trans (List.suffix_cons a (probes h))
      | flush =>
          rcases List.mem_append.mp mem with before | now
          · exact ih before
          · rw [List.mem_singleton] at now
            subst now
            exact probes_eq h ▸ List.suffix_rfl

/-! ## A flush that is not interrupted -/

def snapshotAfter (L : Limits) (target : UInt32) (n : Nat) (g : History) : PageIoCounters :=
  snapshotCounters ((List.range n).map fun cpu => slotAfter L target cpu g)

def Window.report (L : Limits) (target : UInt32) (n : Nat) (w : Window) : PageIoCounters :=
  deltaCounters (snapshotAfter L target n w.before) (snapshotAfter L target n (w.acts ++ w.before))

section

variable {target : UInt32} {n : Nat}

theorem foldl_copy {k : Nat} {m : Monitor L} (room : m.copied.length + k ≤ n) :
    (List.replicate k .copy).foldl (monitor L target n).step m =
      { m with copied := m.copied ++ (List.range' m.copied.length k).map m.state.slot } := by
  induction k generalizing m with
  | zero => simp
  | succ k ih =>
      have next : (monitor L target n).step m .copy =
          { m with copied := m.copied ++ [m.state.slot m.copied.length] } := by
        have less : m.copied.length < (flusher L target n).size := by
          show m.copied.length < n
          omega
        exact if_pos less
      rw [List.replicate_succ, List.foldl_cons, next,
        ih (m := { m with copied := m.copied ++ [m.state.slot m.copied.length] })
          (by simp only [List.length_append, List.length_singleton]; omega)]
      simp [List.range'_succ]

theorem step_flush {m : Monitor L} (idle : m.copied = []) :
    (windows L target n).step m .flush =
      { state := m.state
        copied := []
        result := m.result.report ((List.range n).map m.state.slot) } := by
  show (Tick.flush.steps n).foldl (monitor L target n).step m = _
  rw [Tick.steps, List.foldl_append, foldl_copy (by simp [idle])]
  simp [monitor, flusher, Sampler.sampled, Sampler.next, idle, List.range_eq_range']

theorem snapshotAfter_nil : snapshotAfter L target n [] = {} := by
  have zeros : ∀ l : List Nat, snapshotCounters (l.map fun cpu => slotAfter L target cpu []) = {} := by
    intro l
    induction l with
    | nil => rfl
    | cons cpu l ih => exact ih
  exact zeros (List.range n)

theorem run_windows (h : List Tick) :
    (windows L target n).run h =
      { state := (programs L target).run (probes h)
        copied := []
        result :=
          { prevSnapshot := snapshotAfter L target n (beforeFlush h)
            reported := (windowsOf h).map (Window.report L target n) } } := by
  induction h with
  | nil =>
      rw [beforeFlush, snapshotAfter_nil]
      rfl
  | cons t h ih =>
      rw [System.run_cons, ih]
      cases t with
      | probe a => rfl
      | flush =>
          have report : Window.report L target n ⟨sinceFlush h, beforeFlush h⟩ =
              deltaCounters (snapshotAfter L target n (beforeFlush h))
                (snapshotAfter L target n (probes h)) := by
            rw [Window.report, probes_eq h]
          rw [step_flush rfl, windowsOf, List.map_append, beforeFlush, List.map_singleton, report]
          rfl

/-! ## The sums of a window -/

/-- What the firings `acts` add to a total after the firings `pre`, the latest first. -/
def measured (what : State L → Action → Option UInt64) (target : UInt32) :
    History → History → List Nat
  | [], _ => []
  | a :: acts, pre =>
      ((what ((programs L target).run (acts ++ pre)) a).map UInt64.toNat).toList ++
        measured what target acts pre

def Window.durations (L : Limits) (target : UInt32) (w : Window) : List Nat :=
  measured (L := L) State.fetched target w.acts w.before

def Window.sizes (L : Limits) (target : UInt32) (w : Window) : List Nat :=
  measured (L := L) State.issued target w.acts w.before

def Window.waits (L : Limits) (target : UInt32) (w : Window) : List Nat :=
  measured (L := L) State.joined target w.acts w.before

def Field.total (L : Limits) (target : UInt32) (w : Window) : Field → Nat
  | .engineCount => (w.durations L target).length
  | .engineTotalNs => (w.durations L target).sum
  | .blockCount => (w.sizes L target).length
  | .blockTotalBytes => (w.sizes L target).sum
  | .blockTotalWaitNs => (w.waits L target).sum

theorem Field.total_cons (f : Field) (a : Action) (acts pre : History) :
    f.total L target ⟨a :: acts, pre⟩ =
      ((programs L target).run (acts ++ pre)).contribution a f + f.total L target ⟨acts, pre⟩ := by
  cases f <;>
    simp only [Field.total, Window.durations, Window.sizes, Window.waits, measured,
      State.contribution, Field.amount, List.length_append, List.sum_append] <;>
    congr 1
  · cases ((programs L target).run (acts ++ pre)).fetched a <;> rfl
  · cases ((programs L target).run (acts ++ pre)).fetched a <;> rfl
  · cases ((programs L target).run (acts ++ pre)).issued a <;> rfl
  · cases ((programs L target).run (acts ++ pre)).issued a <;> rfl
  · cases ((programs L target).run (acts ++ pre)).joined a <;> rfl

theorem sum_range_update (x : Nat → UInt64) (c : Nat) (v : UInt64) (n : Nat) :
    ((List.range n).map fun cpu => if cpu = c then x cpu + v else x cpu).sum =
      ((List.range n).map x).sum + if c < n then v else 0 := by
  induction n with
  | zero => simp
  | succ n ih =>
      rw [List.range_succ, List.map_append, List.map_append, List.sum_append, List.sum_append, ih]
      rcases Nat.lt_trichotomy c n with lt | eq | gt
      · have other : n ≠ c := by omega
        have lt' : c < n + 1 := by omega
        simp only [lt, lt', other, if_true, if_false, List.map_singleton, List.sum_singleton]
        abel
      · subst eq
        simp [add_assoc]
      · have other : n ≠ c := by omega
        have ge : ¬ c < n := by omega
        have ge' : ¬ c < n + 1 := by omega
        simp [other, ge, ge']

theorem of_snapshotAfter_cons (f : Field) {a : Action} (g : History) (cpu : a.cpu < n) :
    f.of (snapshotAfter L target n (a :: g)) = f.of (snapshotAfter L target n g) +
      UInt64.ofNat (((programs L target).run g).contribution a f) := by
  have slot : ∀ c, f.of (slotAfter L target c (a :: g)) =
      if c = a.cpu then f.of (slotAfter L target c g) +
        UInt64.ofNat (((programs L target).run g).contribution a f)
      else f.of (slotAfter L target c g) := by
    intro c
    rw [slotAfter, System.run_cons, programs_step, slot_fire]
    split
    next => rw [f.of_after]; rfl
    next => rfl
  have update := sum_range_update (fun c => f.of (slotAfter L target c g)) a.cpu
    (UInt64.ofNat (((programs L target).run g).contribution a f)) n
  rw [if_pos cpu] at update
  simp only [snapshotAfter, f.of_snapshot, List.map_map, Function.comp_def, slot, update]

/-- A window reports the total of its own firings, modulo the width of a counter. -/
theorem Field.of_report (f : Field) (w : Window) (cpus : ∀ a ∈ w.acts, a.cpu < n) :
    f.of (w.report L target n) = UInt64.ofNat (f.total L target w) := by
  have grows : f.of (snapshotAfter L target n (w.acts ++ w.before)) =
      f.of (snapshotAfter L target n w.before) + UInt64.ofNat (f.total L target w) := by
    rcases w with ⟨acts, pre⟩
    induction acts with
    | nil => cases f <;> simp [Field.total, Window.durations, Window.sizes, Window.waits, measured]
    | cons a acts ih =>
        rw [List.cons_append, of_snapshotAfter_cons f _ (cpus a List.mem_cons_self),
          ih fun a mem => cpus a (List.mem_cons_of_mem _ mem), f.total_cons, UInt64.ofNat_add]
        abel
  rw [Window.report, f.of_delta, grows]
  abel

/-! ## The maxima -/

inductive Peak where
  | engine | block

def Peak.of : Peak → PageIoCounters → UInt64
  | .engine, c => c.engineMaxNs
  | .block, c => c.blockMaxWaitNs

def Peak.what : Peak → State L → Action → Option UInt64
  | .engine => State.fetched
  | .block => State.joined

/-- What the maximum is over, in a window. -/
def Peak.amounts (L : Limits) (target : UInt32) (w : Window) : Peak → List Nat
  | .engine => w.durations L target
  | .block => w.waits L target

/-- The counter that totals the same amounts. -/
def Peak.total : Peak → Field
  | .engine => .engineTotalNs
  | .block => .blockTotalWaitNs

/-- The largest of some amounts, 0 when there are none. -/
def largest (amounts : List Nat) : Nat := amounts.foldr max 0

theorem largest_le_iff {amounts : List Nat} {b : Nat} :
    largest amounts ≤ b ↔ ∀ x ∈ amounts, x ≤ b := by
  induction amounts with
  | nil => simp [largest]
  | cons x amounts ih =>
      rw [List.forall_mem_cons, ← ih]
      exact max_le_iff

theorem le_largest {amounts : List Nat} {x : Nat} (mem : x ∈ amounts) : x ≤ largest amounts :=
  largest_le_iff.mp le_rfl x mem

theorem Peak.merge_le_iff (p : Peak) (out c : PageIoCounters) {b : Nat} :
    (p.of (out.merge c)).toNat ≤ b ↔ (p.of out).toNat ≤ b ∧ (p.of c).toNat ≤ b := by
  have larger : ∀ x y : UInt64,
      (if y > x then y else x).toNat ≤ b ↔ x.toNat ≤ b ∧ y.toNat ≤ b := by
    intro x y
    split
    next gt =>
        have lt : x.toNat < y.toNat := gt
        omega
    next le =>
        have le' : y.toNat ≤ x.toNat := Nat.not_lt.mp le
        omega
  cases p <;> exact larger _ _

theorem Peak.snapshot_le_iff (p : Peak) (perCpu : List PageIoCounters) {b : Nat} :
    (p.of (snapshotCounters perCpu)).toNat ≤ b ↔ ∀ c ∈ perCpu, (p.of c).toNat ≤ b := by
  have fold : ∀ out, (p.of (perCpu.foldl PageIoCounters.merge out)).toNat ≤ b ↔
      (p.of out).toNat ≤ b ∧ ∀ c ∈ perCpu, (p.of c).toNat ≤ b := by
    induction perCpu with
    | nil => simp
    | cons c perCpu ih =>
        intro out
        rw [List.foldl_cons, ih, p.merge_le_iff, List.forall_mem_cons, and_assoc]
  have empty : (p.of {}).toNat ≤ b := by cases p <;> exact Nat.zero_le b
  rw [snapshotCounters, fold]
  simp [empty]

theorem Peak.slot_le_iff (p : Peak) (cpu : Nat) (a : Action) (g : History) {b : Nat} :
    (p.of (slotAfter L target cpu (a :: g))).toNat ≤ b ↔
      (p.of (slotAfter L target cpu g)).toNat ≤ b ∧
        (cpu = a.cpu → ∀ x ∈ p.what ((programs L target).run g) a, x.toNat ≤ b) := by
  have raised : ∀ x y : UInt64,
      (if y > x then y else x).toNat ≤ b ↔ x.toNat ≤ b ∧ y.toNat ≤ b :=
    fun x y => Peak.merge_le_iff .engine { engineMaxNs := x } { engineMaxNs := y }
  rw [slotAfter, System.run_cons, programs_step, slot_fire, slotAfter]
  split
  next own =>
      cases p with
      | engine =>
          cases fetched : ((programs L target).run g).fetched a <;>
            cases ((programs L target).run g).issued a <;>
            cases ((programs L target).run g).joined a <;>
            simp [own, Peak.of, Peak.what, fetched, PageIoCounters.after, PageIoCounters.fetched,
              PageIoCounters.issued, PageIoCounters.joined, ← raised]
      | block =>
          cases ((programs L target).run g).fetched a <;>
            cases ((programs L target).run g).issued a <;>
            cases joined : ((programs L target).run g).joined a <;>
            simp [own, Peak.of, Peak.what, joined, PageIoCounters.after, PageIoCounters.fetched,
              PageIoCounters.issued, PageIoCounters.joined, ← raised]
  next foreign => simp [foreign]

/-- The maximum over all CPUs is over everything that was measured on them. -/
theorem Peak.snapshotAfter_le_iff (p : Peak) {g : History} (cpus : ∀ a ∈ g, a.cpu < n) {b : Nat} :
    (p.of (snapshotAfter L target n g)).toNat ≤ b ↔
      ∀ x ∈ measured (L := L) p.what target g [], x ≤ b := by
  have slots : ∀ g, (p.of (snapshotAfter L target n g)).toNat ≤ b ↔
      ∀ cpu < n, (p.of (slotAfter L target cpu g)).toNat ≤ b := by
    intro g
    simp [snapshotAfter, p.snapshot_le_iff]
  induction g with
  | nil => simp [snapshotAfter_nil, measured, show (p.of {}).toNat = 0 by cases p <;> rfl]
  | cons a g ih =>
      have own := cpus a List.mem_cons_self
      rw [slots]
      simp only [p.slot_le_iff, measured, List.append_nil, List.forall_mem_append]
      have before : (p.of (snapshotAfter L target n g)).toNat ≤ b ↔
          ∀ x ∈ measured (L := L) p.what target g [], x ≤ b :=
        ih fun a mem => cpus a (List.mem_cons_of_mem _ mem)
      rw [← before, slots]
      constructor
      · intro bounded
        refine ⟨fun x mem => ?_, fun cpu lt => (bounded cpu lt).1⟩
        simp only [Option.mem_toList, Option.map_eq_some_iff] at mem
        rcases mem with ⟨y, found, value⟩
        exact value ▸ (bounded a.cpu own).2 rfl y found
      · intro bounded cpu lt
        refine ⟨bounded.2 cpu lt, fun _ y found => ?_⟩
        exact bounded.1 y.toNat (by simp [Option.mem_def.mp found])

theorem Peak.amounts_sinceStart (p : Peak) (w : Window) :
    p.amounts L target w.sinceStart = measured (L := L) p.what target (w.acts ++ w.before) [] := by
  cases p <;> rfl

theorem Peak.of_report (p : Peak) (w : Window) (cpus : ∀ a ∈ w.acts ++ w.before, a.cpu < n) :
    (p.of (w.report L target n)).toNat = largest (p.amounts L target w.sinceStart) := by
  have peak : p.of (w.report L target n) = p.of (snapshotAfter L target n (w.acts ++ w.before)) := by
    cases p <;> rfl
  apply eq_of_forall_ge_iff
  intro b
  rw [peak, p.snapshotAfter_le_iff cpus, largest_le_iff, p.amounts_sinceStart]

theorem measured_append (what : State L → Action → Option UInt64) (acts mid pre : History) :
    measured what target (acts ++ mid) pre =
      measured what target acts (mid ++ pre) ++ measured what target mid pre := by
  induction acts with
  | nil => rfl
  | cons a acts ih => simp only [List.cons_append, measured, ih, List.append_assoc]

theorem Peak.mem_sinceStart (p : Peak) {w : Window} {x : Nat} (mem : x ∈ p.amounts L target w) :
    x ∈ p.amounts L target w.sinceStart := by
  rw [p.amounts_sinceStart, measured_append, List.append_nil]
  apply List.mem_append_left _
  cases p <;> exact mem

theorem largest_le_sum (amounts : List Nat) : largest amounts ≤ amounts.sum :=
  largest_le_iff.mpr fun _ mem => List.le_sum_of_mem mem

theorem Peak.of_total (p : Peak) (w : Window) (cpus : ∀ a ∈ w.acts, a.cpu < n) :
    p.total.of (w.report L target n) = UInt64.ofNat (p.amounts L target w).sum := by
  have total : p.total.of (w.report L target n) = UInt64.ofNat (p.total.total L target w) :=
    p.total.of_report w cpus
  cases p <;> exact total

/-- When the largest amount so far is of the window itself, it is no more than the total. -/
theorem Peak.report_le_total (p : Peak) (w : Window) (cpus : ∀ a ∈ w.acts ++ w.before, a.cpu < n)
    (largestHere : largest (p.amounts L target w.sinceStart) = largest (p.amounts L target w))
    (fits : (p.amounts L target w).sum < 2 ^ 64) :
    p.of (w.report L target n) ≤ p.total.of (w.report L target n) := by
  have own : ∀ a ∈ w.acts, a.cpu < n := fun a mem => cpus a (List.mem_append_left _ mem)
  rw [UInt64.le_iff_toNat_le, p.of_report w cpus, largestHere, p.of_total w own,
    UInt64.toNat_ofNat_of_lt' fits]
  exact largest_le_sum _

theorem forall_reported {P : Window → PageIoCounters → Prop} {h : List Tick}
    (holds : ∀ w ∈ windowsOf h, P w (w.report L target n)) :
    List.Forall₂ P (windowsOf h) ((windows L target n).run h).result.reported := by
  rw [run_windows, List.forall₂_map_right_iff, List.forall₂_same]
  exact holds

end

/-- The maxima of a window are over everything since the start of the run. They are those
of the window, and no more than its totals, when it has an amount as large as all before. -/
theorem maxima_since_start {target : UInt32} {n : Nat} {h : List Tick}
    (cpus : ∀ a ∈ probes h, a.cpu < n) :
    List.Forall₂
      (fun w r => ∀ p : Peak,
        (p.of r).toNat = largest (p.amounts L target w.sinceStart) ∧
          ((∀ x ∈ p.amounts L target w.sinceStart, ∃ y ∈ p.amounts L target w, x ≤ y) →
            (p.of r).toNat = largest (p.amounts L target w) ∧
              ((p.amounts L target w).sum < 2 ^ 64 → p.of r ≤ p.total.of r)))
      (windowsOf h) ((windows L target n).run h).result.reported := by
  apply forall_reported
  intro w mem p
  have cpus' : ∀ a ∈ w.acts ++ w.before, a.cpu < n := fun a seen =>
    cpus a ((suffix_of_mem_windowsOf mem).subset seen)
  have peak : (p.of (w.report L target n)).toNat = largest (p.amounts L target w.sinceStart) :=
    p.of_report w cpus'
  refine ⟨peak, fun reached => ?_⟩
  have above : largest (p.amounts L target w.sinceStart) ≤ largest (p.amounts L target w) := by
    apply largest_le_iff.mpr
    intro x earlier
    rcases reached x earlier with ⟨y, here, le⟩
    exact le.trans (le_largest here)
  have below : largest (p.amounts L target w) ≤ largest (p.amounts L target w.sinceStart) :=
    largest_le_iff.mpr fun x here => le_largest (p.mem_sinceStart here)
  have largestHere := Nat.le_antisymm above below
  exact ⟨peak.trans largestHere, p.report_le_total w cpus' largestHere⟩

/-- A window with a fetch and a request, and one in which nothing happens. -/
def busyThenQuiet : List Tick :=
  [.flush, .flush,
    .probe (.cchExit (fetchAt 1 7 50 42)),
    .probe (.blockComplete (requestAt 0 100 40)),
    .probe (.blockIssue (requestAt 0 100 20 42)),
    .probe (.cchEntry (fetchAt 0 7 10 42))]

theorem busyThenQuiet_maxima :
    List.Forall₂
      (fun w r => ∀ p : Peak, (p.of r).toNat = largest (p.amounts declared 42 w.sinceStart))
      (windowsOf busyThenQuiet) ((windows declared 42 2).run busyThenQuiet).result.reported :=
  (maxima_since_start (by decide +kernel)).imp fun _ _ holds p => (holds p).1

/-- The quiet window reports the maxima of the busy one, above its totals. -/
theorem quietWindow_maxima :
    ((windows declared 42 2).run busyThenQuiet).result.reported.map
        (fun r => (r.engineMaxNs, r.engineTotalNs, r.blockMaxWaitNs, r.blockTotalWaitNs)) =
      [(40, 40, 20, 20), (40, 0, 20, 0)] ∧
      (windowsOf busyThenQuiet).map
        (fun w => (largest (w.durations declared 42), largest (w.waits declared 42))) =
      [(40, 20), (0, 0)] := by
  constructor <;> decide +kernel

end Tragach.Pageio
