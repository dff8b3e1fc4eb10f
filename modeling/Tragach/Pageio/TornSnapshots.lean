import Tragach.Pageio.Flush
import Tragach.Pageio.Interleaving

/-! # Snapshots taken in the middle of programs

A flush copies the counters word by word, and programs on the other CPUs go on between two
words, also a program that has stored one of its counters and not yet the next. A report
may then count a fetch and not its time. Since what is reported is the difference to the
words copied before, the next report has the rest: no word is lost or reported twice.
-/

namespace Tragach.Pageio

open Bpf Library

/-! ## The words -/

def Counter.index : Counter → Nat
  | .engineCount => 0
  | .engineTotalNs => 1
  | .engineMaxNs => 2
  | .blockCount => 3
  | .blockTotalBytes => 4
  | .blockTotalWaitNs => 5
  | .blockMaxWaitNs => 6

def Counter.ofIndex : Nat → Counter
  | 0 => .engineCount
  | 1 => .engineTotalNs
  | 2 => .engineMaxNs
  | 3 => .blockCount
  | 4 => .blockTotalBytes
  | 5 => .blockTotalWaitNs
  | _ => .blockMaxWaitNs

def wordsPerCpu : Nat := 7

def wordIndex (cpu : Nat) (f : Counter) : Nat := wordsPerCpu * cpu + f.index

def State.word {L : Limits} (s : State L) (i : Nat) : UInt64 :=
  (s.slot (i / wordsPerCpu)).load (Counter.ofIndex (i % wordsPerCpu))

def PageIoCounters.ofWords (word : Counter → UInt64) : PageIoCounters where
  engineCount := word .engineCount
  engineTotalNs := word .engineTotalNs
  engineMaxNs := word .engineMaxNs
  blockCount := word .blockCount
  blockTotalBytes := word .blockTotalBytes
  blockTotalWaitNs := word .blockTotalWaitNs
  blockMaxWaitNs := word .blockMaxWaitNs

def perCpu (n : Nat) (words : List UInt64) : List PageIoCounters :=
  (List.range n).map fun cpu => .ofWords fun f => words.getD (wordIndex cpu f) 0

/-- The programs of a machine with `n` CPUs, one access at a time, and the flushes, one word
at a time. -/
def flushing (L : Limits) (target : UInt32) (n : Nat) :
    Sampler (Threads (State L) Nat Action Answer) (ThreadStep Nat Action) UInt64 Flushes where
  system := running L target
  size := wordsPerCpu * n
  word := fun m i => m.shared.word i
  init := ⟨{}, []⟩
  finish := fun m words => m.report (perCpu n words)

/-- The accesses before the word of a field of a CPU was last copied. -/
def wordRead (n : Nat) (h : List (SampleStep (ThreadStep Nat Action))) (cpu : Nat) (f : Counter) :
    List (ThreadStep Nat Action) :=
  (Sampler.lastRead (wordsPerCpu * n) h).getD (wordIndex cpu f) []

variable {L : Limits} {target : UInt32} {n : Nat}

theorem word_wordIndex (s : State L) (cpu : Nat) (f : Counter) :
    s.word (wordIndex cpu f) = (s.slot cpu).load f := by
  have place : wordIndex cpu f / wordsPerCpu = cpu ∧ wordIndex cpu f % wordsPerCpu = f.index := by
    cases f <;> simp only [wordIndex, wordsPerCpu, Counter.index] <;> omega
  rw [State.word, place.1, place.2]
  cases f <;> rfl

theorem wordIndex_lt {cpu : Nat} (f : Counter) (lt : cpu < n) :
    wordIndex cpu f < wordsPerCpu * n := by
  cases f <;> simp only [wordIndex, wordsPerCpu, Counter.index] <;> omega

def Field.counter : Field → Counter
  | .engineCount => .engineCount
  | .engineTotalNs => .engineTotalNs
  | .blockCount => .blockCount
  | .blockTotalBytes => .blockTotalBytes
  | .blockTotalWaitNs => .blockTotalWaitNs

theorem Field.of_eq_load (f : Field) (c : PageIoCounters) : f.of c = c.load f.counter := by
  cases f <;> rfl

theorem Field.of_ofWords (f : Field) (word : Counter → UInt64) :
    f.of (.ofWords word) = word f.counter := by
  cases f <;> rfl

/-! ## Reports telescope -/

/-- A counter in the copied words is the sum of its words, each of its own moment. -/
theorem Field.of_torn (f : Field) {reads : List (List (ThreadStep Nat Action))}
    (full : reads.length = wordsPerCpu * n) :
    f.of (snapshotCounters (perCpu n
        (reads.mapIdx fun i g => ((running L target).run g).shared.word i))) =
      ∑ cpu ∈ Finset.range n, f.of (((running L target).run
        (reads.getD (wordIndex cpu f.counter) [])).shared.slot cpu) := by
  rw [f.of_snapshot, perCpu, List.map_map, sum_map_range]
  refine Finset.sum_congr rfl fun cpu mem => ?_
  have inside : wordIndex cpu f.counter < reads.length := by
    rw [full]
    exact wordIndex_lt f.counter (Finset.mem_range.mp mem)
  have copied : wordIndex cpu f.counter <
      (reads.mapIdx fun i g => ((running L target).run g).shared.word i).length := by
    rwa [List.length_mapIdx]
  rw [Function.comp_apply, f.of_ofWords, List.getD_eq_getElem _ _ copied,
    List.getElem_mapIdx, word_wordIndex, List.getD_eq_getElem _ _ inside, f.of_eq_load]

/-- Whatever moves between the words, the differences reported for a counter add up to its
words as they were last copied. -/
theorem sum_torn (f : Field) (h : List (SampleStep (ThreadStep Nat Action))) :
    (((flushing L target n).sampled.run h).result.reported.map f.of).sum =
      ∑ cpu ∈ Finset.range n,
        f.of (((running L target).run (wordRead n h cpu f.counter)).shared.slot cpu) := by
  have both := Sampler.result_induction (S := flushing L target n)
    (P := fun r last _ => (r.reported.map f.of).sum = f.of r.prevSnapshot ∧
      f.of r.prevSnapshot = ∑ cpu ∈ Finset.range n, f.of (((running L target).run
        (last.getD (wordIndex cpu f.counter) [])).shared.slot cpu)) ?_ ?_ h
  · exact both.1.trans both.2
  · have zero : f.of {} = 0 := by cases f <;> rfl
    refine ⟨zero.symm, zero.trans (Finset.sum_eq_zero fun cpu _ => ?_).symm⟩
    cases f <;> rfl
  · intro r last reads _ before full
    refine ⟨?_, f.of_torn full⟩
    show ((r.reported ++ [deltaCounters r.prevSnapshot _]).map f.of).sum = _
    rw [List.map_append, List.sum_append, before.1, List.map_singleton, List.sum_singleton,
      f.of_delta]
    exact add_sub_cancel ..

/-! ## Words at rest -/

/-- The program may store the counter. -/
def Action.Updates (a : Action) (cpu : Nat) (f : Field) : Prop := .counter cpu f.counter ∈ a.cells

instance (a : Action) (cpu : Nat) (f : Field) : Decidable (a.Updates cpu f) :=
  inferInstanceAs (Decidable (_ ∈ a.cells))

/-- A counter that no running program updates is what the firings whose programs have begun
contributed to it. -/
theorem of_slot_settled {h : List (ThreadStep Nat Action)}
    (apart : Lawful (KeepingApart L target) h) (room : Lawful (NoneRefused L target) h)
    {cpu : Nat} {f : Field}
    (settled : ∀ a ∈ ((running L target).run h).active, ¬ a.event.Updates cpu f) :
    f.of (((running L target).run h).shared.slot cpu) =
      UInt64.ofNat ((contributed target f).balance (entered h) cpu) := by
  obtain ⟨active, cells⟩ := (imitates L target).run room
  have clear := (imitates L target).noClash room apart
  have spared : ∀ a ∈ ((running unlimited target).run h).active, a.rest.All fun op =>
      ∀ s, ((exec unlimited op s).2.slot cpu).load f.counter = (s.slot cpu).load f.counter := by
    intro a mem
    refine rest_of_running mem ((body_within a.event).mono fun op within s => ?_)
    rcases within with rfl | own
    · rfl
    · have other : Cell.counter cpu f.counter ≠ op.cell := by
        intro same
        rw [← active] at mem
        rw [← same] at own
        exact settled a mem own
      exact (access_local op).spares other
  have complete := Threads.completed_keeps
    (fun s : State unlimited => (s.slot cpu).load f.counter) _ spared
  rw [completed_eq_serial body_apart clear, serial_eq_programs] at complete
  rw [f.of_eq_load]
  refine (cells (.counter cpu f.counter)).trans (complete.symm.trans ?_)
  rw [← f.of_eq_load, of_slot, balance_contributions (roomy_unlimited target (entered h))]

/-- However the programs interleave with the words that the flushes copy, the differences
reported for a counter add up to what the firings contributed to it whose programs had begun
when its words were last copied, if no program that updates one was then running. -/
theorem torn_flushes_telescope {h : List (SampleStep (ThreadStep Nat Action))}
    (apart : Lawful (KeepingApart L target) (Sampler.moves h))
    (room : Lawful (NoneRefused L target) (Sampler.moves h)) {f : Field}
    (settled : ∀ cpu < n,
      ∀ a ∈ ((running L target).run (wordRead n h cpu f.counter)).active,
        ¬ a.event.Updates cpu f) :
    (((flushing L target n).sampled.run h).result.reported.map f.of).sum =
      UInt64.ofNat (∑ cpu ∈ Finset.range n, (contributed target f).balance
        (entered (wordRead n h cpu f.counter)) cpu) := by
  rw [sum_torn, ofNat_sum_range]
  refine Finset.sum_congr rfl fun cpu mem => ?_
  obtain ⟨post, split⟩ : wordRead n h cpu f.counter <:+ Sampler.moves h :=
    Sampler.lastRead_getD_suffix _ _ h
  exact of_slot_settled (split ▸ apart).of_append (split ▸ room).of_append
    (settled cpu (Finset.mem_range.mp mem))

def flushOne : List (SampleStep (ThreadStep Nat Action)) := .finish :: List.replicate 7 .copy

def turns (k : Nat) : List (SampleStep (ThreadStep Nat Action)) :=
  List.replicate k (.move (.advance 0))

/-- An exit has stored the number of fetches and not yet their time when it is flushed, and
goes on before the next flush. -/
def tornExit : List (SampleStep (ThreadStep Nat Action)) :=
  flushOne ++ turns 5 ++ flushOne ++ turns 4 ++ .move (.enter 0 (.cchExit (fetchAt 0 7 40 42))) ::
    turns 3 ++ [.move (.enter 0 (.cchEntry (fetchAt 0 7 10 42)))]

theorem tornExit_total :
    (((flushing declared 42 1).sampled.run tornExit).result.reported.map
      Field.engineTotalNs.of).sum = 30 := by
  have apart : Lawful (KeepingApart declared 42) (Sampler.moves tornExit) := by decide +kernel
  have settled : ∀ cpu < 1, ∀ a ∈ ((running declared 42).run
      (wordRead 1 tornExit cpu Field.engineTotalNs.counter)).active,
        ¬ a.event.Updates cpu .engineTotalNs := by
    decide +kernel
  exact (torn_flushes_telescope apart (by decide +kernel) settled).trans (by decide +kernel)

/-- The first report counts the fetch and the second adds its time. -/
example : ((flushing declared 42 1).sampled.run tornExit).result.reported.map
    (fun c => (c.engineCount, c.engineTotalNs)) = [(1, 0), (0, 30)] := by
  decide +kernel

end Tragach.Pageio
