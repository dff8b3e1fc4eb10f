import Mathlib.Data.UInt
import Mathlib.Tactic.Abel
import Tragach.Iowait.Accounting

/-! # Flushing the buckets

A flush reads the buckets one after another, removes every key it has read and
reports what it read, while the probes keep crediting time. Time credited to a key
between its read and its removal is lost; all other time is reported once.
-/

namespace Tragach.Iowait

open Bpf Library

/-- The maps, what the flush in progress has read, the keys it has still to remove once
it has read them all, and the snapshots of the completed flushes, oldest first. -/
structure Monitor (L : Limits) where
  maps : State L
  snapshot : List (BucketKey × UInt64)
  removing : Option (List BucketKey)
  reported : List (List (BucketKey × UInt64))

inductive Step where
  | probe (a : Action)
  | read (k : BucketKey)
  | endOfIteration
  | removeNext
  | report

variable {L : Limits}

def Monitor.reads (m : Monitor L) (k : BucketKey) : Option UInt64 :=
  if m.removing.isNone ∧ k ∉ m.snapshot.map Prod.fst then m.maps.buckets.get k else none

/-- The statements of `flush_window` up to the report, one map access at a time. -/
def Monitor.next (m : Monitor L) : Step → Monitor L
  | .probe a => { m with maps := fire m.maps a }
  | .read k =>
      match m.reads k with
      | some v => { m with snapshot := m.snapshot ++ [(k, v)] }
      | none => m
  | .endOfIteration =>
      match m.removing with
      | none => { m with removing := some (m.snapshot.map Prod.fst) }
      | some _ => m
  | .removeNext =>
      match m.removing with
      | some (k :: ks) =>
          { m with
            maps := { m.maps with buckets := m.maps.buckets.remove k }
            removing := some ks }
      | _ => m
  | .report =>
      match m.removing with
      | some [] =>
          { m with snapshot := [], removing := none, reported := m.reported ++ [m.snapshot] }
      | _ => m

def monitor (L : Limits) (target : UInt32) : System (Monitor L) Step :=
  ⟨⟨State.loaded L target, [], none, []⟩, Monitor.next⟩

/-! ## What a step does -/

def Monitor.Disabled (m : Monitor L) : Step → Prop
  | .probe _ => False
  | .read k => m.reads k = none
  | .endOfIteration => m.removing ≠ none
  | .removeNext => ∀ k ks, m.removing ≠ some (k :: ks)
  | .report => m.removing ≠ some []

/-- The ways a step changes the state, each with what it found there. -/
inductive Effect (m : Monitor L) : Step → Monitor L → Prop
  | probe (a : Action) : Effect m (.probe a) { m with maps := fire m.maps a }
  | read {k : BucketKey} {v : UInt64} (iterating : m.removing = none)
      (fresh : k ∉ m.snapshot.map Prod.fst) (holds : m.maps.buckets.get k = some v) :
      Effect m (.read k) { m with snapshot := m.snapshot ++ [(k, v)] }
  | endOfIteration (iterating : m.removing = none) :
      Effect m .endOfIteration { m with removing := some (m.snapshot.map Prod.fst) }
  | removeNext {k : BucketKey} {ks : List BucketKey} (queue : m.removing = some (k :: ks)) :
      Effect m .removeNext
        { m with
          maps := { m.maps with buckets := m.maps.buckets.remove k }
          removing := some ks }
  | report (removed : m.removing = some []) :
      Effect m .report
        { m with snapshot := [], removing := none, reported := m.reported ++ [m.snapshot] }
  | skip {a : Step} (disabled : m.Disabled a) : Effect m a m

theorem reads_eq_some_iff {m : Monitor L} {k : BucketKey} {v : UInt64} :
    m.reads k = some v ↔
      m.removing = none ∧ k ∉ m.snapshot.map Prod.fst ∧ m.maps.buckets.get k = some v := by
  unfold Monitor.reads
  by_cases next : m.removing.isNone ∧ k ∉ m.snapshot.map Prod.fst
  · have iterating : m.removing = none := Option.isNone_iff_eq_none.mp next.1
    rw [if_pos next]
    exact ⟨fun holds => ⟨iterating, next.2, holds⟩, fun found => found.2.2⟩
  · rw [if_neg next]
    constructor
    · intro none
      cases none
    · intro found
      exact absurd ⟨Option.isNone_iff_eq_none.mpr found.1, found.2.1⟩ next

theorem next_effect (m : Monitor L) (a : Step) : Effect m a (m.next a) := by
  cases a with
  | probe a => exact .probe a
  | read k =>
      cases read : m.reads k with
      | none =>
          simp only [Monitor.next, read]
          exact .skip read
      | some v =>
          have found := reads_eq_some_iff.mp read
          simp only [Monitor.next, read]
          exact .read found.1 found.2.1 found.2.2
  | endOfIteration =>
      cases queue : m.removing with
      | none =>
          simp only [Monitor.next, queue]
          exact .endOfIteration queue
      | some ks =>
          simp only [Monitor.next, queue]
          exact .skip (by simp [Monitor.Disabled, queue])
  | removeNext =>
      cases queue : m.removing with
      | none =>
          simp only [Monitor.next, queue]
          exact .skip (by simp [Monitor.Disabled, queue])
      | some ks =>
          cases ks with
          | nil =>
              simp only [Monitor.next, queue]
              exact .skip (by simp [Monitor.Disabled, queue])
          | cons k ks =>
              simp only [Monitor.next, queue]
              exact .removeNext queue
  | report =>
      cases queue : m.removing with
      | none =>
          simp only [Monitor.next, queue]
          exact .skip (by simp [Monitor.Disabled, queue])
      | some ks =>
          cases ks with
          | nil =>
              simp only [Monitor.next, queue]
              exact .report queue
          | cons k ks =>
              simp only [Monitor.next, queue]
              exact .skip (by simp [Monitor.Disabled, queue])

/-! ## What was credited and where it is -/

def total (k : BucketKey) (entries : List (BucketKey × UInt64)) : UInt64 :=
  ((entries.filter fun e => e.1 = k).map Prod.snd).sum

def Monitor.reportedTotal (m : Monitor L) (k : BucketKey) : UInt64 := total k m.reported.flatten

/-- What has been removed from the buckets and not been reported yet. -/
def Monitor.inFlight (m : Monitor L) (k : BucketKey) : UInt64 :=
  match m.removing with
  | none => 0
  | some ks => if k ∈ ks then 0 else total k m.snapshot

/-- The time in a bucket, or read from it and not reported yet; a bucket that has been
read and not been removed is counted once. -/
def Monitor.unreported (m : Monitor L) (k : BucketKey) : UInt64 := m.maps.bucket k + m.inFlight k

def Monitor.credited (m : Monitor L) (a : Step) (k : BucketKey) : UInt64 :=
  match a with
  | .probe a =>
      match credit m.maps a with
      | some (key, delta) => if k = key then delta else 0
      | none => 0
  | _ => 0

/-- The time a step discards: what a removed bucket holds beyond what was read. -/
def Monitor.lost (m : Monitor L) (a : Step) (k : BucketKey) : UInt64 :=
  match a, m.removing with
  | .removeNext, some (key :: _) => if k = key then m.maps.bucket k - total k m.snapshot else 0
  | _, _ => 0

def credits (L : Limits) (target : UInt32) : Ledger Step BucketKey UInt64 :=
  fun h => ((monitor L target).run h).credited

def losses (L : Limits) (target : UInt32) : Ledger Step BucketKey UInt64 :=
  fun h => ((monitor L target).run h).lost

/-- Nothing is lost and nothing is counted twice. -/
def Conserved (L : Limits) (target : UInt32) (h : List Step) (a : Step) : Prop :=
  ∀ k, ((monitor L target).run (a :: h)).reportedTotal k +
    ((monitor L target).run (a :: h)).unreported k = (credits L target).balance (a :: h) k

def creditedSinceRead (L : Limits) (target : UInt32) : List Step → BucketKey → UInt64
  | [], _ => 0
  | a :: h, k =>
      match a with
      | .read key =>
          if k = key ∧ (((monitor L target).run h).reads key).isSome then 0
          else creditedSinceRead L target h k
      | _ => creditedSinceRead L target h k + credits L target h a k

/-- A key is removed with no time credited to it since it was read. -/
def Undisturbed (L : Limits) (target : UInt32) (h : List Step) : Step → Prop
  | .removeNext => ∀ k ks, ((monitor L target).run h).removing = some (k :: ks) →
      creditedSinceRead L target h k = 0
  | _ => True

/-! ## Conservation up to the losses -/

theorem total_append (k : BucketKey) (entries entries' : List (BucketKey × UInt64)) :
    total k (entries ++ entries') = total k entries + total k entries' := by
  simp [total]

theorem total_of_notMem {k : BucketKey} {entries : List (BucketKey × UInt64)}
    (unlisted : k ∉ entries.map Prod.fst) : total k entries = 0 := by
  have none : entries.filter (fun e => e.1 = k) = [] := by
    apply List.filter_eq_nil_iff.mpr
    intro e mem
    have other : e.1 ≠ k := fun same => unlisted (List.mem_map.mpr ⟨e, mem, same⟩)
    simpa using other
  simp [total, none]

theorem bucket_remove (s : State L) (k k' : BucketKey) :
    ({ s with buckets := s.buckets.remove k } : State L).bucket k' =
      if k' = k then 0 else s.bucket k' := by
  rw [State.bucket, HashMap.get_remove]
  split <;> rfl

theorem idle_of_disabled {m : Monitor L} {a : Step} (disabled : m.Disabled a) (k : BucketKey) :
    m.credited a k = 0 ∧ m.lost a k = 0 := by
  cases a with
  | probe a => exact disabled.elim
  | read k' => exact ⟨rfl, rfl⟩
  | endOfIteration => exact ⟨rfl, rfl⟩
  | report => exact ⟨rfl, rfl⟩
  | removeNext =>
      refine ⟨rfl, ?_⟩
      unfold Monitor.lost
      split
      next key ks _ queue => exact absurd queue (disabled key ks)
      next => rfl

/-- No key is read twice in a flush, and the keys left to remove are among those read. -/
structure Visits (m : Monitor L) : Prop where
  once : (m.snapshot.map Prod.fst).Nodup
  queued : ∀ ks, m.removing = some ks → ks.Nodup ∧ ks ⊆ m.snapshot.map Prod.fst

theorem Effect.visits {m m' : Monitor L} {a : Step} (effect : Effect m a m')
    (visits : Visits m) : Visits m' := by
  cases effect with
  | probe a => exact ⟨visits.once, visits.queued⟩
  | @read k v iterating fresh holds =>
      refine ⟨?_, fun ks queue => ?_⟩
      · rw [List.map_append, List.map_singleton, List.nodup_append]
        refine ⟨visits.once, List.nodup_singleton k, ?_⟩
        intro k' mem k'' last same
        have last : k' = k := same.trans (List.mem_singleton.mp last)
        exact fresh (last ▸ mem)
      · rw [iterating] at queue
        cases queue
  | endOfIteration iterating =>
      refine ⟨visits.once, fun ks all => ?_⟩
      cases all
      exact ⟨visits.once, fun k mem => mem⟩
  | @removeNext k ks queue =>
      have queued := visits.queued _ queue
      refine ⟨visits.once, fun ks' rest => ?_⟩
      cases rest
      exact ⟨queued.1.of_cons, fun k' mem => queued.2 (List.mem_cons_of_mem k mem)⟩
  | report removed =>
      refine ⟨List.nodup_nil, fun ks none => ?_⟩
      cases none
  | skip disabled => exact visits

/-- A step moves time between the buckets, the flush and the reports, adds what it
credits and drops what it discards. -/
theorem Effect.conserves {m m' : Monitor L} {a : Step} (effect : Effect m a m')
    (visits : Visits m) (k : BucketKey) :
    m'.reportedTotal k + m'.unreported k + m.lost a k =
      m.reportedTotal k + m.unreported k + m.credited a k := by
  cases effect with
  | probe a =>
      have bucket : (fire m.maps a).bucket k = m.maps.bucket k + m.credited (.probe a) k :=
        bucket_fire m.maps a k
      simp only [Monitor.reportedTotal, Monitor.unreported, Monitor.inFlight, Monitor.lost, bucket]
      abel
  | read iterating fresh holds =>
      simp [Monitor.reportedTotal, Monitor.unreported, Monitor.inFlight, iterating, Monitor.lost,
        Monitor.credited]
  | endOfIteration iterating =>
      have none : m.inFlight k = 0 := by simp [Monitor.inFlight, iterating]
      have still : (if k ∈ m.snapshot.map Prod.fst then 0 else total k m.snapshot) = 0 := by
        split
        next => rfl
        next unlisted => exact total_of_notMem unlisted
      simp only [Monitor.reportedTotal, Monitor.unreported, Monitor.lost, Monitor.credited, none]
      simp only [Monitor.inFlight, still]
  | @removeNext k' ks queue =>
      have bucket := bucket_remove m.maps k' k
      simp only [Monitor.reportedTotal, Monitor.unreported, Monitor.inFlight, Monitor.lost,
        Monitor.credited, queue, bucket]
      by_cases same : k = k'
      · subst same
        have last : k ∉ ks := (List.nodup_cons.mp (visits.queued _ queue).1).1
        simp only [if_true, if_neg last, List.mem_cons_self]
        abel
      · simp [same]
  | report removed =>
      simp only [Monitor.reportedTotal, Monitor.unreported, Monitor.inFlight, Monitor.lost,
        Monitor.credited, removed, List.flatten_append, total_append, List.flatten_singleton,
        List.not_mem_nil, if_false]
      abel
  | skip disabled =>
      have idle := idle_of_disabled disabled k
      rw [idle.1, idle.2]

section

variable {target : UInt32}

theorem run_visits (h : List Step) : Visits ((monitor L target).run h) := by
  induction h with
  | nil => exact ⟨List.nodup_nil, fun ks none => by cases none⟩
  | cons a h ih => exact (next_effect _ a).visits ih

/-- Reported, unreported and lost time make up the credited time after every step. -/
theorem conservation (h : List Step) (k : BucketKey) :
    ((monitor L target).run h).reportedTotal k + ((monitor L target).run h).unreported k +
      (losses L target).balance h k = (credits L target).balance h k := by
  induction h with
  | nil => rfl
  | cons a h ih =>
      have step : ((monitor L target).run (a :: h)).reportedTotal k +
          ((monitor L target).run (a :: h)).unreported k + losses L target h a k =
            ((monitor L target).run h).reportedTotal k +
              ((monitor L target).run h).unreported k + credits L target h a k :=
        (next_effect _ a).conserves (run_visits h) k
      rw [Ledger.balance_cons, Ledger.balance_cons, ← ih]
      calc _ = ((monitor L target).run (a :: h)).reportedTotal k +
              ((monitor L target).run (a :: h)).unreported k + losses L target h a k +
                (losses L target).balance h k := by abel
        _ = ((monitor L target).run h).reportedTotal k + ((monitor L target).run h).unreported k +
              credits L target h a k + (losses L target).balance h k := by rw [step]
        _ = _ := by abel

/-! ## When nothing is lost -/

theorem creditedSinceRead_cons {h : List Step} {a : Step} {k : BucketKey}
    (other : a = .read k → ((monitor L target).run h).reads k = none) :
    creditedSinceRead L target (a :: h) k =
      creditedSinceRead L target h k + credits L target h a k := by
  cases a with
  | read k' =>
      have unread : ¬(k = k' ∧ (((monitor L target).run h).reads k').isSome) := by
        intro read
        have same : k = k' := read.1
        subst same
        simp [other rfl] at read
      simp [creditedSinceRead, unread, credits, Monitor.credited]
  | probe a => rfl
  | endOfIteration => rfl
  | removeNext => rfl
  | report => rfl

/-- If the flush in progress has read the key and not removed it, its bucket holds what was
read and `added`. -/
def Monitor.Grown (m : Monitor L) (k : BucketKey) (added : UInt64) : Prop :=
  k ∈ m.snapshot.map Prod.fst → (∀ ks, m.removing = some ks → k ∈ ks) →
    m.maps.bucket k = total k m.snapshot + added

/-- A step of the flush itself adds nothing, and starts anew when it reads the key. -/
theorem Effect.grown {m m' : Monitor L} {a : Step} (effect : Effect m a m') (visits : Visits m)
    (flush : ∀ b, a ≠ .probe b) {k : BucketKey} {added added' : UInt64} (before : m.Grown k added)
    (anew : a = .read k → (m.reads k).isSome = true → added' = 0)
    (kept : (a = .read k → m.reads k = none) → added' = added) : m'.Grown k added' := by
  intro listed waiting
  cases effect with
  | probe b => exact absurd rfl (flush b)
  | @read k' v iterating fresh holds =>
      by_cases same : k = k'
      · subst same
        have read := reads_eq_some_iff.mpr ⟨iterating, fresh, holds⟩
        rw [anew rfl (Option.isSome_of_eq_some read), State.bucket, holds, total_append,
          total_of_notMem fresh]
        simp [total]
      · have older : k ∈ m.snapshot.map Prod.fst := by simpa [same] using listed
        have other : ¬k' = k := fun eq => same eq.symm
        rw [kept (fun eq => absurd (Step.read.inj eq) other), total_append, before older waiting]
        simp [total, other]
  | endOfIteration iterating =>
      rw [kept fun eq => by cases eq]
      exact before listed fun ks eq => by simp [iterating] at eq
  | @removeNext k' ks queue =>
      have mem : k ∈ ks := waiting ks rfl
      have other : k ≠ k' := by
        intro same
        subst same
        exact (List.nodup_cons.mp (visits.queued _ queue).1).1 mem
      rw [kept (fun eq => by cases eq), bucket_remove, if_neg other]
      refine before listed fun ks' eq => ?_
      rw [queue, Option.some.injEq] at eq
      exact eq ▸ List.mem_cons_of_mem k' mem
  | report removed => cases listed
  | skip disabled =>
      rw [kept fun eq => by subst eq; exact disabled]
      exact before listed waiting

/-- A removal discards what was added to the bucket since the key was read. -/
theorem lost_removeNext_iff {m : Monitor L} (visits : Visits m) {added : BucketKey → UInt64}
    (grown : ∀ k, m.Grown k (added k)) :
    (∀ k, m.lost .removeNext k = 0) ↔ ∀ k ks, m.removing = some (k :: ks) → added k = 0 := by
  have lost {k : BucketKey} {ks : List BucketKey} (queue : m.removing = some (k :: ks)) :
      m.maps.bucket k - total k m.snapshot = added k := by
    have read : k ∈ m.snapshot.map Prod.fst := (visits.queued _ queue).2 (List.mem_cons_self ..)
    rw [grown k read fun ks' eq => by
      rw [queue, Option.some.injEq] at eq
      exact eq ▸ List.mem_cons_self ..]
    abel
  unfold Monitor.lost
  constructor
  · intro none k ks queue
    have discarded := none k
    rw [queue] at discarded
    dsimp only at discarded
    rwa [if_pos rfl, lost queue] at discarded
  · intro quiet k
    split
    next key ks _ queue =>
        split
        next same => rw [same, lost queue, quiet key ks queue]
        next => rfl
    next => rfl

/-- A bucket that has been read holds what was read and what was credited since. -/
theorem grown_since_read (h : List Step) (k : BucketKey) :
    ((monitor L target).run h).Grown k (creditedSinceRead L target h k) := by
  induction h with
  | nil => exact fun listed => absurd listed List.not_mem_nil
  | cons a h ih =>
      by_cases probe : ∃ b, a = .probe b
      · obtain ⟨b, rfl⟩ := probe
        intro listed waiting
        have bucket : ((monitor L target).run (.probe b :: h)).maps.bucket k =
            ((monitor L target).run h).maps.bucket k + credits L target h (.probe b) k :=
          bucket_fire _ b k
        rw [bucket, ih listed waiting, creditedSinceRead_cons (by simp), add_assoc]
        rfl
      · have flush : ∀ b, a ≠ .probe b := fun b same => probe ⟨b, same⟩
        have effect : Effect ((monitor L target).run h) a ((monitor L target).run (a :: h)) :=
          next_effect _ a
        refine effect.grown (run_visits h) flush ih ?_ fun unread => ?_
        · intro same found
          subst same
          simp [creditedSinceRead, found]
        · have nothing : credits L target h a k = 0 := by
            cases a with
            | probe b => exact absurd rfl (flush b)
            | _ => rfl
          rw [creditedSinceRead_cons unread, nothing, add_zero]

/-- A removal discards what was credited to the key since it was read. -/
theorem losses_eq_zero_iff {h : List Step} {a : Step} :
    (∀ k, losses L target h a k = 0) ↔ Undisturbed L target h a := by
  cases a with
  | removeNext => exact lost_removeNext_iff (run_visits h) (grown_since_read h)
  | probe a => simp [losses, Monitor.lost, Undisturbed]
  | read k => simp [losses, Monitor.lost, Undisturbed]
  | endOfIteration => simp [losses, Monitor.lost, Undisturbed]
  | report => simp [losses, Monitor.lost, Undisturbed]

end

/-- Reported and unreported time make up the credited time in every state of a run
exactly when no time is credited to a key between its read and its removal. -/
theorem flush_conserves_iff (target : UInt32) (h : List Step) :
    Lawful (Conserved L target) h ↔ Lawful (Undisturbed L target) h := by
  have exact (h : List Step) (a : Step) : Conserved L target h a ↔
      ∀ k, (losses L target).balance (a :: h) k = 0 := by
    apply forall_congr'
    intro k
    rw [← conservation (a :: h) k]
    exact left_eq_add
  rw [lawful_congr exact, Ledger.lawful_balance_eq_zero_iff,
    lawful_congr fun h a => losses_eq_zero_iff]

/-- A sleep of 10 is read, one of 15 ends before its key is removed. -/
def lateCredit : List Step :=
  [.report,
    .removeNext,
    .probe (.schedWakeup (tracePoint 7 45)),
    .probe (.schedSwitch (tracePoint 7 30 42 1 3)),
    .endOfIteration,
    .read ⟨7, 3⟩,
    .probe (.schedWakeup (tracePoint 7 20)),
    .probe (.schedSwitch (tracePoint 7 10 42 1 3))]

/-- The second sleep is neither reported nor left in its bucket. -/
theorem lateCredit_lost :
    ¬ Lawful (Conserved declared 42) lateCredit ∧
      ((monitor declared 42).run lateCredit).reportedTotal ⟨7, 3⟩ = 10 ∧
      ((monitor declared 42).run lateCredit).unreported ⟨7, 3⟩ = 0 ∧
      (credits declared 42).balance lateCredit ⟨7, 3⟩ = 25 := by
  refine ⟨fun conserved => ?_, by decide +kernel, by decide +kernel, by decide +kernel⟩
  have last := conserved.1 ⟨7, 3⟩
  revert last
  decide +kernel

end Tragach.Iowait
