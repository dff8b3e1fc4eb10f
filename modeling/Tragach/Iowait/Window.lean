import Mathlib.Algebra.BigOperators.Group.Finset.Piecewise
import Mathlib.Algebra.Order.BigOperators.Group.Finset
import Tragach.Iowait.Flush

/-! # What a window reports

Flushes that no probe interrupts cut a run into windows. A sleep is credited as a
whole by the wakeup that ends it, so a window also reports the part before it of the
one sleep of a thread that was pending when it began, and nothing else beyond its
own length.
-/

namespace Tragach.Iowait

open Bpf Library

inductive Tick where
  | probe (a : Action)
  | flush (time : UInt64)

variable {L : Limits}

/-- A flush that no probe interrupts leaves no bucket. -/
def State.next (s : State L) : Tick → State L
  | .probe a => fire s a
  | .flush _ => { s with buckets := .empty }

def windows (L : Limits) (target : UInt32) : System (State L) Tick :=
  ⟨State.loaded L target, State.next⟩

@[simp] theorem windows_step (target : UInt32) (s : State L) (a : Tick) :
    (windows L target).step s a = s.next a := rfl

def Action.ktime : Action → UInt64
  | .schedSwitch c => c.ktime
  | .schedWakeup c => c.ktime

def Tick.time : Tick → UInt64
  | .probe a => a.ktime
  | .flush time => time

def NotBefore (h : List Tick) (a : Tick) : Prop := ∀ b ∈ h, b.time ≤ a.time

instance (h : List Tick) (a : Tick) : Decidable (NotBefore h a) := List.decidableBAll _ h

def Tick.firing : Tick → Option Action
  | .probe a => some a
  | .flush _ => none

def probes (h : List Tick) : History := h.filterMap Tick.firing

/-- The time the buckets of a thread hold, over all its stacks. -/
def State.offCpu (s : State L) (p : UInt32) : Nat :=
  ∑ k ∈ s.buckets.entries.keys with k.pid = p, (s.bucket k).toNat

/-- The entries `--exclude-idle` leaves in the snapshot. -/
def retain (thresholdNs : UInt64) (snapshot : List (BucketKey × UInt64)) :
    List (BucketKey × UInt64) := snapshot.filter fun e => e.2 < thresholdNs

/-! ## A flush that is not interrupted -/

def flushSteps (keys : List BucketKey) : List Step :=
  keys.map .read ++ .endOfIteration :: (keys.map (fun _ => .removeNext) ++ [.report])

theorem foldl_read {m : Monitor L} {keys : List BucketKey} (iterating : m.removing = none)
    (distinct : (m.snapshot.map Prod.fst ++ keys).Nodup)
    (present : ∀ k ∈ keys, (m.maps.buckets.get k).isSome) :
    (keys.map .read).foldl Monitor.next m =
      { m with snapshot := m.snapshot ++ keys.map fun k => (k, m.maps.bucket k) } := by
  induction keys generalizing m with
  | nil => simp
  | cons k keys ih =>
      have fresh : k ∉ m.snapshot.map Prod.fst := fun mem =>
        (List.nodup_append.mp distinct).2.2 k mem k List.mem_cons_self rfl
      have value : m.maps.buckets.get k = some (m.maps.bucket k) := by
        obtain ⟨v, holds⟩ := Option.isSome_iff_exists.mp (present k List.mem_cons_self)
        simp [State.bucket, holds]
      have read : m.next (.read k) = { m with snapshot := m.snapshot ++ [(k, m.maps.bucket k)] } := by
        have visited : m.reads k = some (m.maps.bucket k) := by
          rw [Monitor.reads, if_pos ⟨by simp [iterating], fresh⟩, value]
        rw [Monitor.next, visited]
      rw [List.map_cons, List.foldl_cons, read]
      rw [ih (m := { m with snapshot := m.snapshot ++ [(k, m.maps.bucket k)] }) iterating
        (by simpa using distinct) fun k' mem => present k' (List.mem_cons_of_mem k mem)]
      simp

theorem foldl_remove {m : Monitor L} {keys : List BucketKey} (queue : m.removing = some keys) :
    (keys.map fun _ => .removeNext).foldl Monitor.next m =
      { m with
        maps := { m.maps with buckets := keys.foldl HashMap.remove m.maps.buckets }
        removing := some [] } := by
  induction keys generalizing m with
  | nil => simp [← queue]
  | cons k keys ih =>
      have removed : m.next .removeNext =
          { m with
            maps := { m.maps with buckets := m.maps.buckets.remove k }
            removing := some keys } := by
        rw [Monitor.next, queue]
      rw [List.map_cons, List.foldl_cons, removed, ih rfl]
      rfl

theorem get_foldl_remove (buckets : HashMap BucketKey UInt64 L.buckets) (keys : List BucketKey)
    (k : BucketKey) :
    (keys.foldl HashMap.remove buckets).get k = if k ∈ keys then none else buckets.get k := by
  induction keys generalizing buckets with
  | nil => simp
  | cons k' keys ih =>
      rw [List.foldl_cons, ih, HashMap.get_remove]
      by_cases first : k = k' <;> by_cases later : k ∈ keys <;> simp [first, later]

/-- A flush that visits every key with no probe in between reports all buckets and leaves
none. -/
theorem foldl_flushSteps {m : Monitor L} (idle : m.snapshot = [] ∧ m.removing = none)
    {keys : List BucketKey} (distinct : keys.Nodup)
    (all : ∀ k, k ∈ keys ↔ (m.maps.buckets.get k).isSome) (time : UInt64) :
    (flushSteps keys).foldl Monitor.next m =
      { maps := m.maps.next (.flush time)
        snapshot := []
        removing := none
        reported := m.reported ++ [keys.map fun k => (k, m.maps.bucket k)] } := by
  have drained : keys.foldl HashMap.remove m.maps.buckets = .empty := by
    apply HashMap.ext_get
    intro k
    rw [get_foldl_remove, HashMap.get_empty]
    split
    next => rfl
    next absent =>
        rw [all k, Option.not_isSome_iff_eq_none] at absent
        exact absent
  rw [flushSteps, List.foldl_append, foldl_read idle.2 (by simpa [idle.1] using distinct)
    fun k mem => (all k).mp mem, List.foldl_cons, List.foldl_append]
  have keysRead : (keys.map fun k => (k, m.maps.bucket k)).map Prod.fst = keys := by
    rw [List.map_map]
    exact List.map_id keys
  simp only [Monitor.next, idle, List.nil_append, keysRead]
  rw [foldl_remove rfl]
  simp [Monitor.next, drained, State.next]

/-! ## Time asleep -/

/-- The part before the time `f` of the sleep of `p` that is pending. -/
def carried (target : UInt32) (f : UInt64) (h : History) (p : UInt32) : Nat :=
  match (pending target).replay h p with
  | some info => f.toNat - info.tsNs.toNat
  | none => 0

def carriedIn (target : UInt32) (f : UInt64) (h : History) (k : BucketKey) : Nat :=
  match (pending target).replay h k.pid with
  | some info => if info.stackId = k.stackId then f.toNat - info.tsNs.toNat else 0
  | none => 0

/-- The time from `f` on that was slept in a stack, posted by the wakeup that ends the
sleep. -/
def asleep (target : UInt32) (f : UInt64) : Ledger Action BucketKey Nat := fun h a k =>
  match a with
  | .schedSwitch _ => 0
  | .schedWakeup c =>
      if wokenBy c = some k.pid then
        match (pending target).replay h k.pid with
        | some info =>
            if info.stackId = k.stackId then c.ktime.toNat - max f.toNat info.tsNs.toNat else 0
        | none => 0
      else 0

section

variable {target : UInt32} {h : List Tick}

theorem run_windows_target (h : List Tick) : ((windows L target).run h).target = target := by
  induction h with
  | nil => rfl
  | cons a h ih =>
      cases a with
      | probe a => exact (target_fire _ a).trans ih
      | flush f => exact ih

theorem pending_of_startOp {s : State L} {h : History} {a : Action} {p : UInt32} {info : StartInfo}
    (own : s.target = target)
    (before : ∀ info, s.start.get p = some info → (pending target).replay h p = some info)
    (holds : (startOp s a p).apply (s.start.get p) = some info) :
    (pending target).replay (a :: h) p = some info := by
  rw [Journal.replay_cons]
  cases a with
  | schedSwitch c =>
      simp only [startOp, pending, own] at holds ⊢
      cases sleep : sleepOf target c with
      | none =>
          simp only [sleep] at holds
          exact before info holds
      | some x =>
          simp only [sleep] at holds
          by_cases same : p = x.1
          · subst same
            cases room : s.start.accepts x.1 with
            | true => simpa [HashMap.insertOp, room] using holds
            | false =>
                -- a refused key is absent, so the cell stays empty
                simp only [HashMap.insertOp, room] at holds
                rw [HashMap.accepts_of_get holds] at room
                cases room
          · simp only [HashMap.insertOp, same, and_false, if_false] at holds ⊢
            exact before info holds
  | schedWakeup c =>
      simp only [startOp, pending] at holds ⊢
      split at holds
      next => cases holds
      next other =>
          rw [if_neg other]
          exact before info holds

/-- `START` holds only pending sleeps, in every run. -/
theorem pending_of_start {p : UInt32} {info : StartInfo}
    (holds : ((windows L target).run h).start.get p = some info) :
    (pending target).replay (probes h) p = some info := by
  induction h generalizing info with
  | nil => simp [windows, State.loaded] at holds
  | cons a h ih =>
      cases a with
      | flush f => exact ih holds
      | probe a =>
          rw [System.run_cons, windows_step, State.next, get_start_fire] at holds
          exact pending_of_startOp (run_windows_target h) (fun info => ih) holds

theorem bucket_fire_le (a : Action) (k : BucketKey) :
    ((fire ((windows L target).run h) a).bucket k).toNat ≤
      (((windows L target).run h).bucket k).toNat + (endedSleeps target (probes h) a k).sum := by
  rw [bucket_fire]
  cases a with
  | schedSwitch c => simp [credit, endedSleeps]
  | schedWakeup c =>
      cases woken : wokenBy c with
      | none => simp [credit, woken]
      | some p =>
          cases entry : ((windows L target).run h).start.get p with
          | none => simp [credit, woken, entry]
          | some info =>
              cases room : ((windows L target).run h).buckets.accepts ⟨p, info.stackId⟩ with
              | false => simp [credit, woken, entry, room]
              | true =>
                  by_cases same : k = ⟨p, info.stackId⟩
                  · subst same
                    have ended : endedSleeps target (probes h) (.schedWakeup c) ⟨p, info.stackId⟩ =
                        {c.ktime.toNat - info.tsNs.toNat} := by
                      simp [endedSleeps, woken, pending_of_start entry]
                    have length := saturatingSub_toNat c.ktime info.tsNs
                    simp only [credit, woken, entry, room, if_true, ended, Multiset.sum_singleton,
                      UInt64.toNat_add, StartInfo.slept, length]
                    exact Nat.mod_le _ _
                  · simp [credit, woken, entry, room, same]

theorem bucket_flush (s : State L) (f : UInt64) (k : BucketKey) :
    (s.next (.flush f)).bucket k = 0 := by
  simp [State.next, State.bucket]

theorem probes_window (acts : History) (f : UInt64) (pre : List Tick) :
    probes (acts.map .probe ++ .flush f :: pre) = acts ++ probes pre := by
  induction acts with
  | nil => rfl
  | cons a acts ih => exact congrArg (List.cons a) ih

/-! ## A thread sleeps no longer than the window lasts -/

/-- A sleep is credited by one wakeup, in one stack. -/
theorem sum_endedSleeps_wakeup {h : History} {c : TracePointContext} {p : UInt32} {info : StartInfo}
    (woken : wokenBy c = some p) (sleep : (pending target).replay h p = some info)
    {K : Finset BucketKey} (own : ∀ k ∈ K, k.pid = p) :
    ∑ k ∈ K, (endedSleeps target h (.schedWakeup c) k).sum ≤ c.ktime.toNat - info.tsNs.toNat := by
  have posted : ∀ k ∈ K, (endedSleeps target h (.schedWakeup c) k).sum =
      if k = ⟨p, info.stackId⟩ then c.ktime.toNat - info.tsNs.toNat else 0 := by
    rintro ⟨q, stack⟩ mem
    obtain rfl : q = p := own _ mem
    by_cases same : info.stackId = stack <;>
      simp [endedSleeps, woken, sleep, same, eq_comm (a := stack)]
  rw [Finset.sum_congr rfl posted, Finset.sum_ite_eq']
  split <;> omega

theorem sum_endedSleeps_of_other {h : History} {c : TracePointContext} {p : UInt32}
    (idle : wokenBy c ≠ some p ∨ (pending target).replay h p = none)
    {K : Finset BucketKey} (own : ∀ k ∈ K, k.pid = p) :
    ∑ k ∈ K, (endedSleeps target h (.schedWakeup c) k).sum = 0 := by
  apply Finset.sum_eq_zero
  intro k mem
  rcases idle with other | awake
  · simp [endedSleeps, own k mem, other]
  · simp [endedSleeps, own k mem, awake]

/-- What a firing credits for a thread, with the sleep it leaves pending, is no more than
the sleep pending before it and the time since. -/
theorem ended_add_carried_le (target : UInt32) (h : History) (a : Action) {p : UInt32} {K : Finset BucketKey}
    (own : ∀ k ∈ K, k.pid = p) {now : UInt64} (later : a.ktime ≤ now) :
    ∑ k ∈ K, (endedSleeps target h a k).sum + carried target now (a :: h) p ≤
      carried target a.ktime h p + (now.toNat - a.ktime.toNat) := by
  have order : a.ktime.toNat ≤ now.toNat := later
  cases a with
  | schedSwitch c =>
      simp only [endedSleeps, Multiset.sum_zero, Finset.sum_const_zero, carried,
        Journal.replay_cons, pending, Action.ktime] at order ⊢
      cases sleep : sleepOf target c with
      | none =>
          simp only [CellOp.apply_keep]
          cases (pending target).replay h p <;> dsimp only <;> omega
      | some x =>
          have begun := sleepOf_tsNs sleep
          by_cases same : p = x.1
          · simp only [same, if_true, CellOp.apply_put, begun]
            omega
          · simp only [same, if_false, CellOp.apply_keep]
            cases (pending target).replay h p <;> dsimp only <;> omega
  | schedWakeup c =>
      simp only [carried, Journal.replay_cons, pending, Action.ktime] at order ⊢
      by_cases woken : wokenBy c = some p
      · cases sleep : (pending target).replay h p with
        | none =>
            rw [sum_endedSleeps_of_other (.inr sleep) own]
            simp [woken]
        | some info =>
            have ended := sum_endedSleeps_wakeup woken sleep own
            simp only [woken, if_true, CellOp.apply_drop]
            omega
      · rw [sum_endedSleeps_of_other (.inl woken) own]
        simp only [woken, if_false, CellOp.apply_keep]
        cases (pending target).replay h p <;> dsimp only <;> omega

/-- Within a window the buckets of a thread hold, with its pending sleep, no more than
the time since the flush and what was carried over it. -/
theorem run_offCpu_le {f : UInt64} {pre : List Tick} {p : UInt32} {K : Finset BucketKey}
    (own : ∀ k ∈ K, k.pid = p) (acts : History) {now : UInt64}
    (law : Lawful NotBefore (acts.map .probe ++ .flush f :: pre))
    (later : ∀ b ∈ acts.map Tick.probe ++ .flush f :: pre, b.time ≤ now) :
    ∑ k ∈ K, (((windows L target).run (acts.map .probe ++ .flush f :: pre)).bucket k).toNat +
        carried target now (acts ++ probes pre) p ≤
      now.toNat - f.toNat + carried target f (probes pre) p := by
  induction acts generalizing now with
  | nil =>
      have order : f.toNat ≤ now.toNat := later (.flush f) List.mem_cons_self
      have empty : ∑ k ∈ K, (((windows L target).run (.flush f :: pre)).bucket k).toNat = 0 :=
        Finset.sum_eq_zero fun k _ => by
          rw [System.run_cons, windows_step, bucket_flush]
          rfl
      simp only [List.map_nil, List.nil_append, empty, carried]
      cases (pending target).replay (probes pre) p <;> dsimp only <;> omega
  | cons a acts ih =>
      have before := ih law.2 law.1
      have now' : a.ktime ≤ now := later (.probe a) List.mem_cons_self
      have step := ended_add_carried_le target (acts ++ probes pre) a own now'
      have credits : ∑ k ∈ K,
          (((windows L target).run (.probe a :: (acts.map .probe ++ .flush f :: pre))).bucket k).toNat ≤
            ∑ k ∈ K, (((windows L target).run (acts.map .probe ++ .flush f :: pre)).bucket k).toNat +
              ∑ k ∈ K, (endedSleeps target (acts ++ probes pre) a k).sum := by
        rw [← Finset.sum_add_distrib, ← probes_window acts f pre]
        exact Finset.sum_le_sum fun k _ => bucket_fire_le a k
      have order : a.ktime.toNat ≤ now.toNat := now'
      have order' : f.toNat ≤ a.ktime.toNat := law.1 (.flush f) (by simp)
      simp only [Tick.time] at before
      simp only [List.map_cons, List.cons_append] at credits ⊢
      omega

/-! ## A stack holds what was slept in it -/

/-- A sleep that ends splits at the time `f` into the part before and the part since. -/
theorem ended_add_carriedIn_le (target : UInt32) {f : UInt64} (h : History) {a : Action} (later : f ≤ a.ktime)
    (k : BucketKey) :
    (endedSleeps target h a k).sum + carriedIn target f (a :: h) k ≤
      asleep target f h a k + carriedIn target f h k := by
  have order : f.toNat ≤ a.ktime.toNat := later
  cases a with
  | schedSwitch c =>
      simp only [endedSleeps, asleep, Multiset.sum_zero, carriedIn, Journal.replay_cons, pending,
        Action.ktime] at order ⊢
      cases sleep : sleepOf target c with
      | none => simp
      | some x =>
          have begun := sleepOf_tsNs sleep
          by_cases same : k.pid = x.1
          · simp only [same, if_true, CellOp.apply_put, begun]
            split <;> omega
          · simp [same]
  | schedWakeup c =>
      simp only [endedSleeps, asleep, carriedIn, Journal.replay_cons, pending, Action.ktime] at order ⊢
      by_cases woken : wokenBy c = some k.pid
      · simp only [woken, if_true, CellOp.apply_drop]
        cases (pending target).replay h k.pid with
        | none => simp
        | some info =>
            by_cases stack : info.stackId = k.stackId
            · simp only [stack, if_true, Multiset.sum_singleton]
              omega
            · simp [stack]
      · simp [woken]

/-- Within a window a bucket holds no more than what was slept in its stack since the
flush and what was carried over it. -/
theorem run_bucket_le {f : UInt64} {pre : List Tick} (k : BucketKey) (acts : History)
    (law : Lawful NotBefore (acts.map .probe ++ .flush f :: pre)) :
    (((windows L target).run (acts.map .probe ++ .flush f :: pre)).bucket k).toNat +
        carriedIn target f (acts ++ probes pre) k ≤
      (asleep target f).balance (acts ++ probes pre) k + carriedIn target f (probes pre) k := by
  induction acts with
  | nil =>
      have empty : (((windows L target).run (.flush f :: pre)).bucket k).toNat = 0 := by
        rw [System.run_cons, windows_step, bucket_flush]
        rfl
      simp only [List.map_nil, List.nil_append, empty]
      omega
  | cons a acts ih =>
      have before := ih law.2
      have later : f ≤ a.ktime := law.1 (.flush f) (by simp)
      have step := ended_add_carriedIn_le target (acts ++ probes pre) later k
      have credit : ((fire ((windows L target).run (acts.map .probe ++ .flush f :: pre)) a).bucket k).toNat ≤
          (((windows L target).run (acts.map .probe ++ .flush f :: pre)).bucket k).toNat +
            (endedSleeps target (acts ++ probes pre) a k).sum :=
        probes_window acts f pre ▸ bucket_fire_le a k
      simp only [List.map_cons, List.cons_append, Ledger.balance_cons, System.run_cons,
        windows_step, State.next]
      omega

end

/-- A window reports for a thread at most its own length and the part before it of the
sleep it began in, and `--exclude-idle` drops a bucket only if the thread spent the
threshold asleep in that stack, within the window or in that part. -/
theorem window_bounded {target : UInt32} {f f' : UInt64} {acts : History} {pre : List Tick}
    (law : Lawful NotBefore (.flush f' :: (acts.map .probe ++ .flush f :: pre))) :
    (∀ p, ((windows L target).run (acts.map .probe ++ .flush f :: pre)).offCpu p ≤
        f'.toNat - f.toNat + carried target f (probes pre) p) ∧
      ∀ snapshot : List (BucketKey × UInt64),
        (∀ e ∈ snapshot, ((windows L target).run
          (acts.map .probe ++ .flush f :: pre)).buckets.get e.1 = some e.2) →
        ∀ thresholdNs, ∀ e ∈ snapshot, e ∉ retain thresholdNs snapshot →
          thresholdNs.toNat ≤
            (asleep target f).balance (acts ++ probes pre) e.1 + carriedIn target f (probes pre) e.1 := by
  refine ⟨fun p => ?_, fun snapshot read thresholdNs e mem dropped => ?_⟩
  · have own : ∀ k ∈ ((windows L target).run
        (acts.map .probe ++ .flush f :: pre)).buckets.entries.keys.filter (·.pid = p), k.pid = p :=
      fun k mem => (Finset.mem_filter.mp mem).2
    exact (Nat.le_add_right ..).trans (run_offCpu_le own acts law.2 law.1)
  · have above : thresholdNs ≤ e.2 := by simpa [retain, mem] using dropped
    have value : ((windows L target).run (acts.map .probe ++ .flush f :: pre)).bucket e.1 = e.2 := by
      rw [State.bucket, read e mem]
      rfl
    rw [← value] at above
    exact above.trans ((Nat.le_add_right ..).trans (run_bucket_le e.1 acts law.2))

def asleepAtFlush : List Tick := [.probe (.schedSwitch (tracePoint 7 5 42 1 3))]

def wokenAfterFlush : History := [.schedWakeup (tracePoint 7 110)]

/-- The window reports the 10 it slept in the window and the 95 before it. -/
theorem longSleep_bounded :
    ((windows declared 42).run
      (wokenAfterFlush.map .probe ++ .flush 100 :: asleepAtFlush)).offCpu 7 ≤ 100 + 95 :=
  (window_bounded (show Lawful NotBefore (.flush 200 :: _) by decide +kernel)).1 7

/-- A window of 100 reports 105 for one thread, and a bucket above the threshold 50 is
dropped of which 10 lie in the window. -/
theorem longSleep_overruns :
    Lawful NotBefore (.flush 200 :: (wokenAfterFlush.map .probe ++ .flush 100 :: asleepAtFlush)) ∧
      ((windows declared 42).run
        (wokenAfterFlush.map .probe ++ .flush 100 :: asleepAtFlush)).offCpu 7 = 105 ∧
      ((windows declared 42).run
        (wokenAfterFlush.map .probe ++ .flush 100 :: asleepAtFlush)).buckets.get ⟨7, 3⟩ = some 105 ∧
      retain 50 [(⟨7, 3⟩, 105)] = [] ∧
      (asleep 42 100).balance (wokenAfterFlush ++ probes asleepAtFlush) ⟨7, 3⟩ = 10 := by
  refine ⟨?_, ?_, ?_, ?_, ?_⟩ <;> decide +kernel

end Tragach.Iowait
