import Mathlib.Algebra.BigOperators.Group.Multiset.Basic
import Tragach.Iowait.Handlers
import Tragach.Library.Ledger

/-! # Accounting over whole runs

The history of a run says which sleeps are pending and which have ended. As long as
the maps have room, `START` holds exactly the pending sleeps and `BUCKETS` the
total length of the ended ones, modulo the width of a counter.
-/

namespace Tragach.Iowait

open Bpf Library

inductive Action where
  | schedSwitch (ctx : TracePointContext)
  | schedWakeup (ctx : TracePointContext)

abbrev History := List Action

variable {L : Limits}

def fire (s : State L) : Action → State L
  | .schedSwitch c => (trySchedSwitch c).final s
  | .schedWakeup c => (trySchedWakeup c).final s

/-- Maps as loaded, with the target process set. -/
def State.loaded (L : Limits) (target : UInt32) : State L where
  targetTgid := ⟨fun _ => target⟩
  start := .empty
  buckets := .empty

def profiler (L : Limits) (target : UInt32) : System (State L) Action :=
  ⟨State.loaded L target, fire⟩

@[simp] theorem profiler_step (target : UInt32) (s : State L) (a : Action) :
    (profiler L target).step s a = fire s a := rfl

/-! ## Effects -/

def startOp (s : State L) (a : Action) (p : UInt32) : CellOp StartInfo :=
  match a with
  | .schedSwitch c =>
      match sleepOf s.target c with
      | some (key, info) => HashMap.insertOp (s.start.accepts key) key info p
      | none => .keep
  | .schedWakeup c => if wokenBy c = some p then .drop else .keep

def credit (s : State L) (a : Action) : Option (BucketKey × UInt64) :=
  match a with
  | .schedSwitch _ => none
  | .schedWakeup c =>
      match wokenBy c with
      | some p =>
          match s.start.get p with
          | some info =>
              if s.buckets.accepts ⟨p, info.stackId⟩ then
                some (⟨p, info.stackId⟩, info.slept c.ktime)
              else none
          | none => none
      | none => none

theorem target_fire (s : State L) (a : Action) : (fire s a).target = s.target := by
  cases a with
  | schedSwitch c =>
      rw [fire, final_schedSwitch]
      cases sleepOf s.target c <;> rfl
  | schedWakeup c =>
      rw [fire, final_schedWakeup]
      cases wokenBy c with
      | none => rfl
      | some p => dsimp only; cases s.start.get p <;> rfl

theorem run_target (target : UInt32) (h : History) : ((profiler L target).run h).target = target := by
  induction h with
  | nil => rfl
  | cons a h ih => rw [System.run_cons, profiler_step, target_fire, ih]

theorem get_start_fire (s : State L) (a : Action) (p : UInt32) :
    (fire s a).start.get p = (startOp s a p).apply (s.start.get p) := by
  cases a with
  | schedSwitch c =>
      rw [fire, final_schedSwitch, startOp]
      cases sleepOf s.target c with
      | none => rfl
      | some x => exact HashMap.get_upsert ..
  | schedWakeup c =>
      rw [fire, final_schedWakeup, startOp]
      cases wokenBy c with
      | none => rfl
      | some q =>
          by_cases same : p = q
          · subst same
            cases entry : s.start.get p with
            | none => simp [entry]
            | some info => simp [entry, HashMap.get_remove]
          · have other : q ≠ p := fun eq => same eq.symm
            cases entry : s.start.get q with
            | none => simp [other, entry]
            | some info => simp [other, same, entry, HashMap.get_remove]

theorem get_buckets_fire (s : State L) (a : Action) (k : BucketKey) :
    (fire s a).buckets.get k =
      match credit s a with
      | some (key, delta) => if k = key then some (s.bucket k + delta) else s.buckets.get k
      | none => s.buckets.get k := by
  cases a with
  | schedSwitch c =>
      rw [fire, final_schedSwitch]
      cases sleepOf s.target c <;> rfl
  | schedWakeup c =>
      rw [fire, final_schedWakeup, credit]
      cases wokenBy c with
      | none => rfl
      | some p =>
          dsimp only
          cases s.start.get p with
          | none => rfl
          | some info =>
              dsimp only
              rw [HashMap.get_upsert]
              cases room : s.buckets.accepts ⟨p, info.stackId⟩ with
              | false => simp [HashMap.insertOp]
              | true =>
                  by_cases same : k = ⟨p, info.stackId⟩ <;> simp [HashMap.insertOp, same]

theorem bucket_fire (s : State L) (a : Action) (k : BucketKey) :
    (fire s a).bucket k = s.bucket k +
      match credit s a with
      | some (key, delta) => if k = key then delta else 0
      | none => 0 := by
  rw [State.bucket, get_buckets_fire]
  cases credit s a with
  | none => simp [State.bucket]
  | some x => by_cases same : k = x.1 <;> simp [State.bucket, same]

/-! ## What the history says -/

/-- A switch-out that begins a sleep of `p`: it is going to sleep, and of the target
process. -/
def SwitchesOut (target p : UInt32) (info : StartInfo) (c : TracePointContext) : Prop :=
  ∃ pid state, c.pid = .ok pid ∧ pid.toUInt32 = p ∧ c.prevState = .ok state ∧
    state.toUInt64.toUInt8 ≠ 0 ∧ c.tgid = target ∧ info = ⟨c.ktime, c.stackId, 0⟩

def Names (p : UInt32) (c : TracePointContext) : Prop :=
  ∃ pid, c.pid = .ok pid ∧ pid.toUInt32 = p

def Touches (target p : UInt32) : Action → Prop
  | .schedSwitch c => ∃ info, SwitchesOut target p info c
  | .schedWakeup c => Names p c

/-- The sleeps that have begun and not ended. -/
def pending (target : UInt32) : Journal Action UInt32 StartInfo := fun _ a p =>
  match a with
  | .schedSwitch c =>
      match sleepOf target c with
      | some (key, info) => if p = key then .put info else .keep
      | none => .keep
  | .schedWakeup c => if wokenBy c = some p then .drop else .keep

/-- The lengths of the sleeps of a thread in a stack, each posted by the wakeup that
ended it; a clock that went back counts as no time. -/
def endedSleeps (target : UInt32) : Ledger Action BucketKey (Multiset Nat) := fun h a k =>
  match a with
  | .schedSwitch _ => 0
  | .schedWakeup c =>
      if wokenBy c = some k.pid then
        match (pending target).replay h k.pid with
        | some info =>
            if info.stackId = k.stackId then {c.ktime.toNat - info.tsNs.toNat} else 0
        | none => 0
      else 0

/-- No map is at capacity when a firing inserts into it. -/
def Roomy (L : Limits) (target : UInt32) (h : History) : Action → Prop
  | .schedSwitch c => ∀ x ∈ sleepOf target c, ((profiler L target).run h).start.accepts x.1 = true
  | .schedWakeup c => ∀ p ∈ wokenBy c, ∀ info ∈ ((profiler L target).run h).start.get p,
      ((profiler L target).run h).buckets.accepts ⟨p, info.stackId⟩ = true

instance (target : UInt32) (h : History) : ∀ a, Decidable (Roomy L target h a)
  | .schedSwitch c => Option.decidableForallMem (sleepOf target c)
  | .schedWakeup c =>
      have (p : UInt32) : Decidable (∀ info ∈ ((profiler L target).run h).start.get p,
          ((profiler L target).run h).buckets.accepts ⟨p, info.stackId⟩ = true) :=
        Option.decidableForallMem (((profiler L target).run h).start.get p)
      Option.decidableForallMem (wokenBy c)

/-! ## The maps agree with the history -/

section

variable {target : UInt32}

theorem sleepOf_eq_some_iff (tracking : target ≠ 0) {c : TracePointContext} {p : UInt32}
    {info : StartInfo} : sleepOf target c = some (p, info) ↔ SwitchesOut target p info c := by
  unfold sleepOf SwitchesOut
  cases pid : c.pid with
  | error e => simp
  | ok q =>
      cases state : c.prevState with
      | error e => simp
      | ok st =>
          by_cases runnable : st.toUInt64.toUInt8 = 0
          · simp [runnable]
          · by_cases own : c.tgid = target
            · simp [runnable, tracking, own, eq_comm (a := info)]
            · have foreign : target ≠ c.tgid := fun same => own same.symm
              simp [runnable, own, foreign]

theorem wokenBy_eq_some_iff {c : TracePointContext} {p : UInt32} :
    wokenBy c = some p ↔ Names p c := by
  unfold wokenBy Names
  cases c.pid <;> simp

instance (p : UInt32) (c : TracePointContext) : Decidable (Names p c) :=
  decidable_of_iff _ wokenBy_eq_some_iff

theorem pending_keep_iff (tracking : target ≠ 0) {h : History} {a : Action} {p : UInt32} :
    pending target h a p = .keep ↔ ¬ Touches target p a := by
  cases a with
  | schedSwitch c =>
      simp only [pending, Touches]
      cases sleep : sleepOf target c with
      | none =>
          simp only [true_iff, not_exists]
          intro info out
          rw [(sleepOf_eq_some_iff tracking).mpr out] at sleep
          cases sleep
      | some x =>
          rcases x with ⟨key, info⟩
          have out := (sleepOf_eq_some_iff tracking).mp sleep
          by_cases same : p = key
          · subst same
            simp only [if_true, reduceCtorEq, false_iff, not_not]
            exact ⟨info, out⟩
          · simp only [if_neg same, true_iff, not_exists]
            intro info' out'
            rw [(sleepOf_eq_some_iff tracking).mpr out', Option.some.injEq, Prod.mk.injEq] at sleep
            exact same sleep.1
  | schedWakeup c =>
      simp only [pending, Touches, ← wokenBy_eq_some_iff]
      by_cases woken : wokenBy c = some p <;> simp [woken]

theorem pending_put_iff (tracking : target ≠ 0) {h : History} {a : Action} {p : UInt32}
    {info : StartInfo} :
    pending target h a p = .put info ↔ ∃ c, a = .schedSwitch c ∧ SwitchesOut target p info c := by
  cases a with
  | schedSwitch c =>
      simp only [pending, Action.schedSwitch.injEq, exists_eq_left']
      rw [← sleepOf_eq_some_iff tracking]
      cases sleep : sleepOf target c with
      | none => simp
      | some x =>
          rcases x with ⟨key, info'⟩
          by_cases same : p = key
          · simp [same]
          · simp [same, eq_comm]
  | schedWakeup c =>
      simp only [pending]
      by_cases woken : wokenBy c = some p <;> simp [woken]

theorem Kept_pending_iff (tracking : target ≠ 0) {p : UInt32} {pre post : History} :
    (pending target).Kept p pre post ↔ ∀ a ∈ post, ¬ Touches target p a := by
  induction post with
  | nil => simp [Journal.Kept]
  | cons a post ih => simp [Journal.Kept, pending_keep_iff tracking, ih]

/-- A sleep is pending exactly when its switch-out has not been followed by a wakeup of
the thread or another of its switch-outs. -/
theorem pending_iff (tracking : target ≠ 0) {h : History} {p : UInt32} {info : StartInfo} :
    (pending target).replay h p = some info ↔
      ∃ post c pre, h = post ++ .schedSwitch c :: pre ∧ SwitchesOut target p info c ∧
        ∀ a ∈ post, ¬ Touches target p a := by
  rw [Journal.replay_eq_some_iff]
  constructor
  · intro found
    rcases found with ⟨post, a, pre, rfl, put, kept⟩
    obtain ⟨c, rfl, out⟩ := (pending_put_iff tracking).mp put
    exact ⟨post, c, pre, rfl, out, (Kept_pending_iff tracking).mp kept⟩
  · intro found
    rcases found with ⟨post, c, pre, rfl, out, kept⟩
    exact ⟨post, _, pre, rfl, (pending_put_iff tracking).mpr ⟨c, rfl, out⟩,
      (Kept_pending_iff tracking).mpr kept⟩

def bucketOf (sleeps : Multiset Nat) : Option UInt64 :=
  if sleeps = 0 then none else some (UInt64.ofNat sleeps.sum)

theorem bucketOf_getD (sleeps : Multiset Nat) :
    (bucketOf sleeps).getD 0 = UInt64.ofNat sleeps.sum := by
  unfold bucketOf
  split
  next none => simp [none]
  next => rfl

theorem slept_eq_ofNat (info : StartInfo) (now : UInt64) :
    info.slept now = UInt64.ofNat (now.toNat - info.tsNs.toNat) := by
  rw [← saturatingSub_toNat, UInt64.ofNat_toNat, StartInfo.slept]

/-- `START` holds the pending sleeps and `BUCKETS` the ended ones. -/
structure Accounts (target : UInt32) (h : History) (s : State L) : Prop where
  started : ∀ p, s.start.get p = (pending target).replay h p
  credited : ∀ k, s.buckets.get k = bucketOf ((endedSleeps target).balance h k)

theorem started_step {h : History} {a : Action} (roomy : Roomy L target h a)
    (accounts : Accounts target h ((profiler L target).run h)) (p : UInt32) :
    (fire ((profiler L target).run h) a).start.get p = (pending target).replay (a :: h) p := by
  rw [get_start_fire, Journal.replay_cons, accounts.started]
  cases a with
  | schedSwitch c =>
      simp only [startOp, pending, run_target]
      cases sleep : sleepOf target c with
      | none => rfl
      | some x => simp [HashMap.insertOp, roomy x sleep]
  | schedWakeup c => rfl

theorem credited_step {h : History} {a : Action} (roomy : Roomy L target h a)
    (accounts : Accounts target h ((profiler L target).run h)) (k : BucketKey) :
    (fire ((profiler L target).run h) a).buckets.get k =
      bucketOf ((endedSleeps target).balance (a :: h) k) := by
  rw [get_buckets_fire, Ledger.balance_cons]
  cases a with
  | schedSwitch c => simp [credit, endedSleeps, accounts.credited]
  | schedWakeup c =>
      cases woken : wokenBy c with
      | none => simp [credit, endedSleeps, woken, accounts.credited]
      | some p =>
          cases sleep : (pending target).replay h p with
          | none =>
              have idle : endedSleeps target h (.schedWakeup c) k = 0 := by
                simp only [endedSleeps, woken, Option.some.injEq]
                split
                next same => rw [← same, sleep]
                next => rfl
              simp [credit, woken, accounts.started, sleep, idle, accounts.credited]
          | some info =>
              have started := (accounts.started p).trans sleep
              have room := roomy p woken info started
              simp only [credit, woken, started, room, if_true]
              by_cases same : k = ⟨p, info.stackId⟩
              · subst same
                have posted : endedSleeps target h (.schedWakeup c) ⟨p, info.stackId⟩ =
                    {c.ktime.toNat - info.tsNs.toNat} := by
                  simp [endedSleeps, woken, sleep]
                have ended : (endedSleeps target).balance h ⟨p, info.stackId⟩ +
                    {c.ktime.toNat - info.tsNs.toNat} ≠ 0 := by
                  intro none
                  simpa using congrArg Multiset.card none
                rw [if_pos rfl, posted, State.bucket, accounts.credited, bucketOf_getD,
                  slept_eq_ofNat, ← UInt64.ofNat_add, bucketOf, if_neg ended, Multiset.sum_add,
                  Multiset.sum_singleton]
              · have idle : endedSleeps target h (.schedWakeup c) k = 0 := by
                  simp only [endedSleeps, woken, Option.some.injEq]
                  split
                  next thread =>
                      rw [← thread, sleep]
                      refine if_neg fun stack => same ?_
                      rw [stack, thread]
                  next => rfl
                rw [if_neg same, idle, add_zero, accounts.credited]

theorem run_accounts {h : History} (law : Lawful (Roomy L target) h) :
    Accounts target h ((profiler L target).run h) := by
  refine (profiler L target).invariant (I := Accounts target) ?_ ?_ h law
  · exact ⟨fun p => HashMap.get_empty p, fun k => HashMap.get_empty k⟩
  · intro h a roomy _ accounts
    exact ⟨started_step roomy accounts, credited_step roomy accounts⟩

end

/-- `START` holds the latest switch-out of every sleeping thread of the target, and a
bucket the total time of the sleeps that ended in it, modulo 2^64. -/
theorem accounting_exact {target : UInt32} (tracking : target ≠ 0) {h : History}
    (law : Lawful (Roomy L target) h) :
    (∀ p info, ((profiler L target).run h).start.get p = some info ↔
        ∃ post c pre, h = post ++ .schedSwitch c :: pre ∧ SwitchesOut target p info c ∧
          ∀ a ∈ post, ¬ Touches target p a) ∧
      ∀ k, ((profiler L target).run h).buckets.get k =
        if (endedSleeps target).balance h k = 0 then none
        else some (UInt64.ofNat ((endedSleeps target).balance h k).sum) := by
  have accounts := run_accounts law
  refine ⟨fun p info => ?_, accounts.credited⟩
  rw [accounts.started, pending_iff tracking]

def tracePoint (pid : Int32) (time : UInt64) (tgid : UInt64 := 0) (state : Int64 := 0)
    (stack : Int64 := 0) : TracePointContext where
  pidTgid := tgid <<< 32
  ktime := time
  readI32 := fun _ => .ok pid
  readI64 := fun _ => .ok state
  stackid := .ok stack

/-- Two sleeps of thread 7 in one stack, between them a preemption and a foreign sleep. -/
def twoSleeps : History :=
  [.schedWakeup (tracePoint 7 90),
    .schedSwitch (tracePoint 7 60 42 2 3),
    .schedWakeup (tracePoint 8 50),
    .schedSwitch (tracePoint 8 40 43 1 3),
    .schedSwitch (tracePoint 7 35 42 0 3),
    .schedWakeup (tracePoint 7 30),
    .schedSwitch (tracePoint 7 10 42 1 3)]

theorem twoSleeps_bucket :
    ((profiler declared 42).run twoSleeps).buckets.get ⟨7, 3⟩ = some 50 :=
  ((accounting_exact (by decide) (by decide +kernel)).2 ⟨7, 3⟩).trans (by decide +kernel)

end Tragach.Iowait
