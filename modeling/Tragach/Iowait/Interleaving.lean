import Tragach.Iowait.Accounting
import Tragach.Library.Interleaving

/-! # The handlers one map access at a time

Every CPU runs its own handlers, and another CPU may come in between any two map
accesses of one of them. A read through the pointer a lookup returns is one access with
the lookup.
-/

namespace Tragach.Iowait

open Bpf Library

inductive Access where
  | targetGet
  | startInsert (key : UInt32) (info : StartInfo)
  | startGet (key : UInt32)
  | startRemove (key : UInt32)
  | bucketsGet (key : BucketKey)
  /-- The insert of `new_total`, computed from what the lookup found. -/
  | bucketsInsert (key : BucketKey) (existing : Option UInt64) (delta : UInt64)
  deriving DecidableEq

/-- What each access answers; the results of the inserts and the removal are dropped. -/
@[reducible] def Answer : Access → Type
  | .targetGet => Option UInt32
  | .startGet _ => Option StartInfo
  | .bucketsGet _ => Option UInt64
  | _ => Unit

def newTotal (existing : Option UInt64) (delta : UInt64) : UInt64 :=
  match existing with
  | some existing => existing + delta
  | none => delta

variable {L : Limits}

def exec (L : Limits) : Exec (State L) Answer
  | .targetGet, s => (s.targetTgid.get 0, s)
  | .startInsert key info, s => ((), { s with start := s.start.upsert key info })
  | .startGet key, s => (s.start.get key, s)
  | .startRemove key, s => ((), { s with start := s.start.remove key })
  | .bucketsGet key, s => (s.buckets.get key, s)
  | .bucketsInsert key existing delta, s =>
      ((), { s with buckets := s.buckets.upsert key (newTotal existing delta) })

def schedSwitchBody (ctx : TracePointContext) : Prog Answer :=
  match ctx.pid, ctx.prevState with
  | .ok prevPid, .ok prevState =>
      if prevState.toUInt64.toUInt8 = 0 then .done
      else
        .access .targetGet fun (target : Option UInt32) =>
          match target with
          | none => .done
          | some target =>
              if target = 0 ∨ target ≠ ctx.tgid then .done
              else .access (.startInsert prevPid.toUInt32 ⟨ctx.ktime, ctx.stackId, 0⟩) fun _ => .done
  | _, _ => .done

def schedWakeupBody (ctx : TracePointContext) : Prog Answer :=
  match ctx.pid with
  | .error _ => .done
  | .ok wokenPid =>
      let key := wokenPid.toUInt32
      .access (.startGet key) fun (info : Option StartInfo) =>
        match info with
        | none => .done
        | some info =>
            .access (.startRemove key) fun _ =>
              .access (.bucketsGet ⟨key, info.stackId⟩) fun (existing : Option UInt64) =>
                .access (.bucketsInsert ⟨key, info.stackId⟩ existing
                  (saturatingSub ctx.ktime info.tsNs)) fun _ => .done

def body : Action → Prog Answer
  | .schedSwitch ctx => schedSwitchBody ctx
  | .schedWakeup ctx => schedWakeupBody ctx

theorem run_body (s : State L) (a : Action) : (body a).run (exec L) s = fire s a := by
  cases a with
  | schedSwitch c =>
      rw [fire, final_schedSwitch, body, schedSwitchBody, sleepOf]
      cases c.pid with
      | error e => rfl
      | ok prevPid =>
          cases c.prevState with
          | error e => rfl
          | ok prevState =>
              by_cases runnable : prevState.toUInt64.toUInt8 = 0
              · simp [runnable]
              · by_cases foreign : s.target = 0 ∨ s.target ≠ c.tgid
                · simp [runnable, foreign, exec, get_targetTgid]
                · simp [runnable, foreign, exec, get_targetTgid]
  | schedWakeup c =>
      rw [fire, final_schedWakeup, body, schedWakeupBody, wokenBy]
      cases c.pid with
      | error e => rfl
      | ok wokenPid =>
          cases entry : s.start.get wokenPid.toUInt32 with
          | none => simp [exec, entry]
          | some info =>
              cases total : s.buckets.get ⟨wokenPid.toUInt32, info.stackId⟩ <;>
                simp [exec, entry, total, newTotal, State.bucket, StartInfo.slept]

/-! ## Handlers of different threads -/

/-- The thread a handler may read or change something about. A switch-out of a thread
that stays runnable does nothing, so the idle thread, which every CPU has, is left out. -/
def Action.thread : Action → Option UInt32
  | .schedSwitch c =>
      match c.pid, c.prevState with
      | .ok prevPid, .ok prevState =>
          if prevState.toUInt64.toUInt8 = 0 then none else some prevPid.toUInt32
      | _, _ => none
  | .schedWakeup c => wokenBy c

def SameThread (a b : Action) : Prop := a.thread ≠ none ∧ a.thread = b.thread

instance (a b : Action) : Decidable (SameThread a b) :=
  inferInstanceAs (Decidable (a.thread ≠ none ∧ a.thread = b.thread))

inductive Cell where
  | target
  | start (key : UInt32)
  | bucket (key : BucketKey)
  deriving DecidableEq

def Cell.Content : Cell → Type
  | .target => ArrayMap UInt32 1
  | .start _ => Option StartInfo
  | .bucket _ => Option UInt64

def State.cell (s : State L) : (c : Cell) → c.Content
  | .target => s.targetTgid
  | .start key => s.start.get key
  | .bucket key => s.buckets.get key

def Access.cell : Access → Cell
  | .targetGet => .target
  | .startInsert key _ | .startGet key | .startRemove key => .start key
  | .bucketsGet key | .bucketsInsert key _ _ => .bucket key

theorem State.ext_cell {s s' : State L} (same : ∀ c, s.cell c = s'.cell c) : s = s' := by
  have target : s.targetTgid = s'.targetTgid := same .target
  have start : s.start = s'.start := HashMap.ext_get fun key => same (.start key)
  have buckets : s.buckets = s'.buckets := HashMap.ext_get fun key => same (.bucket key)
  cases s
  cases s'
  cases target
  cases start
  cases buckets
  rfl

def Access.answer : (a : Access) → ((c : Cell) → c.Content) → Answer a
  | .targetGet, v => ArrayMap.get (v .target) 0
  | .startGet key, v => v (.start key)
  | .bucketsGet key, v => v (.bucket key)
  | .startInsert _ _, _ | .startRemove _, _ | .bucketsInsert _ _ _, _ => ()

/-- What an access that is not refused leaves in a cell. -/
def Access.effect : Access → (c : Cell) → c.Content → c.Content
  | .startInsert key info, .start key', v => if key' = key then some info else v
  | .startRemove key, .start key', v => if key' = key then none else v
  | .bucketsInsert key existing delta, .bucket key', v =>
      if key' = key then some (newTotal existing delta) else v
  | _, _, v => v

/-- The map access is not an insert into a full map. -/
def Accepts (s : State L) : Access → Prop
  | .startInsert key _ => s.start.accepts key = true
  | .bucketsInsert key _ _ => s.buckets.accepts key = true
  | _ => True

instance (s : State L) : ∀ a, Decidable (Accepts s a)
  | .startInsert key _ => inferInstanceAs (Decidable (s.start.accepts key = true))
  | .bucketsInsert key _ _ => inferInstanceAs (Decidable (s.buckets.accepts key = true))
  | .targetGet | .startGet _ | .startRemove _ | .bucketsGet _ => inferInstanceAs (Decidable True)

theorem byCells : ByCells State.cell (exec L) Accepts Access.answer Access.effect := by
  constructor
  · intro s a _
    cases a <;> rfl
  · intro s a accepts c
    cases a with
    | startInsert key info =>
        cases c with
        | start key' => exact HashMap.get_upsert_of_accepts (m := s.start) accepts info key'
        | _ => rfl
    | startRemove key =>
        cases c with
        | start key' => exact HashMap.get_remove s.start key key'
        | _ => rfl
    | bucketsInsert key existing delta =>
        cases c with
        | bucket key' =>
            exact HashMap.get_upsert_of_accepts (m := s.buckets) accepts _ key'
        | _ => rfl
    | _ => rfl

def unlimited : Limits := ⟨none, none⟩

theorem accepts_unlimited (s : State unlimited) (a : Access) : Accepts s a := by
  cases a with
  | startInsert key info => exact HashMap.accepts_unlimited ..
  | bucketsInsert key existing delta => exact HashMap.accepts_unlimited ..
  | _ => trivial

theorem access_local (a : Access) : Local State.cell (exec unlimited) a a.cell := by
  refine byCells.isLocal accepts_unlimited (fun v v' same => ?_) (fun c v other => ?_)
  · cases a with
    | targetGet => exact congrArg (ArrayMap.get · 0) same
    | startGet key => exact same
    | bucketsGet key => exact same
    | _ => rfl
  · cases a with
    | startInsert key info =>
        cases c with
        | start key' => exact if_neg fun same => other (congrArg Cell.start same)
        | _ => rfl
    | startRemove key =>
        cases c with
        | start key' => exact if_neg fun same => other (congrArg Cell.start same)
        | _ => rfl
    | bucketsInsert key existing delta =>
        cases c with
        | bucket key' => exact if_neg fun same => other (congrArg Cell.bucket same)
        | _ => rfl
    | _ => rfl

/-- The accesses a handler makes are about its thread, but for the look at the target. -/
def Access.Within (thread : Option UInt32) : Access → Prop
  | .targetGet => True
  | .startInsert key _ | .startGet key | .startRemove key => thread = some key
  | .bucketsGet key | .bucketsInsert key _ _ => thread = some key.pid

theorem body_within (a : Action) : (body a).All (Access.Within a.thread) := by
  cases a with
  | schedSwitch c =>
      simp only [body, schedSwitchBody, Action.thread]
      cases c.pid with
      | error e => trivial
      | ok prevPid =>
          cases c.prevState with
          | error e => trivial
          | ok prevState =>
              dsimp only
              split
              next => trivial
              next =>
                  refine ⟨trivial, fun target => ?_⟩
                  cases target with
                  | none => trivial
                  | some target =>
                      dsimp only
                      split
                      next => trivial
                      next => exact ⟨rfl, fun _ => trivial⟩
  | schedWakeup c =>
      simp only [body, schedWakeupBody, Action.thread, wokenBy]
      cases c.pid with
      | error e => trivial
      | ok wokenPid =>
          refine ⟨rfl, fun info => ?_⟩
          cases info with
          | none => trivial
          | some info => exact ⟨rfl, fun _ => ⟨rfl, fun _ => ⟨rfl, fun _ => trivial⟩⟩⟩

theorem independent_of_within {thread thread' : Option UInt32}
    (other : thread = none ∨ thread ≠ thread') {a b : Access} (first : a.Within thread)
    (second : b.Within thread') : Independent (exec unlimited) a b := by
  by_cases cells : a.cell = b.cell
  · -- only the target is looked at by handlers of different threads
    have reads : a = .targetGet ∧ b = .targetGet := by
      cases a <;> cases b <;> simp_all [Access.cell, Access.Within]
    rw [reads.1, reads.2]
    exact .of_reads (fun _ => rfl) (fun _ => rfl)
  · exact (access_local a).independent (access_local b) cells State.ext_cell

/-- Handlers of different threads do not interfere. -/
theorem body_apart (a b : Action) (other : ¬ SameThread a b) :
    (body a).Apart (exec unlimited) (body b) := by
  have threads : a.thread = none ∨ a.thread ≠ b.thread := by
    by_cases idle : a.thread = none
    · exact .inl idle
    · exact .inr fun same => other ⟨idle, same⟩
  exact (body_within a).mono fun x first =>
    (body_within b).mono fun y second => independent_of_within threads first second

/-! ## Interleaved runs -/

abbrev handlers (L : Limits) (target : UInt32) :
    System (Threads (State L) Nat Action Answer) (ThreadStep Nat Action) :=
  interleaved body (exec L) (State.loaded L target)

/-- No handler begins while another about the same thread is running. -/
abbrev OneAtATime (L : Limits) (target : UInt32) :
    List (ThreadStep Nat Action) → ThreadStep Nat Action → Prop :=
  NoClash body (exec L) (State.loaded L target) SameThread

abbrev NoneRefused (L : Limits) (target : UInt32) :
    List (ThreadStep Nat Action) → ThreadStep Nat Action → Prop :=
  AccessOk body (exec L) (State.loaded L target) Accepts

theorem serial_eq_profiler (target : UInt32) (h : History) :
    (serial body (exec L) (State.loaded L target)).run h = (profiler L target).run h := by
  induction h with
  | nil => rfl
  | cons a h ih => exact (run_body _ a).trans (congrArg (fire · a) ih)

theorem imitates (L : Limits) (target : UInt32) :
    Imitates State.cell (exec L) Accepts (State.loaded L target) State.cell (exec unlimited)
      (State.loaded unlimited target) := by
  refine byCells.imitates byCells accepts_unlimited fun c => ?_
  cases c with
  | target => rfl
  | start key => exact (HashMap.get_empty key).trans (HashMap.get_empty key).symm
  | bucket key => exact (HashMap.get_empty key).trans (HashMap.get_empty key).symm

/-- However the map accesses of the handlers interleave, once every handler has returned
`START` holds the pending sleeps and `BUCKETS` the ended ones, for the events in the
order their handlers began. -/
theorem interleaved_accounts {target : UInt32} {h : List (ThreadStep Nat Action)}
    (apart : Lawful (OneAtATime L target) h) (room : Lawful (NoneRefused L target) h)
    (idle : ((handlers L target).run h).active = []) :
    (∀ p, ((handlers L target).run h).shared.start.get p =
        (pending target).replay (entered h) p) ∧
      ∀ k, ((handlers L target).run h).shared.buckets.get k =
        bucketOf ((endedSleeps target).balance (entered h) k) := by
  have same (c : Cell) := (imitates L target).part_shared body_apart room apart idle c
  rw [serial_eq_profiler] at same
  have roomy : Lawful (Roomy unlimited target) (entered h) := by
    refine lawful_iff_split.mpr fun post e pre split => ?_
    cases e with
    | schedSwitch c => exact fun x mem => HashMap.accepts_unlimited ..
    | schedWakeup c => exact fun p woken info started => HashMap.accepts_unlimited ..
  have accounts := run_accounts roomy
  exact ⟨fun p => (same (.start p)).trans (accounts.started p),
    fun k => (same (.bucket k)).trans (accounts.credited k)⟩

/-- CPU 1 wakes thread 7 while CPU 0 switches thread 8 out and wakes it. -/
def twoCpus : List (ThreadStep Nat Action) :=
  [.advance 1, .advance 0, .advance 1, .advance 0, .advance 1, .advance 0, .advance 1,
    .advance 0, .advance 1, .advance 0,
    .enter 0 (.schedWakeup (tracePoint 8 50)),
    .enter 1 (.schedWakeup (tracePoint 7 45)),
    .advance 0, .advance 1, .advance 0, .advance 1, .advance 1, .advance 0,
    .enter 1 (.schedSwitch (tracePoint 8 20 42 1 3)),
    .enter 0 (.schedSwitch (tracePoint 7 10 42 1 3))]

theorem twoCpus_bucket :
    ((handlers declared 42).run twoCpus).shared.buckets.get ⟨7, 3⟩ = some 35 :=
  ((interleaved_accounts (by decide +kernel) (by decide +kernel) (by decide +kernel)).2
    ⟨7, 3⟩).trans (by decide +kernel)

end Tragach.Iowait
