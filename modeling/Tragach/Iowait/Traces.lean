import Tragach.Bpf.StackTrace
import Tragach.Iowait.Reasons

/-! # Stacks from the switch-out to the report

The id stored with a sleep is looked up by the flush that reports it, any number of
switch-outs later. `STACKS` never drops a trace, so the frames a flush finds are those of
the switch-out that began the sleep, and a reason is charged with exactly the sleeps whose
own stack gives it.
-/

namespace Tragach.Iowait

open Bpf Library

abbrev stackEntries : Nat := 4096

structure Traced (L : Limits) where
  maps : State L
  traces : StackTrace stackEntries

/-- A firing with what the kernel captures of the stack, or a flush no probe interrupts. -/
inductive Shot where
  | schedSwitch (ctx : TracePointContext) (captured : Except Int64 (List UInt64))
  | schedWakeup (ctx : TracePointContext)
  | flush (time : UInt64)

variable {L : Limits}

/-- `try_sched_switch` with the access to `STACKS` in its place. -/
def trySchedSwitchTraced (hash : List UInt64 → Fin stackEntries) (ctx : TracePointContext)
    (captured : Except Int64 (List UInt64)) : Probe (Traced L) Unit := do
  let prevPid ← Probe.try' ctx.pid
  let prevState ← Probe.try' ctx.prevState
  if prevState.toUInt64.toUInt8 = 0 then
    pure ()
  else
    let target ← Probe.okOr ((← get).maps.targetTgid.get 0) (-1)
    if target = 0 ∨ target ≠ ctx.tgid then
      pure ()
    else
      let answer := (← get).traces.getStackid hash captured
      modify fun s => { s with traces := answer.2 }
      let stackId := match answer.1 with
        | .ok id => id.toInt32
        | .error _ => -1
      let info : StartInfo := { tsNs := ctx.ktime, stackId := stackId, pad := 0 }
      let key := prevPid.toUInt32
      modify fun s => { s with maps := { s.maps with start := s.maps.start.upsert key info } }

/-- The record of a switch-out with the answer of the kernel. -/
def answered (ctx : TracePointContext) (answer : Except Int64 Int64) : TracePointContext :=
  { ctx with stackid := answer }

def Shot.tick (hash : List UInt64 → Fin stackEntries) (traces : StackTrace stackEntries) :
    Shot → Tick
  | .schedSwitch ctx captured =>
      .probe (.schedSwitch (answered ctx (traces.getStackid hash captured).1))
  | .schedWakeup ctx => .probe (.schedWakeup ctx)
  | .flush time => .flush time

def Traced.next (hash : List UInt64 → Fin stackEntries) (s : Traced L) : Shot → Traced L
  | .schedSwitch ctx captured => (trySchedSwitchTraced hash ctx captured).final s
  | .schedWakeup ctx => { s with maps := fire s.maps (.schedWakeup ctx) }
  | .flush time => { s with maps := s.maps.next (.flush time) }

/-- The two programs with their stacks, and atomic flushes between their firings. -/
def traced (L : Limits) (target : UInt32) (hash : List UInt64 → Fin stackEntries) :
    System (Traced L) Shot := ⟨⟨State.loaded L target, .empty⟩, Traced.next hash⟩

@[simp] theorem traced_step {target : UInt32} {hash : List UInt64 → Fin stackEntries}
    (s : Traced L) (a : Shot) : (traced L target hash).step s a = s.next hash a := rfl

def ticks (L : Limits) (target : UInt32) (hash : List UInt64 → Fin stackEntries) :
    List Shot → List Tick
  | [] => []
  | a :: h => a.tick hash ((traced L target hash).run h).traces :: ticks L target hash h

/-! ## The traces -/

/-- The trace a step asks the kernel to keep: that of a switch-out that begins a sleep. -/
def askedTrace (target : UInt32) : Shot → Option (List UInt64)
  | .schedSwitch ctx captured => if (sleepOf target ctx).isSome then captured.toOption else none
  | _ => none

/-- The first trace of a run with the hash `i`. -/
def firstTrace (target : UInt32) (hash : List UInt64 → Fin stackEntries) :
    List Shot → Fin stackEntries → Option (List UInt64)
  | [], _ => none
  | a :: h, i =>
      match firstTrace target hash h i with
      | some ips => some ips
      | none => (askedTrace target a).filter fun ips => hash ips = i

/-- The frames a flush finds for a sleep: none when the kernel captured no stack or when an
earlier stack has taken the bucket. -/
def framesOf (target : UInt32) (hash : List UInt64 → Fin stackEntries) (kallsyms : Kallsyms)
    (h : List Shot) (captured : Except Int64 (List UInt64)) : List String :=
  match captured with
  | .error _ => []
  | .ok ips =>
      match firstTrace target hash h (hash ips) with
      | none => ips.map kallsyms.lookup
      | some first => if first = ips then ips.map kallsyms.lookup else []

/-! ## What the history says about the sleeps -/

structure Sleep where
  begun : UInt64
  frames : List String

/-- The sleeps that have begun and not ended. -/
def sleeps (target : UInt32) (hash : List UInt64 → Fin stackEntries) (kallsyms : Kallsyms) :
    Journal Shot UInt32 Sleep := fun h a p =>
  match a with
  | .schedSwitch ctx captured =>
      match sleepOf target ctx with
      | some (key, _) =>
          if p = key then .put ⟨ctx.ktime, framesOf target hash kallsyms h captured⟩ else .keep
      | none => .keep
  | .schedWakeup ctx => if wokenBy ctx = some p then .drop else .keep
  | .flush _ => .keep

structure Slept where
  pid : UInt32
  frames : List String
  ns : Nat
  deriving DecidableEq

def sleepEndedBy (target : UInt32) (hash : List UInt64 → Fin stackEntries) (kallsyms : Kallsyms)
    (h : List Shot) : Shot → Option Slept
  | .schedWakeup ctx =>
      match wokenBy ctx with
      | some p => ((sleeps target hash kallsyms).replay h p).map fun sleep =>
          ⟨p, sleep.frames, ctx.ktime.toNat - sleep.begun.toNat⟩
      | none => none
  | _ => none

def sleptSinceFlush (target : UInt32) (hash : List UInt64 → Fin stackEntries)
    (kallsyms : Kallsyms) : List Shot → List Slept
  | [] => []
  | a :: h =>
      match a with
      | .flush _ => []
      | a => (sleepEndedBy target hash kallsyms h a).toList ++
          sleptSinceFlush target hash kallsyms h

/-! ## Buckets since the last flush -/

/-- The bucket a firing adds to and the length of the sleep it ends. -/
def creditOf (target : UInt32) (h : History) : Action → Option (BucketKey × Nat)
  | .schedSwitch _ => none
  | .schedWakeup c =>
      match wokenBy c with
      | some p => ((pending target).replay h p).map fun info =>
          (⟨p, info.stackId⟩, c.ktime.toNat - info.tsNs.toNat)
      | none => none

def creditsSinceFlush (target : UInt32) : List Tick → List (BucketKey × Nat)
  | [] => []
  | .flush _ :: _ => []
  | .probe a :: h => (creditOf target (probes h) a).toList ++ creditsSinceFlush target h

def lengthsOf (k : BucketKey) (credits : List (BucketKey × Nat)) : Multiset Nat :=
  ((credits.filter fun e => e.1 = k).map Prod.snd : List Nat)

def RoomyTick (L : Limits) (target : UInt32) (h : List Tick) : Tick → Prop
  | .flush _ => True
  | .probe (.schedSwitch c) =>
      ∀ x ∈ sleepOf target c, ((windows L target).run h).start.accepts x.1 = true
  | .probe (.schedWakeup c) =>
      ∀ p ∈ wokenBy c, ∀ info ∈ ((windows L target).run h).start.get p,
        ((windows L target).run h).buckets.accepts ⟨p, info.stackId⟩ = true

instance (L : Limits) (target : UInt32) (h : List Tick) : ∀ a, Decidable (RoomyTick L target h a)
  | .flush _ => inferInstanceAs (Decidable True)
  | .probe (.schedSwitch c) => Option.decidableForallMem (sleepOf target c)
  | .probe (.schedWakeup c) =>
      have (p : UInt32) : Decidable (∀ info ∈ ((windows L target).run h).start.get p,
          ((windows L target).run h).buckets.accepts ⟨p, info.stackId⟩ = true) :=
        Option.decidableForallMem (((windows L target).run h).start.get p)
      Option.decidableForallMem (wokenBy c)

section

variable {target : UInt32} {hash : List UInt64 → Fin stackEntries} {kallsyms : Kallsyms}

theorem lengthsOf_cons (k : BucketKey) (e : BucketKey × Nat) (credits : List (BucketKey × Nat)) :
    lengthsOf k (e :: credits) =
      if e.1 = k then e.2 ::ₘ lengthsOf k credits else lengthsOf k credits := by
  by_cases same : e.1 = k <;> simp [lengthsOf, same]

theorem get_buckets_of_room {s : State L} {h : History} {a : Action}
    {credits : List (BucketKey × Nat)}
    (started : ∀ p, s.start.get p = (pending target).replay h p)
    (room : ∀ c, a = .schedWakeup c → ∀ p ∈ wokenBy c, ∀ info ∈ s.start.get p,
      s.buckets.accepts ⟨p, info.stackId⟩ = true)
    (credited : ∀ k, s.buckets.get k = bucketOf (lengthsOf k credits)) (k : BucketKey) :
    (fire s a).buckets.get k =
      bucketOf (lengthsOf k ((creditOf target h a).toList ++ credits)) := by
  rw [get_buckets_fire]
  cases a with
  | schedSwitch c => exact credited k
  | schedWakeup c =>
      cases woken : wokenBy c with
      | none => simp [credit, creditOf, woken, credited]
      | some p =>
          cases sleep : (pending target).replay h p with
          | none => simp [credit, creditOf, woken, started, sleep, credited]
          | some info =>
              have held := (started p).trans sleep
              have accepted := room c rfl p woken info held
              simp only [credit, creditOf, woken, held, sleep, accepted, if_true, Option.map_some,
                Option.toList_some, List.singleton_append, lengthsOf_cons]
              by_cases same : k = ⟨p, info.stackId⟩
              · have other : (⟨p, info.stackId⟩ : BucketKey) = k := same.symm
                have ended : (c.ktime.toNat - info.tsNs.toNat) ::ₘ lengthsOf k credits ≠ 0 :=
                  Multiset.cons_ne_zero
                rw [if_pos same, if_pos other, State.bucket, credited, bucketOf_getD,
                  slept_eq_ofNat, ← UInt64.ofNat_add, bucketOf, if_neg ended, Multiset.sum_cons,
                  Nat.add_comm]
              · have other : ¬(⟨p, info.stackId⟩ : BucketKey) = k := fun eq => same eq.symm
                rw [if_neg same, if_neg other, credited]

/-- With room in the maps `START` holds the pending sleeps and `BUCKETS` what was credited
since the last flush. -/
theorem windows_accounts {h : List Tick} (law : Lawful (RoomyTick L target) h) :
    (∀ p, ((windows L target).run h).start.get p = (pending target).replay (probes h) p) ∧
      ∀ k, ((windows L target).run h).buckets.get k =
        bucketOf (lengthsOf k (creditsSinceFlush target h)) := by
  induction h with
  | nil => exact ⟨fun p => HashMap.get_empty p, fun k => HashMap.get_empty k⟩
  | cons a h ih =>
      obtain ⟨started, credited⟩ := ih law.2
      cases a with
      | flush f => exact ⟨started, fun k => HashMap.get_empty k⟩
      | probe a =>
          refine ⟨fun p => ?_, fun k => ?_⟩
          · rw [System.run_cons, windows_step, State.next, get_start_fire, started]
            refine congrArg (CellOp.apply · _) ?_
            cases a with
            | schedSwitch c =>
                simp only [startOp, pending, run_windows_target]
                cases sleep : sleepOf target c with
                | none => rfl
                | some x => simp [HashMap.insertOp, law.1 x sleep]
            | schedWakeup c => rfl
          · refine get_buckets_of_room started ?_ credited k
            intro c same p woken info held
            subst same
            exact law.1 p woken info held

/-! ## The programs with their stacks are those without -/

theorem sleepOf_answered (target : UInt32) (ctx : TracePointContext)
    (answer : Except Int64 Int64) :
    sleepOf target (answered ctx answer) = (sleepOf target ctx).map fun x =>
      (x.1, ⟨ctx.ktime, (answered ctx answer).stackId, 0⟩) := by
  have pid : (answered ctx answer).pid = ctx.pid := rfl
  have prevState : (answered ctx answer).prevState = ctx.prevState := rfl
  have tgid : (answered ctx answer).tgid = ctx.tgid := rfl
  have ktime : (answered ctx answer).ktime = ctx.ktime := rfl
  simp only [sleepOf, pid, prevState, tgid, ktime]
  cases ctx.pid with
  | error e => rfl
  | ok prevPid =>
      cases ctx.prevState with
      | error e => rfl
      | ok state =>
          dsimp only
          split
          next => rfl
          next => rfl

theorem final_schedSwitchTraced (ctx : TracePointContext) (captured : Except Int64 (List UInt64))
    (s : Traced L) :
    (trySchedSwitchTraced hash ctx captured).final s =
      { maps := fire s.maps (.schedSwitch (answered ctx (s.traces.getStackid hash captured).1))
        traces := if (sleepOf s.maps.target ctx).isSome then (s.traces.getStackid hash captured).2
          else s.traces } := by
  rw [fire, final_schedSwitch, sleepOf_answered, sleepOf]
  cases pid : ctx.pid with
  | error e => simp [Probe.final, trySchedSwitchTraced, pid]
  | ok prevPid =>
      cases state : ctx.prevState with
      | error e => simp [Probe.final, trySchedSwitchTraced, pid, state]
      | ok prevState =>
          by_cases runnable : prevState.toUInt64.toUInt8 = 0
          · simp [Probe.final, trySchedSwitchTraced, pid, state, runnable]
          · by_cases foreign : s.maps.target = 0 ∨ s.maps.target ≠ ctx.tgid
            · simp [Probe.final, trySchedSwitchTraced, pid, state, runnable, get_targetTgid,
                foreign]
            · simp only [Probe.final, trySchedSwitchTraced, pid, state, runnable, get_targetTgid,
                foreign, ne_eq, LawfulMonadStateOf.modify_bind_modify, EStateM.run_bind,
                Probe.run_try_ok, reduceIte, EStateM.run_get, Probe.run_okOr_some,
                EStateM.run_modify, Function.comp_apply]
              rfl

theorem maps_next (s : Traced L) (a : Shot) :
    (s.next hash a).maps = s.maps.next (a.tick hash s.traces) := by
  cases a with
  | schedSwitch ctx captured => rw [Traced.next, final_schedSwitchTraced]; rfl
  | schedWakeup ctx => rfl
  | flush f => rfl

theorem run_maps (h : List Shot) :
    ((traced L target hash).run h).maps = (windows L target).run (ticks L target hash h) := by
  induction h with
  | nil => rfl
  | cons a h ih => rw [System.run_cons, traced_step, maps_next, ih]; rfl

theorem run_traced_target (h : List Shot) : ((traced L target hash).run h).maps.target = target := by
  rw [run_maps]
  exact run_windows_target _

/-! ## The traces the map holds -/

theorem traces_next (s : Traced L) (own : s.maps.target = target) (a : Shot) (i : Fin stackEntries) :
    (s.next hash a).traces.slots i =
      match s.traces.slots i with
      | some ips => some ips
      | none => (askedTrace target a).filter fun ips => hash ips = i := by
  cases a with
  | schedSwitch ctx captured =>
      rw [Traced.next, final_schedSwitchTraced, own, askedTrace]
      cases sleep : sleepOf target ctx with
      | none => cases held : s.traces.slots i <;> simp [held]
      | some x =>
          exact StackTrace.slots_getStackid ..
  | schedWakeup ctx =>
      cases held : s.traces.slots i <;> simp [Traced.next, held, askedTrace]
  | flush f => cases held : s.traces.slots i <;> simp [Traced.next, held, askedTrace]

variable (L target hash) in
/-- A bucket of `STACKS` holds the first trace of the run with its hash. -/
theorem traces_eq_first (h : List Shot) (i : Fin stackEntries) :
    ((traced L target hash).run h).traces.slots i = firstTrace target hash h i := by
  induction h with
  | nil => rfl
  | cons a h ih =>
      rw [System.run_cons, traced_step, traces_next _ (run_traced_target h), ih, firstTrace]

theorem extends_next (s : Traced L) (a : Shot) : s.traces.Extends (s.next hash a).traces := by
  intro i ips held
  rw [traces_next s rfl, held]

/-! ## Looking an id up -/

/-- The id of no stack, or of a trace the map holds. -/
def Known (traces : StackTrace stackEntries) (stackId : Int32) : Prop :=
  stackId = -1 ∨ ∃ (i : Fin stackEntries) (ips : List UInt64),
    stackId = Int32.ofNat i ∧ traces.slots i = some ips

theorem resolveFrames_of_slots {traces : StackTrace stackEntries} {i : Fin stackEntries}
    {ips : List UInt64} (held : traces.slots i = some ips) :
    resolveFrames traces.get kallsyms (Int32.ofNat i) = ips.map kallsyms.lookup := by
  have small : i.val < 2 ^ 31 := i.isLt.trans (by decide)
  have positive : Int32.ofNat i ≥ 0 := by
    rw [ge_iff_le, Int32.le_iff_toInt_le, Int32.toInt_ofNat_of_lt small]
    exact Int.natCast_nonneg _
  have number : (Int32.ofNat i).toUInt32.toNat = i := by
    rw [Int32.toUInt32_ofNat']
    exact UInt32.toNat_ofNat_of_lt' (i.isLt.trans (by decide))
  rw [resolveFrames, if_pos positive, StackTrace.get_of_slots held number]

variable (kallsyms) in
theorem Known.resolve {traces traces' : StackTrace stackEntries} {stackId : Int32}
    (known : Known traces stackId) (grows : traces.Extends traces') :
    Known traces' stackId ∧
      resolveFrames traces'.get kallsyms stackId = resolveFrames traces.get kallsyms stackId := by
  rcases known with none | ⟨i, ips, rfl, held⟩
  · refine ⟨.inl none, ?_⟩
    rw [none]
    rfl
  · have still := grows i ips held
    refine ⟨.inr ⟨i, ips, rfl, still⟩, ?_⟩
    rw [resolveFrames_of_slots still, resolveFrames_of_slots held]

variable (L hash kallsyms) in
/-- The id stored with a sleep is the one of its own frames. -/
theorem resolve_answer (h : List Shot) {ctx : TracePointContext}
    (captured : Except Int64 (List UInt64)) {x : UInt32 × StartInfo}
    (sleep : sleepOf target ctx = some x) :
    Known ((traced L target hash).run (.schedSwitch ctx captured :: h)).traces
        (answered ctx (((traced L target hash).run h).traces.getStackid hash captured).1).stackId ∧
      resolveFrames ((traced L target hash).run (.schedSwitch ctx captured :: h)).traces.get kallsyms
        (answered ctx (((traced L target hash).run h).traces.getStackid hash captured).1).stackId =
          framesOf target hash kallsyms h captured := by
  have asked : askedTrace target (.schedSwitch ctx captured) = captured.toOption := by
    simp [askedTrace, sleep]
  have slots := traces_eq_first L target hash (.schedSwitch ctx captured :: h)
  have before := traces_eq_first L target hash h
  generalize ((traced L target hash).run (.schedSwitch ctx captured :: h)).traces = after at slots ⊢
  generalize ((traced L target hash).run h).traces = old at before ⊢
  cases captured with
  | error e => exact ⟨.inl rfl, rfl⟩
  | ok ips =>
      have number : (Int64.ofNat (hash ips)).toInt32 = Int32.ofNat (hash ips) := Int64.toInt32_ofNat'
      have slot := slots (hash ips)
      have earlier := before (hash ips)
      rw [firstTrace, asked] at slot
      simp only [answered, TracePointContext.stackId, StackTrace.getStackid, earlier, framesOf]
      cases first : firstTrace target hash h (hash ips) with
      | none =>
          have held : after.slots (hash ips) = some ips := by
            simpa [first, Except.toOption, Option.filter_some] using slot
          simp only [number]
          exact ⟨.inr ⟨hash ips, ips, rfl, held⟩, resolveFrames_of_slots held⟩
      | some kept =>
          have held : after.slots (hash ips) = some kept := by simpa [first] using slot
          by_cases same : kept = ips
          · subst same
            simp only [if_true, number]
            exact ⟨.inr ⟨hash kept, kept, rfl, held⟩, resolveFrames_of_slots held⟩
          · simp only [if_neg same]
            exact ⟨.inl rfl, rfl⟩

/-! ## Sleeps and buckets -/

variable (L target hash kallsyms) in
theorem sleeps_eq_pending (h : List Shot) (p : UInt32) :
    (∀ info, (pending target).replay (probes (ticks L target hash h)) p = some info →
        Known ((traced L target hash).run h).traces info.stackId) ∧
      (sleeps target hash kallsyms).replay h p =
        ((pending target).replay (probes (ticks L target hash h)) p).map fun info =>
          ⟨info.tsNs, resolveFrames ((traced L target hash).run h).traces.get kallsyms info.stackId⟩ := by
  induction h with
  | nil =>
      refine ⟨fun info none => ?_, rfl⟩
      cases none
  | cons a h ih =>
      obtain ⟨known, agree⟩ := ih
      have grows : ((traced L target hash).run h).traces.Extends
          ((traced L target hash).run (a :: h)).traces := extends_next _ a
      have kept (info : StartInfo)
          (still : (pending target).replay (probes (ticks L target hash h)) p = some info) :=
        (known info still).resolve kallsyms grows
      have stay : (∀ info, (pending target).replay (probes (ticks L target hash h)) p = some info →
            Known ((traced L target hash).run (a :: h)).traces info.stackId) ∧
          (sleeps target hash kallsyms).replay h p =
            ((pending target).replay (probes (ticks L target hash h)) p).map fun info =>
              ⟨info.tsNs, resolveFrames ((traced L target hash).run (a :: h)).traces.get kallsyms
                info.stackId⟩ := by
        refine ⟨fun info still => (kept info still).1, ?_⟩
        rw [agree]
        cases still : (pending target).replay (probes (ticks L target hash h)) p with
        | none => rfl
        | some info => rw [Option.map_some, Option.map_some, (kept info still).2]
      cases a with
      | schedSwitch ctx captured =>
          have record : probes (ticks L target hash (.schedSwitch ctx captured :: h)) =
              .schedSwitch (answered ctx (((traced L target hash).run h).traces.getStackid hash
                captured).1) :: probes (ticks L target hash h) := rfl
          rw [record, Journal.replay_cons, Journal.replay_cons]
          cases sleep : sleepOf target ctx with
          | none => simpa [pending, sleeps, sleepOf_answered, sleep] using stay
          | some x =>
              by_cases mine : p = x.1
              · have own := resolve_answer L hash kallsyms h captured sleep
                simp only [pending, sleeps, sleepOf_answered, sleep, Option.map_some, mine, if_true,
                  CellOp.apply_put]
                refine ⟨fun info same => ?_, ?_⟩
                · cases same
                  exact own.1
                · rw [own.2]
              · simpa [pending, sleeps, sleepOf_answered, sleep, mine] using stay
      | schedWakeup ctx =>
          have record : probes (ticks L target hash (.schedWakeup ctx :: h)) =
              .schedWakeup ctx :: probes (ticks L target hash h) := rfl
          rw [record, Journal.replay_cons, Journal.replay_cons]
          by_cases woken : wokenBy ctx = some p
          · simp [pending, sleeps, woken]
          · simpa [pending, sleeps, woken] using stay
      | flush f => exact stay

def sleptOf (traces : StackTrace stackEntries) (kallsyms : Kallsyms) (e : BucketKey × Nat) : Slept :=
  ⟨e.1.pid, resolveFrames traces.get kallsyms e.1.stackId, e.2⟩

variable (L target hash kallsyms) in
theorem sleepEndedBy_eq (h : List Shot) (ctx : TracePointContext) :
    (∀ e, creditOf target (probes (ticks L target hash h)) (.schedWakeup ctx) = some e →
        Known ((traced L target hash).run h).traces e.1.stackId) ∧
      sleepEndedBy target hash kallsyms h (.schedWakeup ctx) =
        (creditOf target (probes (ticks L target hash h)) (.schedWakeup ctx)).map
          (sleptOf ((traced L target hash).run h).traces kallsyms) := by
  simp only [sleepEndedBy, creditOf]
  cases woken : wokenBy ctx with
  | none => exact ⟨fun e none => by simp at none, rfl⟩
  | some p =>
      obtain ⟨known, agree⟩ := sleeps_eq_pending L target hash kallsyms h p
      dsimp only
      rw [agree]
      cases sleep : (pending target).replay (probes (ticks L target hash h)) p with
      | none => exact ⟨fun e none => by simp at none, rfl⟩
      | some info =>
          refine ⟨fun e same => ?_, rfl⟩
          cases same
          exact known info sleep

variable (L target hash kallsyms) in
theorem sleptSinceFlush_eq (h : List Shot) :
    (∀ e ∈ creditsSinceFlush target (ticks L target hash h),
        Known ((traced L target hash).run h).traces e.1.stackId) ∧
      sleptSinceFlush target hash kallsyms h =
        (creditsSinceFlush target (ticks L target hash h)).map
          (sleptOf ((traced L target hash).run h).traces kallsyms) := by
  induction h with
  | nil => exact ⟨fun e none => absurd none List.not_mem_nil, rfl⟩
  | cons a h ih =>
      obtain ⟨known, agree⟩ := ih
      have grows : ((traced L target hash).run h).traces.Extends
          ((traced L target hash).run (a :: h)).traces := extends_next _ a
      have older : (creditsSinceFlush target (ticks L target hash h)).map
            (sleptOf ((traced L target hash).run (a :: h)).traces kallsyms) =
          (creditsSinceFlush target (ticks L target hash h)).map
            (sleptOf ((traced L target hash).run h).traces kallsyms) := by
        refine List.map_congr_left fun e mem => ?_
        rw [sleptOf, ((known e mem).resolve kallsyms grows).2, sleptOf]
      have stay : ∀ e ∈ creditsSinceFlush target (ticks L target hash h),
          Known ((traced L target hash).run (a :: h)).traces e.1.stackId :=
        fun e mem => ((known e mem).resolve kallsyms grows).1
      cases a with
      | schedSwitch ctx captured => exact ⟨stay, agree.trans older.symm⟩
      | schedWakeup ctx =>
          obtain ⟨new, ended⟩ := sleepEndedBy_eq L target hash kallsyms h ctx
          have record : creditsSinceFlush target (ticks L target hash (.schedWakeup ctx :: h)) =
              (creditOf target (probes (ticks L target hash h)) (.schedWakeup ctx)).toList ++
                creditsSinceFlush target (ticks L target hash h) := rfl
          rw [record]
          refine ⟨fun e mem => ?_, ?_⟩
          · rcases List.mem_append.mp mem with mem | mem
            · exact new e (Option.mem_toList.mp mem)
            · exact known e mem
          · have slept : sleptSinceFlush target hash kallsyms (.schedWakeup ctx :: h) =
                (sleepEndedBy target hash kallsyms h (.schedWakeup ctx)).toList ++
                  sleptSinceFlush target hash kallsyms h := rfl
            rw [slept, ended, agree, List.map_append]
            cases creditOf target (probes (ticks L target hash h)) (.schedWakeup ctx) <;> rfl
      | flush f => exact ⟨fun e none => absurd none List.not_mem_nil, rfl⟩

/-! ## The snapshot of a flush -/

theorem sum_lengthsOf (keys : Finset BucketKey) (credits : List (BucketKey × Nat)) :
    ∑ k ∈ keys, (lengthsOf k credits).sum =
      ((credits.filter fun e => e.1 ∈ keys).map Prod.snd).sum := by
  induction credits with
  | nil => simp [lengthsOf]
  | cons e credits ih =>
      have each (k : BucketKey) : (lengthsOf k (e :: credits)).sum =
          (if e.1 = k then e.2 else 0) + (lengthsOf k credits).sum := by
        rw [lengthsOf_cons]
        split
        next => exact Multiset.sum_cons ..
        next => exact (Nat.zero_add _).symm
      rw [Finset.sum_congr rfl fun k _ => each k, Finset.sum_add_distrib, ih, Finset.sum_ite_eq]
      by_cases mem : e.1 ∈ keys
      · simp [mem]
      · simp [mem]

theorem sum_lengthsOf_le (k : BucketKey) (credits : List (BucketKey × Nat)) :
    (lengthsOf k credits).sum ≤ (credits.map Prod.snd).sum := by
  rw [lengthsOf, Multiset.sum_coe]
  exact (List.filter_sublist.map _).sum_le_sum fun _ _ => Nat.zero_le _

theorem lengthsOf_eq_zero_iff {k : BucketKey} {credits : List (BucketKey × Nat)} :
    lengthsOf k credits = 0 ↔ ∀ e ∈ credits, e.1 ≠ k := by
  rw [lengthsOf, Multiset.coe_eq_zero, List.map_eq_nil_iff, List.filter_eq_nil_iff]
  simp

theorem keys_of_credits {snapshot : List (BucketKey × UInt64)} {credits : List (BucketKey × Nat)}
    (all : ∀ k v, (k, v) ∈ snapshot ↔ bucketOf (lengthsOf k credits) = some v)
    (p : BucketKey → Bool) (k : BucketKey) :
    (∃ e ∈ snapshot.filter fun e => p e.1, e.1 = k) ↔
      ∃ e ∈ credits.filter fun e => p e.1, e.1 = k := by
  constructor
  · rintro ⟨⟨k, v⟩, mem, rfl⟩
    obtain ⟨held, chosen⟩ := List.mem_filter.mp mem
    have bucket := (all k v).mp held
    by_contra absent
    have none : lengthsOf k credits = 0 := by
      refine lengthsOf_eq_zero_iff.mpr fun e there same => absent ⟨e, ?_, same⟩
      exact List.mem_filter.mpr ⟨there, same ▸ chosen⟩
    rw [bucketOf, if_pos none] at bucket
    cases bucket
  · rintro ⟨e, mem, rfl⟩
    obtain ⟨there, chosen⟩ := List.mem_filter.mp mem
    have some : lengthsOf e.1 credits ≠ 0 := fun none => lengthsOf_eq_zero_iff.mp none e there rfl
    exact ⟨_, List.mem_filter.mpr ⟨(all e.1 _).mpr (if_neg some), chosen⟩, rfl⟩

theorem total_of_credits {snapshot : List (BucketKey × UInt64)} {credits : List (BucketKey × Nat)}
    (distinct : (snapshot.map Prod.fst).Nodup)
    (all : ∀ k v, (k, v) ∈ snapshot ↔ bucketOf (lengthsOf k credits) = some v)
    (small : (credits.map Prod.snd).sum < 2 ^ 64) (p : BucketKey → Bool) :
    totalNs (snapshot.filter fun e => p e.1) =
      ((credits.filter fun e => p e.1).map Prod.snd).sum := by
  have value (e : BucketKey × UInt64) (mem : e ∈ snapshot) :
      e.2.toNat = (lengthsOf e.1 credits).sum := by
    have bucket := (all e.1 e.2).mp mem
    unfold bucketOf at bucket
    split at bucket
    next => cases bucket
    next =>
        rw [← Option.some.inj bucket]
        exact UInt64.toNat_ofNat_of_lt' ((sum_lengthsOf_le e.1 credits).trans_lt small)
  have listed : ((snapshot.filter fun e => p e.1).map Prod.fst).Nodup :=
    distinct.sublist (List.filter_sublist.map _)
  calc totalNs (snapshot.filter fun e => p e.1)
      = (((snapshot.filter fun e => p e.1).map Prod.fst).map
          fun k => (lengthsOf k credits).sum).sum := by
        rw [totalNs, List.map_map]
        refine congrArg List.sum (List.map_congr_left fun e mem => ?_)
        exact value e (List.mem_of_mem_filter mem)
    _ = ∑ k ∈ ((snapshot.filter fun e => p e.1).map Prod.fst).toFinset,
          (lengthsOf k credits).sum := (List.sum_toFinset _ listed).symm
    _ = ((credits.filter fun e =>
          e.1 ∈ ((snapshot.filter fun e => p e.1).map Prod.fst).toFinset).map Prod.snd).sum :=
        sum_lengthsOf _ credits
    _ = ((credits.filter fun e => p e.1).map Prod.snd).sum := by
        refine congrArg (fun l => (List.map Prod.snd l).sum) (List.filter_congr fun e mem => ?_)
        rw [Bool.eq_iff_iff, decide_eq_true_eq, List.mem_toFinset, List.mem_map,
          keys_of_credits all p e.1]
        constructor
        · rintro ⟨e', chosen, same⟩
          exact same ▸ (List.mem_filter.mp chosen).2
        · intro chosen
          exact ⟨e, List.mem_filter.mpr ⟨mem, chosen⟩, rfl⟩

end

/-- A flush charges a reason with the sleeps that ended since the last flush and whose own
stack gives that reason: their time, their threads, and no entry when there are none. -/
theorem reason_of_own_stacks {target : UInt32} {hash : List UInt64 → Fin stackEntries}
    (kallsyms : Kallsyms) {h : List Shot}
    (law : Lawful (RoomyTick L target) (ticks L target hash h))
    {snapshot : List (BucketKey × UInt64)} (distinct : (snapshot.map Prod.fst).Nodup)
    (all : ∀ k v, (k, v) ∈ snapshot ↔
      ((traced L target hash).run h).maps.buckets.get k = some v)
    (small : ((sleptSinceFlush target hash kallsyms h).map Slept.ns).sum < 2 ^ 64) (r : Reason) :
    let own := (sleptSinceFlush target hash kallsyms h).filter fun s => classify s.frames = r
    match (aggregate (resolveFrames ((traced L target hash).run h).traces.get kallsyms)
      snapshot).lookup r with
    | none => own = []
    | some agg => own ≠ [] ∧ agg.totalNs.toNat = (own.map Slept.ns).sum ∧
        agg.pids = (own.map Slept.pid).toFinset := by
  have accounts := (windows_accounts law).2
  obtain ⟨-, slept⟩ := sleptSinceFlush_eq L target hash kallsyms h
  rw [run_maps] at all
  simp only [accounts] at all
  generalize creditsSinceFlush target (ticks L target hash h) = credits at all slept
  generalize ((traced L target hash).run h).traces = traces at slept ⊢
  have lengths : (credits.map Prod.snd).sum < 2 ^ 64 := by
    rw [slept, List.map_map] at small
    exact small
  let chosen (k : BucketKey) : Bool := classify (resolveFrames traces.get kallsyms k.stackId) = r
  have total := total_of_credits distinct all lengths chosen
  have own : (sleptSinceFlush target hash kallsyms h).filter (fun s => classify s.frames = r) =
      (credits.filter fun e => classify (resolveFrames traces.get kallsyms e.1.stackId) = r).map
        (sleptOf traces kallsyms) := by
    rw [slept, List.filter_map]
    rfl
  dsimp only
  rw [own, lookup_aggregate]
  have same (k : BucketKey) :
      (∃ e ∈ bucketsOf (resolveFrames traces.get kallsyms) snapshot r, e.1 = k) ↔
        ∃ e ∈ credits.filter fun e => chosen e.1, e.1 = k := keys_of_credits all chosen k
  by_cases none : bucketsOf (resolveFrames traces.get kallsyms) snapshot r = []
  · rw [if_pos none]
    refine List.map_eq_nil_iff.mpr (List.eq_nil_iff_forall_not_mem.mpr fun e mem => ?_)
    obtain ⟨e', mem', -⟩ := (same e.1).mpr ⟨e, mem, rfl⟩
    rw [none] at mem'
    cases mem'
  · rw [if_neg none]
    have fits : totalNs (bucketsOf (resolveFrames traces.get kallsyms) snapshot r) < 2 ^ 64 := by
      refine lt_of_eq_of_lt total (lt_of_le_of_lt ?_ lengths)
      exact (List.filter_sublist.map _).sum_le_sum fun _ _ => Nat.zero_le _
    refine ⟨fun empty => none ?_, ?_, ?_⟩
    · refine List.eq_nil_iff_forall_not_mem.mpr fun e mem => ?_
      obtain ⟨e', mem', -⟩ := (same e.1).mp ⟨e, mem, rfl⟩
      rw [List.map_eq_nil_iff.mp empty] at mem'
      cases mem'
    · rw [toNat_totalNs_aggOf fits, List.map_map]
      exact total
    · rw [pids_aggOf, List.map_map]
      ext q
      simp only [List.mem_toFinset, List.mem_map]
      constructor
      · rintro ⟨e, mem, rfl⟩
        obtain ⟨e', mem', eq⟩ := (same e.1).mp ⟨e, mem, rfl⟩
        exact ⟨e', mem', congrArg BucketKey.pid eq⟩
      · rintro ⟨e, mem, rfl⟩
        obtain ⟨e', mem', eq⟩ := (same e.1).mpr ⟨e, mem, rfl⟩
        exact ⟨e', mem', congrArg BucketKey.pid eq⟩

/-- Two stacks with one hash: the second, of thread 8, is not kept. -/
def collidingStacks : List Shot :=
  [.schedWakeup (tracePoint 8 40),
    .schedWakeup (tracePoint 7 30),
    .schedSwitch (tracePoint 8 15 42 1) (.ok [0x20]),
    .schedSwitch (tracePoint 7 10 42 1) (.ok [0x10]),
    .flush 5]

def sameHash (_ : List UInt64) : Fin stackEntries := 0

def twoSymbols : Kallsyms := ⟨[(0x10, "io_schedule"), (0x20, "futex_wait")], by decide⟩

def collidingBuckets : List (BucketKey × UInt64) := [(⟨7, 0⟩, 20), (⟨8, -1⟩, 25)]

theorem collidingStacks_buckets (k : BucketKey) (v : UInt64) :
    (k, v) ∈ collidingBuckets ↔
      ((traced declared 42 sameHash).run collidingStacks).maps.buckets.get k = some v := by
  have law : Lawful (RoomyTick declared 42) (ticks declared 42 sameHash collidingStacks) := by
    decide +kernel
  have credits : creditsSinceFlush 42 (ticks declared 42 sameHash collidingStacks) =
      [(⟨8, -1⟩, 25), (⟨7, 0⟩, 20)] := by decide +kernel
  rw [run_maps, (windows_accounts law).2, credits]
  by_cases first : k = ⟨7, 0⟩
  · subst first
    simp [collidingBuckets, bucketOf, lengthsOf, eq_comm]
  · by_cases second : k = ⟨8, -1⟩
    · subst second
      simp [collidingBuckets, bucketOf, lengthsOf, eq_comm]
    · have others : ¬(⟨8, -1⟩ : BucketKey) = k ∧ ¬(⟨7, 0⟩ : BucketKey) = k :=
        ⟨fun eq => second eq.symm, fun eq => first eq.symm⟩
      simp [collidingBuckets, bucketOf, lengthsOf, first, second, others]

/-- The sleep whose stack was not kept is reported under the last reason. -/
theorem collidingStacks_other :
    match (aggregate (resolveFrames ((traced declared 42 sameHash).run
      collidingStacks).traces.get twoSymbols) collidingBuckets).lookup .other with
    | none => False
    | some agg => agg.totalNs.toNat = 25 ∧ agg.pids = {8} := by
  have law : Lawful (RoomyTick declared 42) (ticks declared 42 sameHash collidingStacks) := by
    decide +kernel
  have own : (sleptSinceFlush 42 sameHash twoSymbols collidingStacks).filter
      (fun s => classify s.frames = .other) = [⟨8, [], 25⟩] := by decide +kernel
  have charged := reason_of_own_stacks twoSymbols law (by decide) collidingStacks_buckets
    (by decide +kernel) .other
  simp only [own] at charged
  split at charged
  next => cases charged
  next => exact ⟨charged.2.1, charged.2.2⟩

end Tragach.Iowait
