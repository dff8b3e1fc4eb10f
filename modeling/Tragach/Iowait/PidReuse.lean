import Tragach.Iowait.Accounting

/-! # Pid reuse

A thread of the target process that exits leaves a pending sleep under its pid, for
its final switch-out is a going-to-sleep one and no wakeup follows it. When the pid
is given to another thread, of whatever process, the next wakeup of that thread
ends the sleep of the dead one.
-/

namespace Tragach.Iowait

open Bpf Library

structure Thread where
  id : Nat
  pid : UInt32
  tgid : UInt32
  deriving DecidableEq

/-- What happens to a thread; its first start fires no probe. -/
inductive Move where
  | start (T : Thread)
  | switchOut (T : Thread) (ctx : TracePointContext)
  | exit (T : Thread) (ctx : TracePointContext)
  | wakeup (T : Thread) (ctx : TracePointContext)

def Move.firing : Move → Option Action
  | .start _ => none
  | .switchOut _ c => some (.schedSwitch c)
  | .exit _ c => some (.schedSwitch c)
  | .wakeup _ c => some (.schedWakeup c)

def Move.out : Move → Option (Thread × TracePointContext)
  | .switchOut T c => some (T, c)
  | .exit T c => some (T, c)
  | _ => none

variable {L : Limits}

def scheduled (L : Limits) (target : UInt32) : System (State L) Move where
  init := State.loaded L target
  step := fun s m =>
    match m.firing with
    | some a => fire s a
    | none => s

/-! ## Threads -/

def started : List Move → List Thread
  | [] => []
  | .start T :: h => T :: started h
  | _ :: h => started h

def live : List Move → List Thread
  | [] => []
  | .start T :: h => T :: live h
  | .exit T _ :: h => (live h).filter (· ≠ T)
  | _ :: h => live h

def GoesToSleep (c : TracePointContext) : Prop :=
  ∃ state, c.prevState = .ok state ∧ state.toUInt64.toUInt8 ≠ 0

/-- Two live threads never share a pid, only live threads move, and the records are
about the threads that do. -/
def Legal (h : List Move) : Move → Prop
  | .start T => T ∉ started h ∧ ∀ U ∈ live h, U.pid ≠ T.pid
  | .switchOut T c => T ∈ live h ∧ Names T.pid c ∧ c.tgid = T.tgid
  | .exit T c => T ∈ live h ∧ Names T.pid c ∧ c.tgid = T.tgid ∧ GoesToSleep c
  | .wakeup T c => T ∈ live h ∧ Names T.pid c

instance (c : TracePointContext) : Decidable (GoesToSleep c) :=
  match read : c.prevState with
  | .ok state => decidable_of_iff (state.toUInt64.toUInt8 ≠ 0) (by simp [GoesToSleep, read])
  | .error e => .isFalse (by simp [GoesToSleep, read])

instance (h : List Move) : ∀ m, Decidable (Legal h m)
  | .start T => inferInstanceAs (Decidable (T ∉ started h ∧ ∀ U ∈ live h, U.pid ≠ T.pid))
  | .switchOut T c => inferInstanceAs (Decidable (T ∈ live h ∧ Names T.pid c ∧ c.tgid = T.tgid))
  | .exit T c => inferInstanceAs
      (Decidable (T ∈ live h ∧ Names T.pid c ∧ c.tgid = T.tgid ∧ GoesToSleep c))
  | .wakeup T c => inferInstanceAs (Decidable (T ∈ live h ∧ Names T.pid c))

/-! ## Whose sleep is credited -/

/-- The time a wakeup adds lies in a sleep of the thread it wakes, and that thread is of
the target process. -/
def OnlyOwnSleeps (L : Limits) (target : UInt32) (h : List Move) : Move → Prop
  | .wakeup T c => ∀ k delta,
      credit ((scheduled L target).run h) (.schedWakeup c) = some (k, delta) → delta ≠ 0 →
        T.tgid = target ∧ ∃ post m out pre, h = post ++ m :: pre ∧ m.out = some (T, out) ∧
          GoesToSleep out ∧ (∀ c', .wakeup T c' ∉ post) ∧
          out.ktime.toNat + delta.toNat ≤ c.ktime.toNat
  | _ => True

/-- The sleep recorded under a pid, and the thread whose switch-out began it. -/
def sleepers (L : Limits) (target : UInt32) : Journal Move UInt32 (Thread × StartInfo) :=
  fun h m p =>
    match m, m.out with
    | .wakeup _ c, _ => if wokenBy c = some p then .drop else .keep
    | _, some (T, c) =>
        match sleepOf target c with
        | some (key, info) =>
            HashMap.insertOp (((scheduled L target).run h).start.accepts key) key (T, info) p
        | none => .keep
    | _, none => .keep

/-- The sleep a wakeup ends was begun by the thread it wakes, unless ending it adds no
time. -/
def OwnSleeper (L : Limits) (target : UInt32) (h : List Move) : Move → Prop
  | .wakeup T c => ∀ x ∈ (sleepers L target).replay h T.pid,
      x.1 = T ∨ x.2.slept c.ktime = 0 ∨
        ((scheduled L target).run h).buckets.accepts ⟨T.pid, x.2.stackId⟩ = false
  | _ => True

instance (target : UInt32) (h : List Move) : ∀ m, Decidable (OwnSleeper L target h m)
  | .wakeup T _ => Option.decidableForallMem ((sleepers L target).replay h T.pid)
  | .start _ => .isTrue trivial
  | .switchOut _ _ => .isTrue trivial
  | .exit _ _ => .isTrue trivial

/-! ## Live threads -/

section

variable {h : List Move}

theorem live_subset_started (h : List Move) : live h ⊆ started h := by
  induction h with
  | nil => exact fun _ mem => mem
  | cons m h ih =>
      cases m with
      | start T => exact List.cons_subset_cons T ih
      | switchOut T c => exact ih
      | exit T c => exact fun U mem => ih (List.mem_filter.mp mem).1
      | wakeup T c => exact ih

theorem started_subset_cons (m : Move) (h : List Move) : started h ⊆ started (m :: h) := by
  cases m with
  | start T => exact List.subset_cons_self T _
  | switchOut T c => exact fun _ mem => mem
  | exit T c => exact fun _ mem => mem
  | wakeup T c => exact fun _ mem => mem

theorem started_subset_append (post pre : List Move) : started pre ⊆ started (post ++ pre) := by
  induction post with
  | nil => exact fun _ mem => mem
  | cons m post ih => exact fun T mem => started_subset_cons m _ (ih mem)

theorem live_nodup (law : Lawful Legal h) : ((live h).map Thread.pid).Nodup := by
  induction h with
  | nil => exact List.nodup_nil
  | cons m h ih =>
      cases m with
      | start T =>
          refine List.nodup_cons.mpr ⟨fun mem => ?_, ih law.2⟩
          obtain ⟨U, alive, same⟩ := List.mem_map.mp mem
          exact law.1.2 U alive same
      | switchOut T c => exact ih law.2
      | exit T c => exact (ih law.2).sublist (List.filter_sublist.map _)
      | wakeup T c => exact ih law.2

theorem live_unique (law : Lawful Legal h) {T U : Thread} (liveT : T ∈ live h)
    (liveU : U ∈ live h) (same : T.pid = U.pid) : T = U :=
  List.inj_on_of_nodup_map (live_nodup law) liveT liveU same

/-- A live thread has been live ever since it was started. -/
theorem live_of_started {post pre : List Move} (law : Lawful Legal (post ++ pre)) {T : Thread}
    (now : T ∈ live (post ++ pre)) (before : T ∈ started pre) : T ∈ live pre := by
  induction post with
  | nil => exact now
  | cons m post ih =>
      apply ih law.2
      cases m with
      | start U =>
          rcases List.mem_cons.mp now with rfl | older
          · exact absurd (started_subset_append post pre before) law.1.1
          · exact older
      | switchOut U c => exact now
      | exit U c => exact (List.mem_filter.mp now).1
      | wakeup U c => exact now

theorem out_legal {m : Move} (legal : Legal h m) {T : Thread} {c : TracePointContext}
    (out : m.out = some (T, c)) : T ∈ live h ∧ Names T.pid c ∧ c.tgid = T.tgid := by
  cases m with
  | start U => cases out
  | switchOut U c' =>
      cases out
      exact legal
  | exit U c' =>
      cases out
      exact ⟨legal.1, legal.2.1, legal.2.2.1⟩
  | wakeup U c' => cases out

/-! ## The recorded sleeps -/

variable {target : UInt32}

theorem scheduled_step (s : State L) (m : Move) :
    (scheduled L target).step s m =
      match m.firing with
      | some a => fire s a
      | none => s := rfl

theorem run_scheduled_target (h : List Move) : ((scheduled L target).run h).target = target := by
  induction h with
  | nil => rfl
  | cons m h ih =>
      rw [System.run_cons, scheduled_step]
      cases m.firing with
      | none => exact ih
      | some a => exact (target_fire _ a).trans ih

theorem sleepers_out {m : Move} {T : Thread} {c : TracePointContext} (out : m.out = some (T, c))
    (p : UInt32) :
    sleepers L target h m p =
      match sleepOf target c with
      | some (key, info) =>
          HashMap.insertOp (((scheduled L target).run h).start.accepts key) key (T, info) p
      | none => .keep := by
  cases m with
  | start U => cases out
  | switchOut U c' => cases out; rfl
  | exit U c' => cases out; rfl
  | wakeup U c' => cases out

/-- `START` holds the recorded sleeps. -/
theorem start_eq_sleepers (h : List Move) (p : UInt32) :
    ((scheduled L target).run h).start.get p =
      ((sleepers L target).replay h p).map Prod.snd := by
  induction h with
  | nil => exact HashMap.get_empty p
  | cons m h ih =>
      rw [System.run_cons, scheduled_step, Journal.replay_cons]
      have switched {T : Thread} {c : TracePointContext} (out : m.out = some (T, c)) :
          (fire ((scheduled L target).run h) (.schedSwitch c)).start.get p =
            ((sleepers L target h m p).apply ((sleepers L target).replay h p)).map Prod.snd := by
        rw [get_start_fire, startOp, run_scheduled_target, sleepers_out out]
        cases sleepOf target c with
        | none => exact ih
        | some x =>
            simp only [HashMap.insertOp]
            split
            · rfl
            · exact ih
      cases m with
      | start T => exact ih
      | switchOut T c => exact switched rfl
      | exit T c => exact switched rfl
      | wakeup T c =>
          simp only [Move.firing, get_start_fire, startOp, sleepers]
          split
          · rfl
          · exact ih

theorem sleepers_put {m : Move} {p : UInt32} {T : Thread} {info : StartInfo}
    (put : sleepers L target h m p = .put (T, info)) :
    ∃ c, m.out = some (T, c) ∧ sleepOf target c = some (p, info) := by
  cases out : m.out with
  | none =>
      cases m with
      | start U => cases put
      | switchOut U c => cases out
      | exit U c => cases out
      | wakeup U c =>
          simp only [sleepers] at put
          split at put <;> cases put
  | some x =>
      rcases x with ⟨U, c⟩
      rw [sleepers_out out] at put
      cases sleep : sleepOf target c with
      | none => simp [sleep] at put
      | some y =>
          rcases y with ⟨key, info'⟩
          simp only [sleep, HashMap.insertOp] at put
          split at put
          next both =>
              cases put
              exact ⟨c, rfl, by rw [both.2, sleep]⟩
          next => cases put

theorem sleepOf_spec {c : TracePointContext} {p : UInt32} {info : StartInfo}
    (sleep : sleepOf target c = some (p, info)) :
    target ≠ 0 ∧ Names p c ∧ GoesToSleep c ∧ c.tgid = target ∧ info.tsNs = c.ktime := by
  have tracking : target ≠ 0 := by
    intro same
    subst same
    unfold sleepOf at sleep
    split at sleep
    · simp at sleep
    · cases sleep
  obtain ⟨pid, state, named, key, read, sleeping, own, rfl⟩ := (sleepOf_eq_some_iff tracking).mp sleep
  exact ⟨tracking, ⟨pid, named, key⟩, ⟨state, read, sleeping⟩, own, rfl⟩

theorem sleepOf_of_sleep (tracking : target ≠ 0) {c : TracePointContext} {p : UInt32}
    (named : Names p c) (sleeping : GoesToSleep c) (own : c.tgid = target) :
    sleepOf target c = some (p, ⟨c.ktime, c.stackId, 0⟩) := by
  rcases named with ⟨pid, read, key⟩
  rcases sleeping with ⟨state, read', sleeping⟩
  exact (sleepOf_eq_some_iff tracking).mpr ⟨pid, state, read, key, read', sleeping, own, rfl⟩

theorem names_unique {p q : UInt32} {c : TracePointContext} (namesP : Names p c)
    (namesQ : Names q c) : p = q := by
  have same := (wokenBy_eq_some_iff.mpr namesP).symm.trans (wokenBy_eq_some_iff.mpr namesQ)
  exact Option.some.inj same

/-- A recorded sleep was begun by a live thread, and no thread has been woken under its
pid since. -/
theorem sleepers_recorded (law : Lawful Legal h) {p : UInt32} {T : Thread} {info : StartInfo}
    (recorded : (sleepers L target).replay h p = some (T, info)) :
    ∃ post m c pre, h = post ++ m :: pre ∧ m.out = some (T, c) ∧
      sleepOf target c = some (p, info) ∧ T ∈ live pre ∧ T.pid = p ∧ c.tgid = T.tgid ∧
      (sleepers L target).Kept p (m :: pre) post := by
  obtain ⟨post, m, pre, split, put, kept⟩ := Journal.replay_eq_some_iff.mp recorded
  obtain ⟨c, out, sleep⟩ := sleepers_put put
  obtain ⟨alive, named, own⟩ := out_legal (lawful_iff_split.mp law _ _ _ split) out
  exact ⟨post, m, c, pre, split, out, sleep, alive, names_unique named (sleepOf_spec sleep).2.1,
    own, kept⟩

theorem no_wakeup_of_kept {p : UInt32} {T : Thread} {post pre : List Move}
    (law : Lawful Legal (post ++ pre)) (kept : (sleepers L target).Kept p pre post)
    (own : T.pid = p) (c : TracePointContext) : .wakeup T c ∉ post := by
  intro mem
  obtain ⟨later, earlier, rfl⟩ := List.append_of_mem mem
  have keep := kept.of_append.1
  rw [List.append_assoc] at law
  have named := law.of_append.1.2
  rw [own, ← wokenBy_eq_some_iff] at named
  simp [sleepers, named] at keep

/-- A sleep recorded under a pid is replaced by the next one recorded there, for its key is
present and needs no room. -/
theorem sleep_replaces {p : UInt32} {x : Thread × StartInfo} {m : Move} {T : Thread}
    {c : TracePointContext} {info : StartInfo} (held : (sleepers L target).replay h p = some x)
    (out : m.out = some (T, c)) (sleep : sleepOf target c = some (p, info)) :
    sleepers L target h m p ≠ .keep := by
  have entry : ((scheduled L target).run h).start.get p = some x.2 := by
    rw [start_eq_sleepers, held, Option.map_some]
  rw [sleepers_out out, sleep]
  simp [HashMap.insertOp, HashMap.accepts_of_get entry]

/-- What a wakeup credits, by the sleep recorded under the pid. -/
theorem credit_wakeup {s : State L} {T : Thread} {c : TracePointContext} (named : Names T.pid c) :
    credit s (.schedWakeup c) =
      match s.start.get T.pid with
      | some info =>
          if s.buckets.accepts ⟨T.pid, info.stackId⟩ then
            some (⟨T.pid, info.stackId⟩, info.slept c.ktime)
          else none
      | none => none := by
  have woken := wokenBy_eq_some_iff.mpr named
  cases entry : s.start.get T.pid <;> simp [credit, woken, entry]

theorem onlyOwnSleeps_of_ownSleeper (law : Lawful Legal h) {T : Thread} {c : TracePointContext}
    (named : Names T.pid c) (own : OwnSleeper L target h (.wakeup T c)) :
    OnlyOwnSleeps L target h (.wakeup T c) := by
  intro k delta added positive
  rw [credit_wakeup named, start_eq_sleepers] at added
  cases recorded : (sleepers L target).replay h T.pid with
  | none => simp [recorded] at added
  | some x =>
      rcases x with ⟨U, info⟩
      simp only [recorded, Option.map_some] at added
      split at added
      next room =>
          cases added
          rcases own _ recorded with rfl | none | refused
          · obtain ⟨post, m, c', pre, split, out, sleep, alive, -, ownTgid, kept⟩ :=
              sleepers_recorded law recorded
            obtain ⟨-, -, sleeping, tgid, time⟩ := sleepOf_spec sleep
            refine ⟨ownTgid.symm.trans tgid, post, m, c', pre, split, out, sleeping,
              no_wakeup_of_kept (split ▸ law) kept rfl, ?_⟩
            have length := saturatingSub_toNat c.ktime info.tsNs
            have some : (info.slept c.ktime).toNat ≠ 0 := fun zero =>
              positive (UInt64.toNat_inj.mp zero)
            rw [StartInfo.slept] at some ⊢
            rw [time] at length some ⊢
            omega
          · exact absurd none positive
          · rw [refused] at room
            cases room
      next => cases added

theorem ownSleeper_of_onlyOwnSleeps (law : Lawful Legal h) {T : Thread} {c : TracePointContext}
    (alive : T ∈ live h) (named : Names T.pid c)
    (only : OnlyOwnSleeps L target h (.wakeup T c)) : OwnSleeper L target h (.wakeup T c) := by
  rintro ⟨U, info⟩ recorded
  by_cases none : info.slept c.ktime = 0
  · exact .inr (.inl none)
  cases room : ((scheduled L target).run h).buckets.accepts ⟨T.pid, info.stackId⟩ with
  | false => exact .inr (.inr rfl)
  | true =>
      refine .inl ?_
      have entry : ((scheduled L target).run h).start.get T.pid =
          ((sleepers L target).replay h T.pid).map Prod.snd := start_eq_sleepers h T.pid
      rw [show (sleepers L target).replay h T.pid = _ from recorded] at entry
      have added : credit ((scheduled L target).run h) (.schedWakeup c) =
          some (⟨T.pid, info.stackId⟩, info.slept c.ktime) := by
        simp [credit_wakeup named, entry, room]
      obtain ⟨tgid, post, m, c', pre, split, out, sleeping, -, -⟩ := only _ _ added none
      obtain ⟨post', m', c'', pre', split', out', sleep', alive', pid', -, kept'⟩ :=
        sleepers_recorded law recorded
      obtain ⟨aliveThen, namedThen, tgidThen⟩ :=
        out_legal (lawful_iff_split.mp law _ _ _ split) out
      obtain ⟨tracking, -⟩ := sleepOf_spec sleep'
      have sleep := sleepOf_of_sleep tracking namedThen sleeping (tgidThen.trans tgid)
      have same : m = m' → U = T := by
        intro same
        subst same
        rw [out] at out'
        cases out'
        rfl
      rcases List.append_eq_append_iff.mp (split.symm.trans split') with
        ⟨between, rest, tail⟩ | ⟨between, rest, tail⟩
      · -- the thread's own switch-out came after the recorded one, and replaced it
        cases between with
        | nil => exact same (List.cons.inj tail).1
        | cons m₀ between =>
            obtain ⟨rfl, rfl⟩ := List.cons.inj tail
            subst rest
            have kept := kept'.of_append
            have held : (sleepers L target).replay (between ++ m' :: pre') T.pid =
                some (U, info) := by
              rw [Journal.replay_append_of_kept kept.2, ← Journal.replay_append_of_kept kept',
                ← split']
              exact recorded
            exact absurd kept.1 (sleep_replaces held out sleep)
      · -- it came before, when both threads were live under one pid
        cases between with
        | nil => exact same (List.cons.inj tail).1.symm
        | cons m₀ between =>
            obtain ⟨rfl, rfl⟩ := List.cons.inj tail
            have begun : T ∈ started (between ++ m :: pre) :=
              started_subset_append between _ (started_subset_cons m pre
                (live_subset_started pre aliveThen))
            have whole : h = (post' ++ [m']) ++ (between ++ m :: pre) := by simp [split']
            rw [whole] at alive law
            exact (live_unique law.of_append (live_of_started law alive begun) alive'
              pid'.symm).symm

/-- A wakeup adds only time of the thread it wakes exactly when the sleep it ends, if
that adds time, was begun by that thread. -/
theorem onlyOwnSleeps_iff (law : Lawful Legal h) {m : Move} (legal : Legal h m) :
    OnlyOwnSleeps L target h m ↔ OwnSleeper L target h m := by
  cases m with
  | start T => exact Iff.rfl
  | switchOut T c => exact Iff.rfl
  | exit T c => exact Iff.rfl
  | wakeup T c =>
      exact ⟨ownSleeper_of_onlyOwnSleeps law legal.1 legal.2,
        onlyOwnSleeps_of_ownSleeper law legal.2⟩

end

/-- Only sleeps of the target are credited in a run exactly when no wakeup of it ends a
sleep that another thread began under the same pid. -/
theorem only_own_sleeps_iff {target : UInt32} {h : List Move} (law : Lawful Legal h) :
    Lawful (OnlyOwnSleeps L target) h ↔ Lawful (OwnSleeper L target) h := by
  induction h with
  | nil => exact Iff.rfl
  | cons m h ih => rw [lawful_cons, lawful_cons, onlyOwnSleeps_iff law.2 law.1, ih law.2]

/-- A thread of the target that sleeps and exits, and its successor of the same process
under its pid, which sleeps once. -/
def successors : List Move :=
  [.wakeup ⟨2, 7, 42⟩ (tracePoint 7 90),
    .switchOut ⟨2, 7, 42⟩ (tracePoint 7 80 42 1 3),
    .start ⟨2, 7, 42⟩,
    .exit ⟨1, 7, 42⟩ (tracePoint 7 30 42 0x80 3),
    .wakeup ⟨1, 7, 42⟩ (tracePoint 7 20),
    .switchOut ⟨1, 7, 42⟩ (tracePoint 7 10 42 1 3),
    .start ⟨1, 7, 42⟩]

theorem successors_own_sleeps : Lawful (OnlyOwnSleeps declared 42) successors :=
  (only_own_sleeps_iff (by decide +kernel)).mpr (by decide +kernel)

/-- A thread of process 42 exits and its pid goes to a thread of process 43. -/
def reusedPid : List Move :=
  [.wakeup ⟨2, 7, 43⟩ (tracePoint 7 50),
    .switchOut ⟨2, 7, 43⟩ (tracePoint 7 40 43 1 3),
    .start ⟨2, 7, 43⟩,
    .exit ⟨1, 7, 42⟩ (tracePoint 7 10 42 0x80 3),
    .start ⟨1, 7, 42⟩]

/-- The foreign wakeup is credited with the time since the exit. -/
theorem reusedPid_credits_foreign :
    Lawful Legal reusedPid ∧ ¬ Lawful (OnlyOwnSleeps declared 42) reusedPid ∧
      ((scheduled declared 42).run reusedPid).bucket ⟨7, 3⟩ = 40 := by
  have law : Lawful Legal reusedPid := by decide +kernel
  refine ⟨law, fun only => ?_, by decide +kernel⟩
  have own := (onlyOwnSleeps_iff law.2 law.1).mp only.1
  revert own
  decide +kernel

end Tragach.Iowait
