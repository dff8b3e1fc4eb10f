import Tragach.Iowait.Traces

/-! # When the maps fill up

A switch-out and a wakeup ignore whether their inserts succeed. Whether they do depends on
the history alone: `START` needs an entry for every thread that has gone to sleep and not
been woken, among them every thread that has exited, and `BUCKETS` one for every thread
and stack counted since the last flush.
-/

namespace Tragach.Iowait

open Bpf Library

/-! ## What the history needs -/

def sleeper (target : UInt32) : Action → Option UInt32
  | .schedSwitch c => (sleepOf target c).map Prod.fst
  | .schedWakeup _ => none

def unwoken (target : UInt32) (h : History) : Finset UInt32 :=
  (h.filterMap (sleeper target)).toFinset.filter fun p => ((pending target).replay h p).isSome

def countedKeys (target : UInt32) (h : List Tick) : Finset BucketKey :=
  ((creditsSinceFlush target h).map Prod.fst).toFinset

/-- The maps are declared with an entry for what a firing begins to sleep or counts and for
all that came before it. -/
def FewTick (L : Limits) (target : UInt32) (h : List Tick) : Tick → Prop
  | .flush _ => True
  | .probe (.schedSwitch c) =>
      ∀ x ∈ sleepOf target c, L.start.admits (insert x.1 (unwoken target (probes h))).card = true
  | .probe (.schedWakeup c) =>
      ∀ e ∈ creditOf target (probes h) (.schedWakeup c),
        L.buckets.admits (insert e.1 (countedKeys target h)).card = true

instance (L : Limits) (target : UInt32) (h : List Tick) : ∀ a, Decidable (FewTick L target h a)
  | .flush _ => inferInstanceAs (Decidable True)
  | .probe (.schedSwitch c) => Option.decidableForallMem (sleepOf target c)
  | .probe (.schedWakeup c) =>
      Option.decidableForallMem (creditOf target (probes h) (.schedWakeup c))

variable {L : Limits} {target : UInt32}

/-- `START` holds the sleeps that are pending and `BUCKETS` all that was counted since the
last flush. -/
structure Complete (target : UInt32) (h : List Tick) (s : State L) : Prop where
  started : ∀ p, s.start.get p = (pending target).replay (probes h) p
  credited : ∀ k, s.buckets.get k = bucketOf (lengthsOf k (creditsSinceFlush target h))

/-! ## Entries and history -/

theorem pending_put {h : History} {a : Action} {p : UInt32} {info : StartInfo}
    (put : pending target h a p = .put info) : sleeper target a = some p := by
  cases a with
  | schedSwitch c =>
      simp only [pending] at put
      cases sleep : sleepOf target c with
      | none => simp [sleep] at put
      | some x =>
          by_cases same : p = x.1
          · simp [sleeper, sleep, same]
          · simp [sleep, same] at put
  | schedWakeup c =>
      simp only [pending] at put
      split at put <;> cases put

theorem mem_unwoken {h : History} {p : UInt32} :
    p ∈ unwoken target h ↔ ((pending target).replay h p).isSome = true := by
  rw [unwoken, Finset.mem_filter, List.mem_toFinset, and_iff_right_iff_imp]
  intro sleeping
  obtain ⟨info, found⟩ := Option.isSome_iff_exists.mp sleeping
  obtain ⟨post, a, pre, rfl, put, -⟩ := Journal.replay_eq_some_iff.mp found
  exact List.mem_filterMap.mpr ⟨a, by simp, pending_put put⟩

theorem mem_countedKeys {h : List Tick} {k : BucketKey} :
    k ∈ countedKeys target h ↔
      (bucketOf (lengthsOf k (creditsSinceFlush target h))).isSome = true := by
  rw [countedKeys, List.mem_toFinset, List.mem_map, bucketOf]
  by_cases counted : ∃ e ∈ creditsSinceFlush target h, e.1 = k
  · have some : lengthsOf k (creditsSinceFlush target h) ≠ 0 := fun none => by
      obtain ⟨e, mem, same⟩ := counted
      exact lengthsOf_eq_zero_iff.mp none e mem same
    simp only [counted, if_neg some, Option.isSome_some]
  · have none : lengthsOf k (creditsSinceFlush target h) = 0 :=
      lengthsOf_eq_zero_iff.mpr fun e mem same => counted ⟨e, mem, same⟩
    simp only [counted, if_pos none, Option.isSome_none, Bool.false_eq_true]

section

variable {h : List Tick} {s : State L}

theorem Complete.accepts_start (complete : Complete target h s) (p : UInt32) :
    s.start.accepts p = L.start.admits (insert p (unwoken target (probes h))).card := by
  have keys : s.start.entries.keys = unwoken target (probes h) := by
    ext q
    rw [Finmap.mem_keys, ← Finmap.lookup_isSome, mem_unwoken, ← complete.started]
    rfl
  rw [HashMap.accepts, keys]

theorem Complete.accepts_buckets (complete : Complete target h s) (k : BucketKey) :
    s.buckets.accepts k = L.buckets.admits (insert k (countedKeys target h)).card := by
  have keys : s.buckets.entries.keys = countedKeys target h := by
    ext k'
    rw [Finmap.mem_keys, ← Finmap.lookup_isSome, mem_countedKeys, ← complete.credited]
    rfl
  rw [HashMap.accepts, keys]

end

/-- While the maps are complete, whether an insert finds room is what the history says. -/
theorem fewTick_iff_roomyTick {h : List Tick}
    (complete : Complete target h ((windows L target).run h)) (a : Tick) :
    FewTick L target h a ↔ RoomyTick L target h a := by
  match a with
  | .flush f => exact Iff.rfl
  | .probe (.schedSwitch c) => simp only [FewTick, RoomyTick, complete.accepts_start]
  | .probe (.schedWakeup c) =>
      simp only [FewTick, RoomyTick, complete.accepts_buckets, complete.started, creditOf]
      cases woken : wokenBy c with
      | none => simp
      | some p =>
          cases sleep : (pending target).replay (probes h) p <;> simp [sleep]

/-- An insert that is refused leaves the maps incomplete. -/
theorem roomyTick_of_complete {h : List Tick} {a : Tick}
    (complete : Complete target h ((windows L target).run h))
    (next : Complete target (a :: h) ((windows L target).run (a :: h))) :
    RoomyTick L target h a := by
  match a with
  | .flush f => trivial
  | .probe (.schedSwitch c) =>
      intro x sleep
      by_contra refused
      have full : ((windows L target).run h).start.accepts x.1 = false := by simpa using refused
      have absent : ((windows L target).run h).start.get x.1 = none := by
        by_contra present
        obtain ⟨info, held⟩ := Option.ne_none_iff_exists'.mp present
        exact refused (HashMap.accepts_of_get held)
      have lost : ((windows L target).run (.probe (.schedSwitch c) :: h)).start.get x.1 = none := by
        rw [System.run_cons, windows_step, State.next, get_start_fire, startOp,
          run_windows_target, sleep]
        simp [HashMap.insertOp, full, absent]
      have due := next.started x.1
      rw [lost] at due
      have sleeping : (pending target).replay (probes (.probe (.schedSwitch c) :: h)) x.1 =
          some x.2 := by
        have record : probes (.probe (.schedSwitch c) :: h) = .schedSwitch c :: probes h := rfl
        rw [record, Journal.replay_cons]
        simp [pending, Option.mem_def.mp sleep]
      rw [sleeping] at due
      cases due
  | .probe (.schedWakeup c) =>
      intro p woken info held
      by_contra refused
      have full : ((windows L target).run h).buckets.accepts ⟨p, info.stackId⟩ = false := by
        simpa using refused
      have absent : ((windows L target).run h).buckets.get ⟨p, info.stackId⟩ = none := by
        by_contra present
        obtain ⟨v, present⟩ := Option.ne_none_iff_exists'.mp present
        exact refused (HashMap.accepts_of_get present)
      have lost : ((windows L target).run (.probe (.schedWakeup c) :: h)).buckets.get
          ⟨p, info.stackId⟩ = none := by
        rw [System.run_cons, windows_step, State.next, get_buckets_fire]
        simp [credit, Option.mem_def.mp woken, Option.mem_def.mp held, full, absent]
      have due := next.credited ⟨p, info.stackId⟩
      rw [lost] at due
      have ended : creditOf target (probes h) (.schedWakeup c) =
          some (⟨p, info.stackId⟩, c.ktime.toNat - info.tsNs.toNat) := by
        have sleep := (complete.started p).symm.trans held
        simp [creditOf, Option.mem_def.mp woken, sleep]
      rw [creditsSinceFlush, ended, Option.toList_some, List.singleton_append, lengthsOf_cons,
        if_pos rfl, bucketOf, if_neg Multiset.cons_ne_zero] at due
      cases due

/-! ## Complete accounts -/

theorem complete_of_roomy {h : List Tick} (law : Lawful (RoomyTick L target) h) :
    Complete target h ((windows L target).run h) :=
  ⟨(windows_accounts law).1, (windows_accounts law).2⟩

/-- As long as the history fits into the entries declared, no insert is refused. -/
theorem roomy_of_few {h : List Tick} (few : Lawful (FewTick L target) h) :
    Lawful (RoomyTick L target) h := by
  induction h with
  | nil => trivial
  | cons a h ih =>
      have law := ih few.2
      exact ⟨(fewTick_iff_roomyTick (complete_of_roomy law) a).mp few.1, law⟩

theorem complete_of_few {h : List Tick} (few : Lawful (FewTick L target) h) :
    Complete target h ((windows L target).run h) := complete_of_roomy (roomy_of_few few)

/-- The maps are complete throughout a run exactly when at each switch-out the threads
asleep, and at each wakeup the threads and stacks counted since the last flush, fit into
the entries declared. -/
theorem complete_iff_few {h : List Tick} :
    (∀ post pre, h = post ++ pre → Complete target pre ((windows L target).run pre)) ↔
      Lawful (FewTick L target) h := by
  constructor
  · intro complete
    induction h with
    | nil => trivial
    | cons a h ih =>
        have before := complete [a] h rfl
        refine ⟨(fewTick_iff_roomyTick before a).mpr
          (roomyTick_of_complete before (complete [] (a :: h) rfl)), ih ?_⟩
        intro post pre split
        exact complete (a :: post) pre (by rw [split, List.cons_append])
  · intro few post pre split
    subst split
    exact complete_of_few few.of_append

def threeAsleep : List Tick :=
  [.probe (.schedSwitch (tracePoint 7 70 42 1 3)),
    .flush 65,
    .probe (.schedWakeup (tracePoint 8 60)),
    .probe (.schedWakeup (tracePoint 7 50)),
    .probe (.schedSwitch (tracePoint 9 40 42 128 4)),
    .probe (.schedSwitch (tracePoint 8 30 42 2 3)),
    .probe (.schedSwitch (tracePoint 7 10 42 1 3))]

example : Lawful (FewTick ⟨some 3, some 2⟩ 42) threeAsleep := by decide +kernel

example : ¬ Lawful (FewTick ⟨some 2, some 2⟩ 42) threeAsleep := by decide +kernel

/-! ## Threads that are gone -/

section

variable {gone : Finset UInt32}

/-- The maps while as many threads are gone as `START` has entries. -/
structure Blind (gone : Finset UInt32) (s : State L) : Prop where
  kept : ∀ p ∈ gone, (s.start.get p).isSome = true
  full : L.start = some gone.card

theorem Blind.keys {s : State L} (blind : Blind gone s) : s.start.entries.keys = gone := by
  have held : gone ⊆ s.start.entries.keys := by
    intro p mem
    rw [Finmap.mem_keys, ← Finmap.lookup_isSome]
    exact blind.kept p mem
  have limit : ∀ m, L.start.admits m = true → m ≤ gone.card := by
    intro m fits
    rw [blind.full] at fits
    simpa using fits
  exact (Finset.eq_of_subset_of_card_le held (limit _ s.start.bounded)).symm

theorem Blind.get_start {s : State L} (blind : Blind gone s) {p : UInt32} (other : p ∉ gone) :
    s.start.get p = none := by
  rw [← blind.keys, Finmap.mem_keys, ← Finmap.lookup_eq_none] at other
  exact other

def Unwoken (gone : Finset UInt32) : Tick → Prop
  | .probe (.schedWakeup c) => ∀ p ∈ gone, wokenBy c ≠ some p
  | .probe (.schedSwitch _) => True
  | .flush _ => True

instance (gone : Finset UInt32) : ∀ a, Decidable (Unwoken gone a)
  | .probe (.schedWakeup c) =>
      have : Decidable (∀ p ∈ gone, wokenBy c ≠ some p) := Finset.decidableDforallFinset
      this
  | .probe (.schedSwitch _) => .isTrue trivial
  | .flush _ => .isTrue trivial

theorem Blind.next {s : State L} (blind : Blind gone s) {a : Tick} (unwoken : Unwoken gone a) :
    Blind gone (s.next a) := by
  refine ⟨fun p mem => ?_, blind.full⟩
  have held := blind.kept p mem
  match a with
  | .flush f => exact held
  | .probe (.schedSwitch c) =>
      rw [State.next, get_start_fire, startOp]
      cases sleepOf s.target c with
      | none => exact held
      | some x =>
          dsimp only [HashMap.insertOp]
          split
          · rfl
          · exact held
  | .probe (.schedWakeup c) =>
      rw [State.next, get_start_fire, startOp, if_neg (unwoken p mem)]
      exact held

theorem Blind.get_buckets {s : State L} (blind : Blind gone s) (a : Tick) {k : BucketKey}
    (other : k.pid ∉ gone) :
    (s.next a).buckets.get k = s.buckets.get k ∨ (s.next a).buckets.get k = none := by
  match a with
  | .flush f => exact .inr (HashMap.get_empty k)
  | .probe (.schedSwitch c) =>
      refine .inl ?_
      rw [State.next, get_buckets_fire, credit]
  | .probe (.schedWakeup c) =>
      refine .inl ?_
      rw [State.next, get_buckets_fire, credit]
      cases wokenBy c with
      | none => rfl
      | some p =>
          cases held : s.start.get p with
          | none => simp [held]
          | some info =>
              have own : p ∈ gone := by
                by_contra foreign
                rw [blind.get_start foreign] at held
                cases held
              have apart : k ≠ ⟨p, info.stackId⟩ := by
                intro same
                exact other (by rw [same]; exact own)
              by_cases room : s.buckets.accepts ⟨p, info.stackId⟩ = true <;>
                simp [held, room, apart]

/-- A thread that goes to sleep and is never woken, as every thread that exits, keeps its
entry of `START`. Once as many of them as it has entries are in it, no sleep of another
thread is recorded and nothing is counted for it, however the run goes on, unless one of
them is woken after all. -/
theorem gone_threads_blind (full : L.start = some gone.card) {post pre : List Tick}
    (inside : ∀ p ∈ gone, (((windows L target).run pre).start.get p).isSome = true)
    (still : ∀ a ∈ post, Unwoken gone a) :
    (∀ p ∈ gone, (((windows L target).run (post ++ pre)).start.get p).isSome = true) ∧
      (∀ p ∉ gone, ((windows L target).run (post ++ pre)).start.get p = none) ∧
        ∀ k, k.pid ∉ gone →
          ((windows L target).run (post ++ pre)).buckets.get k =
              ((windows L target).run pre).buckets.get k ∨
            ((windows L target).run (post ++ pre)).buckets.get k = none := by
  have start : Blind gone ((windows L target).run pre) := ⟨inside, full⟩
  have run : Blind gone ((windows L target).run (post ++ pre)) ∧
      ∀ k, k.pid ∉ gone →
        ((windows L target).run (post ++ pre)).buckets.get k =
            ((windows L target).run pre).buckets.get k ∨
          ((windows L target).run (post ++ pre)).buckets.get k = none := by
    induction post with
    | nil => exact ⟨start, fun k other => .inl rfl⟩
    | cons a post ih =>
        obtain ⟨blind, before⟩ := ih fun a mem => still a (List.mem_cons_of_mem _ mem)
        rw [List.cons_append, System.run_cons, windows_step]
        refine ⟨blind.next (still a List.mem_cons_self), fun k other => ?_⟩
        rcases blind.get_buckets a other with same | none
        · rw [same]
          exact before k other
        · exact .inr none
  exact ⟨run.1.kept, fun p other => run.1.get_start other, run.2⟩

end

/-- Threads 7 and 8 exit while thread 9 sleeps, whose record is refused. -/
def twoExits : List Tick :=
  [.probe (.schedSwitch (tracePoint 9 25 42 1 5)),
    .probe (.schedSwitch (tracePoint 8 20 42 128 4)),
    .probe (.schedSwitch (tracePoint 7 10 42 128 3))]

theorem twoExits_inside (p : UInt32) (exits : p ∈ ({7, 8} : Finset UInt32)) :
    (((windows ⟨some 2, some 8⟩ 42).run twoExits).start.get p).isSome = true := by
  rcases Finset.mem_insert.mp exits with rfl | exits
  · decide +kernel
  · rw [Finset.mem_singleton.mp exits]
    decide +kernel

def lateSleeps : List Tick :=
  [.probe (.schedSwitch (tracePoint 9 60 42 1 5)),
    .probe (.schedWakeup (tracePoint 9 50)),
    .probe (.schedSwitch (tracePoint 9 30 42 1 5))]

theorem twoExits_blind :
    ((windows ⟨some 2, some 8⟩ 42).run (lateSleeps ++ twoExits)).start.get 9 = none :=
  (gone_threads_blind rfl (twoExits_inside ·) (by decide +kernel)).2.1 9 (by decide)

end Tragach.Iowait
