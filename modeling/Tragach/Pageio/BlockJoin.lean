import Tragach.Pageio.Accounting

/-! # Which request a completion is joined to

Requests have an identity of their own; the programs see only the device and the
sector. A completion takes the time of the latest request of the target process under
its key, which is its own as long as requests under one key do not overlap.
-/

namespace Tragach.Pageio

open Bpf Library

/-- A firing of a block tracepoint for the request `id`, or a firing around a fetch. -/
inductive Event where
  | issued (id : Nat) (ctx : TracePointContext)
  | completed (id : Nat) (ctx : TracePointContext)
  | cchEntry (ctx : FetchContext)
  | cchExit (ctx : FetchContext)

def Event.firing : Event → Action
  | .issued _ c => .blockIssue c
  | .completed _ c => .blockComplete c
  | .cchEntry c => .cchEntry c
  | .cchExit c => .cchExit c

def Event.ktime : Event → UInt64
  | .issued _ c | .completed _ c => c.ktime
  | .cchEntry c | .cchExit c => c.ktime

def issueRecord (id : Nat) : List Event → Option TracePointContext
  | [] => none
  | .issued id' c :: h => if id' = id then some c else issueRecord id h
  | _ :: h => issueRecord id h

def isCompleted (id : Nat) : List Event → Bool
  | [] => false
  | .completed id' _ :: h => id' = id || isCompleted id h
  | _ :: h => isCompleted id h

/-- A request is issued once, and completes once, afterwards, under the same key. -/
def Legal (h : List Event) : Event → Prop
  | .issued id _ => issueRecord id h = none
  | .completed id c =>
      (∃ issue ∈ issueRecord id h, issue.key = c.key) ∧ isCompleted id h = false
  | _ => True

def Own (target : UInt32) (issue : TracePointContext) : Prop :=
  target ≠ 0 ∧ issue.tgid = target

instance (target : UInt32) (issue : TracePointContext) : Decidable (Own target issue) :=
  inferInstanceAs (Decidable (_ ∧ _))

/-- A completion adds the wait of its own request, and adds nothing for a request of
another process. -/
def JoinsOwn (L : Limits) (target : UInt32) (h : List Event) : Event → Prop
  | .completed id c => ∀ issue ∈ issueRecord id h,
      ((programs L target).run (h.map Event.firing)).joined (.blockComplete c) =
        if Own target issue then some (saturatingSub c.ktime issue.ktime) else none
  | _ => True

/-- The latest request of the target under a key, until a completion under that key. -/
def latest (target : UInt32) : Journal Event BlockKey (Nat × UInt64) := fun _ e key =>
  match e with
  | .issued id c =>
      match issueOf target c with
      | some (k, _) => if key = k then .put (id, c.ktime) else .keep
      | none => .keep
  | .completed _ c => if c.key = some key then .drop else .keep
  | _ => .keep

def waiting (target : UInt32) (h : List Event) (key : Option BlockKey) : Option Nat :=
  (key.bind ((latest target).replay h)).map Prod.fst

/-- When a request of the target completes, it is the latest one under its key and no
other request under the key has completed since; when a request of another process
completes, none of the target is waiting under its key. -/
def Unshared (target : UInt32) (h : List Event) : Event → Prop
  | .completed id c => ∀ issue ∈ issueRecord id h,
      waiting target h c.key = if Own target issue then some id else none
  | _ => True

def Later (h : List Event) (e : Event) : Prop := ∀ e' ∈ h, e'.ktime < e.ktime

section

variable {L : Limits} {target : UInt32} {h : List Event}

theorem replay_requests (h : List Event) (key : BlockKey) :
    (requests target).replay (h.map Event.firing) key =
      ((latest target).replay h key).map Prod.snd := by
  induction h with
  | nil => rfl
  | cons e h ih =>
      rw [List.map_cons, Journal.replay_cons, Journal.replay_cons, ih]
      cases e with
      | issued id c =>
          simp only [Event.firing, requests, latest]
          cases issueOf target c with
          | none => rfl
          | some x => by_cases same : key = x.1 <;> simp [same]
      | completed id c =>
          simp only [Event.firing, requests, latest]
          by_cases same : c.key = some key <;> simp [same]
      | cchEntry c => rfl
      | cchExit c => rfl

theorem own_of_issueOf {c : TracePointContext} {x : BlockKey × UInt64}
    (issue : issueOf target c = some x) : Own target c := by
  unfold issueOf at issue
  split at issue
  next => cases issue
  next tracked =>
      rw [not_or, not_ne_iff] at tracked
      exact ⟨tracked.1, tracked.2.symm⟩

/-- The request that waits under a key has been issued by the target at its time. -/
theorem issued_of_latest {key : BlockKey} {id : Nat} {time : UInt64}
    (held : (latest target).replay h key = some (id, time)) :
    ∃ c, .issued id c ∈ h ∧ c.ktime = time ∧ Own target c := by
  rcases Journal.replay_eq_some_iff.mp held with ⟨_, e, _, split, put, -⟩
  cases e with
  | issued id' c =>
      simp only [latest] at put
      cases issue : issueOf target c with
      | none => simp [issue] at put
      | some x =>
          simp only [issue] at put
          split at put
          next =>
              cases put
              exact ⟨c, by simp [split], rfl, own_of_issueOf issue⟩
          next => cases put
  | completed id' c =>
      simp only [latest] at put
      split at put <;> cases put
  | cchEntry c => cases put
  | cchExit c => cases put

theorem mem_of_issueRecord {id : Nat} {c : TracePointContext}
    (record : issueRecord id h = some c) : .issued id c ∈ h := by
  induction h with
  | nil => cases record
  | cons e h ih =>
      cases e with
      | issued id' c' =>
          rw [issueRecord] at record
          split at record
          next same =>
              cases record
              exact same ▸ List.mem_cons_self
          next => exact List.mem_cons_of_mem _ (ih record)
      | _ => exact List.mem_cons_of_mem _ (ih record)

theorem issueRecord_eq_some_iff (legal : Lawful Legal h) {id : Nat} {c : TracePointContext} :
    issueRecord id h = some c ↔ .issued id c ∈ h := by
  refine ⟨mem_of_issueRecord, fun mem => ?_⟩
  induction h with
  | nil => cases mem
  | cons e h ih =>
      rcases List.mem_cons.mp mem with now | before
      · subst now
        simp [issueRecord]
      · have found := ih legal.2 before
        cases e with
        | issued id' c' =>
            rw [issueRecord]
            split
            next same =>
                have fresh : issueRecord id' h = none := legal.1
                rw [same, found] at fresh
                cases fresh
            next => exact found
        | _ => exact found

/-- What a completion adds is decided by the request waiting under its key. -/
theorem joined_eq_latest (room : Lawful (RoomForRequests L target) (h.map Event.firing))
    (c : TracePointContext) :
    ((programs L target).run (h.map Event.firing)).joined (.blockComplete c) =
      (c.key.bind ((latest target).replay h)).map fun r => saturatingSub c.ktime r.2 := by
  rw [State.joined]
  cases c.key with
  | none => rfl
  | some key =>
      dsimp only
      rw [blockInflight_eq_replay room, replay_requests, Option.bind_some]
      cases (latest target).replay h key <;> rfl

theorem map_eq_ite_iff {α β : Type*} {o : Option α} {f : α → β} {p : Prop} [Decidable p] {x : β} :
    o.map f = (if p then some x else none) ↔
      (p → ∃ r, o = some r ∧ f r = x) ∧ (¬ p → o = none) := by
  by_cases holds : p
  · simp [holds]
  · simp [holds]

theorem joinsOwn_of_unshared (legal : Lawful Legal h)
    (room : Lawful (RoomForRequests L target) (h.map Event.firing)) {e : Event}
    (unshared : Unshared target h e) : JoinsOwn L target h e := by
  cases e with
  | completed id c =>
      intro issue record
      have own := unshared issue record
      rw [waiting, map_eq_ite_iff] at own
      rw [joined_eq_latest room, map_eq_ite_iff]
      refine ⟨fun mine => ?_, own.2⟩
      obtain ⟨⟨id', time⟩, held, rfl⟩ := own.1 mine
      obtain ⟨key, -, holds⟩ := Option.bind_eq_some_iff.mp held
      rcases issued_of_latest holds with ⟨c', mem, at', -⟩
      rw [← issueRecord_eq_some_iff legal, Option.mem_def.mp record, Option.some.injEq] at mem
      exact ⟨_, held, by rw [mem, at']⟩
  | issued id c => trivial
  | cchEntry c => trivial
  | cchExit c => trivial

theorem saturatingSub_inj {now a b : UInt64} (before : a < now) (before' : b < now)
    (same : saturatingSub now a = saturatingSub now b) : a = b := by
  have difference := congrArg UInt64.toNat same
  have lt : a.toNat < now.toNat := before
  have lt' : b.toNat < now.toNat := before'
  rw [saturatingSub_toNat, saturatingSub_toNat] at difference
  apply UInt64.toNat_inj.mp
  omega

theorem eq_of_ktime {e e' : Event} (clock : Lawful Later h) (mem : e ∈ h) (mem' : e' ∈ h)
    (same : e.ktime = e'.ktime) : e = e' := by
  induction h with
  | nil => cases mem
  | cons x h ih =>
      rcases List.mem_cons.mp mem with now | before
      · rcases List.mem_cons.mp mem' with now' | before'
        · rw [now, now']
        · have lt := clock.1 e' before'
          rw [← now, same] at lt
          exact absurd lt (UInt64.lt_irrefl _)
      · rcases List.mem_cons.mp mem' with now' | before'
        · have lt := clock.1 e before
          rw [← now', same] at lt
          exact absurd lt (UInt64.lt_irrefl _)
        · exact ih clock.2 before before'

theorem unshared_of_joinsOwn (room : Lawful (RoomForRequests L target) (h.map Event.firing))
    {e : Event} (clock : Lawful Later (e :: h)) (joins : JoinsOwn L target h e) :
    Unshared target h e := by
  cases e with
  | completed id c =>
      intro issue record
      have own := joins issue record
      rw [joined_eq_latest room, map_eq_ite_iff] at own
      rw [waiting, map_eq_ite_iff]
      refine ⟨fun mine => ?_, own.2⟩
      obtain ⟨⟨id', time⟩, held, wait⟩ := own.1 mine
      obtain ⟨key, -, holds⟩ := Option.bind_eq_some_iff.mp held
      rcases issued_of_latest holds with ⟨c', mem, rfl, -⟩
      have mem' := mem_of_issueRecord record
      have before : c'.ktime < c.ktime := clock.1 _ mem
      have before' : issue.ktime < c.ktime := clock.1 _ mem'
      have same := eq_of_ktime clock.2 mem mem' (saturatingSub_inj before before' wait)
      cases same
      exact ⟨_, held, rfl⟩
  | issued id c => trivial
  | cchEntry c => trivial
  | cchExit c => trivial

end

/-- Completions add the waits of their own requests as long as no completion finds the
request of another under its key, and, on a clock that advances, only then. -/
theorem joins_own_iff {L : Limits} {target : UInt32} {h : List Event} (legal : Lawful Legal h)
    (room : Lawful (RoomForRequests L target) (h.map Event.firing)) :
    (Lawful (Unshared target) h → Lawful (JoinsOwn L target) h) ∧
      (Lawful Later h → (Lawful (JoinsOwn L target) h ↔ Lawful (Unshared target) h)) := by
  have enough : Lawful (Unshared target) h → Lawful (JoinsOwn L target) h := by
    intro unshared
    induction h with
    | nil => trivial
    | cons e h ih =>
        exact ⟨joinsOwn_of_unshared legal.2 room.2 unshared.1, ih legal.2 room.2 unshared.2⟩
  refine ⟨enough, fun clock => ⟨fun joins => ?_, enough⟩⟩
  clear enough
  induction h with
  | nil => trivial
  | cons e h ih =>
      exact ⟨unshared_of_joinsOwn room.2 clock joins.1, ih legal.2 room.2 clock.2 joins.2⟩

instance (h : List Event) : ∀ e, Decidable (Legal h e)
  | .issued _ _ => inferInstanceAs (Decidable (_ = none))
  | .completed id c =>
      have : Decidable (∃ issue ∈ issueRecord id h, issue.key = c.key) :=
        Option.decidableExistsMem (issueRecord id h)
      inferInstanceAs (Decidable (_ ∧ _))
  | .cchEntry _ | .cchExit _ => inferInstanceAs (Decidable True)

instance (L : Limits) (target : UInt32) (h : List Event) : ∀ e, Decidable (JoinsOwn L target h e)
  | .completed id _ => Option.decidableForallMem (issueRecord id h)
  | .issued _ _ | .cchEntry _ | .cchExit _ => inferInstanceAs (Decidable True)

instance (target : UInt32) (h : List Event) : ∀ e, Decidable (Unshared target h e)
  | .completed id _ => Option.decidableForallMem (issueRecord id h)
  | .issued _ _ | .cchEntry _ | .cchExit _ => inferInstanceAs (Decidable True)

/-- Requests of two processes in two sectors, completed in the other order, and then one
of process 43 in the sector of the first. -/
def apartSectors : List Event :=
  [.completed 3 (requestAt 0 100 70),
    .issued 3 (requestAt 0 100 60 43),
    .completed 1 (requestAt 0 100 50),
    .completed 2 (requestAt 0 101 40),
    .issued 2 (requestAt 1 101 20 43),
    .issued 1 (requestAt 0 100 10 42)]

theorem apartSectors_join : Lawful (JoinsOwn declared 42) apartSectors :=
  (joins_own_iff (by decide +kernel) (by decide +kernel)).1 (by decide +kernel)

/-- A request of process 42 and one of process 43 in one sector, the second completed
first. -/
def sharedSector : List Event :=
  [.completed 1 (requestAt 0 100 40),
    .completed 2 (requestAt 0 100 30),
    .issued 2 (requestAt 1 100 20 43),
    .issued 1 (requestAt 0 100 10 42)]

/-- The completion of the request of 43 adds 20 for that of 42, whose own completion adds
nothing. -/
theorem sharedSector_join :
    Lawful Legal sharedSector ∧
      Lawful (RoomForRequests declared 42) (sharedSector.map Event.firing) ∧
      ¬ Lawful (JoinsOwn declared 42) sharedSector ∧
      ((programs declared 42).run ((sharedSector.drop 2).map Event.firing)).joined
        (.blockComplete (requestAt 0 100 30)) = some 20 ∧
      ((programs declared 42).run ((sharedSector.drop 1).map Event.firing)).joined
        (.blockComplete (requestAt 0 100 40)) = none := by
  refine ⟨?_, ?_, ?_, ?_, ?_⟩ <;> decide +kernel

end Tragach.Pageio
