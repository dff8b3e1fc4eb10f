import Mathlib.Data.UInt
import Tragach.Library.Ledger
import Tragach.Pageio.Handlers

/-! # The counters over whole runs

Every firing adds to the counters of its CPU only. Over a run a counter holds the
total of what the firings on its CPU added, modulo its width, and a maximum the
largest. As long as the maps have room, what a firing adds is decided by the history:
an exit ends the fetch its thread last entered, a completion ends the request last
issued under its key.
-/

namespace Tragach.Pageio

open Bpf Library

inductive Action where
  | cchEntry (ctx : FetchContext)
  | cchExit (ctx : FetchContext)
  | blockIssue (ctx : TracePointContext)
  | blockComplete (ctx : TracePointContext)

abbrev History := List Action

def Action.cpu : Action → Nat
  | .cchEntry c | .cchExit c => c.cpu
  | .blockIssue c | .blockComplete c => c.cpu

variable {L : Limits}

def fire (s : State L) : Action → State L
  | .cchEntry c => (tryCchEntry c).final s
  | .cchExit c => (tryCchExit c).final s
  | .blockIssue c => (tryBlockIssue c).final s
  | .blockComplete c => (tryBlockComplete c).final s

/-- Maps as loaded, with the target process set. -/
def State.loaded (L : Limits) (target : UInt32) : State L where
  targetTgid := ⟨fun _ => target⟩
  fetchInProgress := .empty
  blockInflight := .empty
  counters := ⟨fun _ _ => {}⟩

def programs (L : Limits) (target : UInt32) : System (State L) Action :=
  ⟨State.loaded L target, fire⟩

@[simp] theorem programs_step (target : UInt32) (s : State L) (a : Action) :
    (programs L target).step s a = fire s a := rfl

/-! ## Effects -/

def State.fetched (s : State L) : Action → Option UInt64
  | .cchExit c =>
      match s.fetchInProgress.get c.tid with
      | some info => some (saturatingSub c.ktime info.startTs)
      | none => none
  | _ => none

def State.issued (s : State L) : Action → Option UInt64
  | .blockIssue c =>
      match issueOf s.target c with
      | some (_, bytes) => some bytes
      | none => none
  | _ => none

def State.joined (s : State L) : Action → Option UInt64
  | .blockComplete c =>
      match c.key with
      | some key =>
          match s.blockInflight.get key with
          | some issueTs => some (saturatingSub c.ktime issueTs)
          | none => none
      | none => none
  | _ => none

def fetchOp (s : State L) (a : Action) (tid : UInt32) : CellOp FetchInfo :=
  match a with
  | .cchEntry c =>
      match fetchOf s.target c with
      | some info => HashMap.insertOp (s.fetchInProgress.accepts c.tid) c.tid info tid
      | none => .keep
  | .cchExit c => if tid = c.tid then .drop else .keep
  | _ => .keep

def requestOp (s : State L) (a : Action) (key : BlockKey) : CellOp UInt64 :=
  match a with
  | .blockIssue c =>
      match issueOf s.target c with
      | some (k, _) => HashMap.insertOp (s.blockInflight.accepts k) k c.ktime key
      | none => .keep
  | .blockComplete c => if c.key = some key then .drop else .keep
  | _ => .keep

def PageIoCounters.after (c : PageIoCounters) (fetched issued joined : Option UInt64) :
    PageIoCounters :=
  let c := match fetched with | some duration => c.fetched duration | none => c
  let c := match issued with | some bytes => c.issued bytes | none => c
  match joined with | some wait => c.joined wait | none => c

theorem cchEntry_keeps (s : State L) (c : FetchContext) :
    (fire s (.cchEntry c)).target = s.target ∧
      (fire s (.cchEntry c)).blockInflight = s.blockInflight := by
  rw [fire, final_cchEntry]
  cases fetchOf s.target c <;> exact ⟨rfl, rfl⟩

theorem cchExit_keeps (s : State L) (c : FetchContext) :
    (fire s (.cchExit c)).target = s.target ∧
      (fire s (.cchExit c)).blockInflight = s.blockInflight := by
  rw [fire, final_cchExit]
  cases s.fetchInProgress.get c.tid <;> exact ⟨rfl, rfl⟩

theorem blockIssue_keeps (s : State L) (c : TracePointContext) :
    (fire s (.blockIssue c)).target = s.target ∧
      (fire s (.blockIssue c)).fetchInProgress = s.fetchInProgress := by
  rw [fire, final_blockIssue]
  cases issueOf s.target c <;> exact ⟨rfl, rfl⟩

theorem blockComplete_keeps (s : State L) (c : TracePointContext) :
    (fire s (.blockComplete c)).target = s.target ∧
      (fire s (.blockComplete c)).fetchInProgress = s.fetchInProgress := by
  rw [fire, final_blockComplete]
  cases c.key with
  | none => exact ⟨rfl, rfl⟩
  | some key => dsimp only; cases s.blockInflight.get key <;> exact ⟨rfl, rfl⟩

theorem target_fire (s : State L) (a : Action) : (fire s a).target = s.target := by
  cases a with
  | cchEntry c => exact (cchEntry_keeps s c).1
  | cchExit c => exact (cchExit_keeps s c).1
  | blockIssue c => exact (blockIssue_keeps s c).1
  | blockComplete c => exact (blockComplete_keeps s c).1

theorem run_target (target : UInt32) (h : History) : ((programs L target).run h).target = target := by
  induction h with
  | nil => rfl
  | cons a h ih => rw [System.run_cons, programs_step, target_fire, ih]

theorem get_fetchInProgress_fire (s : State L) (a : Action) (tid : UInt32) :
    (fire s a).fetchInProgress.get tid = (fetchOp s a tid).apply (s.fetchInProgress.get tid) := by
  cases a with
  | cchEntry c =>
      rw [fire, final_cchEntry, fetchOp]
      cases fetchOf s.target c with
      | none => rfl
      | some info => exact HashMap.get_upsert ..
  | cchExit c =>
      rw [fire, final_cchExit, fetchOp]
      cases entry : s.fetchInProgress.get c.tid <;> by_cases same : tid = c.tid <;>
        simp [entry, same, HashMap.get_remove]
  | blockIssue c => exact congrArg (HashMap.get · tid) (blockIssue_keeps s c).2
  | blockComplete c => exact congrArg (HashMap.get · tid) (blockComplete_keeps s c).2

theorem get_blockInflight_fire (s : State L) (a : Action) (key : BlockKey) :
    (fire s a).blockInflight.get key = (requestOp s a key).apply (s.blockInflight.get key) := by
  cases a with
  | cchEntry c => exact congrArg (HashMap.get · key) (cchEntry_keeps s c).2
  | cchExit c => exact congrArg (HashMap.get · key) (cchExit_keeps s c).2
  | blockIssue c =>
      rw [fire, final_blockIssue, requestOp]
      cases issueOf s.target c with
      | none => rfl
      | some x => exact HashMap.get_upsert ..
  | blockComplete c =>
      rw [fire, final_blockComplete, requestOp]
      cases c.key with
      | none => rfl
      | some k =>
          by_cases same : key = k
          · subst same
            cases entry : s.blockInflight.get key <;> simp [entry, HashMap.get_remove]
          · have other : k ≠ key := fun eq => same eq.symm
            cases entry : s.blockInflight.get k <;> simp [entry, same, other, HashMap.get_remove]

theorem slot_set (counters : PerCpuArray PageIoCounters 1) (cpu cpu' : Nat) (c : PageIoCounters) :
    (counters.set cpu 0 c).slots cpu' 0 = if cpu' = cpu then c else counters.slots cpu' 0 := by
  simp [PerCpuArray.set]

/-- A firing touches the counters of its own CPU only. -/
theorem slot_fire (s : State L) (a : Action) (cpu : Nat) :
    (fire s a).slot cpu =
      if cpu = a.cpu then (s.slot cpu).after (s.fetched a) (s.issued a) (s.joined a)
      else s.slot cpu := by
  cases a with
  | cchEntry c =>
      rw [fire, final_cchEntry]
      cases fetchOf s.target c <;> simp [State.slot, PageIoCounters.after, State.fetched,
        State.issued, State.joined]
  | cchExit c =>
      rw [fire, final_cchExit]
      cases entry : s.fetchInProgress.get c.tid <;> by_cases own : cpu = c.cpu <;>
        simp [State.slot, PageIoCounters.after, State.fetched, State.issued, State.joined, entry,
          slot_set, own, Action.cpu]
  | blockIssue c =>
      rw [fire, final_blockIssue]
      cases issue : issueOf s.target c <;> by_cases own : cpu = c.cpu <;>
        simp [State.slot, PageIoCounters.after, State.fetched, State.issued, State.joined, issue,
          slot_set, own, Action.cpu]
  | blockComplete c =>
      rw [fire, final_blockComplete]
      cases key : c.key with
      | none => simp [PageIoCounters.after, State.fetched, State.issued, State.joined, key]
      | some k =>
          cases entry : s.blockInflight.get k <;> by_cases own : cpu = c.cpu <;>
            simp [State.slot, PageIoCounters.after, State.fetched, State.issued, State.joined, key,
              entry, slot_set, own, Action.cpu]

/-! ## Counters as balances -/

/-- The counters that add up. -/
inductive Field where
  | engineCount | engineTotalNs | blockCount | blockTotalBytes | blockTotalWaitNs

def Field.of : Field → PageIoCounters → UInt64
  | .engineCount, c => c.engineCount
  | .engineTotalNs, c => c.engineTotalNs
  | .blockCount, c => c.blockCount
  | .blockTotalBytes, c => c.blockTotalBytes
  | .blockTotalWaitNs, c => c.blockTotalWaitNs

def Field.amount (fetched issued joined : Option Nat) : Field → Nat
  | .engineCount => if fetched.isSome then 1 else 0
  | .engineTotalNs => fetched.getD 0
  | .blockCount => if issued.isSome then 1 else 0
  | .blockTotalBytes => issued.getD 0
  | .blockTotalWaitNs => joined.getD 0

theorem Field.of_after (f : Field) (c : PageIoCounters) (fetched issued joined : Option UInt64) :
    f.of (c.after fetched issued joined) = f.of c + UInt64.ofNat (f.amount
      (fetched.map UInt64.toNat) (issued.map UInt64.toNat) (joined.map UInt64.toNat)) := by
  cases fetched <;> cases issued <;> cases joined <;> cases f <;>
    simp [PageIoCounters.after, PageIoCounters.fetched, PageIoCounters.issued,
      PageIoCounters.joined, Field.of, Field.amount]

def State.contribution (s : State L) (a : Action) (f : Field) : Nat :=
  f.amount ((s.fetched a).map UInt64.toNat) ((s.issued a).map UInt64.toNat)
    ((s.joined a).map UInt64.toNat)

def contributions (L : Limits) (target : UInt32) (f : Field) : Ledger Action Nat Nat :=
  fun h a cpu => if cpu = a.cpu then ((programs L target).run h).contribution a f else 0

/-- A counter is the total contributed on its CPU, modulo its width. -/
theorem of_slot (target : UInt32) (f : Field) (h : History) (cpu : Nat) :
    f.of (((programs L target).run h).slot cpu) =
      UInt64.ofNat ((contributions L target f).balance h cpu) := by
  induction h with
  | nil => cases f <;> rfl
  | cons a h ih =>
      rw [System.run_cons, programs_step, slot_fire, Ledger.balance_cons, contributions]
      split
      next => rw [Field.of_after, ih, UInt64.ofNat_add, State.contribution]
      next => rw [ih, add_zero]

/-! ## What the history says -/

/-- The fetches of the target process that have been entered and not been left. -/
def fetches (target : UInt32) : Journal Action UInt32 FetchInfo := fun _ a tid =>
  match a with
  | .cchEntry c =>
      match fetchOf target c with
      | some info => if tid = c.tid then .put info else .keep
      | none => .keep
  | .cchExit c => if tid = c.tid then .drop else .keep
  | _ => .keep

/-- The time of the latest request of the target process under a key, until a completion
under that key. -/
def requests (target : UInt32) : Journal Action BlockKey UInt64 := fun _ a key =>
  match a with
  | .blockIssue c =>
      match issueOf target c with
      | some (k, _) => if key = k then .put c.ktime else .keep
      | none => .keep
  | .blockComplete c => if c.key = some key then .drop else .keep
  | _ => .keep

/-- The duration of the fetch that ends; a clock that went back counts as no time. -/
def fetchedIn (target : UInt32) (h : History) : Action → Option Nat
  | .cchExit c => ((fetches target).replay h c.tid).map fun info =>
      c.ktime.toNat - info.startTs.toNat
  | _ => none

def issuedIn (target : UInt32) : Action → Option Nat
  | .blockIssue c => (issueOf target c).map fun x => x.2.toNat
  | _ => none

def joinedIn (target : UInt32) (h : History) : Action → Option Nat
  | .blockComplete c => (c.key.bind ((requests target).replay h)).map fun issueTs =>
      c.ktime.toNat - issueTs.toNat
  | _ => none

/-- What the history says a firing contributes to a counter of its CPU. -/
def contributed (target : UInt32) (f : Field) : Ledger Action Nat Nat := fun h a cpu =>
  if cpu = a.cpu then f.amount (fetchedIn target h a) (issuedIn target a) (joinedIn target h a)
  else 0

def RoomForFetches (L : Limits) (target : UInt32) (h : History) : Action → Prop
  | .cchEntry c => (fetchOf target c).isSome →
      ((programs L target).run h).fetchInProgress.accepts c.tid = true
  | _ => True

def RoomForRequests (L : Limits) (target : UInt32) (h : History) : Action → Prop
  | .blockIssue c => ∀ x ∈ issueOf target c,
      ((programs L target).run h).blockInflight.accepts x.1 = true
  | _ => True

/-- No map is at capacity when a firing inserts into it. -/
def Roomy (L : Limits) (target : UInt32) (h : History) (a : Action) : Prop :=
  RoomForFetches L target h a ∧ RoomForRequests L target h a

instance (target : UInt32) (h : History) : ∀ a, Decidable (RoomForFetches L target h a)
  | .cchEntry c => inferInstanceAs (Decidable ((fetchOf target c).isSome → _))
  | .cchExit _ | .blockIssue _ | .blockComplete _ => inferInstanceAs (Decidable True)

instance (target : UInt32) (h : History) : ∀ a, Decidable (RoomForRequests L target h a)
  | .blockIssue c => Option.decidableForallMem (issueOf target c)
  | .cchEntry _ | .cchExit _ | .blockComplete _ => inferInstanceAs (Decidable True)

instance (target : UInt32) (h : History) (a : Action) : Decidable (Roomy L target h a) :=
  inferInstanceAs (Decidable (_ ∧ _))

/-! ## The maps agree with the history -/

section

variable {target : UInt32} {h : History} {a : Action}

theorem fetchInProgress_eq_replay (law : Lawful (RoomForFetches L target) h) (tid : UInt32) :
    ((programs L target).run h).fetchInProgress.get tid = (fetches target).replay h tid := by
  refine System.view_eq_replay (programs L target) (fun s => s.fetchInProgress.get)
    (fetches target) (fun tid => HashMap.get_empty tid) ?_ law tid
  intro h a tid roomy _ _
  rw [programs_step, get_fetchInProgress_fire]
  cases a with
  | cchEntry c =>
      simp only [fetchOp, fetches, run_target]
      cases entry : fetchOf target c with
      | none => rfl
      | some info => simp [HashMap.insertOp, roomy (by simp [entry])]
  | cchExit c => rfl
  | blockIssue c => rfl
  | blockComplete c => rfl

theorem blockInflight_eq_replay (law : Lawful (RoomForRequests L target) h) (key : BlockKey) :
    ((programs L target).run h).blockInflight.get key = (requests target).replay h key := by
  refine System.view_eq_replay (programs L target) (fun s => s.blockInflight.get)
    (requests target) (fun key => HashMap.get_empty key) ?_ law key
  intro h a key roomy _ _
  rw [programs_step, get_blockInflight_fire]
  cases a with
  | cchEntry c => rfl
  | cchExit c => rfl
  | blockIssue c =>
      simp only [requestOp, requests, run_target]
      cases issue : issueOf target c with
      | none => rfl
      | some x => simp [HashMap.insertOp, roomy x issue]
  | blockComplete c => rfl

theorem fetched_eq (law : Lawful (RoomForFetches L target) h) :
    (((programs L target).run h).fetched a).map UInt64.toNat = fetchedIn target h a := by
  cases a with
  | cchExit c =>
      rw [State.fetched, fetchInProgress_eq_replay law, fetchedIn]
      cases (fetches target).replay h c.tid <;> simp
  | _ => rfl

theorem issued_eq (h : History) (a : Action) :
    (((programs L target).run h).issued a).map UInt64.toNat = issuedIn target a := by
  cases a with
  | blockIssue c =>
      rw [State.issued, run_target, issuedIn]
      cases issueOf target c <;> simp
  | _ => rfl

theorem joined_eq (law : Lawful (RoomForRequests L target) h) :
    (((programs L target).run h).joined a).map UInt64.toNat = joinedIn target h a := by
  cases a with
  | blockComplete c =>
      rw [State.joined, joinedIn]
      cases c.key with
      | none => rfl
      | some key =>
          dsimp only
          rw [blockInflight_eq_replay law, Option.bind_some]
          cases (requests target).replay h key <;> simp
  | _ => rfl

/-- With room in the maps the counters add up what the history says. -/
theorem balance_contributions (law : Lawful (Roomy L target) h) (f : Field) (cpu : Nat) :
    (contributions L target f).balance h cpu = (contributed target f).balance h cpu := by
  induction h with
  | nil => rfl
  | cons a h ih =>
      have fetches : Lawful (RoomForFetches L target) h := law.2.mono fun _ _ room _ => room.1
      have requests : Lawful (RoomForRequests L target) h := law.2.mono fun _ _ room _ => room.2
      have same : contributions L target f h a cpu = contributed target f h a cpu := by
        rw [contributions, contributed, State.contribution, fetched_eq fetches, issued_eq,
          joined_eq requests]
      rw [Ledger.balance_cons, Ledger.balance_cons, ih law.2, same]

end

def fetchAt (cpu : Nat) (tid : UInt32) (time : UInt64) (tgid : UInt32 := 0) : FetchContext where
  cpu := cpu
  pidTgid := tgid.toUInt64 <<< 32 ||| tid.toUInt64
  ktime := time
  regs := {}
  evicted := []
  slot := none
  readUser := fun _ => .ok 0

def requestAt (cpu : Nat) (sector : UInt64) (time : UInt64) (tgid : UInt32 := 0)
    (bytes : UInt32 := 4096) : TracePointContext where
  cpu := cpu
  pidTgid := tgid.toUInt64 <<< 32
  ktime := time
  readU32 := fun offset => .ok (if offset = 8 then 8 else bytes)
  readU64 := fun _ => .ok sector

end Tragach.Pageio
