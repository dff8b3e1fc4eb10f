import Tragach.Bpf.Refusals
import Tragach.Pageio.Window

/-! # When the maps are full

The declared sizes bound the fetches in progress and the requests in flight. An entry or an
issue that finds its map full leaves no record, and the exit or completion that would have
taken it back adds nothing; an issue is counted all the same. Whatever the sizes, the
counters are those of the history less the fetches and the requests whose record was
refused.
-/

namespace Tragach.Pageio

open Bpf Library

/-! ## What is kept and what is lost -/

def fetchOps (target : UInt32) : List Action → Action → HashOp UInt32 FetchInfo := fun _ a =>
  match a with
  | .cchEntry c =>
      match fetchOf target c with
      | some info => .insert c.tid info
      | none => .keep
  | .cchExit c => .remove c.tid
  | _ => .keep

def requestOps (target : UInt32) : List Action → Action → HashOp BlockKey UInt64 := fun _ a =>
  match a with
  | .blockIssue c =>
      match issueOf target c with
      | some (key, _) => .insert key c.ktime
      | none => .keep
  | .blockComplete c =>
      match c.key with
      | some key => .remove key
      | none => .keep
  | _ => .keep

/-- The record that a firing takes back was refused. -/
def missed (L : Limits) (target : UInt32) (h : History) : Action → Bool
  | .cchExit c => refused L.fetches (fetchOps target) h c.tid
  | .blockComplete c => c.key.any (refused L.requests (requestOps target) h)
  | _ => false

def accountedOn (cpu : Nat) (what : History → Action → Option Nat) : History → List Nat
  | [] => []
  | a :: h => (if cpu = a.cpu then (what h a).toList else []) ++ accountedOn cpu what h

/-- What is taken back with a record that was not refused. -/
def kept (L : Limits) (target : UInt32) (what : History → Action → Option Nat) (h : History)
    (a : Action) : Option Nat :=
  if missed L target h a = true then none else what h a

/-- What would be taken back with a record that was refused. -/
def lost (L : Limits) (target : UInt32) (what : History → Action → Option Nat) (h : History)
    (a : Action) : Option Nat :=
  if missed L target h a = true then what h a else none

/-- The counters are the numbers, the sums and the maxima of these durations, sizes and
waits. -/
structure PageIoCounters.Counts (c : PageIoCounters) (durations sizes waits : List Nat) :
    Prop where
  engineCount : c.engineCount = UInt64.ofNat durations.length
  engineTotalNs : c.engineTotalNs = UInt64.ofNat durations.sum
  engineMaxNs : c.engineMaxNs.toNat = largest durations
  blockCount : c.blockCount = UInt64.ofNat sizes.length
  blockTotalBytes : c.blockTotalBytes = UInt64.ofNat sizes.sum
  blockTotalWaitNs : c.blockTotalWaitNs = UInt64.ofNat waits.sum
  blockMaxWaitNs : c.blockMaxWaitNs.toNat = largest waits

variable {L : Limits} {target : UInt32} {h : History} {a : Action}

/-! ## The maps -/

theorem fetchInProgress_eq (L : Limits) (target : UInt32) (h : History) :
    ((programs L target).run h).fetchInProgress = HashMap.replay (fetchOps target) h := by
  induction h with
  | nil => rfl
  | cons a h ih =>
      rw [System.run_cons, programs_step, HashMap.replay, ← ih]
      cases a with
      | cchEntry c =>
          rw [fire, final_cchEntry, run_target, fetchOps]
          cases fetchOf target c <;> rfl
      | cchExit c =>
          rw [fire, final_cchExit, fetchOps]
          cases entry : ((programs L target).run h).fetchInProgress.get c.tid with
          | none => exact (HashMap.remove_of_absent entry).symm
          | some info => rfl
      | blockIssue c => exact (blockIssue_keeps _ c).2
      | blockComplete c => exact (blockComplete_keeps _ c).2

theorem blockInflight_eq (L : Limits) (target : UInt32) (h : History) :
    ((programs L target).run h).blockInflight = HashMap.replay (requestOps target) h := by
  induction h with
  | nil => rfl
  | cons a h ih =>
      rw [System.run_cons, programs_step, HashMap.replay, ← ih]
      cases a with
      | cchEntry c => exact (cchEntry_keeps _ c).2
      | cchExit c => exact (cchExit_keeps _ c).2
      | blockIssue c =>
          rw [fire, final_blockIssue, run_target, requestOps]
          cases issueOf target c <;> rfl
      | blockComplete c =>
          rw [fire, final_blockComplete, requestOps]
          cases c.key with
          | none => rfl
          | some key =>
              dsimp only
              cases entry : ((programs L target).run h).blockInflight.get key with
              | none => exact (HashMap.remove_of_absent entry).symm
              | some issueTs => rfl

theorem journal_fetchOps (target : UInt32) : HashOp.journal (fetchOps target) = fetches target := by
  funext h a tid
  cases a with
  | cchEntry c =>
      simp only [HashOp.journal, fetchOps, fetches]
      cases fetchOf target c <;> rfl
  | _ => rfl

theorem journal_requestOps (target : UInt32) :
    HashOp.journal (requestOps target) = requests target := by
  funext h a key
  cases a with
  | blockIssue c =>
      simp only [HashOp.journal, requestOps, requests]
      cases issueOf target c <;> rfl
  | blockComplete c =>
      simp only [HashOp.journal, requestOps, requests]
      cases c.key with
      | none => simp
      | some k => simp [eq_comm]
  | _ => rfl

/-! ## What a firing adds -/

/-- An exit ends the fetch that the history says, unless the record was refused. -/
theorem fetched_eq_kept (h : History) (a : Action) :
    (((programs L target).run h).fetched a).map UInt64.toNat =
      kept L target (fetchedIn target) h a := by
  cases a with
  | cchExit c =>
      rw [State.fetched, fetchInProgress_eq, HashMap.get_replay, journal_fetchOps, kept]
      rw [missed, fetchedIn]
      by_cases lost : refused L.fetches (fetchOps target) h c.tid = true
      · rw [if_pos lost, if_pos lost]
        rfl
      · rw [if_neg lost, if_neg lost]
        cases (fetches target).replay h c.tid <;> simp
  | _ => simp [State.fetched, kept, fetchedIn]

theorem joined_eq_kept (h : History) (a : Action) :
    (((programs L target).run h).joined a).map UInt64.toNat =
      kept L target (joinedIn target) h a := by
  cases a with
  | blockComplete c =>
      rw [State.joined, kept]
      cases own : c.key with
      | none => simp [joinedIn, own]
      | some key =>
          dsimp only
          rw [blockInflight_eq, HashMap.get_replay, journal_requestOps, missed, joinedIn, own,
            Option.any_some, Option.bind_some]
          by_cases lost : refused L.requests (requestOps target) h key = true
          · rw [if_pos lost, if_pos lost]
            rfl
          · rw [if_neg lost, if_neg lost]
            cases (requests target).replay h key <;> simp
  | _ => simp [State.joined, kept, joinedIn]

/-! ## The counters -/

theorem largest_cons_eq (x y : UInt64) {amounts : List Nat} (peak : y.toNat = largest amounts) :
    (if x > y then x else y).toNat = largest (x.toNat :: amounts) := by
  rw [show largest (x.toNat :: amounts) = max x.toNat (largest amounts) from rfl, ← peak]
  split
  next gt =>
      have lt : y.toNat < x.toNat := gt
      omega
  next le =>
      have le' : x.toNat ≤ y.toNat := Nat.not_lt.mp le
      omega

namespace PageIoCounters.Counts

variable {c : PageIoCounters} {durations sizes waits : List Nat}

theorem fetched (counts : c.Counts durations sizes waits) (duration : UInt64) :
    (c.fetched duration).Counts (duration.toNat :: durations) sizes waits := by
  refine { counts with engineCount := ?_, engineTotalNs := ?_, engineMaxNs := ?_ }
  · simp [PageIoCounters.fetched, counts.engineCount]
  · simp [PageIoCounters.fetched, counts.engineTotalNs, add_comm]
  · exact largest_cons_eq duration c.engineMaxNs counts.engineMaxNs

theorem issued (counts : c.Counts durations sizes waits) (bytes : UInt64) :
    (c.issued bytes).Counts durations (bytes.toNat :: sizes) waits := by
  refine { counts with blockCount := ?_, blockTotalBytes := ?_ }
  · simp [PageIoCounters.issued, counts.blockCount]
  · simp [PageIoCounters.issued, counts.blockTotalBytes, add_comm]

theorem joined (counts : c.Counts durations sizes waits) (wait : UInt64) :
    (c.joined wait).Counts durations sizes (wait.toNat :: waits) := by
  refine { counts with blockTotalWaitNs := ?_, blockMaxWaitNs := ?_ }
  · simp [PageIoCounters.joined, counts.blockTotalWaitNs, add_comm]
  · exact largest_cons_eq wait c.blockMaxWaitNs counts.blockMaxWaitNs

theorem after (counts : c.Counts durations sizes waits) (fetch issue join : Option UInt64) :
    (c.after fetch issue join).Counts ((fetch.map UInt64.toNat).toList ++ durations)
      ((issue.map UInt64.toNat).toList ++ sizes) ((join.map UInt64.toNat).toList ++ waits) := by
  have rest : ∀ (c' : PageIoCounters) (durations' : List Nat), c'.Counts durations' sizes waits →
      (c'.after none issue join).Counts durations' ((issue.map UInt64.toNat).toList ++ sizes)
        ((join.map UInt64.toNat).toList ++ waits) := by
    intro c' durations' counts'
    cases issue with
    | none =>
        cases join with
        | none => exact counts'
        | some wait => exact counts'.joined wait
    | some bytes =>
        cases join with
        | none => exact counts'.issued bytes
        | some wait => exact (counts'.issued bytes).joined wait
  cases fetch with
  | none => exact rest c durations counts
  | some duration => exact rest _ _ (counts.fetched duration)

end PageIoCounters.Counts

theorem kept_append_lost (L : Limits) (target : UInt32) (what : History → Action → Option Nat)
    (cpu : Nat) (h : History) :
    List.Perm (accountedOn cpu (kept L target what) h ++ accountedOn cpu (lost L target what) h)
      (accountedOn cpu what h) := by
  induction h with
  | nil => exact .nil
  | cons a h ih =>
      rw [accountedOn, accountedOn, accountedOn]
      split
      next own =>
          rw [kept, lost]
          split
          next miss =>
              rw [Option.toList_none, List.nil_append]
              exact (List.perm_append_comm_assoc ..).trans (ih.append_left _)
          next =>
              rw [Option.toList_none, List.nil_append, List.append_assoc]
              exact ih.append_left _
      next => exact ih

/-- However full the maps get, the counters of a CPU are those of the history, less the
durations and the waits whose record was refused. -/
theorem bounded_counts (L : Limits) (target : UInt32) (h : History) (cpu : Nat) :
    (((programs L target).run h).slot cpu).Counts
        (accountedOn cpu (kept L target (fetchedIn target)) h)
        (accountedOn cpu (fun _ => issuedIn target) h)
        (accountedOn cpu (kept L target (joinedIn target)) h) ∧
      List.Perm
        (accountedOn cpu (kept L target (fetchedIn target)) h ++
          accountedOn cpu (lost L target (fetchedIn target)) h)
        (accountedOn cpu (fetchedIn target) h) ∧
      List.Perm
        (accountedOn cpu (kept L target (joinedIn target)) h ++
          accountedOn cpu (lost L target (joinedIn target)) h)
        (accountedOn cpu (joinedIn target) h) := by
  refine ⟨?_, kept_append_lost .., kept_append_lost ..⟩
  induction h with
  | nil => exact ⟨rfl, rfl, rfl, rfl, rfl, rfl, rfl⟩
  | cons a h ih =>
      rw [System.run_cons, programs_step, slot_fire, accountedOn, accountedOn, accountedOn,
        ← fetched_eq_kept, ← issued_eq, ← joined_eq_kept]
      split
      next => exact ih.after _ _ _
      next => exact ih

def threeIssues : History :=
  [.blockComplete (requestAt 0 20 70),
    .blockIssue (requestAt 0 20 60 42),
    .blockComplete (requestAt 0 20 50),
    .blockComplete (requestAt 0 10 40),
    .blockIssue (requestAt 0 20 30 42),
    .blockIssue (requestAt 0 10 20 42)]

/-- With one entry the second issue is counted and its completion is not. -/
example :
    accountedOn 0 (kept ⟨some 1, some 1⟩ 42 (joinedIn 42)) threeIssues = [10, 20] ∧
      accountedOn 0 (lost ⟨some 1, some 1⟩ 42 (joinedIn 42)) threeIssues = [20] ∧
      (((programs ⟨some 1, some 1⟩ 42).run threeIssues).slot 0).blockCount = 3 ∧
      (((programs ⟨some 1, some 1⟩ 42).run threeIssues).slot 0).blockTotalWaitNs = 30 := by
  decide +kernel

end Tragach.Pageio
