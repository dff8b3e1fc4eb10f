import Tragach.Iowait.Kallsyms
import Tragach.Iowait.Window
import Tragach.Library.Table

/-! # Off-CPU time by reason

The snapshot of a flush is grouped by the reason its kernel stacks give, and within a
reason by stack. Grouping is a loop over the buckets in whatever order the map gives
them; the tables it fills depend on the buckets only.
-/

namespace Tragach.Iowait

open Bpf Library

inductive Reason where
  | blockIo
  | futex
  | schedDelay
  | other
  deriving DecidableEq

def Reason.label : Reason → String
  | .blockIo => "block I/O wait"
  | .futex => "futex wait"
  | .schedDelay => "scheduler delay"
  | .other => "other"

theorem Reason.label_injective : Function.Injective Reason.label := by
  intro r r' same
  cases r <;> cases r' <;> first | rfl | exact absurd same (by decide)

def isBlockIo (name : String) : Bool :=
  name.startsWith "blk_" || name.startsWith "bio_" || name.startsWith "submit_bio" ||
    name.startsWith "io_schedule" || name.startsWith "__io_schedule" ||
    name.startsWith "wait_on_buffer"

def isFutex (name : String) : Bool :=
  name.startsWith "futex_" || name.startsWith "do_futex" || name.startsWith "__futex"

/-- The reason of the frame nearest the leaf that has one. -/
def waitsOn : List String → Option Reason
  | [] => none
  | f :: frames =>
      if isBlockIo f then some .blockIo
      else if isFutex f then some .futex
      else waitsOn frames

def classify (frames : List String) : Reason :=
  match waitsOn frames with
  | some reason => reason
  | none =>
      if frames.any fun f => f.startsWith "schedule" || f == "__schedule" then .schedDelay
      else .other

/-! ## Grouping -/

def saturatingAdd (a b : UInt64) : UInt64 :=
  if a.toNat + b.toNat < 2 ^ 64 then a + b else UInt64.ofNat (2 ^ 64 - 1)

structure ReasonAgg where
  totalNs : UInt64 := 0
  pids : Finset UInt32 := ∅
  byStack : Table Int32 (UInt64 × List String) := ∅

/-- The names of the frames of a stack, none when the kernel has no such stack. -/
def resolveFrames (traces : UInt32 → Except Int64 (List UInt64)) (kallsyms : Kallsyms)
    (stackId : Int32) : List String :=
  if stackId ≥ 0 then
    match traces stackId.toUInt32 with
    | .ok ips => ips.map kallsyms.lookup
    | .error _ => []
  else []

def addStack (frames : List String) (ns : UInt64) (entry : Option (UInt64 × List String)) :
    UInt64 × List String :=
  let entry := entry.getD (0, frames)
  (saturatingAdd entry.1 ns, entry.2)

def ReasonAgg.add (resolve : Int32 → List String) (agg : ReasonAgg) (e : BucketKey × UInt64) :
    ReasonAgg where
  totalNs := saturatingAdd agg.totalNs e.2
  pids := insert e.1.pid agg.pids
  byStack := agg.byStack.entry e.1.stackId (addStack (resolve e.1.stackId) e.2)

def addBucket (resolve : Int32 → List String) (e : BucketKey × UInt64) (entry : Option ReasonAgg) :
    ReasonAgg :=
  (entry.getD {}).add resolve e

def reasonOf (resolve : Int32 → List String) (e : BucketKey × UInt64) : Reason :=
  classify (resolve e.1.stackId)

/-- The loop of `flush_window` over the snapshot. -/
def aggregate (resolve : Int32 → List String) (snapshot : List (BucketKey × UInt64)) :
    Table Reason ReasonAgg :=
  Table.collect (reasonOf resolve) (addBucket resolve) ∅ snapshot

def keep (excludeIdle : Bool) (thresholdNs : UInt64) (snapshot : List (BucketKey × UInt64)) :
    List (BucketKey × UInt64) :=
  if excludeIdle then retain thresholdNs snapshot else snapshot

def excludedIdle (excludeIdle : Bool) (thresholdNs : UInt64)
    (snapshot : List (BucketKey × UInt64)) : Nat :=
  if excludeIdle then snapshot.length - (retain thresholdNs snapshot).length else 0

/-! ## Sums that saturate -/

theorem toNat_saturatingAdd (a b : UInt64) :
    (saturatingAdd a b).toNat = min (a.toNat + b.toNat) (2 ^ 64 - 1) := by
  unfold saturatingAdd
  split
  next fits =>
      rw [UInt64.toNat_add, Nat.mod_eq_of_lt fits]
      omega
  next saturated =>
      rw [UInt64.toNat_ofNat_of_lt' (by decide)]
      omega

theorem saturatingAdd_right_comm (a b c : UInt64) :
    saturatingAdd (saturatingAdd a b) c = saturatingAdd (saturatingAdd a c) b := by
  rw [← UInt64.toNat_inj]
  simp only [toNat_saturatingAdd]
  omega

def totalNs (buckets : List (BucketKey × UInt64)) : Nat := (buckets.map fun e => e.2.toNat).sum

/-! ## The entries of a reason -/

section

variable {resolve : Int32 → List String}

def aggOf (resolve : Int32 → List String) (buckets : List (BucketKey × UInt64)) : ReasonAgg :=
  buckets.foldl (ReasonAgg.add resolve) {}

def bucketsOf (resolve : Int32 → List String) (snapshot : List (BucketKey × UInt64)) (r : Reason) :
    List (BucketKey × UInt64) := snapshot.filter fun e => reasonOf resolve e = r

theorem lookup_aggregate (resolve : Int32 → List String) (snapshot : List (BucketKey × UInt64)) (r : Reason) :
    (aggregate resolve snapshot).lookup r =
      if bucketsOf resolve snapshot r = [] then none
      else some (aggOf resolve (bucketsOf resolve snapshot r)) := by
  rw [aggregate, Table.lookup_collect, Finmap.lookup_empty]
  exact Table.foldl_some (ReasonAgg.add resolve) {} _ none

theorem lookup_aggregate_eq_some {snapshot : List (BucketKey × UInt64)} {r : Reason} {agg : ReasonAgg}
    (found : (aggregate resolve snapshot).lookup r = some agg) :
    agg = aggOf resolve (bucketsOf resolve snapshot r) := by
  rw [lookup_aggregate] at found
  split at found
  next => cases found
  next => exact (Option.some.inj found).symm

theorem foldl_add (agg : ReasonAgg) (buckets : List (BucketKey × UInt64)) :
    buckets.foldl (ReasonAgg.add resolve) agg =
      { totalNs := buckets.foldl (fun total e => saturatingAdd total e.2) agg.totalNs
        pids := agg.pids ∪ (buckets.map fun e => e.1.pid).toFinset
        byStack := Table.collect (fun e => e.1.stackId)
          (fun e => addStack (resolve e.1.stackId) e.2) agg.byStack buckets } := by
  induction buckets generalizing agg with
  | nil => simp [Table.collect]
  | cons e buckets ih =>
      rw [List.foldl_cons, ih]
      simp [ReasonAgg.add, Table.collect]

theorem foldl_saturatingAdd (total : UInt64) {buckets : List (BucketKey × UInt64)}
    (small : total.toNat + totalNs buckets < 2 ^ 64) :
    (buckets.foldl (fun total e => saturatingAdd total e.2) total).toNat =
      total.toNat + totalNs buckets := by
  induction buckets generalizing total with
  | nil => rfl
  | cons e buckets ih =>
      rw [totalNs, List.map_cons, List.sum_cons, ← totalNs] at small ⊢
      have exact : (saturatingAdd total e.2).toNat = total.toNat + e.2.toNat := by
        rw [toNat_saturatingAdd]
        omega
      rw [List.foldl_cons, ih _ (by omega), exact]
      omega

theorem toNat_totalNs_aggOf {buckets : List (BucketKey × UInt64)} (small : totalNs buckets < 2 ^ 64) :
    (aggOf resolve buckets).totalNs.toNat = totalNs buckets := by
  rw [aggOf, foldl_add]
  simpa using foldl_saturatingAdd 0 (by simpa using small)

theorem pids_aggOf (buckets : List (BucketKey × UInt64)) :
    (aggOf resolve buckets).pids = (buckets.map fun e => e.1.pid).toFinset := by
  rw [aggOf, foldl_add]
  exact Finset.empty_union _

theorem byStack_aggOf (buckets : List (BucketKey × UInt64)) :
    (aggOf resolve buckets).byStack =
      Table.collect (fun e => e.1.stackId) (fun e => addStack (resolve e.1.stackId) e.2) ∅ buckets := by
  rw [aggOf, foldl_add]

theorem addStack_counts {frames : List String} {ns : UInt64} {o : Option (UInt64 × List String)}
    (fits : (o.elim 0 fun s => s.1.toNat) + ns.toNat < 2 ^ 64) :
    (addStack frames ns o).1.toNat = (o.elim 0 fun s => s.1.toNat) + ns.toNat := by
  unfold addStack
  rw [toNat_saturatingAdd]
  cases o with
  | none => simp only [Option.getD_none, Option.elim_none, UInt64.toNat_zero] at fits ⊢; omega
  | some s => simp only [Option.getD_some, Option.elim_some] at fits ⊢; omega

theorem sum_byStack_aggOf {buckets : List (BucketKey × UInt64)} (small : totalNs buckets < 2 ^ 64) :
    ((aggOf resolve buckets).byStack.sum fun _ s => s.1.toNat) = totalNs buckets := by
  have counted : ((Table.collect (fun e => e.1.stackId)
      (fun e => addStack (resolve e.1.stackId) e.2) ∅ buckets).sum fun _ s => s.1.toNat) =
        Table.sum (∅ : Table Int32 (UInt64 × List String)) (fun _ s => s.1.toNat) +
          (buckets.map fun e => e.2.toNat).sum :=
    Table.sum_collect (fun _ _ => addStack_counts) ∅ buckets (by rwa [Table.sum_empty, Nat.zero_add])
  rw [byStack_aggOf, counted, Table.sum_empty, Nat.zero_add, totalNs]

theorem mem_byStack_aggOf {buckets : List (BucketKey × UInt64)} {id : Int32} :
    id ∈ (aggOf resolve buckets).byStack ↔ ∃ e ∈ buckets, e.1.stackId = id := by
  rw [byStack_aggOf, Table.mem_collect]
  exact or_iff_right Finmap.notMem_empty

theorem frames_aggOf {buckets : List (BucketKey × UInt64)} {id : Int32} {s : UInt64 × List String}
    (found : (aggOf resolve buckets).byStack.lookup id = some s) : s.2 = resolve id := by
  rw [byStack_aggOf] at found
  refine Table.collect_invariant (P := fun id s => s.2 = resolve id) (fun e o own => ?_)
    (fun k b mem => by cases mem) buckets id s found
  cases o with
  | none => rfl
  | some s => exact own s rfl

theorem mem_bucketsOf {snapshot : List (BucketKey × UInt64)} {r : Reason} {e : BucketKey × UInt64} :
    e ∈ bucketsOf resolve snapshot r ↔ e ∈ snapshot ∧ reasonOf resolve e = r := by
  simp [bucketsOf]

/-- A stack is in the table of the reason its frames give, and in no other. -/
theorem mem_byStack_iff {snapshot : List (BucketKey × UInt64)} {r : Reason} {id : Int32} :
    (∃ agg, (aggregate resolve snapshot).lookup r = some agg ∧ id ∈ agg.byStack) ↔
      r = classify (resolve id) ∧ ∃ e ∈ snapshot, e.1.stackId = id := by
  constructor
  · intro found
    rcases found with ⟨agg, found, mem⟩
    rw [lookup_aggregate_eq_some found, mem_byStack_aggOf] at mem
    rcases mem with ⟨e, mem, rfl⟩
    rcases mem_bucketsOf.mp mem with ⟨there, rfl⟩
    exact ⟨rfl, e, there, rfl⟩
  · intro found
    rcases found with ⟨rfl, e, there, rfl⟩
    have mem : e ∈ bucketsOf resolve snapshot (reasonOf resolve e) := mem_bucketsOf.mpr ⟨there, rfl⟩
    have entry := lookup_aggregate resolve snapshot (reasonOf resolve e)
    rw [if_neg (List.ne_nil_of_mem mem)] at entry
    exact ⟨_, entry, mem_byStack_aggOf.mpr ⟨e, mem, rfl⟩⟩

/-! ## The order of the buckets -/

theorem add_right_comm (agg : ReasonAgg) (e e' : BucketKey × UInt64) :
    (agg.add resolve e').add resolve e = (agg.add resolve e).add resolve e' := by
  have sums : ∀ total, saturatingAdd (saturatingAdd total e'.2) e.2 =
      saturatingAdd (saturatingAdd total e.2) e'.2 := fun total => saturatingAdd_right_comm total _ _
  have tables : (agg.byStack.entry e'.1.stackId (addStack (resolve e'.1.stackId) e'.2)).entry
      e.1.stackId (addStack (resolve e.1.stackId) e.2) =
        (agg.byStack.entry e.1.stackId (addStack (resolve e.1.stackId) e.2)).entry
          e'.1.stackId (addStack (resolve e'.1.stackId) e'.2) := by
    apply Table.entry_comm _
    intro same o
    rw [same]
    exact Prod.ext (sums _) rfl
  simp only [ReasonAgg.add, sums, tables, Finset.insert_comm]

theorem aggregate_perm {snapshot snapshot' : List (BucketKey × UInt64)}
    (perm : snapshot.Perm snapshot') : aggregate resolve snapshot = aggregate resolve snapshot' :=
  Table.collect_perm perm fun e e' o _ => add_right_comm (o.getD {}) e e'

/-! ## The sums over the reasons -/

theorem totalNs_filter_le (p : BucketKey × UInt64 → Bool) (buckets : List (BucketKey × UInt64)) :
    totalNs (buckets.filter p) ≤ totalNs buckets :=
  (List.filter_sublist.map _).sum_le_sum fun _ _ => Nat.zero_le _

theorem sum_byStack_of_lookup {snapshot : List (BucketKey × UInt64)} {r : Reason} {agg : ReasonAgg}
    (small : totalNs snapshot < 2 ^ 64) (found : (aggregate resolve snapshot).lookup r = some agg) :
    (agg.byStack.sum fun _ s => s.1.toNat) = agg.totalNs.toNat := by
  have fits : totalNs (bucketsOf resolve snapshot r) < 2 ^ 64 :=
    (totalNs_filter_le _ snapshot).trans_lt small
  rw [lookup_aggregate_eq_some found, sum_byStack_aggOf fits, toNat_totalNs_aggOf fits]

theorem addBucket_counts {e : BucketKey × UInt64} {o : Option ReasonAgg}
    (fits : (o.elim 0 fun agg => agg.totalNs.toNat) + e.2.toNat < 2 ^ 64) :
    (addBucket resolve e o).totalNs.toNat = (o.elim 0 fun agg => agg.totalNs.toNat) + e.2.toNat := by
  unfold addBucket ReasonAgg.add
  rw [toNat_saturatingAdd]
  cases o with
  | none => simp only [Option.getD_none, Option.elim_none, UInt64.toNat_zero] at fits ⊢; omega
  | some agg => simp only [Option.getD_some, Option.elim_some] at fits ⊢; omega

/-- The reasons add up to the snapshot. -/
theorem sum_aggregate {snapshot : List (BucketKey × UInt64)} (small : totalNs snapshot < 2 ^ 64) :
    ((aggregate resolve snapshot).sum fun _ agg => agg.totalNs.toNat) = totalNs snapshot := by
  have counted : ((Table.collect (reasonOf resolve) (addBucket resolve) ∅ snapshot).sum
      fun _ agg => agg.totalNs.toNat) =
        Table.sum (∅ : Table Reason ReasonAgg) (fun _ agg => agg.totalNs.toNat) +
          (snapshot.map fun e => e.2.toNat).sum :=
    Table.sum_collect (fun _ _ => addBucket_counts) ∅ snapshot
      (by rwa [Table.sum_empty, Nat.zero_add])
  rw [aggregate, counted, Table.sum_empty, Nat.zero_add, totalNs]

end

end Tragach.Iowait
