import Mathlib.Order.OrderDual
import Tragach.Iowait.Reasons

/-! # The report of a window

The JSON output has for each reason its total, its number of threads and its longest
stacks, found by sorting the entries of the table in whatever order they are walked.
-/

namespace Tragach.Iowait

open Bpf Library

structure JsonStack where
  ms : UInt64
  frames : List String
  deriving DecidableEq

structure JsonReason where
  totalMs : UInt64
  threads : Nat
  topStacks : List JsonStack
  deriving DecidableEq

/-- The object printed in a window, less the time of printing. -/
structure JsonWindow where
  windowMs : UInt64
  pid : UInt32
  excludedIdleBuckets : Nat
  byReason : Table String JsonReason

/-- The order in which the loops over a table and over the stacks of its reasons find the
entries. -/
structure Walk (byReason : Table Reason ReasonAgg) where
  reasons : List (Reason × ReasonAgg)
  stacksOf : Reason → List (Int32 × (UInt64 × List String))
  all_reasons : (reasons : Multiset (Reason × ReasonAgg)) = byReason.pairs
  all_stacks : ∀ r agg, byReason.lookup r = some agg →
    (stacksOf r : Multiset (Int32 × (UInt64 × List String))) = agg.byStack.pairs

theorem Walk.nonempty (byReason : Table Reason ReasonAgg) : Nonempty (Walk byReason) := by
  refine ⟨byReason.pairs.toList,
    fun r => ((byReason.lookup r).elim 0 fun agg => agg.byStack.pairs).toList,
    Multiset.coe_toList _, fun r agg found => ?_⟩
  rw [found]
  exact Multiset.coe_toList _

def longest (topStacks : UInt32) (entries : List (Int32 × (UInt64 × List String))) :
    List (Int32 × (UInt64 × List String)) :=
  (sortByKey (fun s => OrderDual.toDual s.2.1.toNat) entries).take topStacks.toNat

def jsonReason (topStacks : UInt32) (agg : ReasonAgg)
    (entries : List (Int32 × (UInt64 × List String))) : JsonReason where
  totalMs := agg.totalNs / 1000000
  threads := agg.pids.card
  topStacks := (longest topStacks entries).map fun s => ⟨s.2.1 / 1000000, s.2.2⟩

def jsonByReason (topStacks : UInt32) {byReason : Table Reason ReasonAgg} (walk : Walk byReason) :
    Table String JsonReason :=
  walk.reasons.foldl
    (fun m e => m.insert e.1.label (jsonReason topStacks e.2 (walk.stacksOf e.1))) ∅

def jsonWindow (windowMs : UInt64) (pid : UInt32) (excludedIdle : Nat) (topStacks : UInt32)
    {byReason : Table Reason ReasonAgg} (walk : Walk byReason) : JsonWindow where
  windowMs := windowMs
  pid := pid
  excludedIdleBuckets := excludedIdle
  byReason := jsonByReason topStacks walk

/-- A line of the human output, with what is formatted in it. -/
inductive HumanLine where
  | window (windowMs : UInt64) (pid : UInt32)
  | dropped (buckets : Nat)
  | noActivity
  | timeByReason
  | reason (label : String) (totalNs : UInt64) (threads : Nat) (top : String)
  | stack (ns : UInt64) (frames : String)
  | blank
  deriving DecidableEq

/-- The first frame that says why the task is asleep. -/
def meaningfulFrame (frames : List String) : String :=
  let skipped := fun s : String =>
    s == "__schedule" || (s.startsWith "schedule" && !s.startsWith "schedule_") || s == "schedule"
  match frames.find? fun s => !skipped s with
  | some s => s
  | none => frames.headD "?"

/-- `Iterator::max_by_key`, the last of the greatest elements. -/
def maxByKey {α : Type*} (key : α → Nat) (l : List α) : Option α :=
  l.foldl (fun best a =>
    match best with
    | none => some a
    | some b => if key b ≤ key a then some a else some b) none

def topFrame (entries : List (Int32 × (UInt64 × List String))) : String :=
  match maxByKey (fun s => s.2.1.toNat) entries with
  | some s => meaningfulFrame s.2.2
  | none => "?"

def stackLines (topStacks : UInt32) (entries : List (Int32 × (UInt64 × List String))) :
    List HumanLine :=
  if topStacks > 0 then
    (longest topStacks entries).filterMap fun s =>
      if s.2.2 = [] then none else some (.stack s.2.1 (" → ".intercalate (s.2.2.take 5)))
  else []

def reasonLines (topStacks : UInt32) {byReason : Table Reason ReasonAgg} (walk : Walk byReason)
    (e : Reason × ReasonAgg) : List HumanLine :=
  .reason e.1.label e.2.totalNs e.2.pids.card (topFrame (walk.stacksOf e.1)) ::
    stackLines topStacks (walk.stacksOf e.1)

def humanWindow (windowMs : UInt64) (pid : UInt32) (excludeIdle : Bool) (excludedIdle : Nat)
    (topStacks : UInt32) {byReason : Table Reason ReasonAgg} (walk : Walk byReason) :
    List HumanLine :=
  [.window windowMs pid] ++ (if excludeIdle then [.dropped excludedIdle] else []) ++
    (if walk.reasons = [] then [.noActivity]
    else
      .timeByReason :: (sortByKey (fun e => OrderDual.toDual e.2.totalNs.toNat) walk.reasons).flatMap
        (reasonLines topStacks walk)) ++
    [.blank]

/-- What `flush_window` prints of the snapshot it has drained. The threshold is in
nanoseconds, and the tables are walked in an order of their own. -/
def flushWindow (traces : UInt32 → Except Int64 (List UInt64)) (kallsyms : Kallsyms)
    (windowMs : UInt64) (pid : UInt32) (topStacks : UInt32) (json excludeIdle : Bool)
    (thresholdNs : UInt64) (snapshot : List (BucketKey × UInt64))
    (walk : Walk (aggregate (resolveFrames traces kallsyms)
      (keep excludeIdle thresholdNs snapshot))) : JsonWindow ⊕ List HumanLine :=
  let excluded := excludedIdle excludeIdle thresholdNs snapshot
  if json then .inl (jsonWindow windowMs pid excluded topStacks walk)
  else .inr (humanWindow windowMs pid excludeIdle excluded topStacks walk)

/-! ## Sorting the stacks -/

section

def omitted (topStacks : UInt32) (entries : List (Int32 × (UInt64 × List String))) :
    List (Int32 × (UInt64 × List String)) :=
  (sortByKey (fun s => OrderDual.toDual s.2.1.toNat) entries).drop topStacks.toNat

theorem longest_append_omitted (topStacks : UInt32)
    (entries : List (Int32 × (UInt64 × List String))) :
    (longest topStacks entries ++ omitted topStacks entries).Perm entries := by
  rw [longest, omitted, List.take_append_drop]
  exact sortByKey_perm _ entries

variable {topStacks : UInt32} {entries : List (Int32 × (UInt64 × List String))}

theorem length_longest : (longest topStacks entries).length = min topStacks.toNat entries.length := by
  rw [longest, List.length_take, (sortByKey_perm _ entries).length_eq]

theorem pairwise_longest : (longest topStacks entries).Pairwise fun s s' => s'.2.1 ≤ s.2.1 := by
  have sorted : (sortByKey (fun s => OrderDual.toDual s.2.1.toNat) entries).Pairwise fun s s' =>
      OrderDual.toDual s.2.1.toNat ≤ OrderDual.toDual s'.2.1.toNat := pairwise_sortByKey
  exact sorted.sublist (List.take_sublist _ _)

theorem omitted_le_longest {s s' : Int32 × (UInt64 × List String)}
    (shown : s ∈ longest topStacks entries) (left : s' ∈ omitted topStacks entries) :
    s'.2.1 ≤ s.2.1 :=
  take_sortByKey_le shown left

theorem sum_div_le (parts : List Nat) (unit : Nat) :
    (parts.map (· / unit)).sum ≤ parts.sum / unit := by
  induction parts with
  | nil => exact Nat.zero_le _
  | cons x parts ih =>
      rw [List.map_cons, List.sum_cons, List.sum_cons]
      exact (Nat.add_le_add_left ih _).trans Nat.div_add_div_le_add_div

/-- The milliseconds shown for the stacks of a reason are no more than those of the reason. -/
theorem sum_topStacks_le {agg : ReasonAgg}
    (all : (entries : Multiset (Int32 × (UInt64 × List String))) = agg.byStack.pairs)
    (stacks_total : (agg.byStack.sum fun _ s => s.1.toNat) = agg.totalNs.toNat) :
    ((jsonReason topStacks agg entries).topStacks.map fun s => s.ms.toNat).sum ≤
      (jsonReason topStacks agg entries).totalMs.toNat := by
  have whole : (entries.map fun s => s.2.1.toNat).sum = agg.totalNs.toNat := by
    rw [← stacks_total, Table.sum, ← all]
    rfl
  have part : ((longest topStacks entries).map fun s => s.2.1.toNat).sum ≤ agg.totalNs.toNat := by
    have sum := (longest_append_omitted topStacks entries).map fun s => s.2.1.toNat
    rw [← whole, ← sum.sum_eq, List.map_append, List.sum_append]
    exact Nat.le_add_right _ _
  have rounded := sum_div_le ((longest topStacks entries).map fun s => s.2.1.toNat) 1000000
  simp only [jsonReason, List.map_map, Function.comp_def, UInt64.toNat_div] at rounded ⊢
  exact rounded.trans (Nat.div_le_div_right part)

end

/-! ## The object of a reason -/

theorem mem_reasons {byReason : Table Reason ReasonAgg} (walk : Walk byReason) {r : Reason}
    {agg : ReasonAgg} : (r, agg) ∈ walk.reasons ↔ byReason.lookup r = some agg := by
  rw [← Multiset.mem_coe, walk.all_reasons]
  exact Table.mem_pairs

theorem lookup_jsonByReason {topStacks : UInt32} {byReason : Table Reason ReasonAgg}
    (walk : Walk byReason) {r : Reason} {agg : ReasonAgg} (found : byReason.lookup r = some agg) :
    (jsonByReason topStacks walk).lookup r.label =
      some (jsonReason topStacks agg (walk.stacksOf r)) := by
  have mem : (r, agg) ∈ walk.reasons := (mem_reasons walk).mpr found
  have distinct : (walk.reasons.map fun e => e.1.label).Nodup := by
    have keys := congrArg (Multiset.map Prod.fst) walk.all_reasons
    rw [Table.keys_pairs, Multiset.map_coe] at keys
    have nodup : (walk.reasons.map Prod.fst).Nodup := by
      rw [← Multiset.coe_nodup, keys]
      exact byReason.keys.nodup
    have labels := nodup.map Reason.label_injective
    rwa [List.map_map] at labels
  have collected : jsonByReason topStacks walk =
      Table.collect (fun e : Reason × ReasonAgg => e.1.label)
        (fun e _ => jsonReason topStacks e.2 (walk.stacksOf e.1)) ∅ walk.reasons := rfl
  rw [collected]
  exact Table.lookup_collect_of_mem distinct mem

/-- The human output has a line for every reason, with the total that the JSON output has
in milliseconds and the same number of threads. -/
theorem reason_mem_humanWindow {windowMs : UInt64} {pid : UInt32} {excludeIdle : Bool}
    {excludedIdle : Nat} {topStacks : UInt32} {byReason : Table Reason ReasonAgg}
    (walk : Walk byReason) {label : String} {totalNs : UInt64} {threads : Nat} :
    (∃ top, .reason label totalNs threads top ∈
        humanWindow windowMs pid excludeIdle excludedIdle topStacks walk) ↔
      ∃ r agg, byReason.lookup r = some agg ∧ label = r.label ∧ totalNs = agg.totalNs ∧
        threads = agg.pids.card := by
  have stacks_only : ∀ top entries, .reason label totalNs threads top ∉ stackLines topStacks entries := by
    intro top entries mem
    unfold stackLines at mem
    split at mem
    next =>
        rcases List.mem_filterMap.mp mem with ⟨s, _, line⟩
        split at line <;> cases line
    next => cases mem
  have lines : ∀ top, .reason label totalNs threads top ∈
      humanWindow windowMs pid excludeIdle excludedIdle topStacks walk ↔
        ∃ e ∈ walk.reasons, label = e.1.label ∧ totalNs = e.2.totalNs ∧ threads = e.2.pids.card ∧
          top = topFrame (walk.stacksOf e.1) := by
    intro top
    have dropped : .reason label totalNs threads top ∉
        (if excludeIdle then [HumanLine.dropped excludedIdle] else []) := by
      split <;> simp
    by_cases none : walk.reasons = []
    · simp [humanWindow, dropped, none]
    · simp only [humanWindow, if_neg none, List.mem_append, reduceCtorEq, dropped, List.mem_cons,
        List.mem_flatMap, reasonLines, HumanLine.reason.injEq, stacks_only, or_false,
        false_or, (sortByKey_perm _ walk.reasons).mem_iff, List.not_mem_nil]
  constructor
  · intro found
    rcases found with ⟨top, line⟩
    rcases (lines top).mp line with ⟨e, mem, label', total, threads', _⟩
    exact ⟨e.1, e.2, (mem_reasons walk).mp mem, label', total, threads'⟩
  · intro found
    rcases found with ⟨r, agg, entry, label', total, threads'⟩
    exact ⟨_, (lines _).mpr ⟨(r, agg), (mem_reasons walk).mpr entry, label', total, threads', rfl⟩⟩

/-! ## What the report says about the snapshot -/

def excluded (excludeIdle : Bool) (thresholdNs : UInt64) (snapshot : List (BucketKey × UInt64)) :
    List (BucketKey × UInt64) :=
  snapshot.filter fun e => excludeIdle ∧ ¬ e.2 < thresholdNs

/-- The stacks listed for a reason are as many as asked for or as there are, longest first,
and none is longer among the others. -/
def ListsLongest (topStacks : UInt32) (agg : ReasonAgg)
    (entries : List (Int32 × (UInt64 × List String))) (j : JsonReason) : Prop :=
  ∃ listed others : List (Int32 × (UInt64 × List String)), (listed ++ others).Perm entries ∧
    j.topStacks = listed.map (fun s => ⟨s.2.1 / 1000000, s.2.2⟩) ∧
    listed.length = min topStacks.toNat agg.byStack.keys.card ∧
    (listed.Pairwise fun s s' => s'.2.1 ≤ s.2.1) ∧
    (∀ s ∈ listed, ∀ s' ∈ others, s'.2.1 ≤ s.2.1) ∧
    (j.topStacks.map fun s => s.ms.toNat).sum ≤ j.totalMs.toNat

/-- The tables and the JSON output of a flush divide the snapshot among the reasons. -/
structure Divides (resolve : Int32 → List String) (excludeIdle : Bool) (thresholdNs : UInt64)
    (topStacks : UInt32) (snapshot : List (BucketKey × UInt64)) : Prop where
  total : ((aggregate resolve (keep excludeIdle thresholdNs snapshot)).sum
      fun _ agg => agg.totalNs.toNat) + totalNs (excluded excludeIdle thresholdNs snapshot) =
    totalNs snapshot
  excludedIdle : excludedIdle excludeIdle thresholdNs snapshot =
    (excluded excludeIdle thresholdNs snapshot).length
  ofStacks : ∀ r agg, (aggregate resolve (keep excludeIdle thresholdNs snapshot)).lookup r = some agg →
    agg.totalNs.toNat = agg.byStack.sum fun _ s => s.1.toNat
  class_iff : ∀ id, (∃ e ∈ keep excludeIdle thresholdNs snapshot, e.1.stackId = id) → ∀ r,
    (∃ agg, (aggregate resolve (keep excludeIdle thresholdNs snapshot)).lookup r = some agg ∧
      id ∈ agg.byStack) ↔ r = classify (resolve id)
  ofBuckets : ∀ r agg id s,
    (aggregate resolve (keep excludeIdle thresholdNs snapshot)).lookup r = some agg →
      agg.byStack.lookup id = some s →
        s.2 = resolve id ∧ ∃ e ∈ keep excludeIdle thresholdNs snapshot, e.1.stackId = id
  threads : ∀ r agg, (aggregate resolve (keep excludeIdle thresholdNs snapshot)).lookup r = some agg →
    agg.pids = (((keep excludeIdle thresholdNs snapshot).filter fun e => reasonOf resolve e = r).map
      fun e => e.1.pid).toFinset
  anyOrder : ∀ snapshot', snapshot.Perm snapshot' →
    aggregate resolve (keep excludeIdle thresholdNs snapshot') =
      aggregate resolve (keep excludeIdle thresholdNs snapshot)
  longest : ∀ (walk : Walk (aggregate resolve (keep excludeIdle thresholdNs snapshot))) r agg,
    (aggregate resolve (keep excludeIdle thresholdNs snapshot)).lookup r = some agg →
      ∃ j, (jsonByReason topStacks walk).lookup r.label = some j ∧
        j.totalMs = agg.totalNs / 1000000 ∧ j.threads = agg.pids.card ∧
        ListsLongest topStacks agg (walk.stacksOf r) j

section

variable {excludeIdle : Bool} {thresholdNs : UInt64} {snapshot : List (BucketKey × UInt64)}

theorem keep_eq_filter : keep excludeIdle thresholdNs snapshot =
    snapshot.filter fun e => ¬ (excludeIdle ∧ ¬ e.2 < thresholdNs) := by
  cases excludeIdle <;> simp [keep, retain]

theorem totalNs_append (buckets buckets' : List (BucketKey × UInt64)) :
    totalNs (buckets ++ buckets') = totalNs buckets + totalNs buckets' := by
  rw [totalNs, List.map_append, List.sum_append, totalNs, totalNs]

theorem keep_append_excluded : (keep excludeIdle thresholdNs snapshot ++
    excluded excludeIdle thresholdNs snapshot).Perm snapshot := by
  have parts := List.filter_append_perm
    (fun e : BucketKey × UInt64 => ¬ (excludeIdle = true ∧ ¬ e.2 < thresholdNs)) snapshot
  rw [keep_eq_filter, excluded]
  simpa only [decide_not, Bool.not_not] using parts

theorem totalNs_keep_add : totalNs (keep excludeIdle thresholdNs snapshot) +
    totalNs (excluded excludeIdle thresholdNs snapshot) = totalNs snapshot := by
  rw [← totalNs_append]
  exact (keep_append_excluded.map fun e => e.2.toNat).sum_eq

theorem excludedIdle_eq : Iowait.excludedIdle excludeIdle thresholdNs snapshot =
    (excluded excludeIdle thresholdNs snapshot).length := by
  have all : (keep excludeIdle thresholdNs snapshot).length +
      (excluded excludeIdle thresholdNs snapshot).length = snapshot.length := by
    rw [← List.length_append]
    exact keep_append_excluded.length_eq
  unfold Iowait.excludedIdle
  unfold keep at all
  split
  next filtered =>
      rw [if_pos filtered] at all
      omega
  next whole =>
      rw [if_neg whole] at all
      omega

theorem keep_perm {snapshot' : List (BucketKey × UInt64)} (perm : snapshot.Perm snapshot') :
    (keep excludeIdle thresholdNs snapshot).Perm (keep excludeIdle thresholdNs snapshot') := by
  rw [keep_eq_filter, keep_eq_filter]
  exact perm.filter _

end

theorem jsonReason_listsLongest {topStacks : UInt32} {agg : ReasonAgg}
    {entries : List (Int32 × (UInt64 × List String))}
    (all : (entries : Multiset (Int32 × (UInt64 × List String))) = agg.byStack.pairs)
    (total : (agg.byStack.sum fun _ s => s.1.toNat) = agg.totalNs.toNat) :
    ListsLongest topStacks agg entries (jsonReason topStacks agg entries) := by
  have count : entries.length = agg.byStack.keys.card := by
    have keys := congrArg Multiset.card (Table.keys_pairs agg.byStack)
    rw [← all, Multiset.map_coe, Multiset.coe_card, List.length_map] at keys
    exact keys
  exact ⟨longest topStacks entries, omitted topStacks entries, longest_append_omitted _ _, rfl,
    count ▸ length_longest, pairwise_longest, fun _ shown _ left => omitted_le_longest shown left,
    sum_topStacks_le all total⟩

/-- Whatever the order of the buckets and of the tables, a flush divides its snapshot. -/
theorem flush_divides (resolve : Int32 → List String) (excludeIdle : Bool) (thresholdNs : UInt64)
    (topStacks : UInt32) {snapshot : List (BucketKey × UInt64)} (small : totalNs snapshot < 2 ^ 64) :
    Divides resolve excludeIdle thresholdNs topStacks snapshot := by
  have parts : totalNs (keep excludeIdle thresholdNs snapshot) +
      totalNs (excluded excludeIdle thresholdNs snapshot) = totalNs snapshot := totalNs_keep_add
  have fits : totalNs (keep excludeIdle thresholdNs snapshot) < 2 ^ 64 := by omega
  constructor
  · rw [sum_aggregate fits, parts]
  · exact excludedIdle_eq
  · exact fun r agg found => (sum_byStack_of_lookup fits found).symm
  · intro id present r
    rw [mem_byStack_iff]
    exact and_iff_left present
  · intro r agg id s found stack
    have mem : id ∈ agg.byStack := Finmap.mem_of_lookup_eq_some stack
    have present := (mem_byStack_iff.mp ⟨agg, found, mem⟩).2
    rw [lookup_aggregate_eq_some found] at stack
    exact ⟨frames_aggOf stack, present⟩
  · intro r agg found
    rw [lookup_aggregate_eq_some found, pids_aggOf]
    rfl
  · intro snapshot' perm
    exact (aggregate_perm (keep_perm perm)).symm
  · intro walk r agg found
    exact ⟨_, lookup_jsonByReason walk found, rfl, rfl,
      jsonReason_listsLongest (walk.all_stacks r agg found) (sum_byStack_of_lookup fits found)⟩

def fourStacks : List (BucketKey × UInt64) :=
  [(⟨7, 1⟩, 3000000), (⟨8, 2⟩, 5000000), (⟨8, 1⟩, 4000000), (⟨7, 3⟩, 2000000), (⟨9, -14⟩, 9000000)]

def fourStacks_frames (stackId : Int32) : List String :=
  if stackId = 1 then ["__schedule", "schedule", "io_schedule"]
  else if stackId = 2 then ["__schedule", "blk_mq_get_tag", "futex_wait"]
  else if stackId = 3 then ["schedule", "do_futex"]
  else []

theorem fourStacks_divide : Divides fourStacks_frames true 9000000 1 fourStacks :=
  flush_divides _ _ _ _ (by decide +kernel)

example : ((aggregate fourStacks_frames (keep true 9000000 fourStacks)).lookup .blockIo).map
    (fun agg => (agg.totalNs, agg.pids.card, (agg.byStack.lookup 1).map Prod.fst)) =
      some (12000000, 2, some 7000000) := by decide +kernel

end Tragach.Iowait
