import Tragach.Iowait.Flush
import Tragach.Iowait.Interleaving

/-! # Flushes between the map accesses of a handler

A wakeup handler looks a bucket up and inserts the new total later, a flush looks it up
and removes it later. Time is lost when an insert falls between the two accesses of a
flush, and reported twice when a removal falls between the two accesses of a handler.
-/

namespace Tragach.Iowait

open Bpf Library

structure Overlap (L : Limits) where
  flush : Monitor L
  active : List (Active Nat Action Answer)

inductive FlushStep where
  | read (k : BucketKey)
  | endOfIteration
  | removeNext
  | report

inductive FineStep where
  | handler (e : ThreadStep Nat Action)
  | flush (f : FlushStep)

def FlushStep.step : FlushStep → Step
  | .read k => .read k
  | .endOfIteration => .endOfIteration
  | .removeNext => .removeNext
  | .report => .report

variable {L : Limits}

def Overlap.next (m : Overlap L) : FineStep → Overlap L
  | .handler e =>
      let threads := Threads.next body (exec L) ⟨m.flush.maps, m.active⟩ e
      { m with flush := { m.flush with maps := threads.shared }, active := threads.active }
  | .flush f => { m with flush := m.flush.next f.step }

def overlapped (L : Limits) (target : UInt32) : System (Overlap L) FineStep :=
  ⟨⟨⟨State.loaded L target, [], none, []⟩, []⟩, Overlap.next⟩

def Overlap.access (m : Overlap L) : FineStep → Option Access
  | .handler (.advance t) => nextAccess t m.active
  | _ => none

/-- The insert into the buckets a step makes, with what the handler found before; a
refused insert changes nothing. -/
def Overlap.insert (m : Overlap L) (a : FineStep) : Option (BucketKey × Option UInt64 × UInt64) :=
  match m.access a with
  | some (.bucketsInsert key existing delta) =>
      if m.flush.maps.buckets.accepts key then some (key, existing, delta) else none
  | _ => none

def Overlap.credited (m : Overlap L) (a : FineStep) (k : BucketKey) : UInt64 :=
  match m.insert a with
  | some (key, _, delta) => if k = key then delta else 0
  | none => 0

/-- The time a step brings back: what the handler found in the bucket beyond what the
bucket holds. -/
def Overlap.revived (m : Overlap L) (a : FineStep) (k : BucketKey) : UInt64 :=
  match m.insert a with
  | some (key, existing, _) => if k = key then existing.getD 0 - m.flush.maps.bucket k else 0
  | none => 0

/-- The time a step discards: what a removed bucket holds beyond what was read. -/
def Overlap.lost (m : Overlap L) (a : FineStep) (k : BucketKey) : UInt64 :=
  match a with
  | .handler _ => 0
  | .flush f => m.flush.lost f.step k

def fineCredits (L : Limits) (target : UInt32) : Ledger FineStep BucketKey UInt64 :=
  fun h => ((overlapped L target).run h).credited

def fineErrors (L : Limits) (target : UInt32) : Ledger FineStep BucketKey UInt64 :=
  fun h a k => ((overlapped L target).run h).revived a k - ((overlapped L target).run h).lost a k

/-- Nothing is lost and nothing is counted twice. -/
def FineConserved (L : Limits) (target : UInt32) (h : List FineStep) (a : FineStep) : Prop :=
  ∀ k, ((overlapped L target).run (a :: h)).flush.reportedTotal k +
    ((overlapped L target).run (a :: h)).flush.unreported k =
      (fineCredits L target).balance (a :: h) k

/-! ## Conservation up to the errors -/

theorem newTotal_eq (existing : Option UInt64) (delta : UInt64) :
    newTotal existing delta = existing.getD 0 + delta := by
  cases existing <;> simp [newTotal]

theorem bucket_exec (s : State L) (op : Access) (k : BucketKey) :
    (exec L op s).2.bucket k =
      match op with
      | .bucketsInsert key existing delta =>
          if k = key ∧ s.buckets.accepts key = true then existing.getD 0 + delta else s.bucket k
      | _ => s.bucket k := by
  cases op with
  | bucketsInsert key existing delta =>
      rw [exec, State.bucket, HashMap.get_upsert]
      cases room : s.buckets.accepts key with
      | false => simp [HashMap.insertOp, State.bucket, room]
      | true =>
          by_cases same : k = key <;>
            simp [HashMap.insertOp, same, State.bucket, newTotal_eq, room]
  | _ => rfl

theorem advanceIn_maps (s : State L) (l : List (Active Nat Action Answer)) (t : Nat) :
    (advanceIn (exec L) t l s).shared =
      match nextAccess t l with
      | some op => (exec L op s).2
      | none => s := by
  have turn := advanceIn_turn (exec L) t l s
  generalize advanceIn (exec L) t l s = m, nextAccess t l = op at turn
  cases turn <;> rfl

theorem bucket_handler (m : Overlap L) (e : ThreadStep Nat Action) (k : BucketKey) :
    (m.next (.handler e)).flush.maps.bucket k =
      m.flush.maps.bucket k + m.credited (.handler e) k + m.revived (.handler e) k := by
  cases e with
  | enter t e =>
      simp [Overlap.next, Threads.next, Overlap.credited, Overlap.revived, Overlap.insert,
        Overlap.access]
  | advance t =>
      have maps : (m.next (.handler (.advance t))).flush.maps =
          match nextAccess t m.active with
          | some op => (exec L op m.flush.maps).2
          | none => m.flush.maps := advanceIn_maps m.flush.maps m.active t
      rw [maps]
      simp only [Overlap.credited, Overlap.revived, Overlap.insert, Overlap.access]
      cases nextAccess t m.active with
      | none => simp
      | some op =>
          dsimp only
          rw [bucket_exec]
          cases op with
          | bucketsInsert key existing delta =>
              cases room : m.flush.maps.buckets.accepts key with
              | false => simp [room]
              | true =>
                  by_cases same : k = key
                  · simp only [same, room, and_self, if_true]
                    abel
                  · simp [same, room]
          | _ => simp

theorem credited_flush (m : Monitor L) (f : FlushStep) (k : BucketKey) :
    m.credited f.step k = 0 := by
  cases f <;> rfl

theorem Overlap.conserves {m : Overlap L} (visits : Visits m.flush) (a : FineStep)
    (k : BucketKey) :
    (m.next a).flush.reportedTotal k + (m.next a).flush.unreported k + m.lost a k =
      m.flush.reportedTotal k + m.flush.unreported k + m.credited a k + m.revived a k := by
  cases a with
  | handler e =>
      have bucket := bucket_handler m e k
      have reported : (m.next (.handler e)).flush.reportedTotal k = m.flush.reportedTotal k := rfl
      have inFlight : (m.next (.handler e)).flush.inFlight k = m.flush.inFlight k := rfl
      simp only [Monitor.unreported, reported, inFlight, bucket, Overlap.lost]
      abel
  | flush f =>
      have step := (next_effect m.flush f.step).conserves visits k
      rw [credited_flush] at step
      simpa [Overlap.next, Overlap.lost, Overlap.credited, Overlap.revived, Overlap.insert,
        Overlap.access] using step

section

variable {target : UInt32}

theorem overlapped_visits (h : List FineStep) : Visits ((overlapped L target).run h).flush := by
  induction h with
  | nil => exact ⟨List.nodup_nil, fun ks none => by cases none⟩
  | cons a h ih =>
      cases a with
      | handler e => exact ⟨ih.once, ih.queued⟩
      | flush f => exact (next_effect _ f.step).visits ih

theorem fine_conservation (h : List FineStep) (k : BucketKey) :
    ((overlapped L target).run h).flush.reportedTotal k +
        ((overlapped L target).run h).flush.unreported k =
      (fineCredits L target).balance h k + (fineErrors L target).balance h k := by
  induction h with
  | nil => rfl
  | cons a h ih =>
      have step := Overlap.conserves (overlapped_visits h) a k
        (m := (overlapped L target).run h)
      have next : ((overlapped L target).run h).next a = (overlapped L target).run (a :: h) := rfl
      rw [next, ih] at step
      rw [Ledger.balance_cons, Ledger.balance_cons]
      have posted : fineErrors L target h a k = ((overlapped L target).run h).revived a k -
          ((overlapped L target).run h).lost a k := rfl
      have credit : fineCredits L target h a k = ((overlapped L target).run h).credited a k := rfl
      rw [posted, credit, ← add_right_cancel_iff (a := ((overlapped L target).run h).lost a k), step]
      abel

/-! ## Where the errors come from -/

/-- The time the flush removed from a bucket since a handler last looked it up. -/
def removedSinceLookup (L : Limits) (target : UInt32) : List FineStep → BucketKey → UInt64
  | [], _ => 0
  | a :: h, k =>
      match a with
      | .handler e =>
          if ((overlapped L target).run h).access (.handler e) = some (.bucketsGet k) then 0
          else removedSinceLookup L target h k
      | .flush f =>
          match f, ((overlapped L target).run h).flush.removing with
          | .removeNext, some (key :: _) =>
              removedSinceLookup L target h k +
                if k = key then ((overlapped L target).run h).flush.maps.bucket k else 0
          | _, _ => removedSinceLookup L target h k

/-- The time credited to a key, or brought back to it, since the flush in progress read it. -/
def addedSinceRead (L : Limits) (target : UInt32) : List FineStep → BucketKey → UInt64
  | [], _ => 0
  | a :: h, k =>
      match a with
      | .handler e =>
          addedSinceRead L target h k + ((overlapped L target).run h).credited (.handler e) k +
            ((overlapped L target).run h).revived (.handler e) k
      | .flush f =>
          match f with
          | .read key =>
              if k = key ∧ (((overlapped L target).run h).flush.reads key).isSome then 0
              else addedSinceRead L target h k
          | _ => addedSinceRead L target h k

/-- A key is removed with no time added to it since it was read, and a handler inserts a
total with no time removed since it looked the bucket up. -/
def Untorn (L : Limits) (target : UInt32) (h : List FineStep) : FineStep → Prop
  | .handler e => ∀ key existing delta,
      ((overlapped L target).run h).insert (.handler e) = some (key, existing, delta) →
        removedSinceLookup L target h key = 0
  | .flush .removeNext => ∀ k ks, ((overlapped L target).run h).flush.removing = some (k :: ks) →
      addedSinceRead L target h k = 0
  | .flush _ => True

/-- No handler begins while another about the same thread is running. -/
def FineOneAtATime (L : Limits) (target : UInt32) (h : List FineStep) : FineStep → Prop
  | .handler (.enter _ e) => ∀ a ∈ ((overlapped L target).run h).active, ¬ SameThread e a.event
  | _ => True

instance (L : Limits) (target : UInt32) (h : List FineStep) :
    ∀ a, Decidable (FineOneAtATime L target h a)
  | .handler (.enter _ e) =>
      inferInstanceAs (Decidable (∀ a ∈ ((overlapped L target).run h).active,
        ¬ SameThread e a.event))
  | .handler (.advance _) | .flush _ => inferInstanceAs (Decidable True)

/-! ### What a running handler has still to do -/

def pendingInsert : Prog Answer → Option (BucketKey × Option UInt64 × UInt64)
  | .access (.bucketsInsert key existing delta) _ => some (key, existing, delta)
  | _ => none

/-- The bucket is looked up right before the insert of its new total, and only then. -/
def Shaped : Prog Answer → Prop
  | .done => True
  | .access (.bucketsGet key) next =>
      ∀ existing, ∃ delta, next existing = .access (.bucketsInsert key existing delta) fun _ => .done
  | .access _ next => ∀ a, pendingInsert (next a) = none ∧ Shaped (next a)

theorem body_shaped (a : Action) : pendingInsert (body a) = none ∧ Shaped (body a) := by
  cases a with
  | schedSwitch c =>
      simp only [body, schedSwitchBody]
      split
      next =>
          split
          next => exact ⟨rfl, trivial⟩
          next =>
              refine ⟨rfl, fun target => ?_⟩
              cases target with
              | none => exact ⟨rfl, trivial⟩
              | some target =>
                  dsimp only
                  split
                  next => exact ⟨rfl, trivial⟩
                  next => exact ⟨rfl, fun _ => ⟨rfl, trivial⟩⟩
      next => exact ⟨rfl, trivial⟩
  | schedWakeup c =>
      simp only [body, schedWakeupBody]
      split
      next => exact ⟨rfl, trivial⟩
      next =>
          refine ⟨rfl, fun info => ?_⟩
          cases info with
          | none => exact ⟨rfl, trivial⟩
          | some info => exact ⟨rfl, fun _ => ⟨rfl, fun existing => ⟨_, rfl⟩⟩⟩

/-- An insert is next only after the lookup of its bucket, and with what that found. -/
theorem Shaped.after {op : Access} {next : Answer op → Prog Answer}
    (shaped : Shaped (.access op next)) (s : State L) :
    Shaped (next (exec L op s).1) ∧
      ∀ key existing delta, pendingInsert (next (exec L op s).1) = some (key, existing, delta) →
        op = .bucketsGet key ∧ existing = s.buckets.get key := by
  cases op with
  | bucketsGet key =>
      obtain ⟨delta, rest⟩ := shaped (s.buckets.get key)
      have rest : next (exec L (.bucketsGet key) s).1 = _ := rest
      rw [rest]
      refine ⟨fun _ => ⟨rfl, trivial⟩, fun key' existing delta' pending => ?_⟩
      cases pending
      exact ⟨rfl, rfl⟩
  | _ =>
      refine ⟨(shaped _).2, fun key existing delta pending => ?_⟩
      rw [(shaped _).1] at pending
      cases pending

/-- The handlers that are running are about different threads, and one that has looked a
bucket up holds the time `held` under its key. -/
structure Halfway (held : BucketKey → UInt64) (active : List (Active Nat Action Answer)) :
    Prop where
  part : ∀ a ∈ active, a.rest.All (Access.Within a.event.thread)
  shaped : ∀ a ∈ active, Shaped a.rest
  found : ∀ a ∈ active, ∀ key existing delta,
    pendingInsert a.rest = some (key, existing, delta) → existing.getD 0 = held key
  alone : active.Pairwise fun a b => ¬ SameThread a.event b.event

theorem Halfway.nil (held : BucketKey → UInt64) : Halfway held [] :=
  ⟨fun _ mem => absurd mem List.not_mem_nil, fun _ mem => absurd mem List.not_mem_nil,
    fun _ mem => absurd mem List.not_mem_nil, List.Pairwise.nil⟩

theorem Halfway.sublist {held held' : BucketKey → UInt64} {l l' : List (Active Nat Action Answer)}
    (halfway : Halfway held l) (sub : l'.Sublist l) (same : ∀ key, held' key = held key) :
    Halfway held' l' :=
  ⟨fun a mem => halfway.part a (sub.subset mem), fun a mem => halfway.shaped a (sub.subset mem),
    fun a mem key existing delta pending =>
      (halfway.found a (sub.subset mem) key existing delta pending).trans (same key).symm,
    halfway.alone.sublist sub⟩

theorem Halfway.cons {held : BucketKey → UInt64} {l : List (Active Nat Action Answer)}
    (halfway : Halfway held l) (t : Nat) {e : Action}
    (clear : ∀ a ∈ l, ¬ SameThread e a.event) : Halfway held (⟨t, e, body e⟩ :: l) := by
  obtain ⟨first, shape⟩ := body_shaped e
  constructor
  · exact List.forall_mem_cons.mpr ⟨body_within e, halfway.part⟩
  · exact List.forall_mem_cons.mpr ⟨shape, halfway.shaped⟩
  · refine List.forall_mem_cons.mpr ⟨fun key existing delta pending => ?_, halfway.found⟩
    rw [first] at pending
    cases pending
  · exact List.pairwise_cons.mpr ⟨clear, halfway.alone⟩

theorem thread_of_pendingInsert {a : Active Nat Action Answer} {key : BucketKey}
    {existing : Option UInt64} {delta : UInt64}
    (part : a.rest.All (Access.Within a.event.thread))
    (pending : pendingInsert a.rest = some (key, existing, delta)) :
    a.event.thread = some key.pid := by
  unfold pendingInsert at pending
  split at pending
  next rest =>
      cases pending
      rw [rest] at part
      exact part.1
  next => cases pending

theorem bucket_exec_of_other {op : Access} {thread : Option UInt32} {key : BucketKey}
    (within : op.Within thread) (other : thread ≠ some key.pid) (s : State L) :
    op ≠ .bucketsGet key ∧ (exec L op s).2.bucket key = s.bucket key := by
  constructor
  · intro same
    rw [same] at within
    exact other within
  · rw [bucket_exec]
    split
    next key' existing delta =>
        have keys : key ≠ key' := fun same => other (same ▸ within)
        rw [if_neg fun both => keys both.1]
    next => rfl

theorem Halfway.perm {held : BucketKey → UInt64} {l l' : List (Active Nat Action Answer)}
    (same : l.Perm l') (halfway : Halfway held l) : Halfway held l' where
  part a mem := halfway.part a (same.mem_iff.mpr mem)
  shaped a mem := halfway.shaped a (same.mem_iff.mpr mem)
  found a mem := halfway.found a (same.mem_iff.mpr mem)
  alone := halfway.alone.perm same fun apart ⟨awake, eq⟩ => apart ⟨eq ▸ awake, eq.symm⟩

/-- An access keeps what the handlers hold, when the time it looks up is the one then held
and a time is held as long as its bucket stays. -/
theorem Halfway.access {held held' : BucketKey → UInt64} {l : List (Active Nat Action Answer)}
    {s : State L} {a : Active Nat Action Answer} {op : Access} {next : Answer op → Prog Answer}
    (halfway : Halfway held (a :: l)) (rest : a.rest = .access op next)
    (looked : ∀ key, op = .bucketsGet key → held' key = s.bucket key)
    (kept : ∀ key, op ≠ .bucketsGet key → (exec L op s).2.bucket key = s.bucket key →
      held' key = held key) :
    Halfway held' ({ a with rest := next (exec L op s).1 } :: l) := by
  obtain ⟨within, part⟩ := List.forall_mem_cons.mp halfway.part
  obtain ⟨shape, shaped⟩ := List.forall_mem_cons.mp halfway.shaped
  obtain ⟨-, found⟩ := List.forall_mem_cons.mp halfway.found
  obtain ⟨first, later⟩ := List.pairwise_cons.mp halfway.alone
  rw [rest] at within shape
  obtain ⟨afterShape, afterFound⟩ := shape.after s
  refine ⟨List.forall_mem_cons.mpr ⟨within.2 _, part⟩,
    List.forall_mem_cons.mpr ⟨afterShape, shaped⟩,
    List.forall_mem_cons.mpr ⟨fun key existing delta pending => ?_,
      fun b mem key existing delta pending => ?_⟩,
    List.pairwise_cons.mpr ⟨first, later⟩⟩
  · obtain ⟨lookup, value⟩ := afterFound key existing delta pending
    rw [looked key lookup, value]
    rfl
  · have thread := thread_of_pendingInsert (part b mem) pending
    have foreign : a.event.thread ≠ some key.pid := fun same =>
      first b mem ⟨by simp [same], same.trans thread.symm⟩
    obtain ⟨noLookup, bucket⟩ := bucket_exec_of_other within.1 foreign s
    exact (found b mem key existing delta pending).trans (kept key noLookup bucket).symm

theorem Halfway.turn {held held' : BucketKey → UInt64} {l : List (Active Nat Action Answer)}
    {t : Nat} {s : State L} {op : Option Access} {m : Threads (State L) Nat Action Answer}
    (halfway : Halfway held l) (turn : Turn (exec L) t s l op m)
    (looked : ∀ key, op = some (.bucketsGet key) → held' key = s.bucket key)
    (kept : ∀ key, op ≠ some (.bucketsGet key) → m.shared.bucket key = s.bucket key →
      held' key = held key) : Halfway held' m.active := by
  cases turn with
  | absent => exact halfway.sublist (List.Sublist.refl l) fun key => kept key (by simp) rfl
  | leave pre post rest =>
      exact halfway.sublist (List.Sublist.append_left (List.sublist_cons_self ..) pre)
        fun key => kept key (by simp) rfl
  | access pre post rest =>
      exact ((halfway.perm List.perm_middle).access rest
        (fun key lookup => looked key (congrArg some lookup))
        fun key other => kept key fun same => other (Option.some.inj same)).perm
          List.perm_middle.symm

/-- What a handler that looked a bucket up has found: what is there, with what has been
removed since. -/
def heldIn (L : Limits) (target : UInt32) (h : List FineStep) (key : BucketKey) : UInt64 :=
  ((overlapped L target).run h).flush.maps.bucket key + removedSinceLookup L target h key

theorem heldIn_advance (h : List FineStep) (t : Nat) (key : BucketKey) :
    heldIn L target (.handler (.advance t) :: h) key =
      (advanceIn (exec L) t ((overlapped L target).run h).active
          ((overlapped L target).run h).flush.maps).shared.bucket key +
        if nextAccess t ((overlapped L target).run h).active = some (.bucketsGet key) then 0
        else removedSinceLookup L target h key := rfl

theorem maps_flush (m : Monitor L) {f : FlushStep} (keeps : f ≠ .removeNext) :
    (m.next f.step).maps = m.maps := by
  cases f with
  | removeNext => exact absurd rfl keeps
  | _ =>
      simp only [FlushStep.step, Monitor.next]
      split <;> rfl

/-- A removal moves what a handler has found from the bucket to the removed time. -/
theorem heldIn_flush (h : List FineStep) (f : FlushStep) (key : BucketKey) :
    heldIn L target (.flush f :: h) key = heldIn L target h key := by
  have next : ((overlapped L target).run (.flush f :: h)).flush =
      ((overlapped L target).run h).flush.next f.step := rfl
  rw [heldIn, heldIn, next]
  cases f with
  | removeNext =>
      simp only [FlushStep.step, Monitor.next, removedSinceLookup]
      cases queue : ((overlapped L target).run h).flush.removing with
      | none => rfl
      | some ks =>
          cases ks with
          | nil => rfl
          | cons k ks =>
              dsimp only
              rw [bucket_remove]
              split
              next => rw [zero_add, add_comm]
              next => rw [add_zero]
  | read k =>
      have maps := maps_flush ((overlapped L target).run h).flush (f := .read k) (by simp)
      exact congrArg (·.bucket key + removedSinceLookup L target h key) maps
  | endOfIteration =>
      have maps := maps_flush ((overlapped L target).run h).flush (f := .endOfIteration) (by simp)
      exact congrArg (·.bucket key + removedSinceLookup L target h key) maps
  | report =>
      have maps := maps_flush ((overlapped L target).run h).flush (f := .report) (by simp)
      exact congrArg (·.bucket key + removedSinceLookup L target h key) maps

theorem overlapped_halfway {h : List FineStep} (law : Lawful (FineOneAtATime L target) h) :
    Halfway (heldIn L target h) ((overlapped L target).run h).active := by
  induction h with
  | nil => exact .nil _
  | cons a h ih =>
      have halfway := ih law.2
      cases a with
      | handler e =>
          cases e with
          | enter t e =>
              have same (key : BucketKey) :
                  heldIn L target (.handler (.enter t e) :: h) key = heldIn L target h key := by
                simp [heldIn, removedSinceLookup, Overlap.access, overlapped, Overlap.next,
                  Threads.next]
              exact (halfway.sublist (List.Sublist.refl _) same).cons t law.1
          | advance t =>
              have turn := advanceIn_turn (exec L) t ((overlapped L target).run h).active
                ((overlapped L target).run h).flush.maps
              refine halfway.turn turn ?_ ?_
              · intro key lookup
                have bucket := advanceIn_maps ((overlapped L target).run h).flush.maps
                  ((overlapped L target).run h).active t
                rw [lookup] at bucket
                rw [heldIn_advance, if_pos lookup, bucket, add_zero]
                rfl
              · intro key other bucket
                have bucket : (advanceIn (exec L) t ((overlapped L target).run h).active
                    ((overlapped L target).run h).flush.maps).shared.bucket key = _ := bucket
                rw [heldIn_advance, if_neg other, bucket, heldIn]
      | flush f => exact halfway.sublist (List.Sublist.refl _) (heldIn_flush h f)

/-- What an insert brings back is the time removed since its handler looked the bucket up. -/
theorem revived_eq_removed {h : List FineStep} (law : Lawful (FineOneAtATime L target) h)
    {a : FineStep} {key : BucketKey} {existing : Option UInt64} {delta : UInt64}
    (insert : ((overlapped L target).run h).insert a = some (key, existing, delta)) :
    existing.getD 0 - ((overlapped L target).run h).flush.maps.bucket key =
      removedSinceLookup L target h key := by
  have halfway := overlapped_halfway law
  unfold Overlap.insert Overlap.access at insert
  cases a with
  | flush f => simp at insert
  | handler e =>
      cases e with
      | enter t e => simp at insert
      | advance t =>
          have turn := advanceIn_turn (exec L) t ((overlapped L target).run h).active
            ((overlapped L target).run h).flush.maps
          dsimp only at insert
          generalize advanceIn (exec L) t ((overlapped L target).run h).active
            ((overlapped L target).run h).flush.maps = m at turn
          split at insert
          next key' existing' delta' access =>
              split at insert
              next =>
                  cases insert
                  rw [access] at turn
                  generalize split : ((overlapped L target).run h).active = l at turn
                  cases turn with
                  | @access pre post a op next rest =>
                      have member : a ∈ ((overlapped L target).run h).active := by
                        rw [split]
                        exact List.mem_append_right pre (List.mem_cons_self ..)
                      have found := halfway.found a member key existing delta (by
                        rw [rest]
                        rfl)
                      rw [found, heldIn]
                      abel
              next => cases insert
          next => cases insert

/-- A bucket that has been read holds what was read and what was added since. -/
theorem fine_grown_since_read (h : List FineStep) (k : BucketKey) :
    ((overlapped L target).run h).flush.Grown k (addedSinceRead L target h k) := by
  induction h with
  | nil => exact fun listed => absurd listed List.not_mem_nil
  | cons a h ih =>
      cases a with
      | handler e =>
          intro listed waiting
          have bucket : ((overlapped L target).run (.handler e :: h)).flush.maps.bucket k = _ :=
            bucket_handler ((overlapped L target).run h) e k
          rw [bucket, ih listed waiting, addedSinceRead, add_assoc, add_assoc, add_assoc]
          rfl
      | flush f =>
          have effect : Effect ((overlapped L target).run h).flush f.step
              ((overlapped L target).run (.flush f :: h)).flush := next_effect _ f.step
          refine effect.grown (overlapped_visits h) (fun b same => by cases f <;> cases same) ih ?_
            fun unread => ?_
          · intro same found
            cases f with
            | read key =>
                cases same
                simp [addedSinceRead, found]
            | _ => cases same
          · cases f with
            | read key =>
                have unread : ¬(k = key ∧
                    (((overlapped L target).run h).flush.reads key).isSome) := by
                  rintro ⟨rfl, found⟩
                  simp [unread rfl] at found
                exact if_neg unread
            | _ => rfl

/-- A removal discards what was added since the read, an insert brings back what was
removed since the lookup. -/
theorem fineErrors_eq_zero_iff {h : List FineStep} (law : Lawful (FineOneAtATime L target) h)
    {a : FineStep} : (∀ k, fineErrors L target h a k = 0) ↔ Untorn L target h a := by
  cases a with
  | handler e =>
      simp only [fineErrors, Overlap.lost, Overlap.revived, Untorn, sub_zero]
      cases insert : ((overlapped L target).run h).insert (.handler e) with
      | none => simp
      | some x =>
          rcases x with ⟨key, existing, delta⟩
          have revived := revived_eq_removed law insert
          constructor
          · intro none key' existing' delta' same
            cases same
            have brought := none key
            dsimp only at brought
            rwa [if_pos rfl, revived] at brought
          · intro quiet k
            dsimp only
            split
            next same => rw [same, revived, quiet key existing delta rfl]
            next => rfl
  | flush f =>
      have nothing (k : BucketKey) : ((overlapped L target).run h).revived (.flush f) k = 0 := rfl
      simp only [fineErrors, nothing, Overlap.lost, zero_sub, neg_eq_zero]
      cases f with
      | removeNext => exact lost_removeNext_iff (overlapped_visits h) (fine_grown_since_read h)
      | _ => exact ⟨fun _ => trivial, fun _ _ => rfl⟩

end

/-- As long as no two handlers about one thread overlap, all credited time is reported or
still to be reported in every state of a run, and once, exactly when no insert falls
between the two accesses of a flush and no removal between the two accesses of a handler,
unless what it adds or removes is no time. -/
theorem fine_conserves_iff {target : UInt32} {h : List FineStep}
    (law : Lawful (FineOneAtATime L target) h) :
    Lawful (FineConserved L target) h ↔ Lawful (Untorn L target) h := by
  have exact (h : List FineStep) (a : FineStep) : FineConserved L target h a ↔
      ∀ k, (fineErrors L target).balance (a :: h) k = 0 := by
    apply forall_congr'
    intro k
    rw [fine_conservation (a :: h) k]
    exact add_eq_left
  rw [lawful_congr exact, Ledger.lawful_balance_eq_zero_iff]
  induction h with
  | nil => exact Iff.rfl
  | cons a h ih => exact and_congr (fineErrors_eq_zero_iff law.2) (ih law.2)

/-- A handler looks a bucket up, a flush reports and removes it, the handler inserts the
old total with the new time. -/
def tornUpdate : List FineStep :=
  [.handler (.advance 1),
    .flush .report, .flush .removeNext, .flush .endOfIteration, .flush (.read ⟨7, 3⟩),
    .handler (.advance 1), .handler (.advance 1), .handler (.advance 1),
    .handler (.enter 1 (.schedWakeup (tracePoint 7 45))),
    .handler (.advance 0), .handler (.advance 0), .handler (.advance 0),
    .handler (.enter 0 (.schedSwitch (tracePoint 7 30 42 1 3))),
    .handler (.advance 0), .handler (.advance 0), .handler (.advance 0), .handler (.advance 0),
    .handler (.advance 0),
    .handler (.enter 0 (.schedWakeup (tracePoint 7 20))),
    .handler (.advance 0), .handler (.advance 0), .handler (.advance 0),
    .handler (.enter 0 (.schedSwitch (tracePoint 7 10 42 1 3)))]

/-- The first sleep, of 10, is reported and still in the bucket. -/
theorem tornUpdate_twice :
    ¬ Lawful (FineConserved declared 42) tornUpdate ∧
      ((overlapped declared 42).run tornUpdate).flush.reportedTotal ⟨7, 3⟩ = 10 ∧
      ((overlapped declared 42).run tornUpdate).flush.unreported ⟨7, 3⟩ = 25 ∧
      (fineCredits declared 42).balance tornUpdate ⟨7, 3⟩ = 25 := by
  have apart : Lawful (FineOneAtATime declared 42) tornUpdate := by decide +kernel
  refine ⟨fun conserved => ?_, by decide +kernel, by decide +kernel, by decide +kernel⟩
  have untorn := ((fine_conserves_iff apart).mp conserved).1
  have removed := untorn ⟨7, 3⟩ (some 10) 15 (by decide +kernel)
  revert removed
  decide +kernel

end Tragach.Iowait
