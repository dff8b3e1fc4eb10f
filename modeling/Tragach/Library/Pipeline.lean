import Mathlib.Algebra.Order.BigOperators.Group.List
import Mathlib.Algebra.Order.Ring.Nat
import Tragach.Library.Runs

/-! # A producer and a consumer with a bounded queue between them

A step of the producer offers a record or none. The queue takes the record if there is
room for it and refuses it otherwise, and the producer is told which. The consumer takes
the records out in order, one at a time and at any moment, and prints, suppresses or drops
each of them. Nothing is lost between the two: an offered record was refused, has been
handled or is still in the queue.
-/

namespace Tragach.Library

variable {σ α ρ τ ω : Type*}

/-! ## The queue -/

/-- Records whose weights add up to at most `limit`, oldest first. -/
structure BoundedQueue (ρ : Type*) (weight : ρ → Nat) (limit : Nat) where
  records : List ρ
  bounded : (records.map weight).sum ≤ limit

namespace BoundedQueue

variable {weight : ρ → Nat} {limit : Nat}

def empty : BoundedQueue ρ weight limit := ⟨[], Nat.zero_le _⟩

def room (q : BoundedQueue ρ weight limit) (r : ρ) : Bool :=
  decide ((q.records.map weight).sum + weight r ≤ limit)

def push (q : BoundedQueue ρ weight limit) (r : ρ) : BoundedQueue ρ weight limit :=
  if fits : q.room r = true then
    ⟨q.records ++ [r], by simpa [room] using fits⟩
  else q

def pop (q : BoundedQueue ρ weight limit) : Option (ρ × BoundedQueue ρ weight limit) :=
  match split : q.records with
  | [] => none
  | r :: rest => some (r, ⟨rest, by
      have bounded := q.bounded
      rw [split, List.map_cons, List.sum_cons] at bounded
      omega⟩)

theorem records_push {q : BoundedQueue ρ weight limit} {r : ρ} (fits : q.room r = true) :
    (q.push r).records = q.records ++ [r] := by
  rw [push, dif_pos fits]

/-- What may be offered is taken if there is room. -/
theorem records_offer (q : BoundedQueue ρ weight limit) (offered : Option ρ) :
    (offered.elim q q.push).records =
      q.records ++ if offered.any q.room = true then offered.toList else [] := by
  cases offered with
  | none => simp
  | some r =>
      cases fits : q.room r with
      | true => simp [records_push fits, fits]
      | false => simp [push, fits]

theorem pop_eq_none {q : BoundedQueue ρ weight limit} (drained : q.pop = none) :
    q.records = [] := by
  unfold pop at drained
  split at drained
  next split => exact split
  next => cases drained

theorem records_pop {q q' : BoundedQueue ρ weight limit} {r : ρ} (popped : q.pop = some (r, q')) :
    q.records = r :: q'.records := by
  unfold pop at popped
  split at popped
  next => cases popped
  next split =>
      cases popped
      exact split

/-- As many records of weight `w` and more as the limit allows. -/
theorem length_mul_le (q : BoundedQueue ρ weight limit) {w : Nat}
    (heavy : ∀ r ∈ q.records, w ≤ weight r) : q.records.length * w ≤ limit := by
  refine Nat.le_trans ?_ q.bounded
  have each : ∀ x ∈ q.records.map weight, w ≤ x := by
    intro x mem
    obtain ⟨r, here, same⟩ := List.mem_map.mp mem
    exact same ▸ heavy r here
  have total := List.card_nsmul_le_sum (q.records.map weight) w each
  rwa [List.length_map] at total

end BoundedQueue

/-! ## Producer and consumer -/

inductive Outcome (ω : Type*) where
  | printed (line : ω)
  | suppressed
  | dropped

def Outcome.isPrinted : Outcome ω → Bool
  | .printed _ => true
  | _ => false

def Outcome.isSuppressed : Outcome ω → Bool
  | .suppressed => true
  | _ => false

def Outcome.isDropped : Outcome ω → Bool
  | .dropped => true
  | _ => false

def Outcome.line : Outcome ω → Option ω
  | .printed line => some line
  | .suppressed => none
  | .dropped => none

/-- The two sides; `submitted` is what the producer believes the queue has taken. -/
structure Pipeline (σ α ρ τ ω : Type*) where
  weight : ρ → Nat
  limit : Nat
  producer : σ
  offer : σ → α → Option ρ
  fire : σ → α → Bool → σ
  submitted : σ → List ρ
  submits : ∀ s a granted, submitted (fire s a granted) =
    submitted s ++ if granted = true then (offer s a).toList else []
  fresh : submitted producer = []
  consumer : τ
  handle : τ → ρ → τ × Outcome ω

namespace Pipeline

inductive Step (α : Type*) where
  | produce (a : α)
  | consume

/-- Both sides, the queue, and the records handled so far with what became of them. -/
structure State (P : Pipeline σ α ρ τ ω) where
  producer : σ
  queue : BoundedQueue ρ P.weight P.limit
  consumer : τ
  handled : List (ρ × Outcome ω)

variable (P : Pipeline σ α ρ τ ω)

def granted (s : P.State) (a : α) : Bool := (P.offer s.producer a).any s.queue.room

def step (s : P.State) : Step α → P.State
  | .produce a =>
      { s with
        producer := P.fire s.producer a (P.granted s a)
        queue := (P.offer s.producer a).elim s.queue s.queue.push }
  | .consume =>
      match s.queue.pop with
      | none => s
      | some (r, queue) =>
          { s with
            queue := queue
            consumer := (P.handle s.consumer r).1
            handled := s.handled ++ [(r, (P.handle s.consumer r).2)] }

def system : System P.State (Step α) := ⟨⟨P.producer, .empty, P.consumer, []⟩, P.step⟩

/-- The steps that offered a record. -/
def attempts : List (Step α) → Nat
  | [] => 0
  | .produce a :: h =>
      attempts h + if (P.offer (P.system.run h).producer a).isSome = true then 1 else 0
  | .consume :: h => attempts h

/-- The steps that offered a record for which there was no room. -/
def refused : List (Step α) → Nat
  | [] => 0
  | .produce a :: h =>
      refused h + if (P.offer (P.system.run h).producer a).isSome = true ∧
        P.granted (P.system.run h) a = false then 1 else 0
  | .consume :: h => refused h

def count (kind : Outcome ω → Bool) (s : P.State) : Nat := s.handled.countP fun x => kind x.2

variable {P}

theorem records_produce (s : P.State) (a : α) :
    (P.step s (.produce a)).queue.records =
      s.queue.records ++ if P.granted s a = true then (P.offer s.producer a).toList else [] :=
  BoundedQueue.records_offer s.queue (P.offer s.producer a)

theorem step_consume (s : P.State) :
    (s.queue.records = [] ∧ P.step s .consume = s) ∨
      ∃ r, s.queue.records = r :: (P.step s .consume).queue.records ∧
        (P.step s .consume).producer = s.producer ∧
        (P.step s .consume).consumer = (P.handle s.consumer r).1 ∧
        (P.step s .consume).handled = s.handled ++ [(r, (P.handle s.consumer r).2)] := by
  simp only [step]
  cases popped : s.queue.pop with
  | none => exact .inl ⟨BoundedQueue.pop_eq_none popped, rfl⟩
  | some x =>
      rcases x with ⟨r, queue⟩
      exact .inr ⟨r, BoundedQueue.records_pop popped, rfl, rfl, rfl⟩

theorem handled_produce (s : P.State) (a : α) : (P.step s (.produce a)).handled = s.handled := rfl

@[simp] theorem system_step (s : P.State) (e : Step α) : P.system.step s e = P.step s e := rfl

/-- An offered record was refused, has been handled or is still in the queue. -/
theorem attempts_eq (h : List (Step α)) :
    P.attempts h = P.refused h + (P.system.run h).handled.length +
      (P.system.run h).queue.records.length := by
  induction h with
  | nil => rfl
  | cons e h ih =>
      rw [System.run_cons, system_step]
      cases e with
      | produce a =>
          rw [attempts, refused, records_produce, handled_produce, List.length_append]
          by_cases taken : P.granted (P.system.run h) a = true
          · cases offered : P.offer (P.system.run h).producer a with
            | none => simp [taken, ih]
            | some r =>
                simp only [taken, if_true, Option.isSome_some, Option.toList_some,
                  List.length_singleton, Bool.true_eq_false, and_false, if_false]
                omega
          · have kept : P.granted (P.system.run h) a = false := by simpa using taken
            simp only [kept, and_true, Bool.false_eq_true, if_false, List.length_nil]
            omega
      | consume =>
          rw [attempts, refused]
          rcases step_consume (P.system.run h) with ⟨-, same⟩ | ⟨r, records, -, -, handled⟩
          · rw [same, ih]
          · rw [handled, List.length_append, List.length_singleton, ih, records, List.length_cons]
            omega

/-- The queue takes and hands out the records in order, each of them once. -/
theorem submitted_eq (h : List (Step α)) :
    P.submitted (P.system.run h).producer =
      (P.system.run h).handled.map Prod.fst ++ (P.system.run h).queue.records := by
  induction h with
  | nil => exact P.fresh
  | cons e h ih =>
      rw [System.run_cons, system_step]
      cases e with
      | produce a =>
          have producer : (P.step (P.system.run h) (.produce a)).producer =
              P.fire (P.system.run h).producer a (P.granted (P.system.run h) a) := rfl
          rw [records_produce, handled_produce, producer, P.submits, ih, List.append_assoc]
      | consume =>
          rcases step_consume (P.system.run h) with ⟨-, same⟩ | ⟨r, records, producer, -, handled⟩
          · rw [same, ih]
          · rw [producer, handled, ih, records, List.map_append]
            simp

/-- What holds of the consumer at the start and after every record that a step may have
offered holds throughout. -/
theorem consumer_invariant {I : τ → List (ρ × Outcome ω) → Prop} {R : ρ → Prop}
    (start : I P.consumer []) (offered : ∀ s a r, P.offer s a = some r → R r)
    (handle : ∀ t l r, I t l → R r → I (P.handle t r).1 (l ++ [(r, (P.handle t r).2)]))
    (h : List (Step α)) :
    I (P.system.run h).consumer (P.system.run h).handled ∧
      ∀ r ∈ (P.system.run h).queue.records, R r := by
  induction h with
  | nil => exact ⟨start, fun r mem => by cases mem⟩
  | cons e h ih =>
      rw [System.run_cons, system_step]
      cases e with
      | produce a =>
          refine ⟨ih.1, fun r mem => ?_⟩
          rw [records_produce, List.mem_append] at mem
          rcases mem with before | now
          · exact ih.2 r before
          · split at now
            · exact offered _ a r (Option.mem_toList.mp now)
            · cases now
      | consume =>
          rcases step_consume (P.system.run h) with
            ⟨-, same⟩ | ⟨r, records, -, consumer, handled⟩
          · rw [same]
            exact ih
          · have front : R r := ih.2 r (by rw [records]; exact List.mem_cons_self)
            refine ⟨?_, fun r' mem => ?_⟩
            · rw [consumer, handled]
              exact handle _ _ r ih.1 front
            · exact ih.2 r' (by rw [records]; exact List.mem_cons_of_mem r mem)

/-- The queue holds what steps may have offered. -/
theorem queued {R : ρ → Prop} (offered : ∀ s a r, P.offer s a = some r → R r)
    (h : List (Step α)) : ∀ r ∈ (P.system.run h).queue.records, R r :=
  (consumer_invariant (I := fun _ _ => True) trivial offered (fun _ _ _ _ _ => trivial) h).2

theorem handled_length (s : P.State) :
    s.handled.length = P.count Outcome.isPrinted s + P.count Outcome.isSuppressed s +
      P.count Outcome.isDropped s := by
  simp only [count]
  induction s.handled with
  | nil => rfl
  | cons x handled ih =>
      rw [List.length_cons, List.countP_cons, List.countP_cons, List.countP_cons, ih]
      cases x.2 <;> simp [Outcome.isPrinted, Outcome.isSuppressed, Outcome.isDropped] <;> omega

/-- Every offered record is printed, suppressed, dropped, refused or in the queue. -/
theorem accounted (h : List (Step α)) :
    P.count Outcome.isPrinted (P.system.run h) + P.count Outcome.isSuppressed (P.system.run h) +
        P.count Outcome.isDropped (P.system.run h) + P.refused h +
        (P.system.run h).queue.records.length = P.attempts h := by
  have attempts := attempts_eq (P := P) h
  have kinds := handled_length (P.system.run h)
  omega

/-! ## Draining -/

theorem records_consume (s : P.State) :
    (P.step s .consume).queue.records = s.queue.records.tail := by
  rcases step_consume s with ⟨drained, same⟩ | ⟨r, records, -, -, -⟩
  · rw [same, drained]
    rfl
  · rw [records, List.tail_cons]

/-- Taking out as many records as there are leaves the queue empty; nothing is offered or
refused meanwhile. -/
theorem drain (h : List (Step α)) (n : Nat) :
    (P.system.run (List.replicate n .consume ++ h)).queue.records =
        (P.system.run h).queue.records.drop n ∧
      P.attempts (List.replicate n .consume ++ h) = P.attempts h ∧
      P.refused (List.replicate n .consume ++ h) = P.refused h := by
  induction n with
  | zero => exact ⟨rfl, rfl, rfl⟩
  | succ n ih =>
      rcases ih with ⟨records, attempts, refused⟩
      refine ⟨?_, attempts, refused⟩
      rw [List.replicate_succ, List.cons_append, System.run_cons, system_step, records_consume,
        records, List.tail_drop]

/-- A consumer that drops none of the records that a step may have offered, and counts what
it drops, has counted none. -/
theorem none_dropped {ν : Type*} {R : ρ → Prop} (dropped : τ → ν)
    (offered : ∀ s a r, P.offer s a = some r → R r)
    (handle : ∀ t r, R r → dropped (P.handle t r).1 = dropped t ∧ (P.handle t r).2.isDropped = false)
    (h : List (Step α)) :
    dropped (P.system.run h).consumer = dropped P.consumer ∧
      P.count Outcome.isDropped (P.system.run h) = 0 := by
  have both := consumer_invariant (P := P) (R := R)
    (I := fun t handled => dropped t = dropped P.consumer ∧ ∀ x ∈ handled, x.2.isDropped = false)
    ⟨rfl, fun x mem => by cases mem⟩ offered ?_ h
  · refine ⟨both.1.1, ?_⟩
    rw [count, List.countP_eq_zero]
    intro x mem
    simp [both.1.2 x mem]
  · intro t handled r before good
    obtain ⟨kept, taken⟩ := handle t r good
    refine ⟨kept.trans before.1, fun x mem => ?_⟩
    rcases List.mem_append.mp mem with old | new
    · exact before.2 x old
    · rw [List.mem_singleton.mp new]
      exact taken

/-! ## Each side by itself -/

variable (P)

def answered : List (Step α) → List (α × Bool)
  | [] => []
  | .produce a :: h => (a, P.granted (P.system.run h) a) :: answered h
  | .consume :: h => answered h

def producing : System σ (α × Bool) := ⟨P.producer, fun s x => P.fire s x.1 x.2⟩

def consumed (records : List ρ) : τ × List (Outcome ω) :=
  records.foldl
    (fun acc r => ((P.handle acc.1 r).1, acc.2 ++ [(P.handle acc.1 r).2])) (P.consumer, [])

variable {P}

/-- However the two sides take turns, the producer runs as it would alone with the same
answers. -/
theorem producer_eq (h : List (Step α)) :
    (P.system.run h).producer = P.producing.run (P.answered h) := by
  induction h with
  | nil => rfl
  | cons e h ih =>
      rw [System.run_cons, system_step]
      cases e with
      | produce a =>
          have alone : P.producing.run (P.answered (.produce a :: h)) =
              P.fire (P.producing.run (P.answered h)) a (P.granted (P.system.run h) a) := rfl
          rw [alone, ← ih]
          rfl
      | consume =>
          rw [answered, ← ih]
          rcases step_consume (P.system.run h) with ⟨-, same⟩ | ⟨r, -, producer, -, -⟩
          · rw [same]
          · exact producer

theorem consumed_eq (h : List (Step α)) :
    P.consumed ((P.system.run h).handled.map Prod.fst) =
      ((P.system.run h).consumer, (P.system.run h).handled.map Prod.snd) := by
  refine (consumer_invariant (R := fun _ => True)
    (I := fun t handled => P.consumed (handled.map Prod.fst) = (t, handled.map Prod.snd))
    rfl (fun _ _ _ _ => trivial) ?_ h).1
  intro t handled r before _
  have last : P.consumed ((handled ++ [(r, (P.handle t r).2)]).map Prod.fst) =
      ((P.handle (P.consumed (handled.map Prod.fst)).1 r).1,
        (P.consumed (handled.map Prod.fst)).2 ++
          [(P.handle (P.consumed (handled.map Prod.fst)).1 r).2]) := by
    rw [consumed, List.map_append, List.foldl_append]
    rfl
  rw [last, before, List.map_append]
  rfl

theorem handled_eq_take (h : List (Step α)) :
    (P.system.run h).handled.map Prod.fst =
      (P.submitted (P.system.run h).producer).take (P.system.run h).handled.length := by
  rw [submitted_eq, List.take_left' (List.length_map ..)]

theorem granted_of_refused {h : List (Step α)} {a : α} (none : P.refused (.produce a :: h) = 0)
    (offered : (P.offer (P.system.run h).producer a).isSome = true) :
    P.granted (P.system.run h) a = true := by
  by_contra full
  rw [refused, if_pos ⟨offered, by simpa using full⟩] at none
  omega

end Pipeline

end Tragach.Library
