import Tragach.Library.Reorder
import Tragach.Slowquery.Actions

/-! # Steps that can be swapped

On maps that refuse and evict nothing, a step touches the in-flight records of its own
thread, the requests and cursors that its in-flight record and its registers name, and
nothing else. Steps of different threads that touch no request or cursor of each other
can be taken in either order.
-/

namespace Tragach.Slowquery

open Bpf Common Library

variable {L : Limits}

def unlimited : Limits := ⟨none, none⟩

/-- The kernel evicts nothing and the ring has room. -/
def Action.Unhindered : Action → Prop
  | .entry _ c => c.evicted = [] ∧ c.slot.isSome = true
  | .exit _ c => c.evicted = [] ∧ c.slot.isSome = true
  | .abandon _ _ => True

def Action.thread : Action → UInt32
  | .entry _ c => c.tid
  | .exit _ c => c.tid
  | .abandon _ t => t

/-! ## Footprints -/

inductive Key where
  | request (r : UInt64)
  | cursor (k : UInt64)
  deriving DecidableEq

def reads (s : State L) : Action → List Key
  | .exit .execute c =>
      match s.executeInProgress.get c.tid with
      | some e => [.request e.dsqlRequestPtr]
      | none => []
  | .exit .fetchNext c =>
      match s.fetchInProgress.get c.tid with
      | some cursor =>
          if c.regs.rax = 1 then
            .cursor cursor :: match s.openCursors.get cursor with
              | some oc => [.request oc.dsqlRequestPtr]
              | none => []
          else []
      | none => []
  | _ => []

def writes (s : State L) : Action → List Key
  | .exit .prepare c =>
      match s.prepareInProgress.get c.tid with
      | some _ => if c.regs.rax = 0 then [] else [.request c.regs.rax]
      | none => []
  | .exit .openCursor c =>
      match s.openCursorInProgress.get c.tid with
      | some _ => if c.regs.rax = 0 then [] else [.cursor c.regs.rax]
      | none => []
  | .exit .fetchNext c =>
      match s.fetchInProgress.get c.tid with
      | some cursor =>
          if c.regs.rax = 1 ∧ (s.openCursors.get cursor).isSome = true then [.cursor cursor] else []
      | none => []
  | _ => []

structure Footprint where
  thread : UInt32
  reads : List Key
  writes : List Key

def footprint (s : State L) (a : Action) : Footprint := ⟨a.thread, reads s a, writes s a⟩

/-- One thread, or a key that one of the two writes and the other reads or writes. -/
def Footprint.Clash (x y : Footprint) : Prop :=
  x.thread = y.thread ∨ (∃ k ∈ x.writes, k ∈ y.reads ∨ k ∈ y.writes) ∨
    ∃ k ∈ y.writes, k ∈ x.reads ∨ k ∈ x.writes

instance (x y : Footprint) : Decidable (x.Clash y) := inferInstanceAs (Decidable (_ ∨ _ ∨ _))

/-- The maps and the multiset of events are the same. -/
structure State.Same (s s' : State L) : Prop where
  inflight : ∀ f, s.inflight f = s'.inflight f
  preparedStatements : s.preparedStatements = s'.preparedStatements
  openCursors : s.openCursors = s'.openCursors
  events : s.events.Perm s'.events

/-! ## What a step leaves alone -/

section

variable {s : State L} {a b : Action}

theorem inflightOp_other {t : UInt32} (other : t ≠ a.thread) (f : Fn) :
    inflightOp s f a t = .keep := by
  cases a with
  | entry g c =>
      have ne : t ≠ c.tid := other
      simp only [inflightOp]
      cases f.record c with
      | none => rfl
      | some r => simp [HashMap.insertOp, ne]
  | exit g c =>
      have ne : t ≠ c.tid := other
      simp [inflightOp, ne]
  | abandon g u => rfl

theorem get_inflight_other {t : UInt32} (other : t ≠ a.thread) (f : Fn) :
    ((fire s a).inflight f).get t = (s.inflight f).get t := by
  rw [get_inflight_fire, inflightOp_other other, CellOp.apply_keep]

theorem records_other {t : UInt32} (other : t ≠ a.thread) :
    (fire s a).prepareInProgress.get t = s.prepareInProgress.get t ∧
      (fire s a).executeInProgress.get t = s.executeInProgress.get t ∧
      (fire s a).immediateInProgress.get t = s.immediateInProgress.get t ∧
      (fire s a).openCursorInProgress.get t = s.openCursorInProgress.get t ∧
      (fire s a).fetchInProgress.get t = s.fetchInProgress.get t :=
  ⟨get_inflight_other other .prepare, get_inflight_other other .execute,
    get_inflight_other other .executeImmediate, get_inflight_other other .openCursor,
    get_inflight_other other .fetchNext⟩

theorem preparedOp_off (unhindered : a.Unhindered) {r : UInt64}
    (off : .request r ∉ writes s a) : preparedOp s a r = .keep := by
  cases a with
  | entry g c => rfl
  | abandon g u => rfl
  | exit g c =>
      cases g with
      | prepare =>
          simp only [preparedOp, writes] at off ⊢
          cases held : s.prepareInProgress.get c.tid with
          | none => rfl
          | some e =>
              by_cases null : c.regs.rax = 0
              · simp [null]
              · have ne : r ≠ c.regs.rax := by simpa [held, null] using off
                simp [null, LruHashMap.insertOp, unhindered.1, ne]
      | _ => rfl

/-- A cursor that is not written is left alone, or looked up and not found. -/
theorem cursorOp_off (unhindered : a.Unhindered) {k : UInt64} (off : .cursor k ∉ writes s a) :
    cursorOp s a k = .keep ∨
      cursorOp s a k = .drop ∧ s.openCursors.get k = none ∧ .cursor k ∈ reads s a := by
  cases a with
  | entry g c => exact .inl rfl
  | abandon g u => exact .inl rfl
  | exit g c =>
      cases g with
      | openCursor =>
          refine .inl ?_
          simp only [cursorOp, writes] at off ⊢
          cases held : s.openCursorInProgress.get c.tid with
          | none => rfl
          | some e =>
              by_cases null : c.regs.rax = 0
              · simp [null]
              · have ne : k ≠ c.regs.rax := by simpa [held, null] using off
                simp [null, LruHashMap.insertOp, unhindered.1, ne]
      | fetchNext =>
          simp only [cursorOp, writes] at off ⊢
          cases held : s.fetchInProgress.get c.tid with
          | none => exact .inl rfl
          | some cursor =>
              by_cases ends : c.regs.rax = 1 ∧ k = cursor
              · refine .inr ⟨by simp [ends], ?_, by simp [reads, held, ends]⟩
                rcases ends with ⟨eof, same⟩
                subst same
                simpa [held, eof] using off
              · exact .inl (by simp [ends])
      | _ => exact .inl rfl

theorem get_preparedStatements_off (unhindered : a.Unhindered) {r : UInt64}
    (off : .request r ∉ writes s a) :
    (fire s a).preparedStatements.get r = s.preparedStatements.get r := by
  rw [get_preparedStatements_fire, preparedOp_off unhindered off, CellOp.apply_keep]

theorem get_openCursors_off (unhindered : a.Unhindered) {k : UInt64}
    (off : .cursor k ∉ writes s a) : (fire s a).openCursors.get k = s.openCursors.get k := by
  rw [get_openCursors_fire]
  rcases cursorOp_off unhindered off with keep | ⟨drop, absent, -⟩
  · rw [keep, CellOp.apply_keep]
  · rw [drop, CellOp.apply_drop, absent]

/-! ## A step after another one -/

/-- A step reads and writes the same keys after a step of another thread that does not
write the cursor it looks up. -/
theorem footprint_fire (unhindered : a.Unhindered) (threads : a.thread ≠ b.thread)
    (free : ∀ k, .cursor k ∈ reads s b → .cursor k ∉ writes s a) :
    footprint (fire s a) b = footprint s b := by
  cases b with
  | entry g c => rfl
  | abandon g u => rfl
  | exit g c =>
      have other : c.tid ≠ a.thread := Ne.symm threads
      rcases records_other (s := s) other with ⟨prepare, execute, -, opened, fetch⟩
      cases g with
      | prepare => simp only [footprint, reads, writes, prepare]
      | execute => simp only [footprint, reads, writes, execute]
      | executeImmediate => rfl
      | openCursor => simp only [footprint, reads, writes, opened]
      | fetchNext =>
          simp only [footprint, reads, writes] at free ⊢
          rw [fetch]
          cases held : s.fetchInProgress.get c.tid with
          | none => rfl
          | some cursor =>
              by_cases eof : c.regs.rax = 1
              · have off := free cursor (by simp [held, eof])
                simp only [get_openCursors_off unhindered off]
              · simp [eof]

/-- It takes the same event to `emit_event` when no key that it looks up is written. -/
theorem attempted_fire (unhindered : a.Unhindered) (threads : a.thread ≠ b.thread)
    (free : ∀ k ∈ reads s b, k ∉ writes s a) : attempted (fire s a) b = attempted s b := by
  cases b with
  | entry g c => rfl
  | abandon g u => rfl
  | exit g c =>
      have other : c.tid ≠ a.thread := Ne.symm threads
      rcases records_other (s := s) other with ⟨-, execute, immediate, -, fetch⟩
      cases g with
      | prepare => rfl
      | openCursor => rfl
      | execute =>
          simp only [attempted, reads] at free ⊢
          rw [execute]
          cases held : s.executeInProgress.get c.tid with
          | none => rfl
          | some e =>
              have off := free (.request e.dsqlRequestPtr) (by simp [held])
              simp only [get_preparedStatements_off unhindered off]
      | executeImmediate => simp only [attempted, immediate]
      | fetchNext =>
          simp only [attempted, reads] at free ⊢
          rw [fetch]
          cases held : s.fetchInProgress.get c.tid with
          | none => rfl
          | some cursor =>
              by_cases eof : c.regs.rax = 1
              · have off := free (.cursor cursor) (by simp [held, eof])
                simp only [get_openCursors_off unhindered off]
                cases opened : s.openCursors.get cursor with
                | none => rfl
                | some oc =>
                    have off' := free (.request oc.dsqlRequestPtr) (by simp [held, eof, opened])
                    simp only [get_preparedStatements_off unhindered off']
              · simp [eof]

end

/-! ## Maps without limit -/

section

variable {s : State unlimited} {a b : Action}

theorem inflightOp_unlimited (s s' : State unlimited) (f : Fn) (a : Action) (t : UInt32) :
    inflightOp s f a t = inflightOp s' f a t := by
  cases a with
  | entry g c =>
      simp only [inflightOp]
      cases f.record c with
      | none => rfl
      | some r => rfl
  | exit g c => rfl
  | abandon g u => rfl

theorem preparedOp_fire (threads : a.thread ≠ b.thread) (r : UInt64) :
    preparedOp (fire s a) b r = preparedOp s b r := by
  cases b with
  | entry g c => rfl
  | abandon g u => rfl
  | exit g c =>
      have other : c.tid ≠ a.thread := Ne.symm threads
      rcases records_other (s := s) other with ⟨prepare, -⟩
      cases g with
      | prepare =>
          simp only [preparedOp, prepare]
          cases s.prepareInProgress.get c.tid with
          | none => rfl
          | some e => rfl
      | _ => rfl

theorem cursorOp_fire (threads : a.thread ≠ b.thread) (k : UInt64) :
    cursorOp (fire s a) b k = cursorOp s b k := by
  cases b with
  | entry g c => rfl
  | abandon g u => rfl
  | exit g c =>
      have other : c.tid ≠ a.thread := Ne.symm threads
      rcases records_other (s := s) other with ⟨-, -, -, opened, fetch⟩
      cases g with
      | openCursor =>
          simp only [cursorOp, opened]
          cases s.openCursorInProgress.get c.tid with
          | none => rfl
          | some e => rfl
      | fetchNext => simp only [cursorOp, fetch]
      | _ => rfl

/-- Operations of which one leaves the cell alone, or that both empty it, commute. -/
theorem apply_comm {ν : Type} {op op' : CellOp ν} (c : Option ν)
    (apart : op = .keep ∨ op' = .keep ∨ op = .drop ∧ op' = .drop) :
    op'.apply (op.apply c) = op.apply (op'.apply c) := by
  rcases apart with keep | keep | ⟨drop, drop'⟩
  · rw [keep, CellOp.apply_keep, CellOp.apply_keep]
  · rw [keep, CellOp.apply_keep, CellOp.apply_keep]
  · rw [drop, drop']

structure Independent (s : State unlimited) (a b : Action) : Prop where
  first : a.Unhindered
  second : b.Unhindered
  apart : ¬ (footprint s a).Clash (footprint s b)

theorem Independent.symm (ind : Independent s a b) : Independent s b a := by
  refine ⟨ind.second, ind.first, fun clash => ind.apart ?_⟩
  rcases clash with threads | written | written
  · exact .inl threads.symm
  · exact .inr (.inr written)
  · exact .inr (.inl written)

theorem Independent.threads (ind : Independent s a b) : a.thread ≠ b.thread :=
  fun same => ind.apart (.inl same)

theorem Independent.free (ind : Independent s a b) {k : Key} (written : k ∈ writes s a) :
    k ∉ reads s b ∧ k ∉ writes s b :=
  ⟨fun read => ind.apart (.inr (.inl ⟨k, written, .inl read⟩)),
    fun both => ind.apart (.inr (.inl ⟨k, written, .inr both⟩))⟩

theorem Independent.footprint_fire (ind : Independent s a b) :
    footprint (fire s a) b = footprint s b :=
  Slowquery.footprint_fire ind.first ind.threads fun _ read written => (ind.free written).1 read

theorem Independent.emitted_fire (ind : Independent s a b) :
    emitted (fire s a) b = emitted s b := by
  rw [emitted, emitted, attempted_fire ind.first ind.threads fun _ read written =>
    (ind.free written).1 read]

theorem Independent.inflight (ind : Independent s a b) (f : Fn) :
    (fire (fire s a) b).inflight f = (fire (fire s b) a).inflight f := by
  apply HashMap.ext_get
  intro t
  rw [get_inflight_fire, get_inflight_fire, get_inflight_fire, get_inflight_fire,
    inflightOp_unlimited (fire s a) s, inflightOp_unlimited (fire s b) s]
  apply apply_comm _
  by_cases here : t = a.thread
  · exact .inr (.inl (inflightOp_other (fun there => ind.threads (here.symm.trans there)) f))
  · exact .inl (inflightOp_other here f)

theorem Independent.preparedStatements (ind : Independent s a b) :
    (fire (fire s a) b).preparedStatements = (fire (fire s b) a).preparedStatements := by
  apply LruHashMap.ext_get
  intro r
  rw [get_preparedStatements_fire, get_preparedStatements_fire, get_preparedStatements_fire,
    get_preparedStatements_fire, preparedOp_fire ind.threads, preparedOp_fire ind.symm.threads]
  apply apply_comm _
  by_cases written : .request r ∈ writes s a
  · exact .inr (.inl (preparedOp_off ind.second (ind.free written).2))
  · exact .inl (preparedOp_off ind.first written)

theorem Independent.openCursors (ind : Independent s a b) :
    (fire (fire s a) b).openCursors = (fire (fire s b) a).openCursors := by
  apply LruHashMap.ext_get
  intro k
  rw [get_openCursors_fire, get_openCursors_fire, get_openCursors_fire, get_openCursors_fire,
    cursorOp_fire ind.threads, cursorOp_fire ind.symm.threads]
  apply apply_comm _
  by_cases written : .cursor k ∈ writes s a
  · rcases cursorOp_off ind.second (ind.free written).2 with keep | ⟨-, -, read⟩
    · exact .inr (.inl keep)
    · exact absurd read (ind.free written).1
  · rcases cursorOp_off ind.first written with keep | ⟨drop, -, read⟩
    · exact .inl keep
    · have off : .cursor k ∉ writes s b := fun other => (ind.symm.free other).1 read
      rcases cursorOp_off ind.second off with keep | ⟨drop', -, -⟩
      · exact .inr (.inl keep)
      · exact .inr (.inr ⟨drop, drop'⟩)

/-- Independent steps can be swapped. -/
theorem Independent.swap (ind : Independent s a b) :
    (fire (fire s a) b).Same (fire (fire s b) a) where
  inflight := ind.inflight
  preparedStatements := ind.preparedStatements
  openCursors := ind.openCursors
  events := by
    rw [events_fire, events_fire, events_fire, events_fire, ind.emitted_fire,
      ind.symm.emitted_fire, List.append_assoc, List.append_assoc]
    exact List.Perm.append_left _ List.perm_append_comm

theorem cursor_mem_reads {k : UInt64} :
    .cursor k ∈ reads s b ↔
      ∃ c, b = .exit .fetchNext c ∧ s.fetchInProgress.get c.tid = some k ∧ c.regs.rax = 1 := by
  cases b with
  | entry g c => simp [reads]
  | abandon g u => simp [reads]
  | exit g c =>
      cases g with
      | execute => cases held : s.executeInProgress.get c.tid <;> simp [reads, held]
      | fetchNext =>
          cases held : s.fetchInProgress.get c.tid with
          | none => simp [reads, held]
          | some cursor =>
              by_cases eof : c.regs.rax = 1
              · cases opened : s.openCursors.get cursor <;>
                  simp [reads, held, eof, opened, eq_comm]
              · simp [reads, held, eof]
      | _ => simp [reads]

/-- Steps do not clash when they do not with the second one's footprint after the first. -/
theorem independent_of_after (first : a.Unhindered) (second : b.Unhindered)
    (apart : ¬ (footprint s a).Clash (footprint (fire s a) b)) : Independent s a b := by
  have threads : a.thread ≠ b.thread := fun same => apart (.inl same)
  have same : footprint (fire s a) b = footprint s b := by
    apply Slowquery.footprint_fire first threads
    intro k read written
    refine apart (.inr (.inl ⟨.cursor k, written, .inl ?_⟩))
    obtain ⟨c, exit, held, eof⟩ := cursor_mem_reads.mp read
    subst exit
    refine cursor_mem_reads.mpr ⟨c, rfl, ?_, eof⟩
    exact (get_inflight_other (Ne.symm threads) .fetchNext).trans held
  exact ⟨first, second, same ▸ apart⟩

end

/-! ## Congruence -/

theorem State.Same.equivalence : Equivalence (State.Same (L := unlimited)) where
  refl _ := ⟨fun _ => rfl, rfl, rfl, .refl _⟩
  symm same := ⟨fun f => (same.inflight f).symm, same.preparedStatements.symm,
    same.openCursors.symm, same.events.symm⟩
  trans same same' := ⟨fun f => (same.inflight f).trans (same'.inflight f),
    same.preparedStatements.trans same'.preparedStatements,
    same.openCursors.trans same'.openCursors, same.events.trans same'.events⟩

section

variable {s s' : State unlimited}

theorem State.Same.records (same : s.Same s') :
    s.prepareInProgress = s'.prepareInProgress ∧ s.executeInProgress = s'.executeInProgress ∧
      s.immediateInProgress = s'.immediateInProgress ∧
      s.openCursorInProgress = s'.openCursorInProgress ∧ s.fetchInProgress = s'.fetchInProgress :=
  ⟨same.inflight .prepare, same.inflight .execute, same.inflight .executeImmediate,
    same.inflight .openCursor, same.inflight .fetchNext⟩

theorem State.Same.attempted (same : s.Same s') (a : Action) : attempted s a = attempted s' a := by
  rcases same.records with ⟨-, execute, immediate, -, fetch⟩
  cases a with
  | entry g c => rfl
  | abandon g u => rfl
  | exit g c =>
      cases g <;> simp only [Slowquery.attempted, execute, immediate, fetch,
        same.preparedStatements, same.openCursors]

theorem State.Same.footprint (same : s.Same s') (a : Action) : footprint s a = footprint s' a := by
  rcases same.records with ⟨prepare, execute, -, opened, fetch⟩
  cases a with
  | entry g c => rfl
  | abandon g u => rfl
  | exit g c =>
      cases g <;> simp only [Slowquery.footprint, reads, writes, prepare, execute, opened, fetch,
        same.openCursors]

theorem State.Same.preparedOp (same : s.Same s') (a : Action) (r : UInt64) :
    preparedOp s a r = preparedOp s' a r := by
  rcases same.records with ⟨prepare, -⟩
  cases a with
  | entry g c => rfl
  | abandon g u => rfl
  | exit g c => cases g <;> simp only [Slowquery.preparedOp, prepare, same.preparedStatements]

theorem State.Same.cursorOp (same : s.Same s') (a : Action) (k : UInt64) :
    cursorOp s a k = cursorOp s' a k := by
  rcases same.records with ⟨-, -, -, opened, fetch⟩
  cases a with
  | entry g c => rfl
  | abandon g u => rfl
  | exit g c => cases g <;> simp only [Slowquery.cursorOp, opened, fetch, same.openCursors]

theorem State.Same.fire (same : s.Same s') (a : Action) :
    (fire s a).Same (fire s' a) where
  inflight f := by
    apply HashMap.ext_get
    intro t
    rw [get_inflight_fire, get_inflight_fire, same.inflight, inflightOp_unlimited s s']
  preparedStatements := by
    apply LruHashMap.ext_get
    intro r
    rw [get_preparedStatements_fire, get_preparedStatements_fire, same.preparedOp,
      same.preparedStatements]
  openCursors := by
    apply LruHashMap.ext_get
    intro k
    rw [get_openCursors_fire, get_openCursors_fire, same.cursorOp, same.openCursors]
  events := by
    rw [events_fire, events_fire, emitted, emitted, same.attempted]
    exact same.events.append_right _

end

/-! ## Reordered runs -/

/-- One handler execution of a run, told apart from the others by its number. -/
structure Occurrence where
  number : Nat
  action : Action
  unhindered : action.Unhindered

def handlers : Concurrent (State unlimited) Occurrence Footprint where
  step s o := fire s o.action
  Same := State.Same
  equivalence := State.Same.equivalence
  footprint s o := footprint s o.action
  Clash := Footprint.Clash
  step_congr same o := same.fire o.action
  footprint_congr same o := same.footprint o.action
  swap := by
    intro s a b apart
    have ind := independent_of_after a.unhindered b.unhindered apart
    exact ⟨ind.footprint_fire, ind.symm.footprint_fire, ind.swap⟩

/-- Independent steps can be swapped in every state, and runs of the same steps that keep
the order on each thread and of the clashing accesses end in the same maps with the same
events. -/
theorem independent_steps_commute :
    (∀ (s : State unlimited) (a b : Action), a.Unhindered → b.Unhindered →
      ¬ (footprint s a).Clash (footprint s b) →
        (fire (fire s a) b).Same (fire (fire s b) a)) ∧
      ∀ (s : State unlimited) (l l' : List Occurrence), l.Nodup → l.Perm l' →
        handlers.Keeps s l l' → (handlers.run s l).Same (handlers.run s l') := by
  constructor
  · intro s a b first second apart
    exact Independent.swap ⟨first, second, apart⟩
  · intro s l l' distinct perm keeps
    exact Concurrent.reorder (M := handlers) distinct perm keeps

/-- Threads 7 and 8 execute one request. -/
def bothExecuting : State unlimited :=
  (tracer unlimited).run
    [.entry .execute (firing 8 20 { rdx := 100 }), .entry .execute (firing 7 10 { rdx := 100 })]

def returns (number : Nat) (t : UInt64) : Occurrence :=
  ⟨number, .exit .execute (firing t 30 {}), rfl, rfl⟩

theorem bothExecuting_either_order :
    (fire (fire bothExecuting (returns 0 7).action) (returns 1 8).action).Same
        (fire (fire bothExecuting (returns 1 8).action) (returns 0 7).action) ∧
      (handlers.run bothExecuting [returns 0 7, returns 1 8]).Same
        (handlers.run bothExecuting [returns 1 8, returns 0 7]) := by
  have apart : ¬ (footprint bothExecuting (returns 0 7).action).Clash
      (footprint bothExecuting (returns 1 8).action) := by decide +kernel
  have apart' : ¬ (footprint bothExecuting (returns 0 7).action).Clash
      (footprint (fire bothExecuting (returns 0 7).action) (returns 1 8).action) := by
    decide +kernel
  have numbers : returns 0 7 ≠ returns 1 8 := fun same =>
    absurd (congrArg Occurrence.number same) (by decide)
  refine ⟨independent_steps_commute.1 _ _ _ ⟨rfl, rfl⟩ ⟨rfl, rfl⟩ apart,
    independent_steps_commute.2 _ _ _ (by simp [numbers]) (List.Perm.swap ..) ?_⟩
  intro x y ordered clash
  have pair := ordered.eq_of_length rfl
  injection pair with first rest
  injection rest with second _
  rw [first, second] at clash
  exact absurd clash apart'

end Tragach.Slowquery
