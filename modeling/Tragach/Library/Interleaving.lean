import Tragach.Library.Runs

/-! # Interleaved programs

A program makes one access to a shared state after another, each chosen by the answers
so far. Programs that are running at the same time may take turns after every access.
When none of their accesses interfere, the state they leave is the one the programs
leave when each runs alone, in the order they began.
-/

namespace Tragach.Library

variable {ω σ σ' τ η : Type*} {Ans : ω → Type*}

inductive Prog {ω : Type*} (Ans : ω → Type*) where
  | done
  | access (op : ω) (next : Ans op → Prog Ans)

/-- What each access answers and leaves behind. -/
abbrev Exec (σ : Type*) {ω : Type*} (Ans : ω → Type*) := (op : ω) → σ → Ans op × σ

namespace Prog

def run (exec : Exec σ Ans) : Prog Ans → σ → σ
  | done, s => s
  | access op next, s => run exec (next (exec op s).1) (exec op s).2

/-- Every access the program can come to make is in `P`. -/
def All (P : ω → Prop) : Prog Ans → Prop
  | done => True
  | access op next => P op ∧ ∀ a, All P (next a)

@[simp] theorem run_done (exec : Exec σ Ans) (s : σ) : (done : Prog Ans).run exec s = s := rfl

@[simp] theorem run_access (exec : Exec σ Ans) (op : ω) (next : Ans op → Prog Ans) (s : σ) :
    (access op next).run exec s = (next (exec op s).1).run exec (exec op s).2 := rfl

@[simp] theorem all_done {P : ω → Prop} : (done : Prog Ans).All P := trivial

@[simp] theorem all_access {P : ω → Prop} {op : ω} {next : Ans op → Prog Ans} :
    (access op next).All P ↔ P op ∧ ∀ a, (next a).All P := Iff.rfl

theorem All.mono {P Q : ω → Prop} {p : Prog Ans} (all : p.All P) (imp : ∀ op, P op → Q op) :
    p.All Q := by
  induction p with
  | done => trivial
  | access op next ih => exact ⟨imp op all.1, fun a => ih a (all.2 a)⟩

theorem run_keeps {β : Type*} {exec : Exec σ Ans} {view : σ → β} {p : Prog Ans}
    (kept : p.All fun op => ∀ s, view (exec op s).2 = view s) (s : σ) :
    view (p.run exec s) = view s := by
  induction p generalizing s with
  | done => rfl
  | access op next ih => exact (ih _ (kept.2 _) _).trans (kept.1 s)

end Prog

/-- Neither of two accesses sees or disturbs the other. -/
structure Independent (exec : Exec σ Ans) (a b : ω) : Prop where
  left : ∀ s, (exec a (exec b s).2).1 = (exec a s).1
  right : ∀ s, (exec b (exec a s).2).1 = (exec b s).1
  swap : ∀ s, (exec a (exec b s).2).2 = (exec b (exec a s).2).2

theorem Independent.symm {exec : Exec σ Ans} {a b : ω} (apart : Independent exec a b) :
    Independent exec b a :=
  ⟨apart.right, apart.left, fun s => (apart.swap s).symm⟩

/-- An access that sees and changes a single cell of the state. -/
structure Local {κ : Type*} {ν : κ → Type*} (part : σ → (k : κ) → ν k) (exec : Exec σ Ans)
    (a : ω) (k : κ) : Prop where
  sees : ∀ {s s'}, part s k = part s' k →
    (exec a s).1 = (exec a s').1 ∧ part (exec a s).2 k = part (exec a s').2 k
  spares : ∀ {s k'}, k' ≠ k → part (exec a s).2 k' = part s k'

/-- Accesses to different cells do not interfere. -/
theorem Local.independent {κ : Type*} {ν : κ → Type*} {part : σ → (k : κ) → ν k}
    {exec : Exec σ Ans} {a b : ω} {k k' : κ} (first : Local part exec a k)
    (second : Local part exec b k') (other : k ≠ k')
    (ext : ∀ {s s'}, (∀ k, part s k = part s' k) → s = s') : Independent exec a b := by
  have left (s : σ) := first.sees (second.spares (s := s) other)
  have right (s : σ) := second.sees (first.spares (s := s) other.symm)
  refine ⟨fun s => (left s).1, fun s => (right s).1, fun s => ext fun c => ?_⟩
  by_cases atFirst : c = k
  · subst atFirst
    rw [(left s).2, second.spares other]
  · rw [first.spares atFirst]
    by_cases atSecond : c = k'
    · subst atSecond
      exact (right s).2.symm
    · rw [second.spares atSecond, second.spares atSecond, first.spares atFirst]

theorem Independent.of_reads {exec : Exec σ Ans} {a b : ω} (first : ∀ s, (exec a s).2 = s)
    (second : ∀ s, (exec b s).2 = s) : Independent exec a b :=
  ⟨fun s => by rw [second], fun s => by rw [first], fun s => by rw [first, second, first, second]⟩

def Prog.Apart (exec : Exec σ Ans) (p q : Prog Ans) : Prop :=
  p.All fun a => q.All fun b => Independent exec a b

section

variable {exec : Exec σ Ans} {p q : Prog Ans}

/-- An access can be made before a program it does not interfere with instead of after. -/
theorem Prog.run_exec {op : ω} (apart : q.All fun b => Independent exec op b) (s : σ) :
    (exec op (q.run exec s)).1 = (exec op s).1 ∧
      (exec op (q.run exec s)).2 = q.run exec (exec op s).2 := by
  induction q generalizing s with
  | done => exact ⟨rfl, rfl⟩
  | access op' next ih =>
      obtain ⟨first, rest⟩ := apart
      obtain ⟨answer, state⟩ := ih (exec op' s).1 (rest _) (exec op' s).2
      refine ⟨?_, ?_⟩
      · rw [run_access, answer, first.left]
      · rw [run_access, state, first.swap, run_access, first.right]

end

/-! ## Running programs in turns -/

/-- A program that has begun, and what is left of it. -/
structure Active (τ η : Type*) {ω : Type*} (Ans : ω → Type*) where
  thread : τ
  event : η
  rest : Prog Ans

/-- The shared state and the programs that have begun and not returned, newest first. -/
structure Threads (σ τ η : Type*) {ω : Type*} (Ans : ω → Type*) where
  shared : σ
  active : List (Active τ η Ans)

inductive ThreadStep (τ η : Type*) where
  | enter (t : τ) (e : η)
  | advance (t : τ)

def entered (h : List (ThreadStep τ η)) : List η :=
  h.filterMap fun
    | .enter _ e => some e
    | .advance _ => none

/-- The state once every program that has begun has returned, the oldest first. -/
def Threads.completed (exec : Exec σ Ans) (m : Threads σ τ η Ans) : σ :=
  m.active.foldr (fun a s => a.rest.run exec s) m.shared

theorem Threads.completed_keeps {β : Type*} {exec : Exec σ Ans} (view : σ → β)
    (m : Threads σ τ η Ans)
    (kept : ∀ a ∈ m.active, a.rest.All fun op => ∀ s, view (exec op s).2 = view s) :
    view (m.completed exec) = view m.shared := by
  rcases m with ⟨s, l⟩
  induction l with
  | nil => rfl
  | cons a l ih =>
      have before := ih fun b mem => kept b (List.mem_cons_of_mem a mem)
      exact (Prog.run_keeps (kept a List.mem_cons_self) _).trans before

/-- What is left of every running program is a part of it that keeps apart from the others. -/
structure KeptApart (body : η → Prog Ans) (exec : Exec σ Ans) (l : List (Active τ η Ans)) :
    Prop where
  part : ∀ a ∈ l, ∀ P : ω → Prop, (body a.event).All P → a.rest.All P
  apart : l.Pairwise fun a b => a.rest.Apart exec b.rest

theorem KeptApart.of_cons {body : η → Prog Ans} {exec : Exec σ Ans} {a : Active τ η Ans}
    {l : List (Active τ η Ans)}
    (kept : KeptApart body exec (a :: l)) : KeptApart body exec l :=
  ⟨fun b mem => kept.part b (List.mem_cons_of_mem a mem), kept.apart.of_cons⟩

theorem exec_foldr {exec : Exec σ Ans} {op : ω} {l : List (Active τ η Ans)}
    (apart : ∀ a ∈ l, a.rest.All fun b => Independent exec op b) (s : σ) :
    (exec op (l.foldr (fun a s => a.rest.run exec s) s)).1 = (exec op s).1 ∧
      (exec op (l.foldr (fun a s => a.rest.run exec s) s)).2 =
        l.foldr (fun a s => a.rest.run exec s) (exec op s).2 := by
  induction l with
  | nil => exact ⟨rfl, rfl⟩
  | cons a l ih =>
      obtain ⟨answer, state⟩ := ih fun b mem => apart b (List.mem_cons_of_mem a mem)
      obtain ⟨answer', state'⟩ := Prog.run_exec (apart a (List.mem_cons_self ..))
        (l.foldr (fun a s => a.rest.run exec s) s)
      rw [List.foldr_cons, List.foldr_cons, answer', state', answer, state]
      exact ⟨rfl, rfl⟩

/-- The ways a turn of the thread `t` can go, each with the access it makes. -/
inductive Turn (exec : Exec σ Ans) (t : τ) (s : σ) :
    List (Active τ η Ans) → Option ω → Threads σ τ η Ans → Prop
  | absent (l : List (Active τ η Ans)) : Turn exec t s l none ⟨s, l⟩
  | leave (pre post : List (Active τ η Ans)) {a : Active τ η Ans} (rest : a.rest = .done) :
      Turn exec t s (pre ++ a :: post) none ⟨s, pre ++ post⟩
  | access (pre post : List (Active τ η Ans)) {a : Active τ η Ans} {op : ω}
      {next : Ans op → Prog Ans} (rest : a.rest = .access op next) :
      Turn exec t s (pre ++ a :: post) (some op)
        ⟨(exec op s).2, pre ++ { a with rest := next (exec op s).1 } :: post⟩

theorem Turn.cons {exec : Exec σ Ans} {t : τ} {s : σ} {l : List (Active τ η Ans)} {op : Option ω}
    {m : Threads σ τ η Ans} (turn : Turn exec t s l op m) (b : Active τ η Ans) :
    Turn exec t s (b :: l) op { m with active := b :: m.active } := by
  cases turn with
  | absent => exact .absent (b :: l)
  | leave pre post rest => exact .leave (b :: pre) post rest
  | access pre post rest => exact .access (b :: pre) post rest

section

variable [DecidableEq τ]

def advanceIn (exec : Exec σ Ans) (t : τ) : List (Active τ η Ans) → σ → Threads σ τ η Ans
  | [], s => ⟨s, []⟩
  | a :: l, s =>
      if a.thread = t then
        match a.rest with
        | .done => ⟨s, l⟩
        | .access op next => ⟨(exec op s).2, { a with rest := next (exec op s).1 } :: l⟩
      else
        let m := advanceIn exec t l s
        { m with active := a :: m.active }

def nextAccess (t : τ) : List (Active τ η Ans) → Option ω
  | [] => none
  | a :: l =>
      if a.thread = t then
        match a.rest with
        | .done => none
        | .access op _ => some op
      else nextAccess t l

theorem advanceIn_turn (exec : Exec σ Ans) (t : τ) (l : List (Active τ η Ans)) (s : σ) :
    Turn exec t s l (nextAccess t l) (advanceIn exec t l s) := by
  induction l with
  | nil => exact .absent []
  | cons a l ih =>
      rcases a with ⟨thread, event, rest⟩
      by_cases here : thread = t
      · cases rest with
        | done =>
            simp only [nextAccess, advanceIn, if_pos here]
            exact .leave [] l (a := ⟨thread, event, .done⟩) rfl
        | access op next =>
            simp only [nextAccess, advanceIn, if_pos here]
            exact .access [] l (a := ⟨thread, event, .access op next⟩) rfl
      · simp only [nextAccess, advanceIn, if_neg here]
        exact ih.cons _

def Threads.next (body : η → Prog Ans) (exec : Exec σ Ans) (m : Threads σ τ η Ans) :
    ThreadStep τ η → Threads σ τ η Ans
  | .enter t e => { m with active := ⟨t, e, body e⟩ :: m.active }
  | .advance t => advanceIn exec t m.active m.shared

/-- The programs of the events, in any interleaving. -/
def interleaved (body : η → Prog Ans) (exec : Exec σ Ans) (init : σ) :
    System (Threads σ τ η Ans) (ThreadStep τ η) :=
  ⟨⟨init, []⟩, Threads.next body exec⟩

/-- The programs of the events one after another. -/
def serial (body : η → Prog Ans) (exec : Exec σ Ans) (init : σ) : System σ η :=
  ⟨init, fun s e => (body e).run exec s⟩

/-- A program begins only while no program it clashes with is running. -/
def NoClash (body : η → Prog Ans) (exec : Exec σ Ans) (init : σ) (Clash : η → η → Prop)
    (h : List (ThreadStep τ η)) : ThreadStep τ η → Prop
  | .enter _ e => ∀ a ∈ ((interleaved body exec init).run h).active, ¬ Clash e a.event
  | .advance _ => True

variable {body : η → Prog Ans} {exec : Exec σ Ans} {init : σ} {Clash : η → η → Prop}

theorem rest_of_mem_advanceIn {t : τ} {l : List (Active τ η Ans)} {s : σ} {b : Active τ η Ans}
    (mem : b ∈ (advanceIn exec t l s).active) :
    ∃ a ∈ l, a.event = b.event ∧ ∀ P : ω → Prop, a.rest.All P → b.rest.All P := by
  have turn := advanceIn_turn exec t l s
  generalize advanceIn exec t l s = m, nextAccess t l = op at turn mem
  cases turn with
  | absent => exact ⟨b, mem, rfl, fun P all => all⟩
  | leave pre post rest =>
      exact ⟨b, (List.Sublist.append_left (List.sublist_cons_self ..) pre).subset mem, rfl,
        fun P all => all⟩
  | @access pre post a op next rest =>
      rcases List.mem_append.mp mem with mem | mem
      · exact ⟨b, List.mem_append_left _ mem, rfl, fun P all => all⟩
      · rcases List.mem_cons.mp mem with new | mem
        · subst new
          refine ⟨a, List.mem_append_right _ (List.mem_cons_self ..), rfl, fun P all => ?_⟩
          rw [rest] at all
          exact all.2 _
        · exact ⟨b, List.mem_append_right _ (List.mem_cons_of_mem _ mem), rfl, fun P all => all⟩

theorem rest_of_running {h : List (ThreadStep τ η)} {a : Active τ η Ans}
    (mem : a ∈ ((interleaved body exec init).run h).active) {P : ω → Prop}
    (all : (body a.event).All P) : a.rest.All P := by
  induction h generalizing a with
  | nil => cases mem
  | cons e h ih =>
      cases e with
      | enter t e =>
          rcases List.mem_cons.mp mem with new | mem
          · rw [new] at all ⊢
            exact all
          · exact ih mem all
      | advance t =>
          obtain ⟨b, before, event, part⟩ := rest_of_mem_advanceIn mem
          exact part P (ih before (event ▸ all))

theorem KeptApart.turn {l : List (Active τ η Ans)} (kept : KeptApart body exec l) (t : τ)
    (s : σ) : KeptApart body exec (advanceIn exec t l s).active := by
  constructor
  · intro b mem P all
    obtain ⟨a, member, event, part⟩ := rest_of_mem_advanceIn mem
    exact part P (kept.part a member P (event ▸ all))
  · induction l with
    | nil => exact List.Pairwise.nil
    | cons a l ih =>
        obtain ⟨first, others⟩ := List.pairwise_cons.mp kept.apart
        rw [advanceIn]
        split
        next =>
            split
            next => exact others
            next op next rest =>
                refine List.pairwise_cons.mpr ⟨fun b mem => ?_, others⟩
                have whole := first b mem
                rw [rest] at whole
                exact whole.2 _
        next =>
            refine List.pairwise_cons.mpr ⟨fun b mem => ?_, ih kept.of_cons⟩
            obtain ⟨c, member, -, part⟩ := rest_of_mem_advanceIn mem
            exact (first c member).mono fun op all => part _ all

/-- A turn does not change the state the running programs will leave. -/
theorem completed_advanceIn {l : List (Active τ η Ans)} (kept : KeptApart body exec l) (t : τ)
    (s : σ) : (advanceIn exec t l s).completed exec = Threads.completed exec ⟨s, l⟩ := by
  induction l with
  | nil => rfl
  | cons a l ih =>
      have first := (List.pairwise_cons.mp kept.apart).1
      rw [advanceIn]
      split
      next =>
          split
          next rest => simp [Threads.completed, rest]
          next op next rest =>
              -- the access moves to before the programs that began earlier
              have apart : ∀ b ∈ l, b.rest.All fun x => Independent exec op x := by
                intro b mem
                have whole := first b mem
                rw [rest] at whole
                exact whole.1
              have moved := exec_foldr apart s
              simp only [Threads.completed, List.foldr_cons, rest, Prog.run_access, moved.1,
                moved.2]
      next => exact congrArg (a.rest.run exec) (ih kept.of_cons)

/-- Once they have returned, programs that did not clash leave the state of a run of one
program after another, in the order they began. -/
theorem completed_eq_serial
    (apart : ∀ e e', ¬ Clash e e' → (body e).Apart exec (body e')) {h : List (ThreadStep τ η)}
    (law : Lawful (NoClash body exec init Clash) h) :
    ((interleaved body exec init).run h).completed exec =
      (serial body exec init).run (entered h) := by
  have both : KeptApart body exec ((interleaved body exec init).run h).active ∧
      ((interleaved body exec init).run h).completed exec =
        (serial body exec init).run (entered h) := by
    refine (interleaved body exec init).invariant (I := fun h m =>
      KeptApart body exec m.active ∧
        m.completed exec = (serial body exec init).run (entered h)) ?_ ?_ h law
    · exact ⟨⟨fun a mem => absurd mem List.not_mem_nil, List.Pairwise.nil⟩, rfl⟩
    · intro h e clear _ inv
      obtain ⟨kept, complete⟩ := inv
      cases e with
      | enter t e =>
          refine ⟨⟨fun a mem P all => ?_, List.pairwise_cons.mpr ⟨fun a mem => ?_, kept.apart⟩⟩, ?_⟩
          · rcases List.mem_cons.mp mem with new | mem
            · rw [new] at all ⊢
              exact all
            · exact kept.part a mem P all
          · exact (apart e a.event (clear a mem)).mono fun op all => kept.part a mem _ all
          · exact congrArg ((body e).run exec) complete
      | advance t =>
          exact ⟨kept.turn t _, (completed_advanceIn kept t _).trans complete⟩
  exact both.2

/-- When all have returned, the shared state is that of the serial run. -/
theorem shared_eq_serial (apart : ∀ e e', ¬ Clash e e' → (body e).Apart exec (body e'))
    {h : List (ThreadStep τ η)} (law : Lawful (NoClash body exec init Clash) h)
    (idle : ((interleaved body exec init).run h).active = []) :
    ((interleaved body exec init).run h).shared = (serial body exec init).run (entered h) := by
  rw [← completed_eq_serial apart law, Threads.completed, idle]
  rfl

instance [DecidableRel Clash] (h : List (ThreadStep τ η)) :
    ∀ e, Decidable (NoClash body exec init Clash h e)
  | .enter _ e =>
      inferInstanceAs (Decidable (∀ a ∈ ((interleaved body exec init).run h).active,
        ¬ Clash e a.event))
  | .advance _ => inferInstanceAs (Decidable True)

/-! ## Two ways of executing the accesses -/

def AccessOk (body : η → Prog Ans) (exec : Exec σ Ans) (init : σ) (Ok : σ → ω → Prop)
    (h : List (ThreadStep τ η)) : ThreadStep τ η → Prop
  | .enter _ _ => True
  | .advance t =>
      ∀ op ∈ nextAccess t ((interleaved body exec init).run h).active,
        Ok ((interleaved body exec init).run h).shared op

instance {Ok : σ → ω → Prop} [∀ s op, Decidable (Ok s op)] (h : List (ThreadStep τ η)) :
    ∀ e, Decidable (AccessOk body exec init Ok h e)
  | .enter _ _ => inferInstanceAs (Decidable True)
  | .advance t => Option.decidableForallMem (nextAccess t ((interleaved body exec init).run h).active)

theorem advanceIn_simulated {exec' : Exec σ' Ans} {R : σ → σ' → Prop} {Ok : σ → ω → Prop}
    (simulated : ∀ s s' op, R s s' → Ok s op →
      (exec op s).1 = (exec' op s').1 ∧ R (exec op s).2 (exec' op s').2)
    {t : τ} {l : List (Active τ η Ans)} {s : σ} {s' : σ'} (same : R s s')
    (ok : ∀ op ∈ nextAccess t l, Ok s op) :
    (advanceIn exec t l s).active = (advanceIn exec' t l s').active ∧
      R (advanceIn exec t l s).shared (advanceIn exec' t l s').shared := by
  induction l with
  | nil => exact ⟨rfl, same⟩
  | cons a l ih =>
      rcases a with ⟨thread, event, rest⟩
      by_cases here : thread = t
      · cases rest with
        | done =>
            simp only [advanceIn, if_pos here]
            exact ⟨trivial, same⟩
        | access op next =>
            obtain ⟨answer, state⟩ := simulated s s' op same (ok op (by simp [nextAccess, here]))
            simp only [advanceIn, if_pos here, answer]
            exact ⟨trivial, state⟩
      · obtain ⟨active, state⟩ := ih fun op mem => ok op (by rwa [nextAccess, if_neg here])
        simp only [advanceIn, if_neg here, active]
        exact ⟨trivial, state⟩

/-- Two ways of executing the accesses that agree on the allowed ones agree on every run
that makes no other. -/
theorem interleaved_simulated {exec' : Exec σ' Ans} {init' : σ'} {R : σ → σ' → Prop}
    {Ok : σ → ω → Prop}
    (simulated : ∀ s s' op, R s s' → Ok s op →
      (exec op s).1 = (exec' op s').1 ∧ R (exec op s).2 (exec' op s').2)
    (start : R init init') {h : List (ThreadStep τ η)}
    (law : Lawful (AccessOk body exec init Ok) h) :
    ((interleaved body exec init).run h).active = ((interleaved body exec' init').run h).active ∧
      R ((interleaved body exec init).run h).shared
        ((interleaved body exec' init').run h).shared := by
  induction h with
  | nil => exact ⟨rfl, start⟩
  | cons e h ih =>
      obtain ⟨active, shared⟩ := ih law.2
      cases e with
      | enter t e => exact ⟨congrArg (List.cons _) active, shared⟩
      | advance t =>
          have turn := advanceIn_simulated simulated shared law.1
          simp only [System.run_cons, interleaved, Threads.next]
          simp only [interleaved] at active turn
          rw [← active]
          exact turn

/-! ## States told by their cells -/

/-- What an accepted access answers and leaves in each cell is told by what the cells held
before. -/
structure ByCells {κ : Type*} {ν : κ → Type*} (part : σ → (k : κ) → ν k) (exec : Exec σ Ans)
    (Accepts : σ → ω → Prop) (answer : (a : ω) → ((k : κ) → ν k) → Ans a)
    (effect : ω → (k : κ) → ν k → ν k) : Prop where
  answers : ∀ {s a}, Accepts s a → (exec a s).1 = answer a (part s)
  effects : ∀ {s a}, Accepts s a → ∀ k, part (exec a s).2 k = effect a k (part s k)

/-- The accesses that are accepted do in one state what they do in another with the same
cells. -/
structure Imitates {κ : Type*} {ν : κ → Type*} (part : σ → (k : κ) → ν k) (exec : Exec σ Ans)
    (Accepts : σ → ω → Prop) (init : σ) (part' : σ' → (k : κ) → ν k) (exec' : Exec σ' Ans)
    (init' : σ') : Prop where
  start : ∀ k, part init k = part' init' k
  simulated : ∀ s s' a, (∀ k, part s k = part' s' k) → Accepts s a →
    (exec a s).1 = (exec' a s').1 ∧ ∀ k, part (exec a s).2 k = part' (exec' a s').2 k

section

variable {κ : Type*} {ν : κ → Type*} {part : σ → (k : κ) → ν k} {part' : σ' → (k : κ) → ν k}
  {exec' : Exec σ' Ans} {init' : σ'} {Accepts : σ → ω → Prop} {Accepts' : σ' → ω → Prop}
  {answer : (a : ω) → ((k : κ) → ν k) → Ans a} {effect : ω → (k : κ) → ν k → ν k}

theorem ByCells.imitates (told : ByCells part exec Accepts answer effect)
    (told' : ByCells part' exec' Accepts' answer effect) (all : ∀ s a, Accepts' s a)
    (start : ∀ k, part init k = part' init' k) :
    Imitates part exec Accepts init part' exec' init' := by
  refine ⟨start, fun s s' a same accepts => ⟨?_, fun k => ?_⟩⟩
  · rw [told.answers accepts, told'.answers (all s' a), funext same]
  · rw [told.effects accepts, told'.effects (all s' a), same k]

theorem ByCells.isLocal (told : ByCells part exec Accepts answer effect)
    (all : ∀ s a, Accepts s a) {a : ω} {k : κ}
    (sees : ∀ v v' : (k : κ) → ν k, v k = v' k → answer a v = answer a v')
    (spares : ∀ k' v, k' ≠ k → effect a k' v = v) : Local part exec a k := by
  constructor
  · intro s s' same
    rw [told.answers (all s a), told.answers (all s' a), told.effects (all s a),
      told.effects (all s' a), same]
    exact ⟨sees _ _ same, rfl⟩
  · intro s k' other
    rw [told.effects (all s a), spares k' _ other]

variable {h : List (ThreadStep τ η)}

theorem Imitates.run (imitates : Imitates part exec Accepts init part' exec' init')
    (room : Lawful (AccessOk body exec init Accepts) h) :
    ((interleaved body exec init).run h).active = ((interleaved body exec' init').run h).active ∧
      ∀ k, part ((interleaved body exec init).run h).shared k =
        part' ((interleaved body exec' init').run h).shared k :=
  interleaved_simulated imitates.simulated imitates.start room

/-- A run whose programs keep apart under one way of executing them keeps apart under the
other. -/
theorem Imitates.noClash (imitates : Imitates part exec Accepts init part' exec' init')
    (room : Lawful (AccessOk body exec init Accepts) h)
    (clear : Lawful (NoClash body exec init Clash) h) :
    Lawful (NoClash body exec' init' Clash) h := by
  induction h with
  | nil => trivial
  | cons e h ih =>
      refine ⟨?_, ih room.2 clear.2⟩
      have active := (imitates.run room.2).1
      have here := clear.1
      cases e with
      | enter t e =>
          rw [NoClash, active] at here
          exact here
      | advance t => trivial

/-- When all have returned, programs that did not clash have left in every cell what the
serial run leaves. -/
theorem Imitates.part_shared (imitates : Imitates part exec Accepts init part' exec' init')
    (apart : ∀ e e', ¬ Clash e e' → (body e).Apart exec' (body e'))
    (room : Lawful (AccessOk body exec init Accepts) h)
    (clear : Lawful (NoClash body exec init Clash) h)
    (idle : ((interleaved body exec init).run h).active = []) (k : κ) :
    part ((interleaved body exec init).run h).shared k =
      part' ((serial body exec' init').run (entered h)) k := by
  obtain ⟨active, cells⟩ := imitates.run room
  rw [cells, shared_eq_serial apart (imitates.noClash room clear) (active.symm.trans idle)]

end

end

end Tragach.Library
