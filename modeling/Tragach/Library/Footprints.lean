import Tragach.Library.Interleaving

/-! # The cells a running program will touch

Which cells of a shared state a program reads and writes may depend on what it has read, so
two programs can keep apart in one state and meet in another. Programs that are running at
the same time do not interfere when none of them begins in a state in which it would write
a cell that a running one has still to touch, or touch one that a running one has still to
write.
-/

namespace Tragach.Library

variable {ω σ τ η κ : Type*} {Ans : ω → Type*} {ν : κ → Type*}

/-- An access that is guided by no other cells than those it `reads` and changes no other
cells than those it `writes`. -/
structure Confined (part : σ → (k : κ) → ν k) (exec : Exec σ Ans) (a : ω)
    (reads writes : List κ) : Prop where
  sees : ∀ {s s'}, (∀ k ∈ reads, part s k = part s' k) →
    (exec a s).1 = (exec a s').1 ∧ ∀ k ∈ writes, part (exec a s).2 k = part (exec a s').2 k
  spares : ∀ {s k}, k ∉ writes → part (exec a s).2 k = part s k

section

variable {part : σ → (k : κ) → ν k} {exec : Exec σ Ans} {a : ω} {k : κ}

theorem Confined.congr {reads writes : List κ} (own : Confined part exec a reads writes)
    {s s' : σ} (same : ∀ k ∈ reads, part s k = part s' k) (here : part s k = part s' k) :
    part (exec a s).2 k = part (exec a s').2 k := by
  by_cases mem : k ∈ writes
  · exact (own.sees same).2 k mem
  · rw [own.spares mem, own.spares mem, here]

end

theorem ByCells.confined {Accepts : σ → ω → Prop} {answer : (a : ω) → ((k : κ) → ν k) → Ans a}
    {effect : ω → (k : κ) → ν k → ν k} (told : ByCells part exec Accepts answer effect)
    (all : ∀ s a, Accepts s a) {reads writes : List κ}
    (sees : ∀ v v' : (k : κ) → ν k, (∀ k ∈ reads, v k = v' k) →
      answer a v = answer a v' ∧ ∀ k ∈ writes, effect a k (v k) = effect a k (v' k))
    (spares : ∀ k v, k ∉ writes → effect a k v = v) : Confined part exec a reads writes := by
  constructor
  · intro s s' same
    obtain ⟨answers, effects⟩ := sees _ _ same
    rw [told.answers (all s a), told.answers (all s' a)]
    refine ⟨answers, fun k mem => ?_⟩
    rw [told.effects (all s a), told.effects (all s' a), effects k mem]
  · intro s k off
    rw [told.effects (all s a), spares k _ off]

/-- The cells the accesses of a program are to when it runs alone from a state. -/
def Prog.cells (exec : Exec σ Ans) (touched : ω → List κ) : Prog Ans → σ → List κ
  | done, _ => []
  | access op next, s => touched op ++ cells exec touched (next (exec op s).1) (exec op s).2

def SameCells (part : σ → (k : κ) → ν k) (s s' : σ) : Prop := ∀ k, part s k = part s' k

section

variable {part : σ → (k : κ) → ν k} {exec : Exec σ Ans} {reads writes : ω → List κ}

theorem Prog.part_run (law : ∀ op, Confined part exec op (reads op) (writes op)) {p : Prog Ans}
    {s : σ} {k : κ} (off : k ∉ p.cells exec writes s) :
    part (p.run exec s) k = part s k := by
  induction p generalizing s with
  | done => rfl
  | access op next ih =>
      rw [Prog.cells, List.mem_append, not_or] at off
      rw [run_access, ih _ off.2, (law op).spares off.1]

/-- From states that agree on the cells it reads a program makes the same accesses, and what
agreed before still does. -/
theorem Prog.cells_congr (law : ∀ op, Confined part exec op (reads op) (writes op))
    {p : Prog Ans} {s s' : σ} (same : ∀ k ∈ p.cells exec reads s, part s k = part s' k) :
    (∀ touched : ω → List κ, p.cells exec touched s' = p.cells exec touched s) ∧
      ∀ k, part s k = part s' k → part (p.run exec s) k = part (p.run exec s') k := by
  induction p generalizing s s' with
  | done => exact ⟨fun touched => rfl, fun k here => here⟩
  | access op next ih =>
      simp only [Prog.cells, List.mem_append] at same
      have first (k : κ) (mem : k ∈ reads op) := same k (.inl mem)
      have answer := ((law op).sees first).1
      obtain ⟨cells, run⟩ := ih (exec op s).1 fun k mem =>
        (law op).congr first (same k (.inr mem))
      rw [run_access, run_access, ← answer]
      refine ⟨fun touched => ?_, fun k here => run k ((law op).congr first here)⟩
      rw [Prog.cells, Prog.cells, ← answer, cells touched]

/-! ## Running programs that keep apart -/

/-- No cell that `p` would write would be touched by `q`. -/
def Prog.Spares (exec : Exec σ Ans) (reads writes : ω → List κ) (s : σ) (p q : Prog Ans) :
    Prop :=
  ∀ k ∈ p.cells exec writes s, k ∉ q.cells exec reads s ∧ k ∉ q.cells exec writes s

def Prog.Separate (exec : Exec σ Ans) (reads writes : ω → List κ) (s : σ) (p q : Prog Ans) :
    Prop :=
  p.Spares exec reads writes s q ∧ q.Spares exec reads writes s p

def Separate (exec : Exec σ Ans) (reads writes : ω → List κ) (s : σ) :
    List (Active τ η Ans) → Prop :=
  List.Pairwise fun a b => a.rest.Separate exec reads writes s b.rest

variable {s : σ} {l : List (Active τ η Ans)}

/-- The state once the programs have returned, cell by cell: what none of them writes is as
it was, what one of them writes is as that one leaves it alone. -/
theorem part_completed (law : ∀ op, Confined part exec op (reads op) (writes op))
    (separate : Separate exec reads writes s l) (k : κ) :
    ((∀ a ∈ l, k ∉ a.rest.cells exec writes s) →
        part (Threads.completed exec ⟨s, l⟩) k = part s k) ∧
      ∀ a ∈ l, k ∈ a.rest.cells exec writes s →
        part (Threads.completed exec ⟨s, l⟩) k = part (a.rest.run exec s) k := by
  induction l generalizing k with
  | nil => exact ⟨fun _ => rfl, fun a mem => absurd mem List.not_mem_nil⟩
  | cons b l ih =>
      obtain ⟨apart, rest⟩ := List.pairwise_cons.mp separate
      have agree : ∀ k ∈ b.rest.cells exec reads s,
          part s k = part (Threads.completed exec ⟨s, l⟩) k := fun k mem =>
        ((ih rest k).1 fun a member written => ((apart a member).2 k written).1 mem).symm
      obtain ⟨cells, run⟩ := Prog.cells_congr law agree
      have last : Threads.completed exec ⟨s, b :: l⟩ =
          b.rest.run exec (Threads.completed exec ⟨s, l⟩) := rfl
      rw [last]
      constructor
      · intro off
        have here := off b List.mem_cons_self
        rw [Prog.part_run law (cells writes ▸ here)]
        exact (ih rest k).1 fun a mem => off a (List.mem_cons_of_mem b mem)
      · intro a mem written
        rcases List.mem_cons.mp mem with same | mem
        · subst same
          have untouched := (ih rest k).1 fun b member other =>
            ((apart b member).1 k written).2 other
          exact (run k untouched.symm).symm
        · rw [Prog.part_run law (cells writes ▸ ((apart a mem).2 k written).2)]
          exact (ih rest k).2 a mem written

theorem completed_perm (law : ∀ op, Confined part exec op (reads op) (writes op))
    {l' : List (Active τ η Ans)} (perm : l.Perm l') (separate : Separate exec reads writes s l) :
    Separate exec reads writes s l' ∧
      SameCells part (Threads.completed exec ⟨s, l⟩) (Threads.completed exec ⟨s, l'⟩) := by
  have separate' : Separate exec reads writes s l' :=
    perm.pairwise separate fun apart => apart.symm
  refine ⟨separate', fun k => ?_⟩
  by_cases found : ∃ a ∈ l, k ∈ a.rest.cells exec writes s
  · obtain ⟨a, mem, written⟩ := found
    rw [(part_completed law separate k).2 a mem written,
      (part_completed law separate' k).2 a (perm.subset mem) written]
  · have off : ∀ a ∈ l, k ∉ a.rest.cells exec writes s := fun a mem written =>
      found ⟨a, mem, written⟩
    rw [(part_completed law separate k).1 off,
      (part_completed law separate' k).1 fun a mem => off a (perm.symm.subset mem)]

theorem completed_congr (law : ∀ op, Confined part exec op (reads op) (writes op)) {s' : σ}
    (separate : Separate exec reads writes s l)
    (same : ∀ a ∈ l, ∀ k ∈ a.rest.cells exec reads s, part s k = part s' k) :
    Separate exec reads writes s' l ∧ ∀ k, part s k = part s' k →
      part (Threads.completed exec ⟨s, l⟩) k = part (Threads.completed exec ⟨s', l⟩) k := by
  have each (a : Active τ η Ans) (mem : a ∈ l) := Prog.cells_congr law (same a mem)
  have separate' : Separate exec reads writes s' l := by
    refine separate.imp_of_mem fun {a b} first second apart => ?_
    simp only [Prog.Separate, Prog.Spares, (each a first).1, (each b second).1]
    exact apart
  refine ⟨separate', fun k here => ?_⟩
  by_cases found : ∃ a ∈ l, k ∈ a.rest.cells exec writes s
  · obtain ⟨a, mem, written⟩ := found
    rw [(part_completed law separate k).2 a mem written,
      (part_completed law separate' k).2 a mem ((each a mem).1 writes ▸ written)]
    exact (each a mem).2 k here
  · have off : ∀ a ∈ l, k ∉ a.rest.cells exec writes s := fun a mem written =>
      found ⟨a, mem, written⟩
    rw [(part_completed law separate k).1 off, here]
    exact ((part_completed law separate' k).1 fun a mem =>
      (each a mem).1 writes ▸ off a mem).symm

/-- An access of the newest program leaves it fewer cells to touch, and what the programs
will leave is the same. -/
theorem completed_access (law : ∀ op, Confined part exec op (reads op) (writes op))
    {a : Active τ η Ans} {op : ω} {next : Ans op → Prog Ans} (rest : a.rest = .access op next)
    (separate : Separate exec reads writes s (a :: l)) :
    Separate exec reads writes (exec op s).2 ({ a with rest := next (exec op s).1 } :: l) ∧
      SameCells part
        (Threads.completed exec ⟨(exec op s).2, { a with rest := next (exec op s).1 } :: l⟩)
        (Threads.completed exec ⟨s, a :: l⟩) := by
  obtain ⟨apart, others⟩ := List.pairwise_cons.mp separate
  rw [rest] at apart
  simp only [Prog.Separate, Prog.Spares, Prog.cells, List.mem_append] at apart
  have unseen : ∀ b ∈ l, ∀ k ∈ b.rest.cells exec reads s, part s k = part (exec op s).2 k :=
    fun b mem k there => ((law op).spares fun written =>
      ((apart b mem).1 k (.inl written)).1 there).symm
  obtain ⟨still, agree⟩ := completed_congr law others unseen
  have cells (b : Active τ η Ans) (mem : b ∈ l) := (Prog.cells_congr law (unseen b mem)).1
  constructor
  · refine List.pairwise_cons.mpr ⟨fun b mem => ?_, still⟩
    simp only [Prog.Separate, Prog.Spares, cells b mem]
    refine ⟨fun k written => (apart b mem).1 k (.inr written), fun k written => ?_⟩
    have off := (apart b mem).2 k written
    exact ⟨fun there => off.1 (.inr there), fun there => off.2 (.inr there)⟩
  · -- the access can be made before or after the others return
    have first : ∀ k ∈ reads op, part s k = part (Threads.completed exec ⟨s, l⟩) k :=
      fun k read => ((part_completed law others k).1 fun b mem written =>
        ((apart b mem).2 k written).1 (.inl read)).symm
    have answer := ((law op).sees first).1
    have moved : ∀ k, part (Threads.completed exec ⟨(exec op s).2, l⟩) k =
        part (exec op (Threads.completed exec ⟨s, l⟩)).2 k := by
      intro k
      by_cases written : k ∈ writes op
      · rw [← ((law op).sees first).2 k written]
        refine (part_completed law still k).1 fun b mem there => ?_
        rw [cells b mem] at there
        exact ((apart b mem).1 k (.inl written)).2 there
      · rw [(law op).spares written]
        exact (agree k ((law op).spares written).symm).symm
    have last : Threads.completed exec ⟨s, a :: l⟩ =
        (next (exec op s).1).run exec (exec op (Threads.completed exec ⟨s, l⟩)).2 := by
      show a.rest.run exec _ = _
      rw [rest, Prog.run_access, answer]
      rfl
    intro k
    rw [last]
    exact (Prog.cells_congr law fun k _ => moved k).2 k (moved k)

/-- A turn does not change what the running programs will leave. -/
theorem Turn.keeps (law : ∀ op, Confined part exec op (reads op) (writes op)) {t : τ}
    {op : Option ω} {m : Threads σ τ η Ans} (turn : Turn exec t s l op m)
    (separate : Separate exec reads writes s l) :
    Separate exec reads writes m.shared m.active ∧
      SameCells part (m.completed exec) (Threads.completed exec ⟨s, l⟩) := by
  cases turn with
  | absent => exact ⟨separate, fun k => rfl⟩
  | leave pre post rest =>
      refine ⟨separate.sublist (List.Sublist.append_left (List.sublist_cons_self ..) pre), ?_⟩
      intro k
      simp [Threads.completed, rest]
  | @access pre post a op next rest =>
      obtain ⟨front, moved⟩ := completed_perm law List.perm_middle separate
      obtain ⟨after, made⟩ := completed_access law rest front
      obtain ⟨back, moved'⟩ := completed_perm law List.perm_middle.symm after
      exact ⟨back, fun k => ((moved' k).symm.trans (made k)).trans (moved k).symm⟩

/-! ## Interleaved runs -/

variable [DecidableEq τ] {body : η → Prog Ans} {init : σ}

/-- A program begins only while the running ones keep apart from it in what they have still
to do. -/
def KeepsApart (body : η → Prog Ans) (exec : Exec σ Ans) (init : σ) (reads writes : ω → List κ)
    (h : List (ThreadStep τ η)) : ThreadStep τ η → Prop
  | .enter _ e => ∀ a ∈ ((interleaved body exec init).run h).active,
      (body e).Separate exec reads writes ((interleaved body exec init).run h).shared a.rest
  | .advance _ => True

instance [DecidableEq κ] (p q : Prog Ans) : Decidable (p.Separate exec reads writes s q) :=
  have (p q : Prog Ans) : Decidable (p.Spares exec reads writes s q) := by
    unfold Prog.Spares
    infer_instance
  inferInstanceAs (Decidable (_ ∧ _))

instance [DecidableEq κ] (h : List (ThreadStep τ η)) :
    ∀ e, Decidable (KeepsApart body exec init reads writes h e)
  | .enter _ e => inferInstanceAs (Decidable (∀ a ∈ ((interleaved body exec init).run h).active,
      (body e).Separate exec reads writes ((interleaved body exec init).run h).shared a.rest))
  | .advance _ => inferInstanceAs (Decidable True)

/-- Once they have returned, programs that kept apart leave every cell as a run of one
program after another does, in the order they began. -/
theorem sameCells_completed (law : ∀ op, Confined part exec op (reads op) (writes op))
    {h : List (ThreadStep τ η)} (apart : Lawful (KeepsApart body exec init reads writes) h) :
    SameCells part (((interleaved body exec init).run h).completed exec)
      ((serial body exec init).run (entered h)) := by
  have both : Separate exec reads writes ((interleaved body exec init).run h).shared
        ((interleaved body exec init).run h).active ∧
      SameCells part (((interleaved body exec init).run h).completed exec)
        ((serial body exec init).run (entered h)) := by
    refine (interleaved body exec init).invariant (I := fun h m =>
      Separate exec reads writes m.shared m.active ∧
        SameCells part (m.completed exec) ((serial body exec init).run (entered h)))
      ⟨List.Pairwise.nil, fun k => rfl⟩ ?_ h apart
    intro h e clear _ inv
    obtain ⟨separate, same⟩ := inv
    cases e with
    | enter t e =>
        refine ⟨List.pairwise_cons.mpr ⟨clear, separate⟩, fun k => ?_⟩
        exact (Prog.cells_congr law fun k _ => same k).2 k (same k)
    | advance t =>
        obtain ⟨still, kept⟩ := (advanceIn_turn exec t _ _).keeps law separate
        exact ⟨still, fun k => (kept k).trans (same k)⟩
  exact both.2

/-- When all have returned, every cell is that of the serial run. -/
theorem sameCells_shared (law : ∀ op, Confined part exec op (reads op) (writes op))
    {h : List (ThreadStep τ η)} (apart : Lawful (KeepsApart body exec init reads writes) h)
    (idle : ((interleaved body exec init).run h).active = []) :
    SameCells part ((interleaved body exec init).run h).shared
      ((serial body exec init).run (entered h)) := by
  have final := sameCells_completed law apart
  rw [Threads.completed, idle] at final
  exact final

/-- When all have returned, programs that kept apart have left in every cell what the serial
run leaves where nothing is refused. -/
theorem Imitates.part_shared_of_apart {σ' : Type*} {part' : σ' → (k : κ) → ν k}
    {exec' : Exec σ' Ans} {init' : σ'} {Accepts : σ → ω → Prop}
    (imitates : Imitates part exec Accepts init part' exec' init')
    (law : ∀ op, Confined part' exec' op (reads op) (writes op)) {h : List (ThreadStep τ η)}
    (room : Lawful (AccessOk body exec init Accepts) h)
    (apart : Lawful (KeepsApart body exec' init' reads writes) h)
    (idle : ((interleaved body exec init).run h).active = []) (k : κ) :
    part ((interleaved body exec init).run h).shared k =
      part' ((serial body exec' init').run (entered h)) k := by
  obtain ⟨active, cells⟩ := imitates.run room
  rw [cells, sameCells_shared law apart (active.symm.trans idle) k]

end

end Tragach.Library
