import Tragach.Library.Interleaving

/-! # Proof outlines of interleaved programs

A program that owns a key while it runs goes through stages, and the accesses of a program
that owns another key leave every stage as it is. What each access preserves where it may be
made then holds in every interleaving in which no two running programs own one key.
-/

namespace Tragach.Library

variable {ω σ τ η κ : Type*} {Ans : ω → Type*}

/-- Two programs that own one key. -/
def SameKey (own : η → Option κ) (e e' : η) : Prop := own e ≠ none ∧ own e = own e'

instance [DecidableEq κ] (own : η → Option κ) : DecidableRel (SameKey own) := fun e e' =>
  inferInstanceAs (Decidable (own e ≠ none ∧ own e = own e'))

/-- The stages of the programs: `Idle k` holds while none that owns `k` is running, and
`Stage e rest` while the program of `e` has `rest` still to do. -/
structure Outline (body : η → Prog Ans) (exec : Exec σ Ans) (own : η → Option κ) (Ok : η → Prop)
    (Idle : κ → σ → Prop) (Stage : η → Prog Ans → σ → Prop) (Safe : σ → Prop) : Prop where
  begins : ∀ {e k s}, own e = some k → Ok e → Idle k s → Stage e (body e) s
  nothing : ∀ {e}, own e = none → body e = .done
  goes : ∀ {e k op next s}, own e = some k → Stage e (.access op next) s →
    Stage e (next (exec op s).1) (exec op s).2
  safe : ∀ {e k op next s}, own e = some k → Stage e (.access op next) s → Safe s →
    Safe (exec op s).2
  ends : ∀ {e k s}, own e = some k → Stage e .done s → Idle k s
  sparesIdle : ∀ {e k op next s k'}, own e = some k → Stage e (.access op next) s → k' ≠ k →
    Idle k' s → Idle k' (exec op s).2
  sparesStage : ∀ {e k op next s e' k' rest}, own e = some k → Stage e (.access op next) s →
    own e' = some k' → k' ≠ k → Stage e' rest s → Stage e' rest (exec op s).2

structure Staged (own : η → Option κ) (Idle : κ → σ → Prop) (Stage : η → Prog Ans → σ → Prop)
    (Safe : σ → Prop) (m : Threads σ τ η Ans) : Prop where
  safe : Safe m.shared
  stage : ∀ a ∈ m.active, ∀ k, own a.event = some k → Stage a.event a.rest m.shared
  nothing : ∀ a ∈ m.active, own a.event = none → a.rest = .done
  alone : m.active.Pairwise fun a b => ¬ SameKey own a.event b.event
  idle : ∀ k, (∀ a ∈ m.active, own a.event ≠ some k) → Idle k m.shared

section

variable {body : η → Prog Ans} {exec : Exec σ Ans} {own : η → Option κ} {Ok : η → Prop}
  {Idle : κ → σ → Prop} {Stage : η → Prog Ans → σ → Prop} {Safe : σ → Prop} {init : σ}

theorem Staged.enter (outline : Outline body exec own Ok Idle Stage Safe)
    {m : Threads σ τ η Ans} (staged : Staged own Idle Stage Safe m) (t : τ) {e : η} (ok : Ok e)
    (clear : ∀ a ∈ m.active, ¬ SameKey own e a.event) :
    Staged own Idle Stage Safe { m with active := ⟨t, e, body e⟩ :: m.active } := by
  refine ⟨staged.safe, List.forall_mem_cons.mpr ⟨fun k owns => ?_, staged.stage⟩,
    List.forall_mem_cons.mpr ⟨outline.nothing, staged.nothing⟩,
    List.pairwise_cons.mpr ⟨clear, staged.alone⟩, fun k free => ?_⟩
  · refine outline.begins owns ok (staged.idle k fun a mem same => clear a mem ⟨?_, ?_⟩)
    · exact fun none => Option.some_ne_none k (owns.symm.trans none)
    · exact owns.trans same.symm
  · exact staged.idle k fun a mem => free a (List.mem_cons_of_mem _ mem)

theorem Staged.perm {s : σ} {l l' : List (Active τ η Ans)} (same : l.Perm l')
    (staged : Staged own Idle Stage Safe ⟨s, l⟩) : Staged own Idle Stage Safe ⟨s, l'⟩ where
  safe := staged.safe
  stage a mem := staged.stage a (same.mem_iff.mpr mem)
  nothing a mem := staged.nothing a (same.mem_iff.mpr mem)
  alone := staged.alone.perm same fun apart ⟨owned, eq⟩ => apart ⟨eq ▸ owned, eq.symm⟩
  idle k free := staged.idle k fun a mem => free a (same.mem_iff.mp mem)

section

variable {s : σ} {l : List (Active τ η Ans)} {a : Active τ η Ans}

/-- A program that returns leaves its key idle. -/
theorem Staged.leave (outline : Outline body exec own Ok Idle Stage Safe)
    (staged : Staged own Idle Stage Safe ⟨s, a :: l⟩) (rest : a.rest = .done) :
    Staged own Idle Stage Safe ⟨s, l⟩ := by
  refine ⟨staged.safe, fun b mem => staged.stage b (List.mem_cons_of_mem a mem),
    fun b mem => staged.nothing b (List.mem_cons_of_mem a mem),
    (List.pairwise_cons.mp staged.alone).2, fun k free => ?_⟩
  by_cases owns : own a.event = some k
  · have last := staged.stage a List.mem_cons_self k owns
    rw [rest] at last
    exact outline.ends owns last
  · exact staged.idle k (List.forall_mem_cons.mpr ⟨owns, free⟩)

/-- An access takes its program to the next stage and leaves the others where they are. -/
theorem Staged.access (outline : Outline body exec own Ok Idle Stage Safe)
    (staged : Staged own Idle Stage Safe ⟨s, a :: l⟩) {op : ω} {next : Ans op → Prog Ans}
    (rest : a.rest = .access op next) :
    Staged own Idle Stage Safe
      ⟨(exec op s).2, { a with rest := next (exec op s).1 } :: l⟩ := by
  obtain ⟨k, owns⟩ : ∃ k, own a.event = some k := by
    refine Option.ne_none_iff_exists'.mp fun none => ?_
    have ended := staged.nothing a List.mem_cons_self none
    rw [rest] at ended
    cases ended
  have now := staged.stage a List.mem_cons_self k owns
  rw [rest] at now
  obtain ⟨first, others⟩ := List.pairwise_cons.mp staged.alone
  have foreign : ∀ b ∈ l, ∀ k', own b.event = some k' → k' ≠ k := by
    intro b mem k' owns' same
    subst same
    exact first b mem ⟨by simp [owns], owns.trans owns'.symm⟩
  refine ⟨outline.safe owns now staged.safe, List.forall_mem_cons.mpr ⟨fun _ _ => ?_, ?_⟩,
    List.forall_mem_cons.mpr ⟨fun none => ?_, ?_⟩, List.pairwise_cons.mpr ⟨first, others⟩,
    fun k' free => ?_⟩
  · exact outline.goes owns now
  · exact fun b mem k' owns' => outline.sparesStage owns now owns' (foreign b mem k' owns')
      (staged.stage b (List.mem_cons_of_mem a mem) k' owns')
  · exact absurd (owns.symm.trans none) (Option.some_ne_none k)
  · exact fun b mem => staged.nothing b (List.mem_cons_of_mem a mem)
  · obtain ⟨free, rest⟩ := List.forall_mem_cons.mp free
    have other : k' ≠ k := fun same => free (owns.trans (congrArg some same.symm))
    exact outline.sparesIdle owns now other
      (staged.idle k' (List.forall_mem_cons.mpr ⟨free, rest⟩))

end

theorem Staged.turn (outline : Outline body exec own Ok Idle Stage Safe) {t : τ} {s : σ}
    {l : List (Active τ η Ans)} {op : Option ω} {m : Threads σ τ η Ans}
    (staged : Staged own Idle Stage Safe ⟨s, l⟩) (turn : Turn exec t s l op m) :
    Staged own Idle Stage Safe m := by
  cases turn with
  | absent => exact staged
  | leave pre post rest => exact (staged.perm List.perm_middle).leave outline rest
  | access pre post rest =>
      exact ((staged.perm List.perm_middle).access outline rest).perm List.perm_middle.symm

/-- What every access preserves at the stage where it is made holds in every interleaving of
programs that run at one time under different keys. -/
theorem Outline.holds [DecidableEq τ] (outline : Outline body exec own Ok Idle Stage Safe)
    (safe : Safe init) (idle : ∀ k, Idle k init) {h : List (ThreadStep τ η)}
    (ok : ∀ e ∈ entered h, Ok e) (apart : Lawful (NoClash body exec init (SameKey own)) h) :
    Safe ((interleaved body exec init).run h).shared := by
  have staged : Staged own Idle Stage Safe ((interleaved body exec init).run h) := by
    induction h with
    | nil =>
        exact ⟨safe, fun a mem => absurd mem List.not_mem_nil,
          fun a mem => absurd mem List.not_mem_nil, List.Pairwise.nil, fun k _ => idle k⟩
    | cons step h ih =>
        cases step with
        | enter t e =>
            have before := ih (fun e' mem => ok e' (List.mem_cons_of_mem e mem)) apart.2
            exact before.enter outline t (ok e List.mem_cons_self) apart.1
        | advance t => exact (ih ok apart.2).turn outline (advanceIn_turn exec t _ _)
  exact staged.safe

end

end Tragach.Library
