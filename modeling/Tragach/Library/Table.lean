import Mathlib.Algebra.BigOperators.Group.Multiset.Basic
import Mathlib.Algebra.GroupWithZero.Nat
import Mathlib.Data.Finmap

/-! # Tables filled by a loop

A loop over a list that updates the entry of each element's key, adding the entry when it
is not there, groups the list: the entry of a key is what the updates of the elements
with that key make of it. It does not depend on the order of the list when the updates of
one key commute, and what the entries add up to is what the elements add up to.
-/

namespace Tragach.Library

/-- A finite map, without an order of its entries. -/
abbrev Table (κ β : Type*) := Finmap fun _ : κ => β

namespace Table

variable {ε κ β : Type*}

def pairs (m : Table κ β) : Multiset (κ × β) := m.entries.map fun e => (e.1, e.2)

def sum (m : Table κ β) (f : κ → β → Nat) : Nat := (m.pairs.map fun e => f e.1 e.2).sum

theorem mem_pairs [DecidableEq κ] {m : Table κ β} {k : κ} {b : β} :
    (k, b) ∈ m.pairs ↔ m.lookup k = some b := by
  rw [pairs, Multiset.mem_map, Finmap.lookup_eq_some_iff]
  constructor
  · intro found
    rcases found with ⟨⟨k', b'⟩, mem, same⟩
    cases same
    exact mem
  · intro mem
    exact ⟨⟨k, b⟩, mem, rfl⟩

theorem keys_pairs (m : Table κ β) : m.pairs.map Prod.fst = m.keys.val := by
  rw [pairs, Multiset.map_map]
  rfl

theorem sum_empty {f : κ → β → Nat} : (∅ : Table κ β).sum f = 0 := rfl

section

variable [DecidableEq κ]

/-- The entry of a key after an update of what is there, if anything is. -/
def entry (m : Table κ β) (k : κ) (update : Option β → β) : Table κ β :=
  m.insert k (update (m.lookup k))

/-- A loop that updates the entry of each element's key. -/
def collect (key : ε → κ) (update : ε → Option β → β) (m : Table κ β) (l : List ε) : Table κ β :=
  l.foldl (fun m e => m.entry (key e) (update e)) m

theorem lookup_entry (m : Table κ β) (k k' : κ) (update : Option β → β) :
    (m.entry k update).lookup k' = if k' = k then some (update (m.lookup k)) else m.lookup k' := by
  split
  next same =>
      subst same
      exact Finmap.lookup_insert m
  next other => exact Finmap.lookup_insert_of_ne m other

/-! ## The entry of a key -/

variable {key : ε → κ} {update : ε → Option β → β}

theorem lookup_collect (m : Table κ β) (l : List ε) (k : κ) :
    (collect key update m l).lookup k =
      (l.filter fun e => key e = k).foldl (fun o e => some (update e o)) (m.lookup k) := by
  induction l generalizing m with
  | nil => rfl
  | cons e l ih =>
      rw [collect, List.foldl_cons, ← collect, ih, lookup_entry]
      by_cases own : key e = k
      · rw [List.filter_cons_of_pos (by simpa using own), List.foldl_cons, if_pos own.symm, own]
      · rw [List.filter_cons_of_neg (by simpa using own), if_neg (Ne.symm own)]

theorem lookup_collect_of_mem {m : Table κ β} {l : List ε} {e : ε} (distinct : (l.map key).Nodup)
    (mem : e ∈ l) :
    (collect key update m l).lookup (key e) = some (update e (m.lookup (key e))) := by
  induction l generalizing m with
  | nil => cases mem
  | cons a l ih =>
      rw [List.map_cons, List.nodup_cons] at distinct
      rw [collect, List.foldl_cons, ← collect]
      rcases List.mem_cons.mp mem with rfl | later
      · have none : (l.filter fun e' => key e' = key e) = [] := by
          refine List.filter_eq_nil_iff.mpr fun e' mem' same => distinct.1 ?_
          rw [← of_decide_eq_true same]
          exact List.mem_map_of_mem mem'
        rw [lookup_collect, none, List.foldl_nil, lookup_entry, if_pos rfl]
      · have other : key e ≠ key a := fun same =>
          distinct.1 (same ▸ List.mem_map_of_mem later)
        rw [ih distinct.2 later, lookup_entry, if_neg other]

/-- The order of the list does not matter to a table whose updates commute. -/
theorem collect_perm {m : Table κ β} {l l' : List ε} (perm : l.Perm l')
    (comm : ∀ e e' o, key e = key e' →
      update e (some (update e' o)) = update e' (some (update e o))) :
    collect key update m l = collect key update m l' := by
  apply Finmap.ext_lookup
  intro k
  rw [lookup_collect, lookup_collect]
  refine (perm.filter _).foldl_eq' (fun e mem e' mem' o => ?_) (m.lookup k)
  have own : key e = k := by simpa using (List.mem_filter.mp mem).2
  have own' : key e' = k := by simpa using (List.mem_filter.mp mem').2
  exact congrArg some (comm e' e o (own'.trans own.symm))

/-- Updates of two keys, or commuting ones of the same key. -/
theorem entry_comm (m : Table κ β) {k k' : κ} {u u' : Option β → β}
    (comm : k = k' → ∀ o, u (some (u' o)) = u' (some (u o))) :
    (m.entry k' u').entry k u = (m.entry k u).entry k' u' := by
  apply Finmap.ext_lookup
  intro x
  simp only [lookup_entry]
  by_cases same : k = k'
  · subst same
    split
    next => rw [if_pos rfl, if_pos rfl, comm rfl]
    next => rfl
  · have same' : k' ≠ k := Ne.symm same
    by_cases first : x = k
    · rw [if_pos first, if_neg same, if_neg (first ▸ same), if_pos first]
    · rw [if_neg first, if_neg same', if_neg first]

theorem mem_entry {m : Table κ β} {k k' : κ} {update : Option β → β} :
    k' ∈ m.entry k update ↔ k' = k ∨ k' ∈ m := Finmap.mem_insert

theorem mem_collect {m : Table κ β} {l : List ε} {k : κ} :
    k ∈ collect key update m l ↔ k ∈ m ∨ ∃ e ∈ l, key e = k := by
  induction l generalizing m with
  | nil => simp [collect]
  | cons e l ih =>
      rw [collect, List.foldl_cons, ← collect, ih, mem_entry, List.exists_mem_cons_iff]
      constructor
      · rintro ((own | held) | later)
        · exact .inr (.inl own.symm)
        · exact .inl held
        · exact .inr (.inr later)
      · rintro (held | own | later)
        · exact .inl (.inr held)
        · exact .inl (.inl own.symm)
        · exact .inr later

/-- What every update establishes holds of every entry. -/
theorem collect_invariant {P : κ → β → Prop}
    (step : ∀ e o, (∀ b ∈ o, P (key e) b) → P (key e) (update e o)) {m : Table κ β}
    (start : ∀ k, ∀ b ∈ m.lookup k, P k b) (l : List ε) (k : κ) :
    ∀ b ∈ (collect key update m l).lookup k, P k b := by
  induction l generalizing m with
  | nil => exact start k
  | cons e l ih =>
      rw [collect, List.foldl_cons, ← collect]
      apply ih
      intro k' b mem
      rw [lookup_entry] at mem
      split at mem
      next own =>
          rw [Option.mem_some] at mem
          subst own mem
          exact step e _ (start (key e))
      next => exact start k' b mem

theorem foldl_some (add : β → ε → β) (b : β) (l : List ε) (start : Option β) :
    l.foldl (fun o e => some (add (o.getD b) e)) start =
      if l = [] then start else some (l.foldl add (start.getD b)) := by
  induction l generalizing start with
  | nil => rfl
  | cons e l ih =>
      rw [List.foldl_cons, ih, if_neg (List.cons_ne_nil e l), List.foldl_cons]
      split
      next none => rw [none, List.foldl_nil]
      next => rfl

/-! ## The sum of the entries -/

variable {f : κ → β → Nat}

theorem sum_insert_of_notMem {m : Table κ β} {k : κ} {b : β} (new : k ∉ m) :
    sum (m.insert k b) f = f k b + m.sum f := by
  simp [sum, pairs, Finmap.entries_insert_of_notMem new]

theorem insert_erase {m : Table κ β} {k : κ} {a : β} (held : m.lookup k = some a) :
    (m.erase k).insert k a = m := by
  apply Finmap.ext_lookup
  intro k'
  by_cases own : k' = k
  · subst own
    rw [Finmap.lookup_insert, held]
  · rw [Finmap.lookup_insert_of_ne _ own, Finmap.lookup_erase_ne own]

theorem sum_of_lookup {m : Table κ β} {k : κ} {a : β} (held : m.lookup k = some a) :
    m.sum f = f k a + sum (m.erase k) f := by
  conv_lhs => rw [← insert_erase held]
  exact sum_insert_of_notMem Finmap.notMem_erase_self

theorem sum_insert_of_lookup {m : Table κ β} {k : κ} {a b : β} (held : m.lookup k = some a) :
    sum (m.insert k b) f = f k b + sum (m.erase k) f := by
  have replaced : m.insert k b = (m.erase k).insert k b := by
    conv_lhs => rw [← insert_erase held]
    exact Finmap.insert_insert _
  rw [replaced]
  exact sum_insert_of_notMem Finmap.notMem_erase_self

theorem sum_entry {m : Table κ β} {k : κ} {update : Option β → β} {w : Nat}
    (more : f k (update (m.lookup k)) = (m.lookup k).elim 0 (f k) + w) :
    (m.entry k update).sum f = m.sum f + w := by
  unfold entry
  cases held : m.lookup k with
  | none =>
      rw [held] at more
      rw [sum_insert_of_notMem (Finmap.lookup_eq_none.mp held), more, Option.elim_none]
      omega
  | some a =>
      rw [held, Option.elim_some] at more
      rw [sum_insert_of_lookup held, sum_of_lookup held, more]
      omega

theorem elim_lookup_le_sum (m : Table κ β) (k : κ) : (m.lookup k).elim 0 (f k) ≤ m.sum f := by
  cases held : m.lookup k with
  | none => exact Nat.zero_le _
  | some a =>
      rw [sum_of_lookup held]
      exact Nat.le_add_right (f k a) _

/-- The loop counts what its elements count, as long as that stays below a bound under
which each update does. -/
theorem sum_collect {weight : ε → Nat} {bound : Nat}
    (counts : ∀ e o, o.elim 0 (f (key e)) + weight e < bound →
      f (key e) (update e o) = o.elim 0 (f (key e)) + weight e)
    (m : Table κ β) (l : List ε) (small : m.sum f + (l.map weight).sum < bound) :
    (collect key update m l).sum f = m.sum f + (l.map weight).sum := by
  induction l generalizing m with
  | nil => rfl
  | cons e l ih =>
      rw [List.map_cons, List.sum_cons] at small ⊢
      have le : (m.lookup (key e)).elim 0 (f (key e)) ≤ m.sum f := elim_lookup_le_sum m (key e)
      have step : (m.entry (key e) (update e)).sum f = m.sum f + weight e :=
        sum_entry (counts e _ (by omega))
      rw [collect, List.foldl_cons, ← collect, ih _ (by omega), step]
      omega

end

end Table

end Tragach.Library
