import Mathlib.Data.List.Sort

/-! # Sorting by a key

A stable sort keeps elements of equal keys in the order of the input. What stands right
before a boundary in the sorted list is therefore the last element of the input among
those with the greatest key within the boundary.
-/

namespace Tragach.Library

/-- The number of elements before the first one that does not satisfy `p`. -/
def partitionPoint {α : Type*} (p : α → Bool) (l : List α) : Nat := (l.takeWhile p).length

theorem pred_partitionPoint_lt {α : Type*} {p : α → Bool} {l : List α}
    (nonzero : partitionPoint p l ≠ 0) : partitionPoint p l - 1 < l.length := by
  have within : partitionPoint p l ≤ l.length := (List.takeWhile_prefix p).length_le
  omega

section

variable {α β : Type*} [LinearOrder β] {key : α → β} {l : List α}

def sortByKey (key : α → β) (l : List α) : List α := l.insertionSort fun a b => key a ≤ key b

theorem sortByKey_perm (key : α → β) (l : List α) : (sortByKey key l).Perm l :=
  List.perm_insertionSort _ l

theorem pairwise_sortByKey : (sortByKey key l).Pairwise fun a b => key a ≤ key b :=
  List.pairwise_insertionSort _ l

theorem take_sortByKey_le {n : Nat} {a b : α} (taken : a ∈ (sortByKey key l).take n)
    (left : b ∈ (sortByKey key l).drop n) : key a ≤ key b := by
  have sorted : (sortByKey key l).Pairwise fun a b => key a ≤ key b := pairwise_sortByKey
  rw [← List.take_append_drop n (sortByKey key l)] at sorted
  exact (List.pairwise_append.mp sorted).2.2 a taken b left

/-- The elements of one key keep their order. -/
theorem filter_sortByKey (k : β) :
    ((sortByKey key l).filter fun a => key a = k) = l.filter fun a => key a = k := by
  have equal : (l.filter fun a => key a = k).Pairwise fun a b => key a ≤ key b := by
    apply List.pairwise_of_forall_mem_list
    intro a mem b mem'
    have left : key a = k := by simpa using (List.mem_filter.mp mem).2
    have right : key b = k := by simpa using (List.mem_filter.mp mem').2
    exact (left.trans right.symm).le
  have kept : (l.filter fun a => key a = k).Sublist (sortByKey key l) :=
    List.sublist_insertionSort equal List.filter_sublist
  have within := kept.filter fun a => key a = k
  rw [List.filter_filter] at within
  simp only [Bool.and_self] at within
  have length := (sortByKey_perm key l).filter fun a => key a = k
  exact (within.eq_of_length length.length_eq.symm).symm

theorem takeWhile_eq_filter (sorted : l.Pairwise fun a b => key a ≤ key b) (b : β) :
    (l.takeWhile fun a => key a ≤ b) = l.filter fun a => key a ≤ b := by
  induction l with
  | nil => rfl
  | cons a l ih =>
      rcases List.pairwise_cons.mp sorted with ⟨least, sorted'⟩
      by_cases within : key a ≤ b
      · simp [within, ih sorted']
      · have beyond : ∀ c ∈ l, ¬ key c ≤ b := fun c mem low => within ((least c mem).trans low)
        rw [List.takeWhile_cons_of_neg (by simpa using within),
          List.filter_cons_of_neg (by simpa using within)]
        exact (List.filter_eq_nil_iff.mpr (by simpa using beyond)).symm

theorem lt_of_mem_dropWhile (sorted : l.Pairwise fun a b => key a ≤ key b) {b : β} {a : α}
    (mem : a ∈ l.dropWhile fun a => key a ≤ b) : b < key a := by
  induction l with
  | nil => cases mem
  | cons c l ih =>
      rcases List.pairwise_cons.mp sorted with ⟨least, sorted'⟩
      by_cases within : key c ≤ b
      · rw [List.dropWhile_cons_of_pos (by simpa using within)] at mem
        exact ih sorted' mem
      · rw [List.dropWhile_cons_of_neg (by simpa using within)] at mem
        rcases List.mem_cons.mp mem with rfl | later
        · exact not_le.mp within
        · exact (not_le.mp within).trans_le (least a later)

theorem partitionPoint_eq_zero_iff (sorted : l.Pairwise fun a b => key a ≤ key b) (b : β) :
    partitionPoint (fun a => key a ≤ b) l = 0 ↔ ∀ a ∈ l, b < key a := by
  rw [partitionPoint, takeWhile_eq_filter sorted, List.length_eq_zero_iff, List.filter_eq_nil_iff]
  simp

/-- Of the elements whose keys are within the bound, `x` is the last one of those with the
greatest key. -/
def IsLastGreatest (key : α → β) (b : β) (l : List α) (x : α) : Prop :=
  ∃ pre post, l = pre ++ x :: post ∧ key x ≤ b ∧
    (∀ a ∈ pre, key a ≤ b → key a ≤ key x) ∧ ∀ a ∈ post, key a ≤ b → key a < key x

theorem isLastGreatest_of_sortByKey {b : β} {x : α} {init rest : List α}
    (sorted : sortByKey key l = init ++ x :: rest) (within : key x ≤ b)
    (beyond : ∀ a ∈ rest, b < key a) : IsLastGreatest key b l x := by
  have order : (init ++ x :: rest).Pairwise fun a b => key a ≤ key b := sorted ▸ pairwise_sortByKey
  have mem_iff : ∀ a, a ∈ l ↔ a ∈ init ++ x :: rest := fun a =>
    sorted ▸ (sortByKey_perm key l).mem_iff.symm
  have greatest : ∀ a ∈ l, key a ≤ b → key a ≤ key x := by
    intro a mem low
    rcases List.mem_append.mp ((mem_iff a).mp mem) with before | after
    · exact (List.pairwise_append.mp order).2.2 a before x List.mem_cons_self
    · rcases List.mem_cons.mp after with rfl | later
      · exact le_rfl
      · exact absurd low (beyond a later).not_ge
  -- the elements with the key of `x` stand in both lists in the same order, `x` last
  have same : (l.filter fun a => key a = key x) = (init.filter fun a => key a = key x) ++ [x] := by
    have none : (rest.filter fun a => key a = key x) = [] := by
      apply List.filter_eq_nil_iff.mpr
      intro a mem
      have above : key x < key a := within.trans_lt (beyond a mem)
      simpa using above.ne'
    rw [← filter_sortByKey, sorted, List.filter_append, List.filter_cons_of_pos (by simp), none]
  rcases List.filter_eq_append_iff.mp same with ⟨front, back, split, _, single⟩
  rcases List.filter_eq_cons_iff.mp single with ⟨between, post, split', _, _, nothing⟩
  refine ⟨front ++ between, post, ?_, within, fun a mem low => ?_, fun a mem low => ?_⟩
  · rw [split, split', List.append_assoc]
  · have mem' : a ∈ l := by
      rw [split, split']
      rcases List.mem_append.mp mem with here | here <;> simp [here]
    exact greatest a mem' low
  · have le : key a ≤ key x := greatest a (by simp [split, split', mem]) low
    have ne : key a ≠ key x := by simpa using List.filter_eq_nil_iff.mp nothing a mem
    exact lt_of_le_of_ne le ne

theorem isLastGreatest_boundary {b : β}
    (nonzero : partitionPoint (fun a => key a ≤ b) (sortByKey key l) ≠ 0) :
    IsLastGreatest key b l ((sortByKey key l).get ⟨_, pred_partitionPoint_lt nonzero⟩) := by
  have split := List.takeWhile_append_dropWhile (p := fun a => key a ≤ b) (l := sortByKey key l)
  have sorted : (sortByKey key l).Pairwise fun a b => key a ≤ key b := pairwise_sortByKey
  rcases List.eq_nil_or_concat ((sortByKey key l).takeWhile fun a => key a ≤ b) with
    none | ⟨init, x, within⟩
  · rw [partitionPoint, none] at nonzero
    exact absurd rfl nonzero
  rw [List.concat_eq_append] at within
  have low : key x ≤ b := by
    have mem : x ∈ (sortByKey key l).takeWhile fun a => key a ≤ b := by simp [within]
    rw [takeWhile_eq_filter sorted] at mem
    simpa using (List.mem_filter.mp mem).2
  have whole : sortByKey key l =
      init ++ x :: (sortByKey key l).dropWhile fun a => key a ≤ b := by
    rw [within] at split
    simpa using split.symm
  have at_boundary : (sortByKey key l)[partitionPoint (fun a => key a ≤ b) (sortByKey key l) - 1]? =
      some x := by
    rw [show partitionPoint (fun a => key a ≤ b) (sortByKey key l) - 1 = init.length by
      simp [partitionPoint, within], whole]
    simp
  have element : (sortByKey key l).get ⟨_, pred_partitionPoint_lt nonzero⟩ = x :=
    (List.getElem?_eq_some_iff.mp at_boundary).2
  rw [element]
  exact isLastGreatest_of_sortByKey whole low fun a mem => lt_of_mem_dropWhile sorted mem

end

end Tragach.Library
