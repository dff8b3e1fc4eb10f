import Tragach.Slowquery.Attribution

/-! # Call stacks

The calls in progress on a thread form a stack, because a call returns or is left
by an exception only when the calls inside it are over. A frame remembers whether
the same function has been entered again on its thread during the call.
-/

namespace Tragach.Slowquery

open Bpf Common Library

/-- A call in progress; `id` is the position of its entry in the run. -/
structure Frame where
  fn : Fn
  ctx : Ctx
  id : Nat
  reentered : Bool

def Frame.enter (f : Fn) (X : Frame) : Frame :=
  if X.fn = f then { X with reentered := true } else X

/-- The calls in progress on thread `t`, innermost first. -/
def frames (t : UInt32) : History → List Frame
  | [] => []
  | .entry f c :: h =>
      if c.tid = t then ⟨f, c, h.length, false⟩ :: (frames t h).map (Frame.enter f)
      else frames t h
  | .exit _ c :: h => if c.tid = t then (frames t h).tail else frames t h
  | .abandon _ u :: h => if u = t then (frames t h).tail else frames t h

def Innermost (f : Fn) (t : UInt32) (h : History) : Prop :=
  (frames t h).head?.map Frame.fn = some f

/-- Only the innermost call of a thread ends. -/
def Nested (h : History) : Action → Prop
  | .entry _ _ => True
  | .exit f c => Innermost f c.tid h
  | .abandon f t => Innermost f t h

instance (h : History) : ∀ a, Decidable (Nested h a)
  | .entry _ _ => .isTrue trivial
  | .exit f c => inferInstanceAs (Decidable ((frames c.tid h).head?.map Frame.fn = some f))
  | .abandon f t => inferInstanceAs (Decidable ((frames t h).head?.map Frame.fn = some f))

theorem innermost_cons {f : Fn} {t : UInt32} {h : History} (inner : Innermost f t h) :
    ∃ X rest, frames t h = X :: rest ∧ X.fn = f := by
  unfold Innermost at inner
  cases stack : frames t h with
  | nil => simp [stack] at inner
  | cons X rest =>
      rw [stack] at inner
      exact ⟨X, rest, rfl, Option.some.inj inner⟩

@[simp] theorem Frame.enter_fn (f : Fn) (X : Frame) : (X.enter f).fn = X.fn := by
  unfold Frame.enter
  split <;> rfl

@[simp] theorem Frame.enter_ctx (f : Fn) (X : Frame) : (X.enter f).ctx = X.ctx := by
  unfold Frame.enter
  split <;> rfl

@[simp] theorem Frame.enter_id (f : Fn) (X : Frame) : (X.enter f).id = X.id := by
  unfold Frame.enter
  split <;> rfl

theorem Frame.enter_of_ne {f : Fn} {X : Frame} (ne : X.fn ≠ f) : X.enter f = X := if_neg ne

theorem Frame.enter_reentered_of_eq {f : Fn} {X : Frame} (same : X.fn = f) :
    (X.enter f).reentered = true := by
  rw [Frame.enter, if_pos same]

theorem Frame.enter_reentered {f : Fn} {X : Frame} (again : X.reentered = true) :
    (X.enter f).reentered = true := by
  unfold Frame.enter
  split
  · rfl
  · exact again

/-- Stacks change only by a new frame on top or by losing the top. -/
theorem frames_induction {P : UInt32 → History → List Frame → Prop} (nil : ∀ t, P t [] [])
    (push : ∀ f c h, P c.tid h (frames c.tid h) →
      P c.tid (.entry f c :: h) (⟨f, c, h.length, false⟩ :: (frames c.tid h).map (Frame.enter f)))
    (pop : ∀ t a h, P t h (frames t h) → P t (a :: h) (frames t h).tail)
    (other : ∀ t a h, P t h (frames t h) → P t (a :: h) (frames t h)) :
    ∀ t h, P t h (frames t h) := by
  intro t h
  induction h with
  | nil => exact nil t
  | cons a h ih =>
      cases a with
      | entry f c =>
          simp only [frames]
          split
          next same =>
              subst same
              exact push f c h ih
          next => exact other t _ h ih
      | exit f c =>
          simp only [frames]
          split
          · exact pop t _ h ih
          · exact other t _ h ih
      | abandon f u =>
          simp only [frames]
          split
          · exact pop t _ h ih
          · exact other t _ h ih

theorem frames_entered {t : UInt32} {h : History} {X : Frame} (mem : X ∈ frames t h) :
    X.ctx.tid = t ∧ ∃ post pre, h = post ++ .entry X.fn X.ctx :: pre ∧ pre.length = X.id := by
  refine frames_induction (P := fun t h stack => ∀ X ∈ stack, X.ctx.tid = t ∧
    ∃ post pre, h = post ++ .entry X.fn X.ctx :: pre ∧ pre.length = X.id) ?_ ?_ ?_ ?_ t h X mem
  · intro t X mem
    cases mem
  · intro f c h ih X mem
    rcases List.mem_cons.mp mem with rfl | mem
    · exact ⟨rfl, [], h, rfl, rfl⟩
    · obtain ⟨Y, memY, rfl⟩ := List.mem_map.mp mem
      obtain ⟨tid, post, pre, split, id⟩ := ih Y memY
      refine ⟨by simpa using tid, .entry f c :: post, pre, ?_, by simpa using id⟩
      simp only [Frame.enter_fn, Frame.enter_ctx, List.cons_append]
      exact congrArg (List.cons (.entry f c)) split
  · intro t a h ih X mem
    obtain ⟨tid, post, pre, split, id⟩ := ih X (List.mem_of_mem_tail mem)
    exact ⟨tid, a :: post, pre, by simp [split], id⟩
  · intro t a h ih X mem
    obtain ⟨tid, post, pre, split, id⟩ := ih X mem
    exact ⟨tid, a :: post, pre, by simp [split], id⟩

theorem frames_mem_entry {t : UInt32} {h : History} {X : Frame} (mem : X ∈ frames t h) :
    .entry X.fn X.ctx ∈ h := by
  obtain ⟨-, post, pre, split, -⟩ := frames_entered mem
  simp [split]

/-- A call below another call of the same function has been re-entered. -/
theorem frames_pairwise (t : UInt32) (h : History) :
    (frames t h).Pairwise fun X Y => Y.fn = X.fn → Y.reentered = true := by
  refine frames_induction (P := fun _ _ stack =>
    stack.Pairwise fun X Y => Y.fn = X.fn → Y.reentered = true) ?_ ?_ ?_ ?_ t h
  · intro t
    exact List.Pairwise.nil
  · intro f c h ih
    refine List.Pairwise.cons ?_ (ih.map _ ?_)
    · intro Y mem same
      obtain ⟨Z, -, rfl⟩ := List.mem_map.mp mem
      exact Frame.enter_reentered_of_eq (by simpa using same)
    · intro X Y below same
      exact Frame.enter_reentered (below (by simpa using same))
  · intro t a h ih
    exact ih.tail
  · intro t a h ih
    exact ih

theorem frames_id_lt {t : UInt32} {h : History} {X : Frame} (mem : X ∈ frames t h) :
    X.id < h.length := by
  obtain ⟨-, post, pre, rfl, id⟩ := frames_entered mem
  simp only [List.length_append, List.length_cons]
  omega

theorem frames_sorted (t : UInt32) (h : History) :
    (frames t h).Pairwise fun X Y => Y.id < X.id := by
  refine frames_induction (P := fun _ _ stack => stack.Pairwise fun X Y => Y.id < X.id)
    ?_ ?_ ?_ ?_ t h
  · intro t
    exact List.Pairwise.nil
  · intro f c h ih
    refine List.Pairwise.cons ?_ (ih.map _ ?_)
    · intro Y mem
      obtain ⟨Z, memZ, rfl⟩ := List.mem_map.mp mem
      simpa using frames_id_lt memZ
    · intro X Y lt
      simpa using lt
  · intro t a h ih
    exact ih.tail
  · intro t a h ih
    exact ih

theorem position_unique {h post post' pre pre' : History} {a b : Action}
    (split : h = post ++ a :: pre) (split' : h = post' ++ b :: pre')
    (same : pre.length = pre'.length) : a = b ∧ pre = pre' := by
  have suffix : a :: pre <:+ h := ⟨post, split.symm⟩
  have suffix' : b :: pre' <:+ h := ⟨post', split'.symm⟩
  have nested := List.suffix_of_suffix_length_le suffix suffix' (by simp [same])
  have equal := nested.eq_of_length (by simp [same])
  exact ⟨(List.cons.inj equal).1, (List.cons.inj equal).2⟩

/-- The stacks of two threads share no call. -/
theorem frames_thread_unique {t u : UInt32} {h : History} {X Y : Frame} (memX : X ∈ frames t h)
    (memY : Y ∈ frames u h) (same : X.id = Y.id) : t = u := by
  obtain ⟨tidX, post, pre, split, id⟩ := frames_entered memX
  obtain ⟨tidY, post', pre', split', id'⟩ := frames_entered memY
  have equal := (position_unique split split' (by rw [id, id', same])).1
  injection equal with _ ctx
  rw [← tidX, ← tidY, ctx]

end Tragach.Slowquery
