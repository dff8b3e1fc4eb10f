import Tragach.Bpf.Map

/-! # What a full hash map loses

A hash map is kept over a history by inserts and removals. With a limit it holds what it
would hold without one, less the keys whose latest insert was refused: no value is ever
another than the history's, and an insert that finds the key present is never refused.
-/

namespace Tragach.Bpf

open Library

inductive HashOp (κ ν : Type) where
  | keep
  | insert (k : κ) (v : ν)
  | remove (k : κ)

variable {ε κ ν : Type} [DecidableEq κ] {cap : Capacity}

def HashOp.apply : HashOp κ ν → HashMap κ ν cap → HashMap κ ν cap
  | .keep, m => m
  | .insert k v, m => m.upsert k v
  | .remove k, m => m.remove k

def HashMap.replay (op : List ε → ε → HashOp κ ν) : List ε → HashMap κ ν cap
  | [] => .empty
  | e :: h => (op h e).apply (HashMap.replay op h)

/-- The operations on the cells of a map without limit. -/
def HashOp.journal (op : List ε → ε → HashOp κ ν) : Journal ε κ ν := fun h e k =>
  match op h e with
  | .keep => .keep
  | .insert k' v => if k = k' then .put v else .keep
  | .remove k' => if k = k' then .drop else .keep

/-- The latest insert of the key was refused, and the key has not been removed since. -/
def refused (cap : Capacity) (op : List ε → ε → HashOp κ ν) : List ε → κ → Bool
  | [], _ => false
  | e :: h, k =>
      match op h e with
      | .keep => refused cap op h k
      | .insert k' _ =>
          if k = k' then !(HashMap.replay op h : HashMap κ ν cap).accepts k
          else refused cap op h k
      | .remove k' => if k = k' then false else refused cap op h k

variable {op : List ε → ε → HashOp κ ν}

/-- A map with a limit holds what one without would, less the refused keys. -/
theorem HashMap.get_replay (h : List ε) (k : κ) :
    (HashMap.replay op h : HashMap κ ν cap).get k =
      if refused cap op h k = true then none else (HashOp.journal op).replay h k := by
  induction h with
  | nil => exact HashMap.get_empty k
  | cons e h ih =>
      rw [HashMap.replay, refused, Journal.replay_cons, HashOp.journal]
      cases op h e with
      | keep => exact ih
      | insert k' v =>
          dsimp only [HashOp.apply]
          rw [HashMap.get_upsert, HashMap.insertOp]
          by_cases same : k = k'
          · subst same
            cases room : (HashMap.replay op h : HashMap κ ν cap).accepts k with
            | true => simp
            | false =>
                have absent : (HashMap.replay op h : HashMap κ ν cap).get k = none := by
                  by_contra present
                  obtain ⟨v', held⟩ := Option.ne_none_iff_exists'.mp present
                  rw [HashMap.accepts_of_get held] at room
                  cases room
                simp [absent]
          · simp [same, ih]
      | remove k' =>
          dsimp only [HashOp.apply]
          rw [HashMap.get_remove]
          by_cases same : k = k'
          · simp [same]
          · simp [same, ih]

end Tragach.Bpf
