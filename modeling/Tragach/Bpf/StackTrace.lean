import Mathlib.Data.UInt

/-! # Stack-trace maps

The kernel keeps a trace in the bucket its hash gives and never drops one, so a second
trace with that hash is refused. The id of a trace is the number of its bucket.
-/

namespace Tragach.Bpf

/-- Error of a trace whose bucket holds another one. -/
def EEXIST : Int64 := -17

/-- Error of a lookup of an empty bucket. -/
def ENOENT : Int64 := -2

/-- `BPF_MAP_TYPE_STACK_TRACE` with `n` buckets. -/
structure StackTrace (n : Nat) where
  slots : Fin n → Option (List UInt64)

namespace StackTrace

variable {n : Nat}

def empty : StackTrace n := ⟨fun _ => none⟩

/-- `get_stackid(ctx, 0)` for the addresses the kernel captured, or the error that kept
it from capturing them. -/
def getStackid (m : StackTrace n) (hash : List UInt64 → Fin n)
    (captured : Except Int64 (List UInt64)) : Except Int64 Int64 × StackTrace n :=
  match captured with
  | .error e => (.error e, m)
  | .ok ips =>
      match m.slots (hash ips) with
      | none =>
          (.ok (Int64.ofNat (hash ips)), ⟨fun i => if i = hash ips then some ips else m.slots i⟩)
      | some held => if held = ips then (.ok (Int64.ofNat (hash ips)), m) else (.error EEXIST, m)

def get (m : StackTrace n) (id : UInt32) : Except Int64 (List UInt64) :=
  if h : id.toNat < n then
    match m.slots ⟨id.toNat, h⟩ with
    | some ips => .ok ips
    | none => .error ENOENT
  else .error ENOENT

def Extends (m m' : StackTrace n) : Prop := ∀ i ips, m.slots i = some ips → m'.slots i = some ips

/-- An empty bucket takes the captured trace with its hash; no trace is ever replaced. -/
theorem slots_getStackid (m : StackTrace n) (hash : List UInt64 → Fin n)
    (captured : Except Int64 (List UInt64)) (i : Fin n) :
    (m.getStackid hash captured).2.slots i =
      match m.slots i with
      | some ips => some ips
      | none => captured.toOption.filter fun ips => hash ips = i := by
  cases captured with
  | error e => cases held : m.slots i <;> simp [getStackid, held, Except.toOption]
  | ok ips =>
      by_cases here : i = hash ips
      · subst here
        cases held : m.slots (hash ips) with
        | none => simp [getStackid, held, Except.toOption, Option.filter_some]
        | some old => by_cases same : old = ips <;> simp [getStackid, held, same]
      · have other : ¬ hash ips = i := fun same => here same.symm
        have kept : (m.getStackid hash (.ok ips)).2.slots i = m.slots i := by
          cases slot : m.slots (hash ips) with
          | none => simp [getStackid, slot, here]
          | some old => by_cases same : old = ips <;> simp [getStackid, slot, same]
        rw [kept]
        cases m.slots i <;> simp [other, Except.toOption, Option.filter_some]

theorem get_of_slots {m : StackTrace n} {i : Fin n} {ips : List UInt64}
    (held : m.slots i = some ips) {id : UInt32} (number : id.toNat = i) : m.get id = .ok ips := by
  have bound : id.toNat < n := number ▸ i.isLt
  have slot : (⟨id.toNat, bound⟩ : Fin n) = i := Fin.ext number
  rw [get, dif_pos bound, slot, held]

end StackTrace

end Tragach.Bpf
