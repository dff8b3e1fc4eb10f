import Tragach.Bpf.Map

/-! # Probe programs

A probe body runs to completion on the maps of its program, may stop early with
an error code, and keeps whatever it changed before stopping. Everything the
kernel supplies to one firing is in its context: the registers, the clock, the
current task, the CPU, the keys an LRU insert drops and the ring-buffer slot a
reservation hands out.
-/

namespace Tragach.Bpf

/-- `a.saturating_sub(b)` on `u64`. -/
def saturatingSub (a b : UInt64) : UInt64 := if b ≤ a then a - b else 0

theorem saturatingSub_of_le {a b : UInt64} (h : b ≤ a) : saturatingSub a b = a - b := if_pos h

@[simp] theorem saturatingSub_toNat (a b : UInt64) :
    (saturatingSub a b).toNat = a.toNat - b.toNat := by
  unfold saturatingSub
  split
  next h => exact UInt64.toNat_sub_of_le a b h
  next h =>
      have lt : a.toNat < b.toNat := UInt64.lt_iff_toNat_lt.mp (UInt64.not_le.mp h)
      simp only [UInt64.toNat_zero]
      omega

/-- The registers a probe reads, in SysV AMD64 argument order, and the return
value a return probe reads. -/
structure PtRegs where
  rdi : UInt64 := 0
  rsi : UInt64 := 0
  rdx : UInt64 := 0
  rcx : UInt64 := 0
  r8 : UInt64 := 0
  r9 : UInt64 := 0
  rax : UInt64 := 0

/-- One firing of a probe. `slot` is the answer to a ring-buffer reservation: no
slot when the ring is full, else a slot with whatever its memory last held. -/
structure ProbeContext (ε : Type) where
  cpu : Nat
  pidTgid : UInt64
  ktime : UInt64
  regs : PtRegs
  evicted : List UInt64
  slot : Option ε

namespace ProbeContext

variable {ε : Type}

def arg (ctx : ProbeContext ε) : Nat → Option UInt64
  | 0 => some ctx.regs.rdi
  | 1 => some ctx.regs.rsi
  | 2 => some ctx.regs.rdx
  | 3 => some ctx.regs.rcx
  | 4 => some ctx.regs.r8
  | 5 => some ctx.regs.r9
  | _ => none

def ret (ctx : ProbeContext ε) : Option UInt64 := some ctx.regs.rax

/-- Low half of `bpf_get_current_pid_tgid`. -/
def tid (ctx : ProbeContext ε) : UInt32 := (ctx.pidTgid &&& 0xffffffff).toUInt32

/-- High half of `bpf_get_current_pid_tgid`. -/
def tgid (ctx : ProbeContext ε) : UInt32 := (ctx.pidTgid >>> 32).toUInt32

end ProbeContext

/-- A probe body over the maps `σ`. -/
abbrev Probe (σ α : Type) := EStateM Int64 σ α

namespace Probe

variable {σ α : Type}

/-- `x.ok_or(e)?`. -/
def okOr (x : Option α) (e : Int64) : Probe σ α :=
  match x with
  | some a => pure a
  | none => throw e

/-- `x?`. -/
def try' (x : Except Int64 α) : Probe σ α :=
  match x with
  | .ok a => pure a
  | .error e => throw e

/-- `let r = x;`: the result of `x` as a value, to be returned later. -/
def attempt (x : Probe σ α) : Probe σ (Except Int64 α) := fun s =>
  match x.run s with
  | .ok a s' => .ok (.ok a) s'
  | .error e s' => .ok (.error e) s'

/-- The maps after a firing; the program's `let _ = body(ctx)` drops the result. -/
def final (body : Probe σ Unit) (s : σ) : σ :=
  match body.run s with
  | .ok _ s' => s'
  | .error _ s' => s'

@[simp] theorem run_okOr_some (a : α) (e : Int64) (s : σ) :
    (okOr (some a) e).run s = .ok a s := rfl

@[simp] theorem run_okOr_none (e : Int64) (s : σ) :
    (okOr (none : Option α) e).run s = .error e s := rfl

@[simp] theorem run_try_ok (a : α) (s : σ) : (try' (.ok a)).run s = .ok a s := rfl

@[simp] theorem run_try_error (e : Int64) (s : σ) :
    (try' (.error e : Except Int64 α)).run s = .error e s := rfl

theorem run_attempt (x : Probe σ α) (s : σ) :
    (attempt x).run s = match x.run s with
      | .ok a s' => .ok (.ok a) s'
      | .error e s' => .ok (.error e) s' := rfl

end Probe

end Tragach.Bpf
