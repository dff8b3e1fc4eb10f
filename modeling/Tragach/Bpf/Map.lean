import Mathlib.Data.Finmap
import Tragach.Library.Journal

/-! # Kernel maps

The kinds of BPF map, as the programs see them. A hash map refuses a new
key once it holds its declared number of entries and is then left unchanged. An
LRU map makes room by dropping entries of the kernel's choice; the keys dropped
by one insert are a parameter of that insert. A per-CPU array has one copy of
its slots on every CPU, an array one copy in all.
-/

namespace Tragach.Bpf

open Library

/-- The number of entries a map is declared with; `none` is a map without limit. -/
abbrev Capacity := Option Nat

def Capacity.admits : Capacity → Nat → Bool
  | none, _ => true
  | some n, size => decide (size ≤ n)

@[simp] theorem Capacity.admits_none (size : Nat) : Capacity.admits none size = true := rfl

@[simp] theorem Capacity.admits_some (n size : Nat) :
    Capacity.admits (some n) size = decide (size ≤ n) := rfl

theorem Capacity.admits_of_le {cap : Capacity} {m n : Nat} (le : m ≤ n)
    (fits : cap.admits n = true) : cap.admits m = true := by
  cases cap with
  | none => rfl
  | some limit =>
      simp only [admits_some, decide_eq_true_eq] at fits ⊢
      omega

@[simp] theorem Capacity.admits_zero (cap : Capacity) : cap.admits 0 = true := by
  cases cap <;> simp

/-- Error of an insert into a full hash map. -/
def E2BIG : Int64 := -7

/-- Error of an LRU insert for which no entry could be freed. -/
def ENOMEM : Int64 := -12

variable {κ ν : Type} [DecidableEq κ]

section

variable (entries : Finmap fun _ : κ => ν) (k : κ) (v : ν)

private theorem finmap_keys_insert :
    (entries.insert k v).keys = Insert.insert k entries.keys := by
  ext a
  simp [Finmap.mem_keys, Finmap.mem_insert]

private theorem finmap_card_erase_le :
    (entries.erase k).keys.card ≤ entries.keys.card := by
  rw [Finmap.keys_erase]
  exact Finset.card_erase_le

end

/-! ## Hash maps -/

/-- `BPF_MAP_TYPE_HASH`. -/
structure HashMap (κ ν : Type) [DecidableEq κ] (cap : Capacity) where
  entries : Finmap fun _ : κ => ν
  bounded : cap.admits entries.keys.card = true

namespace HashMap

variable {cap : Capacity}

def empty : HashMap κ ν cap := ⟨∅, by simp⟩

def get (m : HashMap κ ν cap) (k : κ) : Option ν := m.entries.lookup k

/-- An insert of `k` succeeds: the key is present or there is room for it. -/
def accepts (m : HashMap κ ν cap) (k : κ) : Bool :=
  cap.admits (Insert.insert k m.entries.keys).card

def insert (m : HashMap κ ν cap) (k : κ) (v : ν) : Except Int64 (HashMap κ ν cap) :=
  if h : m.accepts k = true then
    .ok ⟨m.entries.insert k v, by rw [finmap_keys_insert]; exact h⟩
  else .error E2BIG

def remove (m : HashMap κ ν cap) (k : κ) : HashMap κ ν cap :=
  ⟨m.entries.erase k, Capacity.admits_of_le (finmap_card_erase_le m.entries k) m.bounded⟩

def upsert (m : HashMap κ ν cap) (k : κ) (v : ν) : HashMap κ ν cap :=
  match m.insert k v with
  | .ok m' => m'
  | .error _ => m

def insertOp (accepted : Bool) (k : κ) (v : ν) (k' : κ) : CellOp ν :=
  if accepted = true ∧ k' = k then .put v else .keep

@[simp] theorem get_empty (k : κ) : (empty : HashMap κ ν cap).get k = none :=
  Finmap.lookup_empty k

theorem ext_get {m m' : HashMap κ ν cap} (h : ∀ k, m.get k = m'.get k) : m = m' := by
  rcases m with ⟨entries, _⟩
  rcases m' with ⟨entries', _⟩
  have same : entries = entries' := Finmap.ext_lookup h
  subst same
  rfl

theorem get_remove (m : HashMap κ ν cap) (k k' : κ) :
    (m.remove k).get k' = if k' = k then none else m.get k' := by
  unfold remove get
  split
  next same => rw [same, Finmap.lookup_erase]
  next other => rw [Finmap.lookup_erase_ne other]

theorem remove_of_absent {m : HashMap κ ν cap} {k : κ} (absent : m.get k = none) :
    m.remove k = m := by
  apply ext_get
  intro k'
  rw [get_remove]
  split
  next same => rw [same, absent]
  next => rfl

theorem insert_of_accepts {m : HashMap κ ν cap} {k : κ} (room : m.accepts k = true) (v : ν) :
    m.insert k v = .ok (m.upsert k v) := by
  simp [upsert, insert, room]

theorem insert_of_not_accepts {m : HashMap κ ν cap} {k : κ} (full : m.accepts k = false)
    (v : ν) : m.insert k v = .error E2BIG := by
  simp [insert, full]

theorem upsert_of_not_accepts {m : HashMap κ ν cap} {k : κ} (full : m.accepts k = false)
    (v : ν) : m.upsert k v = m := by
  simp [upsert, insert, full]

theorem get_upsert (m : HashMap κ ν cap) (k : κ) (v : ν) (k' : κ) :
    (m.upsert k v).get k' = (insertOp (m.accepts k) k v k').apply (m.get k') := by
  cases room : m.accepts k with
  | false => simp [upsert_of_not_accepts room, insertOp]
  | true =>
      by_cases same : k' = k
      · subst same
        simp [upsert, insert, room, get, insertOp]
      · simp [upsert, insert, room, get, insertOp, same]

theorem keys_upsert {m : HashMap κ ν cap} {k : κ} (room : m.accepts k = true) (v : ν) :
    (m.upsert k v).entries.keys = Insert.insert k m.entries.keys := by
  simp [upsert, insert, room, finmap_keys_insert]

theorem accepts_unlimited (m : HashMap κ ν none) (k : κ) : m.accepts k = true := rfl

theorem accepts_congr {m m' : HashMap κ ν cap} (same : ∀ k, (m.get k).isSome = (m'.get k).isSome)
    (k : κ) : m.accepts k = m'.accepts k := by
  have keys : m.entries.keys = m'.entries.keys := by
    ext k'
    rw [Finmap.mem_keys, Finmap.mem_keys, ← Finmap.lookup_isSome, ← Finmap.lookup_isSome]
    exact Bool.eq_iff_iff.mp (same k')
  rw [accepts, accepts, keys]

theorem accepts_of_get {m : HashMap κ ν cap} {k : κ} {v : ν} (present : m.get k = some v) :
    m.accepts k = true := by
  have mem : k ∈ m.entries.keys := Finmap.mem_keys.mpr (Finmap.mem_of_lookup_eq_some present)
  rw [accepts, Finset.insert_eq_of_mem mem]
  exact m.bounded

theorem accepts_of_card_lt {n : Nat} {m : HashMap κ ν (some n)} {k : κ}
    (room : m.entries.keys.card < n) : m.accepts k = true := by
  have le := Finset.card_insert_le k m.entries.keys
  simp only [accepts, Capacity.admits_some, decide_eq_true_eq]
  omega

/-- A full map refuses a key it does not hold. -/
theorem not_accepts_of_full {n : Nat} {m : HashMap κ ν (some n)} {k : κ}
    (absent : m.get k = none) (full : m.entries.keys.card = n) : m.accepts k = false := by
  have notMem : k ∉ m.entries.keys := by
    rw [Finmap.mem_keys, ← Finmap.lookup_eq_none]
    exact absent
  simp [accepts, Finset.card_insert_of_notMem notMem, full]

theorem get_upsert_of_accepts {m : HashMap κ ν cap} {k : κ} (room : m.accepts k = true) (v : ν)
    (k' : κ) : (m.upsert k v).get k' = if k' = k then some v else m.get k' := by
  rw [get_upsert, room]
  by_cases same : k' = k <;> simp [insertOp, same]

end HashMap

/-! ## LRU hash maps -/

/-- `BPF_MAP_TYPE_LRU_HASH`. -/
structure LruHashMap (κ ν : Type) [DecidableEq κ] (cap : Capacity) where
  entries : Finmap fun _ : κ => ν
  bounded : cap.admits entries.keys.card = true

namespace LruHashMap

variable {cap : Capacity}

def empty : LruHashMap κ ν cap := ⟨∅, by simp⟩

def get (m : LruHashMap κ ν cap) (k : κ) : Option ν := m.entries.lookup k

/-- The entries after an insert of `k` during which the kernel drops `evicted`. -/
def evicting (m : LruHashMap κ ν cap) (k : κ) (v : ν) (evicted : List κ) :
    Finmap fun _ : κ => ν :=
  evicted.foldr Finmap.erase (m.entries.insert k v)

/-- An insert of `k` succeeds: dropping `evicted` leaves room for it. -/
def accepts (m : LruHashMap κ ν cap) (k : κ) (evicted : List κ) : Bool :=
  cap.admits (evicted.foldr (fun a keys => keys.erase a) (Insert.insert k m.entries.keys)).card

private theorem keys_evicting (m : LruHashMap κ ν cap) (k : κ) (v : ν) (evicted : List κ) :
    (m.evicting k v evicted).keys =
      evicted.foldr (fun a keys => keys.erase a) (Insert.insert k m.entries.keys) := by
  unfold evicting
  induction evicted with
  | nil => exact finmap_keys_insert m.entries k v
  | cons a evicted ih => rw [List.foldr_cons, Finmap.keys_erase, ih, List.foldr_cons]

def insert (m : LruHashMap κ ν cap) (k : κ) (v : ν) (evicted : List κ) :
    Except Int64 (LruHashMap κ ν cap) :=
  if h : m.accepts k evicted = true then
    .ok ⟨m.evicting k v evicted, by rw [keys_evicting]; exact h⟩
  else .error ENOMEM

def remove (m : LruHashMap κ ν cap) (k : κ) : LruHashMap κ ν cap :=
  ⟨m.entries.erase k, Capacity.admits_of_le (finmap_card_erase_le m.entries k) m.bounded⟩

def upsert (m : LruHashMap κ ν cap) (k : κ) (v : ν) (evicted : List κ) : LruHashMap κ ν cap :=
  match m.insert k v evicted with
  | .ok m' => m'
  | .error _ => m

def insertOp (accepted : Bool) (evicted : List κ) (k : κ) (v : ν) (k' : κ) : CellOp ν :=
  if accepted = true then
    if k' ∈ evicted then .drop else if k' = k then .put v else .keep
  else .keep

@[simp] theorem get_empty (k : κ) : (empty : LruHashMap κ ν cap).get k = none :=
  Finmap.lookup_empty k

theorem get_remove (m : LruHashMap κ ν cap) (k k' : κ) :
    (m.remove k).get k' = if k' = k then none else m.get k' := by
  unfold remove get
  split
  next same => rw [same, Finmap.lookup_erase]
  next other => rw [Finmap.lookup_erase_ne other]

theorem ext_get {m m' : LruHashMap κ ν cap} (h : ∀ k, m.get k = m'.get k) : m = m' := by
  rcases m with ⟨entries, _⟩
  rcases m' with ⟨entries', _⟩
  have same : entries = entries' := Finmap.ext_lookup h
  subst same
  rfl

theorem accepts_congr {m m' : LruHashMap κ ν cap}
    (same : ∀ k, (m.get k).isSome = (m'.get k).isSome) (k : κ) (evicted : List κ) :
    m.accepts k evicted = m'.accepts k evicted := by
  have keys : m.entries.keys = m'.entries.keys := by
    ext k'
    rw [Finmap.mem_keys, Finmap.mem_keys, ← Finmap.lookup_isSome, ← Finmap.lookup_isSome]
    exact Bool.eq_iff_iff.mp (same k')
  rw [accepts, accepts, keys]

theorem insert_of_accepts {m : LruHashMap κ ν cap} {k : κ} {evicted : List κ}
    (room : m.accepts k evicted = true) (v : ν) :
    m.insert k v evicted = .ok (m.upsert k v evicted) := by
  simp [upsert, insert, room]

theorem insert_of_not_accepts {m : LruHashMap κ ν cap} {k : κ} {evicted : List κ}
    (full : m.accepts k evicted = false) (v : ν) : m.insert k v evicted = .error ENOMEM := by
  simp [insert, full]

theorem upsert_of_not_accepts {m : LruHashMap κ ν cap} {k : κ} {evicted : List κ}
    (full : m.accepts k evicted = false) (v : ν) : m.upsert k v evicted = m := by
  simp [upsert, insert, full]

private theorem lookup_evicting (m : LruHashMap κ ν cap) (k : κ) (v : ν) (evicted : List κ)
    (k' : κ) :
    (m.evicting k v evicted).lookup k' =
      if k' ∈ evicted then none else if k' = k then some v else m.entries.lookup k' := by
  unfold evicting
  induction evicted with
  | nil =>
      by_cases same : k' = k
      · subst same
        simp
      · simp [same]
  | cons a evicted ih =>
      rw [List.foldr_cons]
      by_cases same : k' = a
      · subst same
        simp
      · rw [Finmap.lookup_erase_ne same, ih]
        simp [same]

theorem get_upsert (m : LruHashMap κ ν cap) (k : κ) (v : ν) (evicted : List κ) (k' : κ) :
    (m.upsert k v evicted).get k' =
      (insertOp (m.accepts k evicted) evicted k v k').apply (m.get k') := by
  cases room : m.accepts k evicted with
  | false => simp [upsert_of_not_accepts room, insertOp]
  | true =>
      have look := lookup_evicting m k v evicted k'
      simp only [upsert, insert, room, get, insertOp, dite_true, if_true]
      rw [look]
      split
      · rfl
      · split <;> rfl

theorem accepts_unlimited (m : LruHashMap κ ν none) (k : κ) (evicted : List κ) :
    m.accepts k evicted = true := rfl

theorem get_upsert_of_accepts {m : LruHashMap κ ν cap} {k : κ} {evicted : List κ}
    (room : m.accepts k evicted = true) (v : ν) (k' : κ) :
    (m.upsert k v evicted).get k' =
      if k' ∈ evicted then none else if k' = k then some v else m.get k' := by
  rw [get_upsert, room, insertOp, if_pos rfl]
  split
  · rfl
  · split <;> rfl

end LruHashMap

/-! ## Per-CPU arrays -/

/-- `BPF_MAP_TYPE_PERCPU_ARRAY` with `n` slots, as seen from each CPU. -/
structure PerCpuArray (ν : Type) (n : Nat) where
  slots : Nat → Fin n → ν

namespace PerCpuArray

variable {ν : Type} {n : Nat}

/-- `get_ptr_mut(i)`: the slot of the running CPU, absent when out of range. -/
def get (a : PerCpuArray ν n) (cpu i : Nat) : Option ν :=
  if h : i < n then some (a.slots cpu ⟨i, h⟩) else none

def set (a : PerCpuArray ν n) (cpu i : Nat) (v : ν) : PerCpuArray ν n :=
  ⟨fun c j => if c = cpu ∧ j.val = i then v else a.slots c j⟩

@[simp] theorem get_set_self (a : PerCpuArray ν n) (cpu i : Nat) (v : ν) (h : i < n) :
    (a.set cpu i v).get cpu i = some v := by
  simp [get, set, h]

end PerCpuArray

/-! ## Arrays -/

/-- `BPF_MAP_TYPE_ARRAY` with `n` slots. -/
structure ArrayMap (ν : Type) (n : Nat) where
  slots : Fin n → ν

namespace ArrayMap

variable {ν : Type} {n : Nat}

def get (a : ArrayMap ν n) (i : Nat) : Option ν :=
  if h : i < n then some (a.slots ⟨i, h⟩) else none

end ArrayMap

end Tragach.Bpf
