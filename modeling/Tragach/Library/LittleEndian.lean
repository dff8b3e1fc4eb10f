import Mathlib.Data.Nat.ModEq
import Mathlib.Data.UInt

/-! # Little-endian words

A word of a fixed width as its bytes, lowest first, and a record as the words and bytes
at fixed offsets of a byte string.
-/

namespace Tragach.Library

def bytesOf : Nat → Nat → List UInt8
  | 0, _ => []
  | w + 1, n => UInt8.ofNat n :: bytesOf w (n / 256)

def numberOf : List UInt8 → Nat
  | [] => 0
  | b :: bytes => b.toNat + 256 * numberOf bytes

@[simp] theorem length_bytesOf (w n : Nat) : (bytesOf w n).length = w := by
  induction w generalizing n with
  | zero => rfl
  | succ w ih => rw [bytesOf, List.length_cons, ih]

theorem numberOf_bytesOf (w n : Nat) : numberOf (bytesOf w n) = n % 256 ^ w := by
  induction w generalizing n with
  | zero => rw [bytesOf, numberOf, Nat.pow_zero, Nat.mod_one]
  | succ w ih =>
      have low : (UInt8.ofNat n).toNat = n % 256 := UInt8.toNat_ofNat'
      rw [bytesOf, numberOf, ih, low, Nat.pow_succ', Nat.mod_mul]

def slice (bytes : List UInt8) (offset w : Nat) : List UInt8 := (bytes.drop offset).take w

/-- In a record made of consecutive fields, a field is found after those before it. -/
theorem slice_flatten {fields : List (List UInt8)} {field : List UInt8} {i offset w : Nat}
    (at' : fields[i]? = some field) (before : ((fields.take i).map List.length).sum = offset)
    (width : field.length = w) : slice fields.flatten offset w = field := by
  have front : (fields.take i).flatten.length = offset := by rw [List.length_flatten, before]
  have tail : fields.drop i = field :: fields.drop (i + 1) := by
    rcases List.getElem?_eq_some_iff.mp at' with ⟨lt, found⟩
    rw [List.drop_eq_getElem_cons lt, found]
  have split : fields.flatten =
      (fields.take i).flatten ++ (field ++ (fields.drop (i + 1)).flatten) := by
    rw [← List.flatten_cons, ← tail, ← List.flatten_append, List.take_append_drop]
  rw [slice, split, ← front, List.drop_left, ← width, List.take_left]

theorem length_slice {bytes : List UInt8} {offset w : Nat} (enough : offset + w ≤ bytes.length) :
    (slice bytes offset w).length = w := by
  rw [slice, List.length_take, List.length_drop]
  omega

def u64At (bytes : List UInt8) (offset : Nat) : UInt64 :=
  UInt64.ofNat (numberOf (slice bytes offset 8))

def u32At (bytes : List UInt8) (offset : Nat) : UInt32 :=
  UInt32.ofNat (numberOf (slice bytes offset 4))

def u64Bytes (x : UInt64) : List UInt8 := bytesOf 8 x.toNat

def u32Bytes (x : UInt32) : List UInt8 := bytesOf 4 x.toNat

@[simp] theorem length_u64Bytes (x : UInt64) : (u64Bytes x).length = 8 := length_bytesOf ..

@[simp] theorem length_u32Bytes (x : UInt32) : (u32Bytes x).length = 4 := length_bytesOf ..

theorem u64At_flatten {fields : List (List UInt8)} {x : UInt64} {i offset : Nat}
    (at' : fields[i]? = some (u64Bytes x))
    (before : ((fields.take i).map List.length).sum = offset) : u64At fields.flatten offset = x := by
  have value : numberOf (u64Bytes x) = x.toNat := by
    rw [u64Bytes, numberOf_bytesOf]
    exact Nat.mod_eq_of_lt x.toNat_lt
  rw [u64At, slice_flatten at' before (length_u64Bytes x), value, UInt64.ofNat_toNat]

theorem u32At_flatten {fields : List (List UInt8)} {x : UInt32} {i offset : Nat}
    (at' : fields[i]? = some (u32Bytes x))
    (before : ((fields.take i).map List.length).sum = offset) : u32At fields.flatten offset = x := by
  have value : numberOf (u32Bytes x) = x.toNat := by
    rw [u32Bytes, numberOf_bytesOf]
    exact Nat.mod_eq_of_lt x.toNat_lt
  rw [u32At, slice_flatten at' before (length_u32Bytes x), value, UInt32.ofNat_toNat]

end Tragach.Library
