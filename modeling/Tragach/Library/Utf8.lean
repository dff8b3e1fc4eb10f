import Mathlib.Data.List.Basic
import Mathlib.Tactic.SplitIfs

/-! # Texts cut between bytes

A text is a list of characters and is stored as its UTF-8 bytes. Cutting the bytes at an
offset cuts the text after a character, or through one. Decoding what is left replaces the
piece of a character at the end.
-/

namespace Tragach.Library

/-! ## Encoding -/

def utf8 (text : List Char) : List UInt8 := text.flatMap String.utf8EncodeChar

def decodeChar (bytes : List UInt8) : Option Char := ByteArray.utf8DecodeChar? bytes.toByteArray 0

/-- No character is cut at the offset: the byte there starts one, or there is none. -/
def CharBoundary (bytes : List UInt8) (k : Nat) : Prop := ∀ b ∈ bytes[k]?, b.IsUTF8FirstByte

instance (bytes : List UInt8) (k : Nat) : Decidable (CharBoundary bytes k) :=
  inferInstanceAs (Decidable (∀ b ∈ bytes[k]?, b.IsUTF8FirstByte))

def wholeChars : Nat → List Char → List Char
  | _, [] => []
  | k, c :: text => if c.utf8Size ≤ k then c :: wholeChars (k - c.utf8Size) text else []

/-! ## Decoding with replacements -/

def replacement : Char := '\uFFFD'

def LongFirst (first : UInt8) : Prop := 0xE0 ≤ first ∧ first ≤ 0xF4

instance (first : UInt8) : Decidable (LongFirst first) := inferInstanceAs (Decidable (_ ∧ _))

def SecondByte (first second : UInt8) : Prop :=
  (if first = 0xE0 then 0xA0 else if first = 0xF0 then 0x90 else 0x80) ≤ second ∧
    second ≤ if first = 0xED then 0x9F else if first = 0xF4 then 0x8F else 0xBF

instance (first second : UInt8) : Decidable (SecondByte first second) :=
  inferInstanceAs (Decidable (_ ∧ _))

/-- How many bytes are replaced together where no character can be decoded: the first one and
those behind it that a character may go on with. -/
def replacedBytes (first : UInt8) : List UInt8 → Nat
  | [] => 1
  | second :: rest =>
      if LongFirst first ∧ SecondByte first second then
        match rest with
        | [] => 2
        | third :: _ => if 0xF0 ≤ first ∧ 0x80 ≤ third ∧ third ≤ 0xBF then 3 else 2
      else 1

/-- `from_utf8_lossy`, with the first bytes already consumed. -/
def lossyAfter : Nat → List UInt8 → List Char
  | _, [] => []
  | consumed + 1, _ :: rest => lossyAfter consumed rest
  | 0, first :: rest =>
      match decodeChar (first :: rest) with
      | some c => c :: lossyAfter (c.utf8Size - 1) rest
      | none => replacement :: lossyAfter (replacedBytes first rest - 1) rest

def fromUtf8Lossy (bytes : List UInt8) : List Char := lossyAfter 0 bytes

/-! ## Encoded texts -/

section

variable {text : List Char} {c : Char} {bytes rest : List UInt8} {k : Nat}

@[simp] theorem utf8_nil : utf8 [] = [] := rfl

@[simp] theorem utf8_cons (c : Char) (text : List Char) :
    utf8 (c :: text) = String.utf8EncodeChar c ++ utf8 text := rfl

theorem utf8_append (text more : List Char) : utf8 (text ++ more) = utf8 text ++ utf8 more :=
  List.flatMap_append

theorem decodeChar_encode (c : Char) (rest : List UInt8) :
    decodeChar (String.utf8EncodeChar c ++ rest) = some c := by
  rw [decodeChar, List.toByteArray_append]
  exact ByteArray.utf8DecodeChar?_utf8EncodeChar_append

theorem decodeChar_eq_some (decoded : decodeChar bytes = some c) (rest : List UInt8) :
    c.utf8Size ≤ bytes.length ∧ decodeChar (bytes ++ rest) = some c := by
  constructor
  · have fits := ByteArray.le_size_of_utf8DecodeChar?_eq_some decoded
    simpa using fits
  · rw [decodeChar, List.toByteArray_append]
    exact ByteArray.utf8DecodeChar?_append_eq_some decoded _

theorem decodeChar_piece (short : k < c.utf8Size) :
    decodeChar ((String.utf8EncodeChar c).take k) = none := by
  cases decoded : decodeChar ((String.utf8EncodeChar c).take k) with
  | none => rfl
  | some d =>
      obtain ⟨fits, whole⟩ := decodeChar_eq_some decoded ((String.utf8EncodeChar c).drop k)
      have same : c = d := by
        rw [List.take_append_drop, ← List.append_nil (String.utf8EncodeChar c),
          decodeChar_encode] at whole
        exact Option.some.inj whole
      rw [List.length_take, same] at fits
      rw [same] at short
      omega

theorem encode_ne_nil (c : Char) : String.utf8EncodeChar c ≠ [] := by
  intro empty
  have size := String.length_utf8EncodeChar c
  rw [empty, List.length_nil] at size
  exact Nat.lt_irrefl 0 (size ▸ c.utf8Size_pos)

theorem getElem?_encode_firstByte {b : UInt8} (found : (String.utf8EncodeChar c)[k]? = some b) :
    b.IsUTF8FirstByte ↔ k = 0 := by
  obtain ⟨inside, rfl⟩ := List.getElem?_eq_some_iff.mp found
  exact UInt8.isUTF8FirstByte_getElem_utf8EncodeChar

/-! ## Cutting -/

theorem charBoundary_of_length_le (le : bytes.length ≤ k) : CharBoundary bytes k := by
  intro b found
  rw [List.getElem?_eq_none le] at found
  cases found

theorem charBoundary_zero (text : List Char) : CharBoundary (utf8 text) 0 := by
  intro b found
  cases text with
  | nil => cases found
  | cons c text =>
      rw [utf8_cons, List.getElem?_append_left (List.length_pos_of_ne_nil (encode_ne_nil c))] at found
      exact (getElem?_encode_firstByte found).mpr rfl

theorem not_charBoundary_inside (pos : 0 < k) (short : k < c.utf8Size) :
    ¬ CharBoundary (String.utf8EncodeChar c ++ rest) k := by
  intro boundary
  have inside : k < (String.utf8EncodeChar c).length := by
    rwa [String.length_utf8EncodeChar]
  have found : (String.utf8EncodeChar c)[k]? = some (String.utf8EncodeChar c)[k] :=
    List.getElem?_eq_getElem inside
  have first := boundary _ (by rw [List.getElem?_append_left inside]; exact found)
  rw [getElem?_encode_firstByte found] at first
  omega

theorem charBoundary_after (le : c.utf8Size ≤ k) :
    CharBoundary (String.utf8EncodeChar c ++ rest) k ↔ CharBoundary rest (k - c.utf8Size) := by
  rw [CharBoundary, List.getElem?_append_right (by rwa [String.length_utf8EncodeChar]),
    String.length_utf8EncodeChar, CharBoundary]

theorem take_encode_append (le : c.utf8Size ≤ k) :
    (String.utf8EncodeChar c ++ rest).take k =
      String.utf8EncodeChar c ++ rest.take (k - c.utf8Size) := by
  rw [List.take_append, String.length_utf8EncodeChar,
    List.take_of_length_le (by rwa [String.length_utf8EncodeChar])]

theorem take_encode_append_of_lt (short : k < c.utf8Size) :
    (String.utf8EncodeChar c ++ rest).take k = (String.utf8EncodeChar c).take k :=
  List.take_append_of_le_length (by rw [String.length_utf8EncodeChar]; exact Nat.le_of_lt short)

theorem wholeChars_isPrefix (k : Nat) (text : List Char) : wholeChars k text <+: text := by
  induction text generalizing k with
  | nil => exact List.nil_prefix
  | cons c text ih =>
      rw [wholeChars]
      split
      next => exact List.cons_prefix_cons.mpr ⟨rfl, ih _⟩
      next => exact List.nil_prefix

/-- Cutting at a boundary keeps whole characters. -/
theorem take_utf8_of_boundary (boundary : CharBoundary (utf8 text) k) :
    (utf8 text).take k = utf8 (wholeChars k text) := by
  induction text generalizing k with
  | nil => simp [wholeChars]
  | cons c text ih =>
      rw [utf8_cons] at boundary ⊢
      by_cases fits : c.utf8Size ≤ k
      · rw [take_encode_append fits, wholeChars, if_pos fits, utf8_cons,
          ih ((charBoundary_after fits).mp boundary)]
      · have start : k = 0 := by
          by_contra pos
          exact not_charBoundary_inside (by omega) (by omega) boundary
        rw [wholeChars, if_neg fits, start, List.take_zero, utf8_nil]

/-- Cutting elsewhere leaves a piece of a character behind them. -/
theorem take_utf8_of_not_boundary (inside : ¬ CharBoundary (utf8 text) k) :
    ∃ c j, 0 < j ∧ j < c.utf8Size ∧
      (utf8 text).take k = utf8 (wholeChars k text) ++ (String.utf8EncodeChar c).take j := by
  induction text generalizing k with
  | nil => exact absurd (charBoundary_of_length_le (Nat.zero_le k)) inside
  | cons c text ih =>
      rw [utf8_cons] at inside ⊢
      by_cases fits : c.utf8Size ≤ k
      · obtain ⟨d, j, pos, short, cut⟩ := ih (mt (charBoundary_after fits).mpr inside)
        refine ⟨d, j, pos, short, ?_⟩
        rw [take_encode_append fits, cut, wholeChars, if_pos fits, utf8_cons, List.append_assoc]
      · have pos : 0 < k := by
          by_contra zero
          rw [Nat.eq_zero_of_not_pos zero] at inside
          exact inside (charBoundary_zero (c :: text))
        refine ⟨c, k, pos, by omega, ?_⟩
        rw [take_encode_append_of_lt (by omega), wholeChars, if_neg fits, utf8_nil,
          List.nil_append]

/-! ## Decoding what is left -/

theorem lossyAfter_eq (k : Nat) (bytes : List UInt8) :
    lossyAfter k bytes = fromUtf8Lossy (bytes.drop k) := by
  induction bytes generalizing k with
  | nil => cases k <;> rfl
  | cons b bytes ih =>
      cases k with
      | zero => rfl
      | succ k => exact ih k

theorem fromUtf8Lossy_encode (c : Char) (rest : List UInt8) :
    fromUtf8Lossy (String.utf8EncodeChar c ++ rest) = c :: fromUtf8Lossy rest := by
  have decoded := decodeChar_encode c rest
  have size := String.length_utf8EncodeChar c
  cases bytes : String.utf8EncodeChar c with
  | nil => exact absurd bytes (encode_ne_nil c)
  | cons first others =>
      rw [bytes, List.cons_append] at decoded
      rw [bytes, List.length_cons] at size
      rw [List.cons_append, fromUtf8Lossy, lossyAfter, decoded]
      dsimp only
      rw [lossyAfter_eq, ← size, Nat.add_sub_cancel, List.drop_left]

theorem fromUtf8Lossy_utf8_append (text : List Char) (rest : List UInt8) :
    fromUtf8Lossy (utf8 text ++ rest) = text ++ fromUtf8Lossy rest := by
  induction text with
  | nil => rfl
  | cons c text ih => rw [utf8_cons, List.append_assoc, fromUtf8Lossy_encode, ih, List.cons_append]

theorem fromUtf8Lossy_utf8 (text : List Char) : fromUtf8Lossy (utf8 text) = text := by
  have decoded := fromUtf8Lossy_utf8_append text []
  have nothing : fromUtf8Lossy [] = [] := rfl
  rwa [List.append_nil, nothing, List.append_nil] at decoded

theorem secondByte_iff {first second : UInt8} :
    SecondByte first second ↔
      (first.toNat = 0xE0 → 0xA0 ≤ second.toNat) ∧ (first.toNat = 0xF0 → 0x90 ≤ second.toNat) ∧
        (first.toNat = 0xED → second.toNat ≤ 0x9F) ∧ (first.toNat = 0xF4 → second.toNat ≤ 0x8F) ∧
        0x80 ≤ second.toNat ∧ second.toNat ≤ 0xBF := by
  simp only [SecondByte, UInt8.le_iff_toNat_le, ← UInt8.toNat_inj, apply_ite UInt8.toNat]
  show (if first.toNat = 0xE0 then 0xA0 else if first.toNat = 0xF0 then 0x90 else 0x80) ≤ _ ∧
    _ ≤ (if first.toNat = 0xED then 0x9F else if first.toNat = 0xF4 then 0x8F else 0xBF) ↔ _
  split_ifs <;> omega

theorem encode_three (size : c.utf8Size = 3) :
    String.utf8EncodeChar c =
        [UInt8.ofNat (c.val.toNat / 4096 % 16 + 0xE0), UInt8.ofNat (c.val.toNat / 64 % 64 + 0x80),
          UInt8.ofNat (c.val.toNat % 64 + 0x80)] ∧
      0x7FF < c.val.toNat ∧ c.val.toNat ≤ 0xFFFF := by
  have low : 0x7FF < c.val.toNat := UInt32.lt_iff_toNat_lt.mp (Char.utf8Size_eq_three_iff.mp size).1
  have high : c.val.toNat ≤ 0xFFFF := UInt32.le_iff_toNat_le.mp (Char.utf8Size_eq_three_iff.mp size).2
  refine ⟨?_, low, high⟩
  rw [String.utf8EncodeChar]
  rw [if_neg (by omega), if_neg (by omega), if_pos high]

theorem encode_four (size : c.utf8Size = 4) :
    String.utf8EncodeChar c =
        [UInt8.ofNat (c.val.toNat / 262144 % 8 + 0xF0), UInt8.ofNat (c.val.toNat / 4096 % 64 + 0x80),
          UInt8.ofNat (c.val.toNat / 64 % 64 + 0x80), UInt8.ofNat (c.val.toNat % 64 + 0x80)] ∧
      0xFFFF < c.val.toNat ∧ c.val.toNat < 0x110000 := by
  have low : 0xFFFF < c.val.toNat := UInt32.lt_iff_toNat_lt.mp (Char.utf8Size_eq_four_iff.mp size)
  have high : c.val.toNat < 0x110000 := by
    have valid := c.valid
    unfold UInt32.isValidChar Nat.isValidChar at valid
    omega
  refine ⟨?_, low, high⟩
  rw [String.utf8EncodeChar]
  rw [if_neg (by omega), if_neg (by omega), if_neg (by omega)]

theorem longFirst_iff {first : UInt8} :
    LongFirst first ↔ 0xE0 ≤ first.toNat ∧ first.toNat ≤ 0xF4 := by
  unfold LongFirst
  rw [UInt8.le_iff_toNat_le, UInt8.le_iff_toNat_le]
  exact Iff.rfl

theorem encode_long (long : 2 < c.utf8Size) :
    ∃ first second others, String.utf8EncodeChar c = first :: second :: others ∧
      LongFirst first ∧ SecondByte first second := by
  have atMost := c.utf8Size_le_four
  have sizes : c.utf8Size = 3 ∨ c.utf8Size = 4 := by omega
  rcases sizes with three | four
  · obtain ⟨encoded, low, high⟩ := encode_three three
    have valid := c.valid
    unfold UInt32.isValidChar Nat.isValidChar at valid
    refine ⟨_, _, _, encoded, longFirst_iff.mpr ?_, secondByte_iff.mpr ?_⟩
    · rw [UInt8.toNat_ofNat']
      omega
    · rw [UInt8.toNat_ofNat', UInt8.toNat_ofNat']
      omega
  · obtain ⟨encoded, low, high⟩ := encode_four four
    refine ⟨_, _, _, encoded, longFirst_iff.mpr ?_, secondByte_iff.mpr ?_⟩
    · rw [UInt8.toNat_ofNat']
      omega
    · rw [UInt8.toNat_ofNat', UInt8.toNat_ofNat']
      omega

theorem encode_longest {first second third fourth : UInt8} (size : c.utf8Size = 4)
    (bytes : String.utf8EncodeChar c = [first, second, third, fourth]) :
    0xF0 ≤ first ∧ 0x80 ≤ third ∧ third ≤ 0xBF := by
  obtain ⟨encoded, low, high⟩ := encode_four size
  rw [encoded] at bytes
  cases bytes
  rw [UInt8.le_iff_toNat_le, UInt8.le_iff_toNat_le, UInt8.le_iff_toNat_le, UInt8.toNat_ofNat',
    UInt8.toNat_ofNat']
  show 0xF0 ≤ _ ∧ 0x80 ≤ _ ∧ _ ≤ 0xBF
  omega

theorem replacedBytes_piece (short : k < c.utf8Size) {first : UInt8}
    (piece : (String.utf8EncodeChar c).take k = first :: rest) : replacedBytes first rest = k := by
  have atMost := c.utf8Size_le_four
  have length : rest.length + 1 = k := by
    have lengths := congrArg List.length piece
    rw [List.length_take, String.length_utf8EncodeChar, List.length_cons] at lengths
    omega
  by_cases single : k = 1
  · rw [List.eq_nil_of_length_eq_zero (by omega : rest.length = 0), single]
    rfl
  · obtain ⟨first', second, others, encoded, long, goesOn⟩ := encode_long (by omega : 2 < c.utf8Size)
    have size : others.length + 2 = c.utf8Size := by
      rw [← String.length_utf8EncodeChar, encoded]
      rfl
    have cases : k = 2 ∨ k = 3 ∧ c.utf8Size = 4 := by omega
    rcases cases with two | ⟨three, four⟩
    · rw [encoded, two] at piece
      cases piece
      rw [two]
      exact if_pos ⟨long, goesOn⟩
    · rw [four] at size
      obtain ⟨third, fourth, rfl⟩ := List.length_eq_two.mp (by omega : others.length = 2)
      rw [encoded, three] at piece
      cases piece
      rw [three]
      exact (if_pos ⟨long, goesOn⟩).trans (if_pos (encode_longest four encoded))

theorem fromUtf8Lossy_piece (pos : 0 < k) (short : k < c.utf8Size) :
    fromUtf8Lossy ((String.utf8EncodeChar c).take k) = [replacement] := by
  have undecoded := decodeChar_piece short
  have length : ((String.utf8EncodeChar c).take k).length = k := by
    rw [List.length_take, String.length_utf8EncodeChar]
    omega
  cases piece : (String.utf8EncodeChar c).take k with
  | nil =>
      rw [piece, List.length_nil] at length
      omega
  | cons first rest =>
      rw [piece] at undecoded
      rw [piece, List.length_cons] at length
      rw [fromUtf8Lossy, lossyAfter, undecoded, replacedBytes_piece short piece]
      dsimp only
      rw [lossyAfter_eq, ← length, Nat.add_sub_cancel, List.drop_length]
      rfl

/-- A cut text is shown up to the last whole character, and what is left of the next one is
one replacement. -/
theorem fromUtf8Lossy_take (text : List Char) (k : Nat) :
    fromUtf8Lossy ((utf8 text).take k) =
      wholeChars k text ++ if CharBoundary (utf8 text) k then [] else [replacement] := by
  by_cases boundary : CharBoundary (utf8 text) k
  · rw [take_utf8_of_boundary boundary, fromUtf8Lossy_utf8, if_pos boundary, List.append_nil]
  · obtain ⟨c, j, pos, short, cut⟩ := take_utf8_of_not_boundary boundary
    rw [cut, fromUtf8Lossy_utf8_append, fromUtf8Lossy_piece pos short, if_neg boundary]

/-- Two of three bytes are left of the last letter. -/
example : fromUtf8Lossy ((utf8 ['a', 'é', '€']).take 5) = ['a', 'é', '\uFFFD'] := by decide +kernel

theorem take_utf8_isText_iff (text : List Char) (k : Nat) :
    (∃ shown, (utf8 text).take k = utf8 shown) ↔ CharBoundary (utf8 text) k := by
  constructor
  · rintro ⟨shown, same⟩
    by_contra inside
    obtain ⟨c, j, pos, short, cut⟩ := take_utf8_of_not_boundary inside
    have bytes := same.symm.trans cut
    -- the decoder would have replaced what is left, so the piece were a whole character
    have decoded := congrArg fromUtf8Lossy bytes
    rw [fromUtf8Lossy_utf8, fromUtf8Lossy_utf8_append, fromUtf8Lossy_piece pos short] at decoded
    rw [decoded, utf8_append] at bytes
    have whole := decodeChar_encode replacement []
    rw [← utf8_nil, ← utf8_cons, List.append_cancel_left bytes, decodeChar_piece short] at whole
    cases whole
  · intro boundary
    exact ⟨_, take_utf8_of_boundary boundary⟩

end

end Tragach.Library
