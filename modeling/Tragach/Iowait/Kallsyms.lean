import Mathlib.Data.UInt
import Tragach.Library.StableSort
import Tragach.Library.TextScan

/-! # Kernel symbols

The symbol table is read from the lines of a text, in any order and with lines that are
not symbols, and sorted by address. An address of the kernel is looked up as the symbol
at the greatest address not above it.
-/

namespace Tragach.Iowait

open Library

/-- The symbols in the order of their addresses. -/
structure Kallsyms where
  syms : List (UInt64 × String)
  sorted : syms.Pairwise fun a b => a.1.toNat ≤ b.1.toNat

/-! ## Reading the text -/

/-- `str::lines`: a line ends with a line feed that a carriage return may precede. -/
def lines (text : List Char) : List (List Char) :=
  (splitInclusive '\n' text).map fun line =>
    match stripSuffix '\n' line with
    | none => line
    | some line => (stripSuffix '\r' line).getD line

/-- `char::to_digit` in base 16. -/
def hexDigit (c : Char) : Option Nat :=
  if '0' ≤ c ∧ c ≤ '9' then some (c.toNat - '0'.toNat)
  else if 'a' ≤ c ∧ c ≤ 'f' then some (c.toNat - 'a'.toNat + 10)
  else if 'A' ≤ c ∧ c ≤ 'F' then some (c.toNat - 'A'.toNat + 10)
  else none

def unsigned : List Char → List Char
  | '+' :: digits => digits
  | digits => digits

/-- `u64::from_str_radix` in base 16. -/
def fromStrRadix16 (s : List Char) : Option UInt64 :=
  match unsigned s with
  | [] => none
  | digits => (readDigits hexDigit 16 (2 ^ 64) 0 digits).map UInt64.ofNat

/-- The symbol of a line of the form `<hex_addr> <type_char> <name>[\t<module>]`. -/
def parseLine (line : List Char) : Option (UInt64 × String) :=
  match splitn ' ' 3 line with
  | addrS :: _ :: name :: _ =>
      match fromStrRadix16 addrS with
      | some addr => if addr = 0 then none else some (addr, String.ofList (firstPart '\t' name))
      | none => none
  | _ => none

namespace Kallsyms

def load (text : String) : Kallsyms where
  syms := sortByKey (fun s => s.1.toNat) ((lines text.toList).filterMap parseLine)
  sorted := pairwise_sortByKey

def lookup (k : Kallsyms) (ip : UInt64) : String :=
  if ip = 0 ∨ k.syms = [] then "?"
  else
    let idx := partitionPoint (fun s => s.1 ≤ ip) k.syms
    if zero : idx = 0 then "0x" ++ lowerHex ip.toNat
    else (k.syms.get ⟨idx - 1, pred_partitionPoint_lt zero⟩).2

end Kallsyms

/-! ## What the lines say -/

/-- The text of an address: hexadecimal digits, after a plus sign or not. -/
def IsAddress (s : List Char) (addr : UInt64) : Prop :=
  ∃ digits, (s = digits ∨ s = '+' :: digits) ∧ digits ≠ [] ∧ IsNumeral hexDigit 16 digits addr.toNat

/-- The line gives a symbol: an address, a type and a name up to the first tab, with one
space between each two. -/
def IsSymbol (line : List Char) (sym : UInt64 × String) : Prop :=
  ∃ addrS type rest, line = addrS ++ ' ' :: (type ++ ' ' :: rest) ∧ ' ' ∉ addrS ∧ ' ' ∉ type ∧
    IsAddress addrS sym.1 ∧ sym.1 ≠ 0 ∧
    (rest = sym.2.toList ∨ ∃ module, rest = sym.2.toList ++ '\t' :: module) ∧ '\t' ∉ sym.2.toList

theorem unsigned_of_numeral {digits : List Char} {v : Nat} (numeral : IsNumeral hexDigit 16 digits v) :
    unsigned digits = digits := by
  have plus : hexDigit '+' = none := by decide
  unfold unsigned
  split
  next =>
      rcases numeral with ⟨ds, all, _⟩
      cases all with
      | cons isDigit _ => simp [plus] at isDigit
  next => rfl

theorem eq_unsigned (s : List Char) : s = unsigned s ∨ s = '+' :: unsigned s := by
  unfold unsigned
  split
  next => exact .inr rfl
  next => exact .inl rfl

theorem fromStrRadix16_eq_some_iff {s : List Char} {addr : UInt64} :
    fromStrRadix16 s = some addr ↔ IsAddress s addr := by
  have reads : ∀ {digits : List Char} {v : Nat}, readDigits hexDigit 16 (2 ^ 64) 0 digits = some v ↔
      v < 2 ^ 64 ∧ IsNumeral hexDigit 16 digits v := readDigits_zero_iff (by decide) (by decide)
  constructor
  · intro read
    unfold fromStrRadix16 at read
    split at read
    next => cases read
    next nonempty =>
        rcases Option.map_eq_some_iff.mp read with ⟨v, value, rfl⟩
        rcases reads.mp value with ⟨lt, numeral⟩
        refine ⟨unsigned s, eq_unsigned s, nonempty, ?_⟩
        rwa [UInt64.toNat_ofNat_of_lt' lt]
  · intro address
    rcases address with ⟨digits, sign, nonempty, numeral⟩
    have rest : unsigned s = digits := by
      rcases sign with rfl | rfl
      · exact unsigned_of_numeral numeral
      · rfl
    unfold fromStrRadix16
    rw [rest]
    split
    next => exact absurd rfl nonempty
    next => rw [reads.mpr ⟨addr.toNat_lt, numeral⟩, Option.map_some, UInt64.ofNat_toNat]

theorem parseLine_eq_some_iff {line : List Char} {sym : UInt64 × String} :
    parseLine line = some sym ↔ IsSymbol line sym := by
  rcases sym with ⟨addr, name⟩
  constructor
  · intro parsed
    unfold parseLine at parsed
    split at parsed
    next addrS type rest more parts =>
        have none : more = [] := by
          have length : (splitn ' ' 3 line).length ≤ 3 := splitn_length_le 3
          rw [parts, List.length_cons, List.length_cons, List.length_cons] at length
          exact List.eq_nil_of_length_eq_zero (by omega)
        subst none
        rcases splitn_three_iff.mp parts with ⟨whole, free, free'⟩
        split at parsed
        next addr' number =>
            split at parsed
            next => cases parsed
            next nonzero =>
                cases parsed
                have cut := firstPart_eq_iff.mp (rfl : firstPart '\t' rest = _)
                rw [IsSymbol, String.toList_ofList]
                exact ⟨addrS, type, rest, whole, free, free', fromStrRadix16_eq_some_iff.mp number,
                  nonzero, cut⟩
        next => cases parsed
    next => cases parsed
  · intro symbol
    rcases symbol with ⟨addrS, type, rest, whole, free, free', address, nonzero, cut⟩
    have parts : splitn ' ' 3 line = [addrS, type, rest] := splitn_three_iff.mpr ⟨whole, free, free'⟩
    have number : fromStrRadix16 addrS = some addr := fromStrRadix16_eq_some_iff.mpr address
    have label : firstPart '\t' rest = name.toList := firstPart_eq_iff.mpr cut
    simp only [parseLine, parts, number, label, String.ofList_toList]
    exact if_neg nonzero

/-! ## What an address is looked up as -/

/-- What a scan of all the lines finds for an address. -/
inductive ScanFinds (ls : List (List Char)) (ip : UInt64) : String → Prop
  | unknown (none : ip = 0 ∨ ∀ line ∈ ls, ∀ sym, ¬ IsSymbol line sym) : ScanFinds ls ip "?"
  | below (nonzero : ip ≠ 0) (some : ∃ line ∈ ls, ∃ sym, IsSymbol line sym)
      (above : ∀ line ∈ ls, ∀ sym, IsSymbol line sym → ip < sym.1) :
      ScanFinds ls ip ("0x" ++ lowerHex ip.toNat)
  | last (nonzero : ip ≠ 0) {pre post : List (List Char)} {line : List Char}
      {sym : UInt64 × String} (split : ls = pre ++ line :: post) (here : IsSymbol line sym)
      (within : sym.1 ≤ ip)
      (greatest : ∀ line' ∈ pre, ∀ sym', IsSymbol line' sym' → sym'.1 ≤ ip → sym'.1 ≤ sym.1)
      (latest : ∀ line' ∈ post, ∀ sym', IsSymbol line' sym' → sym'.1 ≤ ip → sym'.1 < sym.1) :
      ScanFinds ls ip sym.2

theorem mem_symbols {ls : List (List Char)} {sym : UInt64 × String} :
    sym ∈ ls.filterMap parseLine ↔ ∃ line ∈ ls, IsSymbol line sym := by
  simp only [List.mem_filterMap, parseLine_eq_some_iff]

/-- The last symbol within a bound stands on the last line within it. -/
theorem scanFinds_of_isLastGreatest {ls : List (List Char)} {ip : UInt64} {sym : UInt64 × String}
    (nonzero : ip ≠ 0)
    (last : IsLastGreatest (fun s => s.1.toNat) ip.toNat (ls.filterMap parseLine) sym) :
    ScanFinds ls ip sym.2 := by
  rcases last with ⟨pre, post, split, within, greatest, latest⟩
  rcases List.filterMap_eq_append_iff.mp split with ⟨front, back, whole, first, second⟩
  rcases List.filterMap_eq_cons_iff.mp second with ⟨between, line, after, whole', none, here, rest⟩
  have split' : ls = (front ++ between) ++ line :: after := by
    rw [whole, whole', List.append_assoc]
  refine .last nonzero split' (parseLine_eq_some_iff.mp here) within ?_ ?_
  · intro line' mem sym' symbol low
    rcases List.mem_append.mp mem with inFront | skipped
    · exact greatest sym' (first ▸ mem_symbols.mpr ⟨line', inFront, symbol⟩) low
    · rw [← parseLine_eq_some_iff, none line' skipped] at symbol
      cases symbol
  · intro line' mem sym' symbol low
    exact latest sym' (rest ▸ mem_symbols.mpr ⟨line', mem, symbol⟩) low

theorem lookup_scan (text : String) (ip : UInt64) :
    ScanFinds (lines text.toList) ip ((Kallsyms.load text).lookup ip) := by
  have mem_iff : ∀ sym, sym ∈ (Kallsyms.load text).syms ↔
      ∃ line ∈ lines text.toList, IsSymbol line sym := fun sym =>
    (sortByKey_perm _ _).mem_iff.trans mem_symbols
  unfold Kallsyms.lookup
  split
  next unknown =>
      refine .unknown (unknown.imp_right fun empty line mem sym symbol => ?_)
      have found := (mem_iff sym).mpr ⟨line, mem, symbol⟩
      rw [empty] at found
      cases found
  next known =>
      rw [not_or] at known
      rcases known with ⟨nonzero, nonempty⟩
      dsimp only
      split
      next zero =>
          have above : ∀ sym ∈ (Kallsyms.load text).syms, ip.toNat < sym.1.toNat :=
            (partitionPoint_eq_zero_iff (Kallsyms.load text).sorted ip.toNat).mp zero
          rcases List.exists_mem_of_ne_nil _ nonempty with ⟨sym, mem⟩
          rcases (mem_iff sym).mp mem with ⟨line, there, symbol⟩
          refine .below nonzero ⟨line, there, sym, symbol⟩ fun line' mem' sym' symbol' => ?_
          exact above sym' ((mem_iff sym').mpr ⟨line', mem', symbol'⟩)
      next nonzero' =>
          exact scanFinds_of_isLastGreatest nonzero (isLastGreatest_boundary nonzero')

/-- The table has the symbols of all lines, sorted by address, and an address is looked up
as a scan of the lines finds it. -/
theorem kallsyms_agrees_with_scan (text : String) :
    (Kallsyms.load text).syms.Pairwise (fun a b => a.1 ≤ b.1) ∧
      (Kallsyms.load text).syms.Perm ((lines text.toList).filterMap parseLine) ∧
      (∀ line sym, parseLine line = some sym ↔ IsSymbol line sym) ∧
      ∀ ip, ScanFinds (lines text.toList) ip ((Kallsyms.load text).lookup ip) :=
  ⟨(Kallsyms.load text).sorted, sortByKey_perm _ _, fun _ _ => parseLine_eq_some_iff, lookup_scan text⟩

/-- Lines out of order, an alias, a module, a line without a name and one without an
address. -/
example :
    let k := Kallsyms.load
      "ffff20 t late\r\nffff10 T first\nffff10 T alias\tmod\n0 T zero\nffff18 T\nxyz T no\n"
    k.syms = [(0xffff10, "first"), (0xffff10, "alias"), (0xffff20, "late")] ∧
      [0, 0xff, 0xffff10, 0xffff1f, 0xffff20].map k.lookup =
        ["?", "0xff", "alias", "alias", "late"] := by
  decide +kernel

end Tragach.Iowait
