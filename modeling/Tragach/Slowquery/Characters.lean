import Tragach.Library.Utf8
import Tragach.Slowquery.Text

/-! # The characters shown for a statement

Userspace decodes the captured bytes with replacements. The entry probe cuts the statement
after 511 bytes, whatever byte of a character comes next, so the last character shown may be
a replacement.
-/

namespace Tragach.Slowquery

open Bpf Common Library

def sqlString (ev : SlowQueryEvent) : List Char := fromUtf8Lossy (sqlStr ev)

/-- The decoded bytes are those of characters, with which the text starts. -/
def Uncorrupted (ev : SlowQueryEvent) (text : List Char) : Prop :=
  ∃ shown, sqlStr ev = utf8 shown ∧ sqlString ev = shown ∧ shown <+: text

theorem uncorrupted_iff {ev : SlowQueryEvent} {text : List Char} {k : Nat}
    (cut : sqlStr ev = (utf8 text).take k) :
    Uncorrupted ev text ↔ CharBoundary (utf8 text) k := by
  constructor
  · rintro ⟨shown, bytes, _, _⟩
    exact (take_utf8_isText_iff text k).mp ⟨shown, cut.symm.trans bytes⟩
  · intro boundary
    refine ⟨wholeChars k text, cut.trans (take_utf8_of_boundary boundary), ?_,
      wholeChars_isPrefix k text⟩
    rw [sqlString, cut, fromUtf8Lossy_take, if_pos boundary, List.append_nil]

theorem sqlString_of_cut {ev : SlowQueryEvent} {text : List Char} {k : Nat}
    (cut : sqlStr ev = (utf8 text).take k) :
    sqlString ev =
      wholeChars k text ++ if CharBoundary (utf8 text) k then [] else [replacement] := by
  rw [sqlString, cut, fromUtf8Lossy_take]

section

variable {memory : UInt64 → UInt8} {text : List Char} {c : Ctx}

/-- A text declared with its length, or to be read up to its NUL. -/
structure Captures (memory : UInt64 → UInt8) (text : List Char) (c : Ctx) : Prop where
  reads : ReadsFrom memory (utf8 text).length c
  bytes : bytesAt memory c.regs.r8 (utf8 text).length = utf8 text
  length : c.regs.rcx = 0 ∨ c.regs.rcx.toNat = (utf8 text).length

theorem Captures.statementLength_eq (captures : Captures memory text c) :
    statementLength c.regs.rcx (utf8 text).length = (utf8 text).length := by
  rw [statementLength]
  rcases captures.length with strlen | counted
  · rw [if_pos strlen]
  · rw [counted, Nat.min_self, ite_self]

theorem Captures.sqlStr_eq (captures : Captures memory text c) {ev : SlowQueryEvent}
    (carries : eventText ev = (capture c).text) : sqlStr ev = (utf8 text).take 511 := by
  rw [sqlStr_of_capture captures.reads carries, captures.statementLength_eq, Nat.min_comm,
    ← take_bytesAt, captures.bytes]

end

/-- The characters of the first 511 bytes are shown, and a character that is cut there is
shown as one replacement. -/
theorem shown_characters {L : Limits} {h : History} {x : SlowQueryEvent × Option Nat}
    (mem : x ∈ labelled L h) {f : Fn} {c : Ctx} {post pre : History}
    (split : h = post ++ .entry f c :: pre) (origin : x.2 = some pre.length)
    {memory : UInt64 → UInt8} {text : List Char} (captures : Captures memory text c) :
    (Uncorrupted x.1 text ↔ CharBoundary (utf8 text) 511) ∧
      sqlString x.1 =
        wholeChars 511 text ++ if CharBoundary (utf8 text) 511 then [] else [replacement] := by
  have carries := labelled_carries mem
  rw [origin] at carries
  have cut := captures.sqlStr_eq (CapturedAt.eq carries split rfl)
  exact ⟨uncorrupted_iff cut, sqlString_of_cut cut⟩

/-- A letter of two bytes across the cut. -/
def accented : List Char := List.replicate 510 'A' ++ ['é']

def accentedMemory (a : UInt64) : UInt8 :=
  if a = 4606 then 0xC3 else if a = 4607 then 0xA9 else letters 510 a

def accentedEntry : Ctx :=
  { firing 7 10 { rsi := 1, rcx := 512, r8 := 4096 } with
    readUserStr := fun ptr buf => probeReadUserStrBytes accentedMemory ptr 512 buf }

def accentedRun : History :=
  [.exit .executeImmediate (firing 7 20 {}), .entry .executeImmediate accentedEntry]

def accentedEvent : SlowQueryEvent := ⟨20, 0, 10, 1, 7, 512, 1, 0, (capture accentedEntry).sql⟩

theorem length_accented : (utf8 accented).length = 512 := by decide +kernel

theorem accentedEntry_reads : ReadsFrom accentedMemory 512 accentedEntry :=
  ⟨by decide, by decide, by decide +kernel, rfl⟩

theorem accentedEntry_captures : Captures accentedMemory accented accentedEntry := by
  refine ⟨?_, ?_, Or.inr ?_⟩
  · rw [length_accented]
    exact accentedEntry_reads
  · rw [length_accented]
    decide +kernel
  · rw [length_accented]
    rfl

theorem accentedEvent_emitted : (accentedEvent, some 0) ∈ labelled declared accentedRun := by
  decide +kernel

theorem accentedRun_split :
    accentedRun = accentedRun.take 1 ++ .entry .executeImmediate accentedEntry :: [] := rfl

theorem accentedEvent_cut : sqlStr accentedEvent = (utf8 accented).take 511 :=
  accentedEntry_captures.sqlStr_eq
    (CapturedAt.eq (labelled_carries accentedEvent_emitted) accentedRun_split rfl)

theorem accented_across : ¬ CharBoundary (utf8 accented) 511 := by decide +kernel

theorem accented_shown :
    (Uncorrupted accentedEvent accented ↔ CharBoundary (utf8 accented) 511) ∧
      sqlString accentedEvent =
        wholeChars 511 accented ++ if CharBoundary (utf8 accented) 511 then [] else [replacement] :=
  shown_characters accentedEvent_emitted accentedRun_split rfl accentedEntry_captures

/-- 510 letters and one of two bytes are shown as 510 letters and a replacement, which the
statement does not contain. -/
theorem accented_replaced :
    Captures accentedMemory accented accentedEntry ∧
      (accentedEvent, some 0) ∈ labelled declared accentedRun ∧
      ¬ Uncorrupted accentedEvent accented ∧
      sqlString accentedEvent = List.replicate 510 'A' ++ [replacement] ∧
      replacement ∉ accented := by
  refine ⟨accentedEntry_captures, accentedEvent_emitted, ?_, ?_, ?_⟩
  · rw [uncorrupted_iff accentedEvent_cut]
    exact accented_across
  · rw [sqlString_of_cut accentedEvent_cut, if_neg accented_across]
    decide +kernel
  · decide +kernel

end Tragach.Slowquery
