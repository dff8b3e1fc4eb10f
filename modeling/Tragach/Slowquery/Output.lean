import Tragach.Common.Wire

/-! # Printing a slowquery event

What userspace makes of one record of the ring buffer: the decoded event, the bytes of
its statement and the fields of the line it prints.
-/

namespace Tragach.Slowquery

open Common Library

def decodeEvent (bytes : List UInt8) : Except Unit SlowQueryEvent :=
  if enough : SlowQueryEvent.size ≤ bytes.length then .ok (.read bytes enough) else .error ()

/-- The bytes `sql_str` hands to UTF-8 decoding. -/
def sqlStr (ev : SlowQueryEvent) : List UInt8 :=
  let n := min ev.sqlLen.toNat SQL_MAX
  let trimmed := ev.sql.bytes.take n
  -- `findIdx` is the length when there is no NUL
  let cut := trimmed.findIdx fun b => b = 0
  trimmed.take cut

/-- The line `write_human` prints, less its time. -/
structure HumanEvent where
  att : Option UInt32
  prepareNs : UInt64
  executeNs : UInt64
  sqlDisplay : String ⊕ List UInt8
  truncated : String

def writeHuman (ev : SlowQueryEvent) (att : Option UInt32) : HumanEvent :=
  let sql := sqlStr ev
  { att := att
    prepareNs := ev.prepareNs
    executeNs := ev.executeNs
    sqlDisplay :=
      if sql.isEmpty ∧ ev.attachmentId = 0 then
        .inl "<sql unknown — execute without tracked prepare>"
      else .inr sql
    truncated := if ev.sqlTruncated ≠ 0 then "..." else "" }

/-- The object `write_json` prints, less its time. -/
structure JsonEvent where
  att : Option UInt32
  attPtr : Option UInt64
  tid : UInt32
  prepareUs : UInt64
  executeUs : UInt64
  sql : Option (List UInt8)
  truncated : Bool

def writeJson (ev : SlowQueryEvent) (att : Option UInt32) : JsonEvent :=
  let sql := sqlStr ev
  { att := att
    attPtr := if ev.attachmentId = 0 then none else some ev.attachmentId
    tid := ev.tid
    prepareUs := ev.prepareNs / 1000
    executeUs := ev.executeNs / 1000
    sql := if sql.isEmpty ∧ ev.attachmentId = 0 then none else some sql
    truncated := ev.sqlTruncated ≠ 0 }

theorem decodeEvent_toBytes (ev : SlowQueryEvent) : decodeEvent ev.toBytes = .ok ev := by
  have enough : SlowQueryEvent.size ≤ ev.toBytes.length := ev.length_toBytes.ge
  rw [decodeEvent, dif_pos enough, ev.read_toBytes enough]

/-- The text shown ends at the stored length or before the first NUL. -/
theorem sqlStr_eq_takeWhile (ev : SlowQueryEvent) :
    sqlStr ev = (ev.sql.bytes.take (min ev.sqlLen.toNat SQL_MAX)).takeWhile fun b => b ≠ 0 := by
  rw [sqlStr, List.takeWhile_eq_take_findIdx_not]
  simp

/-- Behind NUL-free text in a zeroed buffer nothing is shown. -/
theorem sqlStr_of_text {ev : SlowQueryEvent} {text zeros : List UInt8}
    (buffer : ev.sql.bytes = text ++ zeros) (nulFree : ∀ b ∈ text, b ≠ 0)
    (zeroed : ∀ b ∈ zeros, b = 0) : sqlStr ev = text.take (min ev.sqlLen.toNat SQL_MAX) := by
  have inside : ∀ b ∈ text.take (min ev.sqlLen.toNat SQL_MAX), decide (b ≠ 0) = true := by
    intro b mem
    simpa using nulFree b (List.mem_of_mem_take mem)
  have stop : (zeros.take (min ev.sqlLen.toNat SQL_MAX - text.length)).takeWhile
      (fun b => decide (b ≠ 0)) = [] := by
    cases rest : zeros.take (min ev.sqlLen.toNat SQL_MAX - text.length) with
    | nil => rfl
    | cons b zeros' =>
        have mem : b ∈ zeros := List.mem_of_mem_take (by rw [rest]; exact List.mem_cons_self)
        simp [zeroed b mem]
  rw [sqlStr_eq_takeWhile, buffer, List.take_append, List.takeWhile_append_of_pos inside, stop,
    List.append_nil]

end Tragach.Slowquery
