import Tragach.Common.Event
import Tragach.Library.LittleEndian

/-! # Events as bytes

The events are `#[repr(C)]` structures without padding between their fields. A probe
writes the bytes of one into the ring buffer and userspace reads the structure back from
the record it receives.
-/

namespace Tragach.Common

open Library

def SlowQueryEvent.size : Nat := 560

def SlowQueryEvent.fields (ev : SlowQueryEvent) : List (List UInt8) :=
  [u64Bytes ev.tsNs, u64Bytes ev.prepareNs, u64Bytes ev.executeNs, u64Bytes ev.attachmentId,
    u32Bytes ev.tid, u32Bytes ev.sqlLen, u32Bytes ev.sqlTruncated, u32Bytes ev.pad, ev.sql.bytes]

def SlowQueryEvent.toBytes (ev : SlowQueryEvent) : List UInt8 := ev.fields.flatten

/-- `read_unaligned` of the structure at the front of a record. -/
def SlowQueryEvent.read (bytes : List UInt8) (enough : SlowQueryEvent.size ≤ bytes.length) :
    SlowQueryEvent where
  tsNs := u64At bytes 0
  prepareNs := u64At bytes 8
  executeNs := u64At bytes 16
  attachmentId := u64At bytes 24
  tid := u32At bytes 32
  sqlLen := u32At bytes 36
  sqlTruncated := u32At bytes 40
  pad := u32At bytes 44
  sql := ⟨slice bytes 48 SQL_MAX, length_slice enough⟩

theorem SlowQueryEvent.length_toBytes (ev : SlowQueryEvent) :
    ev.toBytes.length = SlowQueryEvent.size := by
  simp [SlowQueryEvent.toBytes, SlowQueryEvent.fields, ev.sql.length_eq, SlowQueryEvent.size, SQL_MAX]

/-- What is read back is what was written. -/
theorem SlowQueryEvent.read_toBytes (ev : SlowQueryEvent)
    (enough : SlowQueryEvent.size ≤ ev.toBytes.length) :
    SlowQueryEvent.read ev.toBytes enough = ev := by
  have text : slice ev.toBytes 48 SQL_MAX = ev.sql.bytes :=
    slice_flatten (i := 8) rfl rfl ev.sql.length_eq
  have tsNs : u64At ev.toBytes 0 = ev.tsNs := u64At_flatten (i := 0) rfl rfl
  have prepareNs : u64At ev.toBytes 8 = ev.prepareNs := u64At_flatten (i := 1) rfl rfl
  have executeNs : u64At ev.toBytes 16 = ev.executeNs := u64At_flatten (i := 2) rfl rfl
  have attachmentId : u64At ev.toBytes 24 = ev.attachmentId := u64At_flatten (i := 3) rfl rfl
  have tid : u32At ev.toBytes 32 = ev.tid := u32At_flatten (i := 4) rfl rfl
  have sqlLen : u32At ev.toBytes 36 = ev.sqlLen := u32At_flatten (i := 5) rfl rfl
  have sqlTruncated : u32At ev.toBytes 40 = ev.sqlTruncated := u32At_flatten (i := 6) rfl rfl
  have pad : u32At ev.toBytes 44 = ev.pad := u32At_flatten (i := 7) rfl rfl
  simp only [SlowQueryEvent.read, text, tsNs, prepareNs, executeNs, attachmentId, tid, sqlLen,
    sqlTruncated, pad]

/-! ## Attachment events -/

def AttachEvent.size : Nat := 40

def AttachEvent.fields (ev : AttachEvent) : List (List UInt8) :=
  [u64Bytes ev.tsNs, u64Bytes ev.durationNs, u64Bytes ev.attachmentPtr, u32Bytes ev.pid,
    u32Bytes ev.tid, u32Bytes ev.kind, u32Bytes ev.pad]

def AttachEvent.toBytes (ev : AttachEvent) : List UInt8 := ev.fields.flatten

def AttachEvent.read (bytes : List UInt8) : AttachEvent where
  tsNs := u64At bytes 0
  durationNs := u64At bytes 8
  attachmentPtr := u64At bytes 16
  pid := u32At bytes 24
  tid := u32At bytes 28
  kind := u32At bytes 32
  pad := u32At bytes 36

theorem AttachEvent.length_toBytes (ev : AttachEvent) : ev.toBytes.length = AttachEvent.size := by
  simp [AttachEvent.toBytes, AttachEvent.fields, AttachEvent.size]

theorem AttachEvent.read_toBytes (ev : AttachEvent) : AttachEvent.read ev.toBytes = ev := by
  have tsNs : u64At ev.toBytes 0 = ev.tsNs := u64At_flatten (i := 0) rfl rfl
  have durationNs : u64At ev.toBytes 8 = ev.durationNs := u64At_flatten (i := 1) rfl rfl
  have attachmentPtr : u64At ev.toBytes 16 = ev.attachmentPtr := u64At_flatten (i := 2) rfl rfl
  have pid : u32At ev.toBytes 24 = ev.pid := u32At_flatten (i := 3) rfl rfl
  have tid : u32At ev.toBytes 28 = ev.tid := u32At_flatten (i := 4) rfl rfl
  have kind : u32At ev.toBytes 32 = ev.kind := u32At_flatten (i := 5) rfl rfl
  have pad : u32At ev.toBytes 36 = ev.pad := u32At_flatten (i := 6) rfl rfl
  simp only [AttachEvent.read, tsNs, durationNs, attachmentPtr, pid, tid, kind, pad]

end Tragach.Common
