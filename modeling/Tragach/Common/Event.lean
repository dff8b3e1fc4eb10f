/-! # Wire events

The records that travel from the probes to userspace through the ring buffers.
-/

namespace Tragach.Common

def SQL_MAX : Nat := 512

structure SqlBuf where
  bytes : List UInt8
  length_eq : bytes.length = SQL_MAX
  deriving DecidableEq

def SqlBuf.zeroed : SqlBuf := ⟨List.replicate SQL_MAX 0, List.length_replicate⟩

structure SlowQueryEvent where
  tsNs : UInt64
  prepareNs : UInt64
  executeNs : UInt64
  attachmentId : UInt64
  tid : UInt32
  sqlLen : UInt32
  sqlTruncated : UInt32
  pad : UInt32
  sql : SqlBuf
  deriving DecidableEq

inductive AttachEventKind where
  | opened
  | closed
  deriving DecidableEq

def AttachEventKind.toU32 : AttachEventKind → UInt32
  | .opened => 0
  | .closed => 1

structure AttachEvent where
  tsNs : UInt64
  durationNs : UInt64
  attachmentPtr : UInt64
  pid : UInt32
  tid : UInt32
  kind : UInt32
  pad : UInt32
  deriving DecidableEq

end Tragach.Common
