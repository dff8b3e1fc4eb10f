import Tragach.Library.Pipeline

/-! # Ring buffers

A record takes the bytes of its header and its own, rounded up to a multiple of 8. The
positions of producer and consumer are never a whole ring apart.
-/

namespace Tragach.Bpf

def RINGBUF_HDR_SZ : Nat := 8

def ringSpace (record : List UInt8) : Nat := (record.length + RINGBUF_HDR_SZ + 7) / 8 * 8

/-- The bytes that fit into a `BPF_MAP_TYPE_RINGBUF` declared with `byteSize`. -/
def ringLimit (byteSize : Nat) : Nat := byteSize - 1

/-- `RingBuf::with_byte_size(256 * 1024, 0)`. -/
def declaredByteSize : Nat := 256 * 1024

end Tragach.Bpf
