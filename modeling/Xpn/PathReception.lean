import Xpn.FileTable
import Xpn.PathTransport

/-! `xpn_server_read_path` as the writes it makes. The length comes from the network and
nobody checks it: it is the length of a copy, that of a receipt and an index. Memory has an
address on either side of the buffer. -/

namespace Xpn.PathReception
open Transport (xpnPathMax)

abbrev Memory := Int → Byte

/-- So many bytes from a start on, relative to `full_path`. -/
structure Write where
  start : Int
  length : Nat
  bytes : Nat → Byte

def Write.apply (memory : Memory) (write : Write) : Memory := fun i =>
  if write.start ≤ i ∧ i < write.start + write.length then write.bytes (i - write.start).toNat else memory i

/-- What the receipt of the tail gives: a code, and the bytes that have arrived before it ended. -/
structure Tail (pathLen : Int) where
  code : Int
  received : Nat
  bytes : Nat → Byte
  fits : received ≤ (pathLen - xpnPathMax).toNat

/-- `bzero(full_path, full_path_size)` -/
def clear (size : Nat) : Write := ⟨0, size, fun _ => 0⟩

/-- The count of `memcpy` is a `size_t`. -/
def copyField (pathMsg : Nat → Byte) (pathLen : Int) : Write :=
  ⟨0, if (xpnPathMax : Int) < pathLen then xpnPathMax else (pathLen % 2 ^ 64).toNat, pathMsg⟩

def receiveTail {pathLen : Int} (tail : Tail pathLen) : Write := ⟨xpnPathMax, tail.received, tail.bytes⟩

def terminate (index : Int) : Write := ⟨index, 1, fun _ => 0⟩

/-- The writes in their order. `path_msg` is the field in the message and the memory behind it. -/
def xpnServerReadPath (fullPathSize : Nat) (pathMsg : Nat → Byte) (pathLen : Int) (tail : Tail pathLen) : List Write :=
  [clear fullPathSize, copyField pathMsg pathLen] ++
    (if (xpnPathMax : Int) < pathLen then receiveTail tail :: (if tail.code < 0 then [terminate 0] else []) else []) ++
    [terminate pathLen]

/-- The memory around `full_path` afterwards. -/
def fullPath (memory : Memory) (writes : List Write) : Memory := writes.foldl Write.apply memory

end Xpn.PathReception
