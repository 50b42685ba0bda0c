import Xpn.ReadWrite

/-! The room of the operation matrix and the entries that the splitting loops put into it. A row
index is an `int` here, so that one outside the matrix can be seen. -/

namespace Xpn

/-- `max` in `xpn_pread` -/
def xpnPreadMax (fd : XpnFiledesc) (size : Nat) : Nat :=
  let max := size / fd.blockSize + 1
  if size % fd.blockSize ≠ 0 then max + 1 else max

/-- `max` in `xpn_pwrite` -/
def xpnPwriteMax (fd : XpnFiledesc) (size : Nat) : Nat := xpnPreadMax fd size * (fd.part.replicationLevel + 1)

def readEntriesLoop (fd : XpnFiledesc) (servers : Servers) (size offset : Nat) (servClient : Int) :
    Nat → Nat → (Nat → Nat) → List (Int × NfiWorkerIo)
  | 0, _, _ => []
  | fuel + 1, count, rand =>
    if count < size then
      let ((localOffset, serv), rand) := xpnReadGetBlock fd servers rand (offset + count) servClient
      let size' := lSize fd.blockSize (offset + count) (size - count)
      (serv, ⟨localOffset, size', count⟩)
        :: readEntriesLoop fd servers size offset servClient fuel (count + size') rand
    else []

/-- The row and the operation of every pass of `XpnReadBlocksBlockByBlock`. -/
def readEntries (fd : XpnFiledesc) (servers : Servers) (rand : Nat → Nat) (size offset : Nat) (servClient : Int) :
    List (Int × NfiWorkerIo) := readEntriesLoop fd servers size offset servClient size 0 rand

/-- The inner loop of a write. -/
def copyEntries (fd : XpnFiledesc) (servers : Servers) (newOffset count size : Nat) : List (Int × NfiWorkerIo) :=
  (List.range (fd.part.replicationLevel + 1)).map fun j =>
    let ((localOffset, serv), _) := xpnWriteGetBlock fd servers newOffset j
    (serv, ⟨localOffset, size, count⟩)

def writeEntriesLoop (fd : XpnFiledesc) (servers : Servers) (size offset : Nat) :
    Nat → Nat → List (Int × NfiWorkerIo)
  | 0, _ => []
  | fuel + 1, count =>
    if count < size then
      let size' := lSize fd.blockSize (offset + count) (size - count)
      copyEntries fd servers (offset + count) count size' ++ writeEntriesLoop fd servers size offset fuel (count + size')
    else []

def writeEntries (fd : XpnFiledesc) (servers : Servers) (size offset : Nat) : List (Int × NfiWorkerIo) :=
  writeEntriesLoop fd servers size offset size 0

end Xpn
