import Xpn.Reconfigure
import Xpn.ReadWrite

/-! `xpn_shrink`: the servers to remove leave one after the other, each with two new
entries in the metadata, and then send the blocks they hold to where the new metadata
puts them. Before the shrink a server's number is its rank. -/

namespace Xpn.XpnShrink
open Lib.ByteFile

/-! ### The metadata -/

/-- The server that ends a line. -/
def isPrevFirstNode (firstNode node nserv : Int) : Bool :=
  (firstNode == 0 && node == nserv - 1) || (firstNode != 0 && node == firstNode - 1)

/-- Go on, copy by copy, to the second copy that ends a line; the block it is of. -/
def advanceBlock (mdata : XpnMetadata) (prevNserv : Int) : Nat → Int → Int → Bool → Int
  | 0, actualLastBlock, _, _ => actualLastBlock
  | fuel + 1, actualLastBlock, replication, seen =>
    let (_, serv) := xpnCalculateBlockMdata mdata (actualLastBlock * mdata.blockSize) replication
    let ends := isPrevFirstNode mdata.firstNode serv prevNserv
    if ends && seen then actualLastBlock
    else if mdata.replicationLevel < replication + 1 then
      advanceBlock mdata prevNserv fuel (actualLastBlock + 1) 0 (seen || ends)
    else advanceBlock mdata prevNserv fuel actualLastBlock (replication + 1) (seen || ends)

/-- Go back to the last copy on the server; where it is. -/
def lastLocalOffset (mdata : XpnMetadata) (server : Int) : Nat → Int → Int → Int → Int
  | 0, _, _, localOffset => localOffset
  | fuel + 1, block, replication, _ =>
    let (localOffset, serv) := xpnCalculateBlockMdata mdata (block * mdata.blockSize) replication
    if serv = server then localOffset
    else if replication - 1 < 0 then lastLocalOffset mdata server fuel (block - 1) mdata.replicationLevel localOffset
    else lastLocalOffset mdata server fuel block (replication - 1) localOffset

section
variable (int : Int → Int)

/-- One pass of the loop in `copy`, with the first free entry `i`: the metadata and the
last block before the new segment. The lower bound is a server count, not a block. -/
def removeServer (mdata : XpnMetadata) (i : Nat) (actualLastBlock server : Int) : XpnMetadata × Int :=
  let prevBlock := mdata.nserv (i - 1)
  let prevNserv := if mdata.nserv (i - 1) < 0 then mdata.nserv (i - 2) else mdata.nserv (i - 1)
  let start := (if actualLastBlock < prevBlock then prevBlock else actualLastBlock) + 1
  let last := int (advanceBlock mdata prevNserv (prevNserv * 2).toNat start 0 false)
  let lines := int ((lastLocalOffset mdata server prevNserv.toNat last mdata.replicationLevel 0).tdiv mdata.blockSize + 1)
  ({ mdata with
    dataNserv := (mdata.dataNserv.setIfInBounds i ((server + 1) * -1)).setIfInBounds (i + 1) (prevNserv - 1)
    offsets := (mdata.offsets.setIfInBounds i lines).setIfInBounds (i + 1) last }, last)

/-- The servers after the removed one close up. -/
def renumber (transRank : Nat → Int) (removed : Nat) : Nat → Int := fun rank =>
  if removed < rank then transRank rank - 1
  else if rank = removed then -1
  else transRank rank

/-- The loop over the entries; the fuel counts those left. -/
def copyLoop : Nat → Nat → XpnMetadata → Int → (Nat → Int) → List Nat → XpnMetadata × (Nat → Int)
  | _, _, mdata, _, transRank, [] => (mdata, transRank)
  | 0, _, mdata, _, transRank, _ => (mdata, transRank)
  | fuel + 1, i, mdata, actualLastBlock, transRank, rank :: ranks =>
    if mdata.nserv i = 0 ∧ i + 1 < maxReconstructions then
      let (mdata, actualLastBlock) := removeServer int mdata i actualLastBlock (transRank rank)
      copyLoop fuel (i + 1) mdata actualLastBlock (renumber transRank rank) ranks
    else copyLoop fuel (i + 1) mdata actualLastBlock transRank (rank :: ranks)

/-- The new metadata and the new numbers of the ranks, for the ranks to remove in the
order of the command line. `int` is what an `int` keeps of a count. -/
def copyWith (mdata : XpnMetadata) (removed : List Nat) : Option (XpnMetadata × (Nat → Int)) :=
  if xpnCheckMagicNumber mdata then
    some (copyLoop int (maxReconstructions - 1) 1 mdata (int (mdata.fileSize.tdiv mdata.blockSize)) (fun rank => rank) removed)
  else none

end

def copy (mdata : XpnMetadata) (removed : List Nat) : Option (XpnMetadata × (Nat → Int)) := copyWith toCInt mdata removed

/-! ### The blocks -/

/-- A block on its way to the writer of a rank. -/
structure BlockMessage where
  rankToSend : Nat
  offset : Int
  data : List Byte

/-- The first copy of the block on the server: its local offset and its number. -/
def findCopy (mdata : XpnMetadata) (rank : Nat) (offsetDest : Int) : Nat → Nat → Option (Int × Nat)
  | 0, _ => none
  | fuel + 1, replication =>
    let (localOffset, serv) := xpnCalculateBlockMdata mdata offsetDest replication
    if (rank : Int) = serv then some (localOffset, replication) else findCopy mdata rank offsetDest fuel (replication + 1)

/-- The rank with a new number, rank 0 when there is none. -/
def rankToSend (transRank : Nat → Int) (size : Nat) (serv : Int) : Nat :=
  ((List.range size).find? fun rank => serv == transRank rank).getD 0

/-- What a removed server sends, block by block until a read finds nothing. -/
def readerLoop (mdata newMdata : XpnMetadata) (transRank : Nat → Int) (size rank : Nat) (file : List Byte) :
    Nat → Nat → List BlockMessage
  | 0, _ => []
  | fuel + 1, block =>
    match findCopy mdata rank (block * mdata.blockSize) (mdata.replicationLevel + 1).toNat 0 with
    | none => readerLoop mdata newMdata transRank size rank file fuel (block + 1)
    | some (localOffset, replication) =>
      let data := pread file (localOffset + xpnHeaderSize).toNat newMdata.blockSize.toNat
      if data.isEmpty then []
      else
        let (offsetSrc, serv) := xpnCalculateBlockMdata newMdata (block * mdata.blockSize) replication
        ⟨rankToSend transRank size serv, offsetSrc, data⟩ ::
          readerLoop mdata newMdata transRank size rank file fuel (block + 1)

/-- `recv_thread` with one message. -/
def recvBlock (files : Nat → List Byte) (message : BlockMessage) : Nat → List Byte :=
  Function.update files message.rankToSend
    (pwrite (files message.rankToSend) (message.offset + xpnHeaderSize).toNat message.data)

end Xpn.XpnShrink
