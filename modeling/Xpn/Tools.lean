import Xpn.Placement
import Xpn.Lib.ByteFile

/-! The tools that copy whole files in and out of a partition. Every rank runs `copy` on
its own local directory. A local file is its header and the data behind it; local calls
succeed, reads stop at the end of the file and writes are complete. A loop is `none`
while it has not ended. -/

namespace Xpn
open Lib.ByteFile

structure LocalFile where
  header : XpnMetadata
  data : List Byte

/-- A local file with a header of zeroes. -/
def LocalFile.new : LocalFile := ⟨XpnMetadata.zero, []⟩

/-- `sizeof(struct xpn_metadata)` -/
def sizeofXpnMetadata : Nat := 368

/-- The rank is one of `replication_level + 1` ranks from `master` on. -/
def amongCopies (master level : Int) (size rank : Nat) : Bool :=
  (List.range (level + 1).toNat).any fun i => (master + i).tmod size == rank

namespace XpnPreload

/-- What changes while a rank copies; `local_size` counts the bytes written. -/
structure Copying where
  dest : LocalFile
  localSize : Nat
  writeSize : Nat

/-- The copies of the block at `offset_src`; the flag says that the source has ended. -/
def copyBlock (mdata : XpnMetadata) (rank : Nat) (source : List Byte) (offsetSrc : Nat) :
    Nat → Nat → Copying → Copying × Bool
  | 0, _, state => (state, false)
  | fuel + 1, i, state =>
    let (localOffset, localServer) := xpnCalculateBlockMdata mdata offsetSrc i
    if localServer = rank then
      let buf := pread source offsetSrc mdata.blockSize.toNat
      if buf.isEmpty then (state, true)
      else
        let dest := { state.dest with data := pwrite state.dest.data localOffset.toNat buf }
        copyBlock mdata rank source offsetSrc fuel (i + 1) ⟨dest, state.localSize + buf.length, buf.length⟩
    else copyBlock mdata rank source offsetSrc fuel (i + 1) state

def copyLoop (mdata : XpnMetadata) (level rank : Nat) (source : List Byte) : Nat → Nat → Copying → Option Copying
  | 0, _, _ => none
  | fuel + 1, offsetSrc, state =>
    match copyBlock mdata rank source offsetSrc (level + 1) 0 state with
    | (state, true) => some state
    | (state, false) =>
      if 0 < state.writeSize then copyLoop mdata level rank source fuel (offsetSrc + mdata.blockSize.toNat) state
      else some state

/-- The local file that a rank leaves, if it does not remove it again. -/
def copy (destPath : Path) (xpnPathLen : Nat) (source : List Byte) (blocksize level rank size fuel : Nat) :
    Option (Option LocalFile) :=
  let mdata := xpnCreateMetadataExtern destPath size blocksize level
  (copyLoop mdata level rank source fuel 0 ⟨LocalFile.new, 0, xpnHeaderSize⟩).map fun state =>
    let mdata := { mdata with fileSize := source.length }
    let masterDir := hash (destPath.drop xpnPathLen) size 0
    let writeMdata := amongCopies mdata.firstNode level size rank
    let hasMasterDir := amongCopies masterDir level size rank
    let dest := if writeMdata then { state.dest with header := mdata } else state.dest
    let localSize := if writeMdata then state.localSize + sizeofXpnMetadata else state.localSize
    if localSize = 0 && !hasMasterDir then none else some dest

end XpnPreload

namespace XpnFlush

/-- Where the rank has a copy of the block at `offset_dest`. -/
def findCopy (mdata : XpnMetadata) (rank : Nat) (offsetDest : Int) : Nat → Nat → Option Int
  | 0, _ => none
  | fuel + 1, i =>
    let (offsetSrc, auxServ) := xpnCalculateBlockMdata mdata offsetDest i
    if auxServ = rank then some offsetSrc else findCopy mdata rank offsetDest fuel (i + 1)

/-- The search for the next block with a copy on the rank, up to the end of the file. -/
def search (mdata : XpnMetadata) (blocksize level rank : Nat) : Nat → Int → Option (Int × Option Int)
  | 0, _ => none
  | fuel + 1, offsetDest =>
    let offsetDest := offsetDest + blocksize
    match findCopy mdata rank offsetDest (level + 1) 0 with
    | some offsetSrc => some (offsetDest, some offsetSrc)
    | none => if offsetDest < mdata.fileSize then search mdata blocksize level rank fuel offsetDest else some (offsetDest, none)

/-- The size that `stat` gives, 0 for a file that is not there. -/
def stSize : Option LocalFile → Nat
  | none => 0
  | some file => xpnHeaderSize + file.data.length

/-- What the rank writes to the destination, in order. `stamped` is `st_mtime != 0`; a file
that is not there has no time. The source's second test of the copy's number is left out:
that number is never set. -/
def copyLoop (mdata : XpnMetadata) (blocksize level rank : Nat) (source : Option LocalFile) (stamped : Bool) (searchFuel : Nat) :
    Nat → Int → Int → Option (List (Nat × List Byte))
  | 0, _, _ => none
  | fuel + 1, offsetDest, readSize =>
    (search mdata blocksize level rank searchFuel offsetDest).bind fun (offsetDest, found) =>
      match found with
      | none =>
        if 0 < readSize then copyLoop mdata blocksize level rank source stamped searchFuel fuel offsetDest readSize
        else some []
      | some offsetSrc =>
        if source.isSome && stamped && decide ((stSize source : Int) < offsetSrc) then some []
        else if mdata.fileSize < offsetDest then some []
        else
          match source with
          -- Without a file there is no descriptor to seek in.
          | none => some []
          | some file =>
            let buf := pread file.data offsetSrc.toNat blocksize
            if buf.isEmpty then some []
            else
              (copyLoop mdata blocksize level rank source stamped searchFuel fuel offsetDest buf.length).map
                ((offsetDest.toNat, buf) :: ·)

/-- The metadata is the one the master node has read; a failure writes nothing. -/
def copy (mdata : XpnMetadata) (source : Option LocalFile) (stamped : Bool) (blocksize level rank fuel : Nat) :
    Option (Int × List (Nat × List Byte)) :=
  if xpnCheckMagicNumber mdata then
    (copyLoop mdata blocksize level rank source stamped fuel fuel (-(blocksize : Int)) (-1)).map (0, ·)
  else some (-1, [])

/-- What the master node reads and broadcasts: zeroes when it has no file. -/
def readMdata : Option LocalFile → XpnMetadata
  | none => XpnMetadata.zero
  | some file => file.header

end XpnFlush

namespace XpnRebuild

/-- One round: every old rank reads its block at `offset_src` and sends it to the new rank
that the block goes to. The flag says that somebody has read something. -/
def round (blocksize level oldSize newSize : Nat) (old : Nat → LocalFile) (offsetSrc : Nat) :
    List Nat → (Nat → LocalFile) → (Nat → LocalFile) × Bool
  | [], new => (new, false)
  | rank :: ranks, new =>
    let (offsetReal, replication) := xpnCalculateBlockInvert blocksize level oldSize rank offsetSrc 0
    let (offsetDest, rankToSend) := xpnCalculateBlock blocksize level newSize offsetReal replication 0
    let buf := pread (old rank).data offsetSrc blocksize
    let dest := new rankToSend.toNat
    let new := Function.update new rankToSend.toNat { dest with data := pwrite dest.data offsetDest.toNat buf }
    let (new, more) := round blocksize level oldSize newSize old offsetSrc ranks new
    (new, !buf.isEmpty || more)

def copyLoop (blocksize level oldSize newSize : Nat) (old : Nat → LocalFile) (ranks : List Nat) :
    Nat → Nat → (Nat → LocalFile) → Option (Nat → LocalFile)
  | 0, _, _ => none
  | fuel + 1, offsetSrc, new =>
    match round blocksize level oldSize newSize old offsetSrc ranks new with
    | (new, true) => copyLoop blocksize level oldSize newSize old ranks fuel (offsetSrc + blocksize) new
    | (new, false) => some new

/-- The files of the new ranks. `ranks` are the numbers that the old ranks have among
themselves, in the order of the ranks of the run. -/
def copy (blocksize level oldSize newSize : Nat) (old : Nat → LocalFile) (ranks : List Nat) (fuel : Nat) :
    Option (Nat → LocalFile) :=
  copyLoop blocksize level oldSize newSize old ranks fuel 0 fun _ => LocalFile.new

end XpnRebuild

end Xpn
