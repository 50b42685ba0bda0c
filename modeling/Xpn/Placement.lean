import Xpn.Metadata

/-! Where a byte of a file is stored. `xpnCalculateBlock` places the copies of a
block round-robin; `xpnCalculateBlockMdata` replays the history of expansions
and shrinks over it. Division and remainder truncate towards zero as in C. -/

namespace Xpn

/-- The local offset and the server of one copy of `offset`. -/
def xpnCalculateBlock (blockSize replicationLevel nserv offset replication firstNode : Int) : Int × Int :=
  let block := offset.tdiv blockSize
  let blockReplication := block * (replicationLevel + 1) + replication
  let blockLine := blockReplication.tdiv nserv
  (blockLine * blockSize + offset.tmod blockSize, (blockReplication + firstNode).tmod nserv)

/-- The file offset and the copy stored at `localOffset` of a server. -/
def xpnCalculateBlockInvert (blockSize replicationLevel nserv serv localOffset firstNode : Int) : Int × Int :=
  let blockLine := localOffset.tdiv blockSize
  let blockReplication := blockLine * nserv + ((serv - firstNode).tmod nserv + nserv).tmod nserv
  let block := blockReplication.tdiv (replicationLevel + 1)
  (block * blockSize + localOffset.tmod blockSize, blockReplication.tmod (replicationLevel + 1))

namespace XpnMetadata

/-- Segment `i` was entered by a shrink: a removed server precedes it. -/
def isShrink (mdata : XpnMetadata) (i : Nat) : Bool := 0 < i && mdata.nserv (i - 1) < 0

/-- The block lies in segment `i`. A limit of 0 counts as unset and block 0 as
past every limit. -/
def inSegment (mdata : XpnMetadata) (blockNum : Int) (i : Nat) : Bool :=
  let limit := if 0 < mdata.nserv (i + 1) then mdata.offs (i + 1) else mdata.offs (i + 2)
  (mdata.offs i < blockNum || blockNum == 0) && (blockNum ≤ limit || limit == 0)

/-- `prev_data_nserv` (-1 when there is no earlier segment) and `prev_block_num`,
the number of the last block of the earlier segment, counted inside it. -/
def prevSegment (mdata : XpnMetadata) (i : Nat) : Int × Int :=
  let back := if mdata.isShrink i then 2 else 1
  if back ≤ i then
    let blocks := if i - back = 0 then mdata.offs i else mdata.offs i - mdata.offs (i - back) - 1
    -- Blocks that an earlier shrink moved to the front of that segment.
    let moved := if back + 1 ≤ i ∧ mdata.nserv (i - (back + 1)) < 0 then mdata.offs (i - (back + 1)) else 0
    (mdata.nserv (i - back), blocks + moved)
  else (-1, 0)

/-- A later entry of the history is a shrink. -/
def haveGreatterShrink (mdata : XpnMetadata) : Nat → Nat → Bool
  | 0, _ => false
  | fuel + 1, j =>
    if mdata.nserv j = 0 then false
    else mdata.nserv j < 0 || haveGreatterShrink mdata fuel (j + 1)

end XpnMetadata

/-- The local variables of `XpnCalculateBlockMdata` that live across segments. -/
structure Decoder where
  actualIndex : Option Nat
  acumLocalOffset : Int
  arrayLocalOffset : Vector Int maxReconstructions
  localOffset : Int
  serv : Int

/-- Nothing decoded yet. The results are only read after they are set, so what
the caller's variables hold before does not matter. -/
def Decoder.initial : Decoder := ⟨none, 0, Vector.replicate _ 0, 0, 0⟩

def Decoder.base (decoder : Decoder) (i : Nat) : Int := decoder.arrayLocalOffset[i]?.getD 0

/-- A server that joined with segment `j` does not hold the lines before it: walk
back from segment `i` to the one the server came with. -/
def substractOffset (mdata : XpnMetadata) (decoder : Decoder) (serv localOffset : Int) : Nat → Int
  | 0 => localOffset
  | j + 1 =>
    if mdata.nserv (j + 1) = 0 then localOffset
    else if mdata.isShrink (j + 1) then
      if 3 ≤ j + 1 ∧ 0 < mdata.nserv (j + 1 - 3) ∧ serv = mdata.nserv (j + 1) - 1 then
        localOffset - decoder.base (j + 1 - 2)
      else substractOffset mdata decoder serv localOffset j
    else if mdata.nserv j - 1 < serv ∧ serv ≤ mdata.nserv (j + 1) - 1 then localOffset - decoder.base (j + 1)
    else substractOffset mdata decoder serv localOffset j

/-- Select the segment of the block and add up where segment `i` starts. -/
def enterSegment (mdata : XpnMetadata) (blockNum : Int) (i : Nat) (decoder : Decoder) : Decoder :=
  let actualIndex :=
    if decoder.actualIndex.isNone && mdata.inSegment blockNum i then some i else decoder.actualIndex
  let (prevNserv, prevBlockNum) := mdata.prevSegment i
  if prevNserv ≠ -1 then
    let auxLocalOffset := (xpnCalculateBlock mdata.blockSize mdata.replicationLevel prevNserv
      (prevBlockNum * mdata.blockSize) mdata.replicationLevel mdata.firstNode).1
    let acum := decoder.acumLocalOffset + (auxLocalOffset + mdata.blockSize)
    { decoder with
      actualIndex
      acumLocalOffset := acum
      arrayLocalOffset := decoder.arrayLocalOffset.setIfInBounds i acum }
  else { decoder with actualIndex }

/-- The block lies in segment `i`: place it among the servers of the segment. -/
def placeInSegment (mdata : XpnMetadata) (offset replication : Int) (i : Nat) (decoder : Decoder) : Decoder :=
  let inside :=
    if i ≠ 0 then
      let shifted := offset - mdata.blockSize * (mdata.offs i + 1)
      if mdata.isShrink i then shifted + mdata.blockSize * mdata.offs (i - 1) else shifted
    else offset
  let (localOffset, serv) := xpnCalculateBlock mdata.blockSize mdata.replicationLevel (mdata.nserv i)
    inside replication mdata.firstNode
  { decoder with
    localOffset := substractOffset mdata decoder serv (localOffset + decoder.base i) i
    serv }

/-- The block was placed before the shrink of segment `i`: move it off the
removed server, or renumber the server it stays on. -/
def moveForShrink (mdata : XpnMetadata) (replication : Int) (i : Nat) (decoder : Decoder) : Decoder :=
  let removed : Int := (mdata.nserv (i - 1)).natAbs - 1
  if decoder.serv = removed then
    let (moved, serv) := xpnCalculateBlock mdata.blockSize mdata.replicationLevel (mdata.nserv i)
      decoder.localOffset replication mdata.firstNode
    let localOffset := moved + decoder.base i
    { decoder with
      localOffset :=
        if 3 ≤ i ∧ 0 < mdata.nserv (i - 3) ∧ serv = mdata.nserv i - 1 then localOffset - decoder.base (i - 2)
        else localOffset
      serv }
  else if removed < decoder.serv then { decoder with serv := decoder.serv - 1 }
  else decoder

/-- One pass of the loop over the segments, for a positive entry `i`. -/
def decodeSegment (mdata : XpnMetadata) (offset replication : Int) (i : Nat) (decoder : Decoder) : Decoder :=
  let entered := enterSegment mdata (offset.tdiv mdata.blockSize) i decoder
  if entered.actualIndex = some i then placeInSegment mdata offset replication i entered
  else if mdata.isShrink i then moveForShrink mdata replication i entered
  else entered

def decodeSegments (mdata : XpnMetadata) (offset replication : Int) : Nat → Nat → Decoder → Decoder
  | 0, _, decoder => decoder
  | fuel + 1, i, decoder =>
    if mdata.nserv i = 0 then decoder
    else if mdata.nserv i < 0 then decodeSegments mdata offset replication fuel (i + 1) decoder
    else
      let next := decodeSegment mdata offset replication i decoder
      if next.actualIndex = some i ∧ mdata.haveGreatterShrink (maxReconstructions - i) i = false then next
      else decodeSegments mdata offset replication fuel (i + 1) next

/-- The local offset and the server of one copy of `offset`, from the metadata. -/
def xpnCalculateBlockMdata (mdata : XpnMetadata) (offset replication : Int) : Int × Int :=
  if mdata.nserv 1 = 0 then
    xpnCalculateBlock mdata.blockSize mdata.replicationLevel (mdata.nserv 0) offset replication mdata.firstNode
  else
    let decoder := decodeSegments mdata offset replication maxReconstructions 0 Decoder.initial
    (decoder.localOffset, decoder.serv)

end Xpn
