import Xpn.Placement

/-! How the reconfiguration tools rewrite the metadata of a file. The tools compute with
`int`s, so a count of blocks that an `int` does not hold is narrowed. A run that the tool
aborts has no result. -/

namespace Xpn

namespace XpnExpand

/-- The last block of the whole lines that the file fills, minus 1 for none. -/
def limitActualBlocks (fileSize blockSize nserv : Int) : Int :=
  let actualBlocks := toCInt (fileSize.tdiv blockSize)
  toCInt ((toCInt (actualBlocks + nserv - 1)).tdiv nserv * nserv - 1)

/-- The first unused entry of `data_nserv`. A full table is reported but not an error. -/
def freeEntry (mdata : XpnMetadata) : Option Nat :=
  (List.range maxReconstructions).find? fun i => 1 ≤ i && mdata.nserv i == 0

/-- The metadata that `copy` of `xpn_expand` writes for `size` servers. -/
def copy (mdata : XpnMetadata) (size : Int) : Option XpnMetadata :=
  if xpnCheckMagicNumber mdata then
    match freeEntry mdata with
    | none => some mdata
    | some i => some { mdata with
        dataNserv := mdata.dataNserv.setIfInBounds i size
        offsets := mdata.offsets.setIfInBounds i (limitActualBlocks mdata.fileSize mdata.blockSize (mdata.nserv (i - 1))) }
  else none

end XpnExpand

end Xpn
