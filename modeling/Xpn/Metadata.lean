import Xpn.PathMisc

/-! The metadata record kept in the header of a file's local copies. A file that
was expanded or shrunk keeps its history in two tables: a positive entry of
`dataNserv` is a server count, a negative one the server that a shrink removed. -/

namespace Xpn

/-- XPN_HEADER_SIZE: local data starts after the header. -/
def xpnHeaderSize : Nat := 8192

/-- XPN_METADATA_MAX_RECONSTURCTIONS -/
def maxReconstructions : Nat := 40

def xpnMagicNumber : List Char := ['X', 'P', 'N']

structure XpnMetadata where
  magicNumber : List Char
  version : Int
  type : Int
  blockSize : Int
  fileSize : Int
  replicationLevel : Int
  firstNode : Int
  distributionPolicy : Int
  dataNserv : Vector Int maxReconstructions
  offsets : Vector Int maxReconstructions
  deriving DecidableEq

/-- Reads of the two tables. An index past a table reads 0. For `data_nserv[40]` that
is what the program reads: the cell after it is `offsets[0]`, which is never set.
`offsets[40]` and `offsets[41]` are read only for a table of 39 or 40 entries. -/
def XpnMetadata.nserv (mdata : XpnMetadata) (i : Nat) : Int := mdata.dataNserv[i]?.getD 0

def XpnMetadata.offs (mdata : XpnMetadata) (i : Nat) : Int := mdata.offsets[i]?.getD 0

/-- XPN_CHECK_MAGIC_NUMBER -/
def xpnCheckMagicNumber (mdata : XpnMetadata) : Bool := mdata.magicNumber == xpnMagicNumber

/-- The record `bzero` leaves. -/
def XpnMetadata.zero : XpnMetadata where
  magicNumber := ['\x00', '\x00', '\x00']
  version := 0
  type := 0
  blockSize := 0
  fileSize := 0
  replicationLevel := 0
  firstNode := 0
  distributionPolicy := 0
  dataNserv := Vector.replicate _ 0
  offsets := Vector.replicate _ 0

def xpnCreateMetadataExtern (path : Path) (nserv blockSize replicationLevel : Int) : XpnMetadata :=
  { XpnMetadata.zero with
    magicNumber := xpnMagicNumber
    dataNserv := XpnMetadata.zero.dataNserv.setIfInBounds 0 nserv
    version := 1
    type := 0
    blockSize
    replicationLevel
    firstNode := hash path nserv 1
    distributionPolicy := 1 }

end Xpn
