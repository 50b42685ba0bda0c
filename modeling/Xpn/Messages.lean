import Xpn.PathTransport
import Xpn.Lib.Conversation

/-! The records that go over a connection and the calls that move them. Offsets and sizes
are those of the 64-bit layout. A record that nobody has set yet holds whatever the memory
held. -/

namespace Xpn
open Lib.Conversation Lib.ByteFile Transport

/-- MAX_BUFFER_SIZE -/
def maxBufferSize : Nat := 1048576

/-- The value of an expression stored into a `long`. -/
def toCLong (value : Int) : Int := value.bmod (2 ^ 64)

/-- The value of an expression stored into a signed `char`. -/
def toCChar (value : Int) : Int := value.bmod (2 ^ 8)

namespace Messages

/-! ### Fields -/

/-- A number in memory, lowest byte first. -/
def field (width : Nat) (value : Int) : List Byte :=
  (List.range width).map fun i => UInt8.ofNat ((value % 256 ^ width).toNat / 256 ^ i)

/-- The number without a sign that the bytes hold. -/
def unsigned (bytes : List Byte) : Nat := bytes.foldr (fun b value => b.toNat + 256 * value) 0

def intAt (record : List Byte) (offset : Nat) : Int := toCInt (unsigned (pread record offset 4))

def longAt (record : List Byte) (offset : Nat) : Int := toCLong (unsigned (pread record offset 8))

/-- A `size_t` -/
def sizeAt (record : List Byte) (offset : Nat) : Nat := unsigned (pread record offset 8)

def charAt (record : List Byte) (offset : Nat) : Int := toCChar (unsigned (pread record offset 1))

/-- Store a field of a record. -/
def store (record : List Byte) (offset width : Nat) (value : Int) : List Byte :=
  overwrite record offset (field width value)

/-- So many bytes of memory. -/
def contents (memory : Nat → Byte) (size : Nat) : List Byte := (List.range size).map memory

/-! ### Records -/

/-- `st_xpn_server_status`: `ret` and `server_errno`. -/
def statusSize : Nat := 8

/-- `st_xpn_server_rw_req`: `size`, `last` and a status. -/
def rwReqSize : Nat := 24

def rwReqStatus : Nat := 12

/-- `st_xpn_server_attr_req`: a `stat`, a status and a `char`. -/
def attrReqSize : Nat := 160

def attrReqStatusReq : Nat := 144

def attrReqStatus : Nat := 152

/-- `st_xpn_server_opendir_req`: `fd`, `dir` and a status. -/
def opendirReqSize : Nat := 24

def opendirReqDir : Nat := 8

def opendirReqStatus : Nat := 16

/-- `st_xpn_server_readdir_req`: `end`, `telldir`, a `dirent` and a status. -/
def readdirReqSize : Nat := 304

def readdirReqTelldir : Nat := 8

def readdirReqRet : Nat := 16

def direntSize : Nat := 280

def readdirReqStatus : Nat := 296

/-- `struct xpn_metadata` -/
def metadataSize : Nat := 368

def metadataFileSize : Nat := 24

/-- `st_xpn_server_read_mdata_req`: the metadata and a status. -/
def readMdataReqSize : Nat := 376

/-- Fields of `st_xpn_server_rw`; its paths and sizes are those of `opRead` and `opWrite`. -/
def rwFd : Nat := 0

def rwFileType : Nat := 4

def rwOffset : Nat := 8

def rwSize : Nat := 16

def rwSession : Nat := 24

/-! ### The connection -/

/-- The transports send nothing for an empty message and fail on a negative size. -/
def commWriteData {κ ρ : Type} (data : List Byte) (size : Int) : Dialogue Byte κ ρ Int :=
  let size := toCInt size
  if size = 0 then pure 0
  else if size < 0 then pure (-1)
  else .send (data.take size.toNat) pure

/-- The code and what was stored. -/
def commReadData {κ ρ : Type} (size : Int) : Dialogue Byte κ ρ (Int × List Byte) :=
  let size := toCInt size
  if size = 0 then pure (0, [])
  else if size < 0 then pure (-1, [])
  else .receive size.toNat fun code data => pure (code, data)

end Messages

end Xpn
