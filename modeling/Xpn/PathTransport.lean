import Xpn.FileTable

/-! Requests that carry paths, as bytes on a stream. The client fills one member of
the message union and sends the opcode, the member and what does not fit of the path;
the server reads them back. Offsets and sizes of the members are those of the 64-bit
layout. The memory of the message starts out arbitrary, and so are the fields that the
path does not depend on. -/

namespace Xpn.Transport
open Lib.ByteFile

/-- XPN_PATH_MAX -/
def xpnPathMax : Nat := 128

/-- The size of the union `u_st_xpn_server_msg`. -/
def msgSize : Nat := 504

/-- An `int` in memory, lowest byte first. -/
def intBytes (value : Nat) : List Byte := (List.range 4).map fun i => UInt8.ofNat (value / 256 ^ i)

def bytesInt (bytes : List Byte) : Int := toCInt ((bytes.foldr (fun b value => b.toNat + 256 * value) 0 : Nat))

/-- A member with one path: its opcode, where `path_len` is (the path follows it) and
its size. -/
structure PathMember where
  opcode : Nat
  pathLen : Nat
  size : Nat

def PathMember.path (member : PathMember) : Nat := member.pathLen + 4

def opOpen : PathMember := ⟨0, 16, 148⟩

def opCreat : PathMember := ⟨1, 16, 148⟩

def opRead : PathMember := ⟨2, 28, 160⟩

def opWrite : PathMember := ⟨3, 28, 160⟩

def opClose : PathMember := ⟨4, 16, 152⟩

def opRm : PathMember := ⟨5, 0, 132⟩

def opGetattr : PathMember := ⟨8, 0, 132⟩

def opMkdir : PathMember := ⟨20, 16, 148⟩

def opRmdir : PathMember := ⟨21, 0, 132⟩

def opOpendir : PathMember := ⟨23, 16, 148⟩

def opReaddir : PathMember := ⟨24, 20, 152⟩

def opClosedir : PathMember := ⟨25, 16, 152⟩

def opReadMdata : PathMember := ⟨70, 0, 132⟩

def opWriteMdata : PathMember := ⟨71, 368, 504⟩

def opWriteMdataFileSize : PathMember := ⟨72, 8, 144⟩

/-- `op_rename`: two lengths and two paths. -/
def renameOpcode : Nat := 7

def renameSize : Nat := 264

def oldUrl : Nat := 8

def newUrl : Nat := 136

/-- `file_type` of `op_write` -/
def writeFileType : Nat := 4

/-! ### The client -/

/-- What `memccpy(.., source, 0, n)` copies. -/
def memccpy : List Byte → Nat → List Byte
  | _, 0 | [], _ => []
  | b :: source, n + 1 => if b = 0 then [b] else b :: memccpy source n

/-- Store a path in its fixed field. -/
def fillPath (msg : List Byte) (pathLen text : Nat) (path : Path) : List Byte :=
  let msg := overwrite msg pathLen (intBytes path.length)
  let msg := overwrite msg text (List.replicate xpnPathMax 0)
  overwrite msg text (memccpy (path ++ [0]) (if path.length < xpnPathMax then path.length else xpnPathMax))

/-- What is sent of the path after the message. -/
def pathTail (path : Path) : List Byte :=
  if xpnPathMax ≤ path.length then (path.drop xpnPathMax).take (path.length - xpnPathMax) else []

def sendPath (member : PathMember) (msg : List Byte) (path : Path) : List Byte :=
  intBytes member.opcode ++ (fillPath msg member.pathLen member.path path).take member.size ++ pathTail path

def nfiXpnServerOpen : List Byte → Path → List Byte := sendPath opOpen

/-- A creation is an open. -/
def nfiXpnServerCreate : List Byte → Path → List Byte := nfiXpnServerOpen

def nfiXpnServerRead : List Byte → Path → List Byte := sendPath opRead

/-- A file of the message queue is published and not written, so `file_type` is 0. -/
def nfiXpnServerWrite (msg : List Byte) (path : Path) : List Byte :=
  sendPath opWrite (overwrite msg writeFileType (intBytes 0)) path

def nfiXpnServerClose : List Byte → Path → List Byte := sendPath opClose

def nfiXpnServerRemove : List Byte → Path → List Byte := sendPath opRm

def nfiXpnServerGetattr : List Byte → Path → List Byte := sendPath opGetattr

def nfiXpnServerMkdir : List Byte → Path → List Byte := sendPath opMkdir

def nfiXpnServerOpendir : List Byte → Path → List Byte := sendPath opOpendir

def nfiXpnServerReaddir : List Byte → Path → List Byte := sendPath opReaddir

/-- Only the directory's handle is set in the message, the path stays with the client. -/
def nfiXpnServerClosedir (msg : List Byte) (_path : Path) : List Byte :=
  intBytes opClosedir.opcode ++ msg.take opClosedir.size

def nfiXpnServerRmdir : List Byte → Path → List Byte := sendPath opRmdir

def nfiXpnServerReadMdata : List Byte → Path → List Byte := sendPath opReadMdata

def nfiXpnServerWriteMdata (onlyFileSize : Bool) : List Byte → Path → List Byte :=
  sendPath (if onlyFileSize then opWriteMdataFileSize else opWriteMdata)

def nfiXpnServerRename (msg : List Byte) (old new : Path) : List Byte :=
  intBytes renameOpcode ++ (fillPath (fillPath msg 0 oldUrl old) 4 newUrl new).take renameSize ++
    (pathTail old ++ pathTail new)

/-! ### The server -/

/-- Read so many bytes of the stream; `none` while they have not arrived. -/
def commReadData (stream : List Byte) (count : Nat) : Option (List Byte × List Byte) :=
  if stream.length < count then none else some (stream.take count, stream.drop count)

/-- The path string and the stream after it. A length that does not fit the buffer has
no defined result. -/
def xpnServerReadPath (pathMsg : List Byte) (pathLen : Int) (stream : List Byte) : Option (Path × List Byte) :=
  if pathLen < 0 ∨ pathMax ≤ pathLen then none
  else
    let len := pathLen.toNat
    let fullPath := overwrite (List.replicate pathMax 0) 0 (pathMsg.take (if xpnPathMax < len then xpnPathMax else len))
    (if xpnPathMax < len then
      (commReadData stream (len - xpnPathMax)).map fun (tail, rest) => (overwrite fullPath xpnPathMax tail, rest)
    else some (fullPath, stream)).map fun (fullPath, rest) =>
      ((overwrite fullPath len [0]).takeWhile (· ≠ 0), rest)

/-- The paths a handler reads and the stream it leaves. -/
abbrev Handler := List Byte → List Byte → Option (List Path × List Byte)

def readOnePath (member : PathMember) : Handler := fun head stream =>
  (xpnServerReadPath (pread head member.path xpnPathMax) (bytesInt (pread head member.pathLen 4)) stream).map
    fun (path, rest) => ([path], rest)

def xpnServerOpOpen : Handler := readOnePath opOpen

def xpnServerOpCreat : Handler := readOnePath opCreat

def xpnServerOpRead : Handler := readOnePath opRead

def xpnServerOpWrite : Handler := fun head stream =>
  if bytesInt (pread head writeFileType 4) = 1 then some ([], stream) else readOnePath opWrite head stream

def xpnServerOpClose : Handler := readOnePath opClose

def xpnServerOpRm : Handler := readOnePath opRm

def xpnServerOpGetattr : Handler := readOnePath opGetattr

def xpnServerOpMkdir : Handler := readOnePath opMkdir

def xpnServerOpRmdir : Handler := readOnePath opRmdir

def xpnServerOpOpendir : Handler := readOnePath opOpendir

def xpnServerOpReaddir : Handler := readOnePath opReaddir

def xpnServerOpClosedir : Handler := fun _head stream => some ([], stream)

def xpnServerOpReadMdata : Handler := readOnePath opReadMdata

def xpnServerOpWriteMdata : Handler := readOnePath opWriteMdata

def xpnServerOpWriteMdataFileSize : Handler := readOnePath opWriteMdataFileSize

def xpnServerOpRename : Handler := fun head stream =>
  (xpnServerReadPath (pread head oldUrl xpnPathMax) (bytesInt (pread head 0 4)) stream).bind fun (old, stream) =>
    (xpnServerReadPath (pread head newUrl xpnPathMax) (bytesInt (pread head 4 4)) stream).map
      fun (new, rest) => ([old, new], rest)

/-- The size of the message and the handler for an opcode. -/
def operation : Int → Option (Nat × Handler)
  | 0 => some (opOpen.size, xpnServerOpOpen)
  | 1 => some (opCreat.size, xpnServerOpCreat)
  | 2 => some (opRead.size, xpnServerOpRead)
  | 3 => some (opWrite.size, xpnServerOpWrite)
  | 4 => some (opClose.size, xpnServerOpClose)
  | 5 => some (opRm.size, xpnServerOpRm)
  | 7 => some (renameSize, xpnServerOpRename)
  | 8 => some (opGetattr.size, xpnServerOpGetattr)
  | 20 => some (opMkdir.size, xpnServerOpMkdir)
  | 21 => some (opRmdir.size, xpnServerOpRmdir)
  | 23 => some (opOpendir.size, xpnServerOpOpendir)
  | 24 => some (opReaddir.size, xpnServerOpReaddir)
  | 25 => some (opClosedir.size, xpnServerOpClosedir)
  | 70 => some (opReadMdata.size, xpnServerOpReadMdata)
  | 71 => some (opWriteMdata.size, xpnServerOpWriteMdata)
  | 72 => some (opWriteMdataFileSize.size, xpnServerOpWriteMdataFileSize)
  | _ => none

/-- What the server gets of one request: the opcode, the paths, and what is left. -/
structure Received where
  type : Int
  paths : List Path
  rest : List Byte

def xpnServerDoOperation (typeOp : Int) (stream : List Byte) : Option Received :=
  (operation typeOp).bind fun (size, handler) =>
    (commReadData stream size).bind fun (head, stream) =>
      (handler head stream).map fun (paths, rest) => ⟨typeOp, paths, rest⟩

/-- One turn of the dispatcher: the opcode, then the operation. -/
def xpnServerDispatcher (stream : List Byte) : Option Received :=
  (commReadData stream 4).bind fun opened => xpnServerDoOperation (bytesInt opened.1) opened.2

end Xpn.Transport
