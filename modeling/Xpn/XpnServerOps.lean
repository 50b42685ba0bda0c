import Xpn.Messages

/-! The server's side of a connection: the dispatcher reads an opcode, the operation reads
its message and hands it to a handler, and the handler asks the local file system and
answers. What the file system does is left open. -/

namespace Xpn.XpnServer
open Lib.Conversation Lib.ByteFile Transport Messages

/-! ### The local file system -/

inductive Call where
  | filesystemOpen (path : Path) (flags : Int)
  | filesystemOpen2 (path : Path) (flags mode : Int)
  | filesystemCreat (path : Path) (mode : Int)
  | filesystemClose (fd : Int)
  | filesystemFsync (fd : Int)
  | malloc (size : Int)
  | filesystemLseek (fd offset : Int)
  | filesystemRead (fd : Int) (count : Nat)
  | filesystemWrite (fd : Int) (data : List Byte)
  | filesystemUnlink (path : Path)
  | filesystemRename (old new : Path)
  | filesystemStat (path : Path)
  | filesystemMkdir (path : Path) (mode : Int)
  | filesystemRmdir (path : Path)
  | filesystemOpendir (path : Path)
  | filesystemReaddir (dir : Int)
  | filesystemSeekdir (dir telldir : Int)
  | filesystemTelldir (dir : Int)
  | filesystemClosedir (dir : Int)
  | mqServerOpSubscribe (head : List Byte)
  | mqServerOpUnsubscribe (head : List Byte)
  deriving DecidableEq

/-- The result of a call, `errno` after it and the bytes it stores. A pointer is its
address. -/
structure Answer where
  ret : Int
  errno : Int
  data : List Byte
  deriving DecidableEq

/-- A local file system that serves one file and does not fail: a write is whole, a read ends
with the file. -/
structure LocalFile where
  content : List Byte
  position : Nat

def LocalFile.answer (file : LocalFile) : Call → Answer × LocalFile
  | .filesystemOpen _ _ => (⟨3, 0, []⟩, { file with position := 0 })
  | .malloc _ => (⟨1, 0, []⟩, file)
  | .filesystemLseek _ offset => (⟨offset, 0, []⟩, { file with position := offset.toNat })
  | .filesystemRead _ count =>
    let data := pread file.content file.position count
    (⟨data.length, 0, data⟩, { file with position := file.position + data.length })
  | .filesystemWrite _ data =>
    (⟨data.length, 0, []⟩, ⟨pwrite file.content file.position data, file.position + data.length⟩)
  | _ => (⟨0, 0, []⟩, file)

abbrev ServerM := Dialogue Byte Call Answer

def ask (request : Call) : ServerM Answer := .call request pure

/-- Reads to the end of the file or of the buffer, or fails. The loop over the parts of a
read does not run for a count that is not positive. -/
def filesystemRead (fd count errno : Int) : ServerM Answer :=
  if count ≤ 0 then pure ⟨count, errno, []⟩
  else do
    let answer ← ask (.filesystemRead fd count.toNat)
    if answer.ret < 0 then pure ⟨-1, answer.errno, []⟩
    else pure ⟨(answer.data.take count.toNat).length, answer.errno, answer.data.take count.toNat⟩

/-- Writes all or fails. -/
def filesystemWrite (fd : Int) (buffer : List Byte) (count errno : Int) : ServerM Answer :=
  if count ≤ 0 then pure ⟨count, errno, []⟩
  else do
    let answer ← ask (.filesystemWrite fd (buffer.take count.toNat))
    if answer.ret < 0 then pure ⟨-1, answer.errno, []⟩ else pure ⟨count, answer.errno, []⟩

def oRdonly : Int := 0

def oWronly : Int := 1

def oRdwr : Int := 2

def oCreat : Int := 64

def sIrwxu : Int := 448

def eisdir : Int := 21

/-! ### Paths and replies -/

/-- The path string. Clients send lengths below `PATH_MAX`, others have no defined result. -/
def xpnServerReadPath (pathMsg : List Byte) (pathLen : Int) : ServerM Path := do
  let fullPath := overwrite (List.replicate pathMax 0) 0
    (pathMsg.take (if (xpnPathMax : Int) < pathLen then xpnPathMax else pathLen.toNat))
  let fullPath ←
    if (xpnPathMax : Int) < pathLen then do
      let (r, tail) ← commReadData (pathLen - xpnPathMax)
      let fullPath := overwrite fullPath xpnPathMax tail
      pure (if r < 0 then overwrite fullPath 0 [0] else fullPath)
    else pure fullPath
  pure ((overwrite fullPath pathLen.toNat [0]).takeWhile (· ≠ 0))

def readMemberPath (member : PathMember) (head : List Byte) : ServerM Path :=
  xpnServerReadPath (pread head member.path xpnPathMax) (intAt head member.pathLen)

def sendStatus (ret errno : Int) : ServerM Unit := do
  let _ ← commWriteData (field 4 ret ++ field 4 errno) statusSize

/-- Store a status in a record. -/
def setStatus (record : List Byte) (offset : Nat) (ret errno : Int) : List Byte :=
  store (store record offset 4 ret) (offset + 4) 4 errno

/-- A handler gets the memory its own records start with and the message. -/
abbrev Handler := (Nat → Byte) → List Byte → ServerM Unit

/-- A handler reads its path first. -/
def withPath (member : PathMember) (rest : (Nat → Byte) → List Byte → Path → ServerM Unit) : Handler := fun memory head => do
  let fullPath ← readMemberPath member head
  rest memory head fullPath

/-! ### Files -/

/-- `xpn_server_op_open` and `xpn_server_op_creat` differ in their call. -/
def openWith (member : PathMember) (request : Path → List Byte → Call) : Handler := withPath member fun _ head fullPath => do
  let opened ← ask (request fullPath head)
  if opened.ret < 0 then sendStatus opened.ret opened.errno
  else do
    let ret ← if charAt head 8 = 0 then do
        let closed ← ask (.filesystemClose opened.ret)
        pure closed.ret
      else pure opened.ret
    if intAt head 12 = 1 then do
      let _ ← ask (.mqServerOpSubscribe head)
    sendStatus ret opened.errno

def xpnServerOpOpen : Handler :=
  openWith opOpen fun fullPath head => .filesystemOpen2 fullPath (intAt head 0) (intAt head 4)

def xpnServerOpCreat : Handler :=
  openWith opCreat fun fullPath head => .filesystemCreat fullPath (intAt head 4)

/-- The descriptor of the session, or one of its own. -/
def rwOpen (head : List Byte) (fullPath : Path) (flags : Int) : ServerM Answer :=
  if charAt head rwSession = 1 then pure ⟨intAt head rwFd, 0, []⟩ else ask (.filesystemOpen fullPath flags)

/-- `st_xpn_server_rw_req` -/
def rwReq (req : List Byte) (size ret errno : Int) : List Byte := setStatus (store req 0 8 size) rwReqStatus ret errno

def sendRwReq (req : List Byte) : ServerM Unit := do
  let _ ← commWriteData req rwReqSize

/-- The data follows its header, if there is any. -/
def sendData (got : Answer) : ServerM Unit :=
  if 0 < got.ret then do
    let _ ← commWriteData got.data got.ret
  else pure ()

/-- The rounds of `xpn_server_op_read`. A round that goes on has read at least one byte, so
the size of the request is fuel enough. -/
def readLoop (fd offset : Int) (opSize : Nat) (size : Int) : Nat → (cont diff : Int) → (req : List Byte) → ServerM Unit
  | 0, _, _, _ => pure ()
  | fuel + 1, cont, diff, req => do
    let toRead := if size < diff then size else diff
    let sought ← ask (.filesystemLseek fd (offset + cont))
    if sought.ret = -1 then sendRwReq (rwReq req (-1) (-1) sought.errno)
    else do
      let got ← filesystemRead fd toRead sought.errno
      -- At the first round the status is what the memory held.
      if got.ret < 0 ∨ intAt req rwReqStatus = -1 then sendRwReq (rwReq req (-1) (-1) got.errno)
      else do
        let req := rwReq req got.ret 0 got.errno
        sendRwReq req
        sendData got
        let cont := toCLong (cont + got.ret)
        let diff := toCLong (opSize - cont)
        if 0 < diff ∧ got.ret ≠ 0 then readLoop fd offset opSize size fuel cont diff req

/-- `xpn_server_op_read` up to its cleanup. -/
def readBody (memory : Nat → Byte) (head : List Byte) (opened : Answer) : ServerM Unit :=
  let req := contents memory rwReqSize
  let opSize := sizeAt head rwSize
  let size := toCLong opSize
  let size := if maxBufferSize < size then (maxBufferSize : Int) else size
  let diff := toCLong opSize
  if opened.ret < 0 then sendRwReq (rwReq req (-1) opened.ret opened.errno)
  else do
    let buffer ← ask (.malloc size)
    if buffer.ret = 0 then sendRwReq (rwReq req (-1) (-1) buffer.errno)
    else readLoop opened.ret (longAt head rwOffset) opSize size (opSize + 1) 0 diff req

def xpnServerOpRead : Handler := withPath opRead fun memory head fullPath => do
  let opened ← rwOpen head fullPath oRdonly
  readBody memory head opened
  if charAt head rwSession = 0 then do
    let _ ← ask (.filesystemClose opened.ret)

/-- The rounds of `xpn_server_op_write`, with the reply they leave and `errno`. A round that
goes on has written at least one byte. -/
def writeLoop (fd offset : Int) (opSize : Nat) (size : Int) :
    Nat → (cont diff : Int) → (buffer req : List Byte) → (errno : Int) → ServerM (List Byte × Int)
  | 0, _, _, _, req, errno => pure (req, errno)
  | fuel + 1, cont, diff, buffer, req, errno => do
    let toWrite := if size < diff then size else diff
    let (ret, data) ← commReadData toWrite
    if ret < 0 then pure (store req rwReqStatus 4 (-1), errno)
    else do
      let buffer := overwrite buffer 0 data
      let sought ← ask (.filesystemLseek fd (offset + cont))
      if sought.ret < 0 then pure (store req rwReqStatus 4 (-1), sought.errno)
      else do
        let wrote ← filesystemWrite fd buffer toWrite sought.errno
        let req := store req 0 8 wrote.ret
        if wrote.ret < 0 then pure (store req rwReqStatus 4 (-1), wrote.errno)
        else do
          let cont := toCInt (cont + wrote.ret)
          let diff := toCInt (opSize - cont)
          if 0 < diff ∧ wrote.ret ≠ 0 then writeLoop fd offset opSize size fuel cont diff buffer req wrote.errno
          else pure (store (store req 0 8 cont) rwReqStatus 4 0, wrote.errno)

/-- `xpn_server_op_write` up to its cleanup. -/
def writeBody (memory : Nat → Byte) (head : List Byte) (opened : Answer) : ServerM (List Byte × Int) :=
  let req := contents memory rwReqSize
  let opSize := sizeAt head rwSize
  let size := toCInt opSize
  let size := if maxBufferSize < size then (maxBufferSize : Int) else size
  let diff := toCInt opSize
  if opened.ret < 0 then pure (store (store req 0 8 (-1)) rwReqStatus 4 (-1), opened.errno)
  else do
    let buffer ← ask (.malloc size)
    if buffer.ret = 0 then pure (store (store req 0 8 (-1)) rwReqStatus 4 (-1), buffer.errno)
    else
      writeLoop opened.ret (longAt head rwOffset) opSize size (opSize + 1) 0 diff (contents memory size.toNat) req buffer.errno

/-- `xpn_server_op_write` for a file that is not one of the message queue. -/
def writeFile : Handler := withPath opWrite fun memory head fullPath => do
  let opened ← rwOpen head fullPath oWronly
  let (req, errno) ← writeBody memory head opened
  sendRwReq (store req (rwReqStatus + 4) 4 errno)
  let _ ← ask (if charAt head rwSession = 1 then .filesystemFsync opened.ret else .filesystemClose opened.ret)

/-- The message queue writes its own files. -/
def xpnServerOpWrite : Handler := fun memory head =>
  if intAt head rwFileType = 1 then pure () else writeFile memory head

def xpnServerOpClose : Handler := withPath opClose fun _ head _ => do
  let closed ← ask (.filesystemClose (intAt head 0))
  sendStatus closed.ret closed.errno
  if intAt head 4 = 1 then do
    let _ ← ask (.mqServerOpUnsubscribe head)

/-- One call on a path, answered with its result. -/
def callOnPath (member : PathMember) (request : Path → List Byte → Call) : Handler := withPath member fun _ head fullPath => do
  let answer ← ask (request fullPath head)
  sendStatus answer.ret answer.errno

def xpnServerOpRm : Handler := callOnPath opRm fun fullPath _ => .filesystemUnlink fullPath

def xpnServerOpRmAsync : Handler := withPath opRm fun _ _ fullPath => do
  let _ ← ask (.filesystemUnlink fullPath)

def xpnServerOpRename : Handler := fun _ head => do
  let fullPathOld ← xpnServerReadPath (pread head oldUrl xpnPathMax) (intAt head 0)
  let fullPathNew ← xpnServerReadPath (pread head newUrl xpnPathMax) (intAt head 4)
  let answer ← ask (.filesystemRename fullPathOld fullPathNew)
  sendStatus answer.ret answer.errno

def xpnServerOpGetattr : Handler := withPath opGetattr fun memory _ fullPath => do
  let req := contents memory attrReqSize
  let answer ← ask (.filesystemStat fullPath)
  let req := overwrite req 0 (answer.data.take attrReqStatusReq)
  let status := toCChar answer.ret
  let req := store (setStatus req attrReqStatusReq status answer.errno) attrReqStatus 1 status
  let _ ← commWriteData req attrReqSize

/-- To be implemented, says the source. -/
def xpnServerOpSetattr : Handler := fun _ _ => pure ()

/-! ### Directories -/

def xpnServerOpMkdir : Handler := callOnPath opMkdir fun fullPath head => .filesystemMkdir fullPath (intAt head 4)

def xpnServerOpOpendir : Handler := withPath opOpendir fun memory head fullPath => do
  let req := contents memory opendirReqSize
  let opened ← ask (.filesystemOpendir fullPath)
  let req := setStatus req opendirReqStatus (if opened.errno ≠ 0 then -1 else 0) opened.errno
  let req ←
    if opened.errno = 0 then
      if charAt head 8 = 1 then pure (store req opendirReqDir 8 opened.ret)
      else do
        let told ← ask (.filesystemTelldir opened.ret)
        let _ ← ask (.filesystemClosedir opened.ret)
        pure (setStatus req opendirReqStatus told.ret told.errno)
    else pure req
  let _ ← commWriteData req opendirReqSize

/-- An entry that was found. -/
def setEntry (entry : List Byte) (found : Answer) : List Byte :=
  if found.ret ≠ 0 then overwrite (store entry 0 4 1) readdirReqRet (found.data.take direntSize) else entry

/-- Without a session a stream that is null is read and told as well; what these calls then do is not
defined. -/
def xpnServerOpReaddir : Handler := withPath opReaddir fun memory head fullPath => do
  let retEntry := contents memory readdirReqSize
  let retEntry ←
    if charAt head 16 = 1 then do
      let found ← ask (.filesystemReaddir (longAt head 8))
      let retEntry := setStatus (store retEntry 0 4 0) readdirReqStatus
        (if found.ret = 0 ∧ found.errno ≠ 0 then -1 else 0) found.errno
      pure (setEntry retEntry found)
    else do
      let opened ← ask (.filesystemOpendir fullPath)
      if opened.ret ≠ 0 then do
        let _ ← ask (.filesystemSeekdir opened.ret (longAt head 0))
      let found ← ask (.filesystemReaddir opened.ret)
      let retEntry := setEntry (setStatus (store retEntry 0 4 0) readdirReqStatus
        (if found.errno ≠ 0 then -1 else 0) found.errno) found
      let told ← ask (.filesystemTelldir opened.ret)
      let closed ← ask (.filesystemClosedir opened.ret)
      pure (store (store retEntry readdirReqTelldir 8 told.ret) readdirReqStatus 4 closed.ret)
  let _ ← commWriteData retEntry readdirReqSize

def xpnServerOpClosedir : Handler := fun _ head => do
  let closed ← ask (.filesystemClosedir (longAt head 8))
  sendStatus closed.ret closed.errno

def xpnServerOpRmdir : Handler := callOnPath opRmdir fun fullPath _ => .filesystemRmdir fullPath

/-- The path that fits the message is all this handler uses. -/
def xpnServerOpRmdirAsync : Handler := fun _ head => do
  let _ ← ask (.filesystemRmdir ((pread head opRmdir.path xpnPathMax).takeWhile (· ≠ 0)))

/-! ### Metadata -/

def magicNumber : List Byte := [88, 80, 78]

def xpnServerOpReadMdata : Handler := withPath opReadMdata fun _ _ fullPath => do
  let req := List.replicate readMdataReqSize 0
  let opened ← ask (.filesystemOpen fullPath oRdwr)
  let req ←
    if opened.ret < 0 then
      pure (setStatus req metadataSize (if opened.errno = eisdir then 0 else opened.ret) opened.errno)
    else do
      let got ← filesystemRead opened.ret metadataSize opened.errno
      let req := overwrite req 0 got.data
      let req := if pread req 0 3 ≠ magicNumber then overwrite req 0 (List.replicate metadataSize 0) else req
      let closed ← ask (.filesystemClose opened.ret)
      pure (setStatus req metadataSize got.ret closed.errno)
  let _ ← commWriteData req readMdataReqSize

def xpnServerOpWriteMdata : Handler := withPath opWriteMdata fun _ head fullPath => do
  let opened ← ask (.filesystemOpen2 fullPath (oWronly + oCreat) sIrwxu)
  if opened.ret < 0 then sendStatus (if opened.errno = eisdir then 0 else opened.ret) opened.errno
  else do
    let wrote ← filesystemWrite opened.ret (head.take metadataSize) metadataSize opened.errno
    let closed ← ask (.filesystemClose opened.ret)
    sendStatus wrote.ret closed.errno

def xpnServerOpWriteMdataFileSize : Handler := withPath opWriteMdataFileSize fun _ head fullPath => do
  let opened ← ask (.filesystemOpen fullPath oRdwr)
  if opened.ret < 0 then sendStatus (if opened.errno = eisdir then 0 else opened.ret) opened.errno
  else do
    let sought ← ask (.filesystemLseek opened.ret metadataFileSize)
    let got ← filesystemRead opened.ret 8 sought.errno
    let actualFileSize := longAt (overwrite (List.replicate 8 0) 0 got.data) 0
    let ret ←
      if 0 < got.ret ∧ actualFileSize < longAt head 0 then do
        let sought ← ask (.filesystemLseek opened.ret metadataFileSize)
        let wrote ← filesystemWrite opened.ret (pread head 0 8) 8 sought.errno
        pure wrote.ret
      else pure got.ret
    let closed ← ask (.filesystemClose opened.ret)
    sendStatus ret closed.errno

/-! ### Operations -/

/-- The size of the message and the handler for an opcode. -/
def operation : Int → Option (Nat × Handler)
  | 0 => some (opOpen.size, xpnServerOpOpen)
  | 1 => some (opCreat.size, xpnServerOpCreat)
  | 2 => some (opRead.size, xpnServerOpRead)
  | 3 => some (opWrite.size, xpnServerOpWrite)
  | 4 => some (opClose.size, xpnServerOpClose)
  | 5 => some (opRm.size, xpnServerOpRm)
  | 6 => some (opRm.size, xpnServerOpRmAsync)
  | 7 => some (renameSize, xpnServerOpRename)
  | 8 => some (opGetattr.size, xpnServerOpGetattr)
  | 9 => some (280, xpnServerOpSetattr)
  | 20 => some (opMkdir.size, xpnServerOpMkdir)
  | 21 => some (opRmdir.size, xpnServerOpRmdir)
  | 22 => some (opRmdir.size, xpnServerOpRmdirAsync)
  | 23 => some (opOpendir.size, xpnServerOpOpendir)
  | 24 => some (opReaddir.size, xpnServerOpReaddir)
  | 25 => some (opClosedir.size, xpnServerOpClosedir)
  | 70 => some (opReadMdata.size, xpnServerOpReadMdata)
  | 71 => some (opWriteMdata.size, xpnServerOpWriteMdata)
  | 72 => some (opWriteMdataFileSize.size, xpnServerOpWriteMdataFileSize)
  | _ => none

def finalize : Int := 80

def disconnect : Int := 81

/-- The message read into `head`, which starts as whatever the memory held. -/
def inHead (memory : Nat → Byte) (data : List Byte) : List Byte := overwrite (contents memory msgSize) 0 data

def xpnServerDoOperation (memory : Nat → Byte) (typeOp : Int) : ServerM Unit :=
  match operation typeOp with
  | some (size, handler) => do
    let (ret, data) ← commReadData size
    if ret ≠ -1 then handler memory (inHead memory data)
  | none => pure ()

/-- How a turn of the dispatcher ends: it leaves its loop, or goes on with the opcode it has. -/
inductive Turn where
  | leaves
  | goesOn (typeOp : List Byte)
  deriving DecidableEq

/-- One turn of `xpn_server_dispatcher`. The opcode is stored over the one of the turn
before. -/
def xpnServerDispatcher (memory : Nat → Byte) (typeOp : List Byte) : ServerM Turn := do
  let (ret, data) ← commReadData 4
  if ret < 0 then pure .leaves
  else do
    let typeOp := overwrite typeOp 0 data
    if intAt typeOp 0 = disconnect ∨ intAt typeOp 0 = finalize then pure .leaves
    else do
      xpnServerDoOperation memory (intAt typeOp 0)
      pure (.goesOn typeOp)

end Xpn.XpnServer
