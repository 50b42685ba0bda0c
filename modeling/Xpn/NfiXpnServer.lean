import Xpn.Messages

/-! The client's side of a connection: the `nfi_xpn_server` functions once they are connected
and their url is parsed. Each fills its member of the message, sends it and waits for a
record. The records and the message start as whatever the stack held. -/

namespace Xpn.NfiXpnServer
open Lib.Conversation Lib.ByteFile Transport Messages

/-- A client asks nothing of its surroundings. -/
abbrev ClientM := Dialogue Byte Empty Empty

/-- The result of a function and the record that what else it gives is copied from. -/
structure Returned where
  ret : Int
  record : List Byte
  deriving DecidableEq

def silent : Unit → Empty → Empty × Unit := fun _ request => request.elim

/-- The opcode and the member of the message. -/
def nfiWriteOperation (opcode size : Nat) (msg : List Byte) : ClientM Int := do
  let ret ← commWriteData (intBytes opcode) 4
  if ret < 0 then pure (-1) else commWriteData msg size

/-- What was stored of the reply. The callers ignore the code. -/
def nfiXpnServerDoRequest (opcode size : Nat) (msg : List Byte) (reqSize : Nat) : ClientM (Int × List Byte) := do
  let ret ← nfiWriteOperation opcode size msg
  if ret < 0 then pure (-1, [])
  else do
    let (ret, data) ← commReadData reqSize
    pure (if ret < 0 then -1 else 0, data)

/-- The request of a function with one path. A path that fits its field goes through
`nfi_xpn_server_do_request` and leaves `ret` alone; another is sent in two parts, with
checks of its own. `none` is a return of -1. -/
def request (member : PathMember) (msg : List Byte) (dir : Path) (req : List Byte) (ret : Int) :
    ClientM (Option (Int × List Byte)) :=
  let msg := fillPath msg member.pathLen member.path dir
  if xpnPathMax ≤ dir.length then do
    let ret ← nfiWriteOperation member.opcode member.size msg
    if ret < 0 then pure none
    else do
      let ret2 ← commWriteData (dir.drop xpnPathMax) (dir.length - xpnPathMax : Nat)
      if ret2 < 0 then pure none
      else do
        let (ret, data) ← commReadData req.length
        pure (if ret < 0 then none else some (ret, overwrite req 0 data))
  else do
    let (_, data) ← nfiXpnServerDoRequest member.opcode member.size msg req.length
    pure (some (ret, overwrite req 0 data))

/-- A request and what the function makes of the record. -/
def requestThen (member : PathMember) (msg : List Byte) (dir : Path) (req : List Byte) (ret : Int)
    (finish : Int → List Byte → Int) : ClientM Returned := do
  match ← request member msg dir req ret with
  | none => pure ⟨-1, req⟩
  | some (ret, req) => pure ⟨finish ret req, req⟩

section
variable (msg : List Byte) (stack : Nat → Byte)

/-! ### Files -/

/-- `fd` of the handle is the status of the record. -/
def nfiXpnServerOpen (dir : Path) (flags mode session hasMqtt : Int) : ClientM Returned :=
  let msg := store (store (store (store msg 0 4 flags) 4 4 mode) 8 1 session) 12 4 hasMqtt
  requestThen opOpen msg dir (contents stack statusSize) 0 fun _ status => if intAt status 0 < 0 then -1 else 0

/-- `O_WRONLY | O_CREAT | O_TRUNC` -/
def nfiXpnServerCreate (dir : Path) (mode session hasMqtt : Int) : ClientM Returned :=
  nfiXpnServerOpen msg stack dir 577 mode session hasMqtt

/-- The data that follows a header, stored after what is there. A failure is only printed. -/
def receiveData (req buffer : List Byte) (cont : Int) : ClientM (List Byte) :=
  if 0 < longAt req 0 then do
    let (_, data) ← commReadData (longAt req 0)
    pure (overwrite buffer cont.toNat data)
  else pure buffer

/-- The rounds of the replies to a read. They stop when the request is served, at an empty
reply or with a return of -1, and have no bound of their own: `none` is a client still in
its loop. -/
def readReplies (size : Nat) : Nat → (cont : Int) → (req buffer : List Byte) → ClientM (Option Returned)
  | 0, _, _, _ => pure none
  | fuel + 1, cont, req, buffer => do
    let (ret, data) ← commReadData rwReqSize
    let req := overwrite req 0 data
    if ret < 0 then pure (some ⟨-1, buffer⟩)
    else if intAt req rwReqStatus < 0 then pure (some ⟨-1, buffer⟩)
    else do
      let buffer ← receiveData req buffer cont
      let cont := toCInt (cont + longAt req 0)
      let diff := toCInt (size - cont)
      if 0 < diff ∧ longAt req 0 ≠ 0 then readReplies size fuel cont req buffer
      else pure (some (if longAt req 0 < 0 then ⟨-1, buffer⟩ else ⟨cont, buffer⟩))

/-- The fields of `st_xpn_server_rw` that a read and a write both set. -/
def rwMsg (fd offset : Int) (size : Nat) (session : Int) : List Byte :=
  store (store (store (store msg rwOffset 8 offset) rwSize 8 size) rwFd 4 fd) rwSession 1 session

/-- The message of a read or a write with the part of the path that does not fit. -/
def rwRequest (member : PathMember) (dir : Path) : ClientM Int := do
  let ret ← nfiWriteOperation member.opcode member.size (fillPath msg member.pathLen member.path dir)
  if ret < 0 then pure (-1)
  else if xpnPathMax ≤ dir.length then commWriteData (dir.drop xpnPathMax) (dir.length - xpnPathMax : Nat)
  else pure ret

def nfiXpnServerRead (fuel : Nat) (dir : Path) (fd session : Int) (buffer : List Byte) (offset : Int) (size : Nat) :
    ClientM (Option Returned) := do
  let ret ← rwRequest (rwMsg msg fd offset size session) opRead dir
  if ret < 0 then pure (some ⟨-1, buffer⟩)
  else readReplies size fuel 0 (contents stack rwReqSize) buffer

/-- The data of a write, in parts. A part that was not sent counts with its code. -/
def writeParts (buffer : List Byte) (size : Nat) (bufferSize : Int) : Nat → (cont diff : Int) → ClientM (Option Int)
  | 0, _, _ => pure none
  | fuel + 1, cont, diff => do
    let ret ← commWriteData (buffer.drop cont.toNat) (if bufferSize < diff then bufferSize else diff)
    let cont := toCInt (cont + ret)
    let diff := toCInt (size - cont)
    if 0 < diff ∧ ret ≠ 0 then writeParts buffer size bufferSize fuel cont diff else pure (some cont)

/-- The same rounds by the positions and lengths they pass on, where send `n` gives -1 or
the length: what is passed on, and the value of `cont` when they end. -/
def sendRounds (size : Nat) (bufferSize : Int) (fails : Nat → Bool) : Nat → Nat → (cont diff : Int) → List (Int × Int) × Option Int
  | 0, _, _, _ => ([], none)
  | fuel + 1, n, cont, diff =>
    let length := if bufferSize < diff then bufferSize else diff
    let ret := if fails n then -1 else length
    let next := toCInt (cont + ret)
    let diff := toCInt (size - next)
    if 0 < diff ∧ ret ≠ 0 then
      let (passed, sent) := sendRounds size bufferSize fails fuel (n + 1) next diff
      ((cont, length) :: passed, sent)
    else ([(cont, length)], some next)

/-- The reply to a write: what is returned is what was sent. -/
def writeReply (req : List Byte) : Option Int → ClientM (Option Returned)
  | none => pure none
  | some cont => do
    let (ret, data) ← commReadData rwReqSize
    let req := overwrite req 0 data
    pure (some ⟨if ret < 0 ∨ longAt req 0 < 0 then -1 else cont, req⟩)

/-- `published` is what `nfi_mq_server_publish` returns: a file of the message queue does not
use the connection. -/
def nfiXpnServerWrite (fuel : Nat) (dir : Path) (fd session : Int) (hasMqtt : Bool) (published : Int) (buffer : List Byte)
    (offset : Int) (size : Nat) : ClientM (Option Returned) :=
  if hasMqtt then pure (some ⟨published, []⟩)
  else if size = 0 then pure (some ⟨0, []⟩)
  else do
    let req := contents stack rwReqSize
    let ret ← rwRequest (store (rwMsg msg fd offset size session) rwFileType 4 0) opWrite dir
    if ret < 0 then pure (some ⟨-1, req⟩)
    else do
      let bufferSize := toCInt size
      let bufferSize := if maxBufferSize < bufferSize then (maxBufferSize : Int) else bufferSize
      let sent ← writeParts buffer size bufferSize fuel 0 (toCInt size)
      writeReply req sent

/-- Without a session there is nothing to close. -/
def nfiXpnServerClose (dir : Path) (fd session hasMqtt : Int) : ClientM Returned :=
  let status := contents stack statusSize
  if session ≠ 1 then pure ⟨0, status⟩
  else requestThen opClose (store (store msg 0 4 fd) 4 4 hasMqtt) dir status 0 fun _ status => intAt status 0

/-- `ret` is that of `ParseURL` or of the receipt. -/
def nfiXpnServerRemove (dir : Path) : ClientM Returned :=
  requestThen opRm msg dir (contents stack statusSize) 0 fun ret _ => ret

/-- The part of a path that does not fit its field. -/
def sendTail (path : Path) : ClientM Int :=
  if xpnPathMax ≤ path.length then commWriteData (path.drop xpnPathMax) (path.length - xpnPathMax : Nat) else pure 0

def nfiXpnServerRename (oldPath newPath : Path) : ClientM Returned := do
  let status := contents stack statusSize
  let msg := fillPath (fillPath msg 0 oldUrl oldPath) 4 newUrl newPath
  if xpnPathMax ≤ oldPath.length ∨ xpnPathMax ≤ newPath.length then do
    let ret ← nfiWriteOperation renameOpcode renameSize msg
    if ret < 0 then pure ⟨-1, status⟩
    else do
      let ret2 ← sendTail oldPath
      if ret2 < 0 then pure ⟨-1, status⟩
      else do
        let ret3 ← sendTail newPath
        if ret3 < 0 then pure ⟨-1, status⟩
        else do
          let (ret, data) ← commReadData statusSize
          pure (if ret < 0 then ⟨-1, status⟩ else ⟨ret, overwrite status 0 data⟩)
  else do
    let (_, data) ← nfiXpnServerDoRequest renameOpcode renameSize msg statusSize
    pure ⟨0, overwrite status 0 data⟩

def nfiXpnServerGetattr (dir : Path) : ClientM Returned :=
  requestThen opGetattr msg dir (contents stack attrReqSize) 0 fun _ req => charAt req attrReqStatus

/-- To be done, says the source. -/
def nfiXpnServerSetattr : ClientM Returned := pure ⟨0, []⟩

/-! ### Directories -/

def eexist : Int := 17

def nfiXpnServerMkdir (dir : Path) (mode : Int) : ClientM Returned :=
  requestThen opMkdir (store msg 4 4 mode) dir (contents stack statusSize) 0
    fun ret status => if intAt status 0 < 0 ∧ intAt status 4 ≠ eexist then -1 else ret

def nfiXpnServerOpendir (dir : Path) (session : Int) : ClientM Returned :=
  requestThen opOpendir (store msg 8 1 session) dir (contents stack opendirReqSize) 0
    fun _ req => if intAt req opendirReqStatus < 0 then -1 else 0

def nfiXpnServerReaddir (path : Path) (telldir dir session : Int) : ClientM Returned :=
  requestThen opReaddir (store (store (store msg 0 8 telldir) 8 8 dir) 16 1 session) path
    (contents stack readdirReqSize) 0 fun _ retEntry => if intAt retEntry 0 = 0 then -1 else 0

/-- Only the directory's handle is in the message. -/
def nfiXpnServerClosedir (dir session : Int) : ClientM Returned := do
  let status := contents stack statusSize
  if session ≠ 1 then pure ⟨0, status⟩
  else do
    let (_, data) ← nfiXpnServerDoRequest opClosedir.opcode opClosedir.size (store msg 8 8 dir) statusSize
    let status := overwrite status 0 data
    pure ⟨intAt status 0, status⟩

def nfiXpnServerRmdir (dir : Path) : ClientM Returned :=
  requestThen opRmdir msg dir (contents stack statusSize) 0
    fun _ status => if intAt status 0 < 0 then intAt status 0 else 0

/-- To be done, says the source. -/
def nfiXpnServerStatfs : ClientM Returned := pure ⟨0, []⟩

/-! ### Metadata -/

def nfiXpnServerReadMdata (dir : Path) : ClientM Returned :=
  requestThen opReadMdata msg dir (contents stack readMdataReqSize) 0 fun _ req => intAt req metadataSize

def nfiXpnServerWriteMdata (dir : Path) (mdata : List Byte) (onlyFileSize : Bool) : ClientM Returned :=
  let req := contents stack statusSize
  if onlyFileSize then
    requestThen opWriteMdataFileSize (store msg 0 8 (longAt mdata metadataFileSize)) dir req 0 fun _ req => intAt req 0
  else requestThen opWriteMdata (overwrite msg 0 (mdata.take metadataSize)) dir req 0 fun _ req => intAt req 0

end

/-- A path in a buffer of the client. -/
structure CPath where
  text : Path
  nulFree : 0 ∉ text
  short : text.length < pathMax

/-- The functions with their arguments. The buffer of a read or a write is the memory it
starts in. -/
inductive ClientOp where
  | open (dir : CPath) (flags mode session hasMqtt : Int)
  | create (dir : CPath) (mode session hasMqtt : Int)
  | read (dir : CPath) (fd session : Int) (buffer : Nat → Byte) (offset : Int) (size : UInt64)
  | write (dir : CPath) (fd session : Int) (hasMqtt : Bool) (published : Int) (buffer : Nat → Byte) (offset : Int) (size : UInt64)
  | close (dir : CPath) (fd session hasMqtt : Int)
  | remove (dir : CPath)
  | rename (oldPath newPath : CPath)
  | getattr (dir : CPath)
  | setattr
  | mkdir (dir : CPath) (mode : Int)
  | opendir (dir : CPath) (session : Int)
  | readdir (path : CPath) (telldir dir session : Int)
  | closedir (dir session : Int)
  | rmdir (dir : CPath)
  | statfs
  | readMdata (dir : CPath)
  | writeMdata (dir : CPath) (mdata : List Byte) (onlyFileSize : Bool)

/-- A function that always returns. -/
def returns (function : ClientM Returned) : ClientM (Option Returned) := do
  let returned ← function
  pure (some returned)

/-- `fuel` bounds the rounds of a read or a write. The message and the records start as what
the memory holds. -/
def ClientOp.run (fuel : Nat) (heap stack : Nat → Byte) (op : ClientOp) : ClientM (Option Returned) :=
  let msg := contents heap msgSize
  match op with
  | .open dir flags mode session hasMqtt => returns (nfiXpnServerOpen msg stack dir.text flags mode session hasMqtt)
  | .create dir mode session hasMqtt => returns (nfiXpnServerCreate msg stack dir.text mode session hasMqtt)
  | .read dir fd session buffer offset size =>
    nfiXpnServerRead msg stack fuel dir.text fd session (contents buffer size.toNat) offset size.toNat
  | .write dir fd session hasMqtt published buffer offset size =>
    nfiXpnServerWrite msg stack fuel dir.text fd session hasMqtt published (contents buffer size.toNat) offset size.toNat
  | .close dir fd session hasMqtt => returns (nfiXpnServerClose msg stack dir.text fd session hasMqtt)
  | .remove dir => returns (nfiXpnServerRemove msg stack dir.text)
  | .rename oldPath newPath => returns (nfiXpnServerRename msg stack oldPath.text newPath.text)
  | .getattr dir => returns (nfiXpnServerGetattr msg stack dir.text)
  | .setattr => returns nfiXpnServerSetattr
  | .mkdir dir mode => returns (nfiXpnServerMkdir msg stack dir.text mode)
  | .opendir dir session => returns (nfiXpnServerOpendir msg stack dir.text session)
  | .readdir path telldir dir session => returns (nfiXpnServerReaddir msg stack path.text telldir dir session)
  | .closedir dir session => returns (nfiXpnServerClosedir msg stack dir session)
  | .rmdir dir => returns (nfiXpnServerRmdir msg stack dir.text)
  | .statfs => returns nfiXpnServerStatfs
  | .readMdata dir => returns (nfiXpnServerReadMdata msg stack dir.text)
  | .writeMdata dir mdata onlyFileSize => returns (nfiXpnServerWriteMdata msg stack dir.text mdata onlyFileSize)

end Xpn.NfiXpnServer
