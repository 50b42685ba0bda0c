import Xpn.XpnServerOps
import Xpn.NfiXpnServer
import Xpn.Lib.Service

/-! The proxy: a library whose functions each open a connection, send one petition and wait
for its result, and a server whose threads take the connections from a queue, handle one
petition each and close them. A petition is a whole `st_xpn_server_msg`. -/

namespace Xpn.XpnProxy
open Lib.Conversation Lib.ByteFile Transport Messages

/-- `type`, the padding after it and the union -/
def petitionSize : Nat := 8 + msgSize

/-! ### Both sides -/

/-- Nothing is read for a size of 0. A negative size is, as a `size_t`, more than `read`
takes. -/
def readNBytes {κ ρ : Type} (n : Int) : Dialogue Byte κ ρ (Int × List Byte) :=
  if n ≤ 0 then pure (-1, [])
  else .receive n.toNat fun code data => pure (if code < n then -1 else n, data)

/-- `filesystem_write` writes all or fails. -/
def writeNBytes {κ ρ : Type} (buffer : List Byte) (n : Nat) : Dialogue Byte κ ρ Int :=
  if n = 0 then pure 0 else .send (buffer.take n) pure

/-- A field without a sign of 4 bytes. -/
def wordAt (record : List Byte) (offset : Nat) : Nat := unsigned (pread record offset 4)

/-! ### The client -/

abbrev ClientM := Dialogue Byte Empty Empty

/-- `struct __dirstream`, as far as the client sets it. -/
structure Dir where
  fd : Int
  path : Path
  remoteHandler : Nat
  deriving DecidableEq

/-- What a function gives: a number, a number and what it has stored, a stream or an entry. A
null pointer is `none`. -/
inductive Result where
  | number (ret : Int)
  | stored (ret : Int) (bytes : List Byte)
  | dirp (dir : Option Dir)
  | dirent (entry : Option (List Byte))
  deriving DecidableEq

/-- A petition that starts as zeros. -/
def petition (opcode : Nat) (u : List Byte) : List Byte := intBytes opcode ++ (List.replicate 4 0 ++ u)

def zeros : List Byte := List.replicate msgSize 0

/-- `memcpy` of at most XPN_PATH_MAX bytes, and the length. -/
def setPath (u : List Byte) (pathLen text : Nat) (path : Path) : List Byte :=
  store (overwrite u text (path.take xpnPathMax)) pathLen 4 path.length

def writeTails : List Path → ClientM Int
  | [] => pure 0
  | path :: paths =>
    if xpnPathMax < path.length then do
      let ret ← writeNBytes (path.drop xpnPathMax) (path.length - xpnPathMax)
      if ret < 0 then pure (-1) else writeTails paths
    else writeTails paths

/-- `d_send_receive` with one path or none and `d_send_receive_rn` with two. The status;
`none` is a return of -1. -/
def sendReceive (pr : List Byte) (paths : List Path) : ClientM (Option (List Byte)) := do
  let ret ← writeNBytes pr petitionSize
  if ret < 0 then pure none
  else do
    let ret ← writeTails paths
    if ret < 0 then pure none
    else do
      let (ret, res) ← readNBytes statusSize
      pure (if ret < 0 then none else some res)

def dSendReceive (pr : List Byte) (path : Path) : ClientM (Option (List Byte)) := sendReceive pr [path]

def dSendReceiveRn (pr : List Byte) (oldPath newPath : Path) : ClientM (Option (List Byte)) :=
  sendReceive pr [oldPath, newPath]

/-- A function that returns what the status says. -/
def returnStatus (exchange : ClientM (Option (List Byte))) : ClientM Result := do
  match ← exchange with
  | none => pure (.number (-1))
  | some res => pure (.number (intAt res 0))

/-- A function whose petition has a path. -/
def pathPetition (member : PathMember) (u : List Byte) (path : Path) : List Byte :=
  petition member.opcode (setPath u member.pathLen member.path path)

def xpnOpen (path : Path) (flags mode : Int) : ClientM Result :=
  returnStatus (dSendReceive (pathPetition opOpen (store (store zeros 0 4 flags) 4 4 mode) path) path)

def xpnCreat (path : Path) (perm : Int) : ClientM Result :=
  returnStatus (dSendReceive (pathPetition opCreat (store (store zeros 0 4 511) 4 4 perm) path) path)

def xpnClose (fd : Int) : ClientM Result :=
  if fd < 0 then pure (.number (-1))
  else returnStatus (dSendReceive (petition opClose.opcode (store zeros 0 4 fd)) [])

/-- The size of the data is what the status says. -/
def xpnRead (fd : Int) (size : Nat) : ClientM Result :=
  if fd < 0 ∨ size = 0 then pure (.stored (-1) [])
  else do
    match ← dSendReceive (petition opRead.opcode (store (store zeros rwFd 4 fd) rwSize 8 size)) [] with
    | none => pure (.stored (-1) [])
    | some res => do
      let (r, buffer) ← readNBytes (intAt res 0)
      pure (.stored r buffer)

/-- The first status only says that the server waits for the data; it is not looked at. -/
def xpnWrite (fd : Int) (buffer : List Byte) (size : Nat) : ClientM Result :=
  if fd < 0 ∨ size = 0 then pure (.number (-1))
  else do
    match ← dSendReceive (petition opWrite.opcode (store (store zeros rwFd 4 fd) rwSize 8 size)) [] with
    | none => pure (.number (-1))
    | some _ => do
      let ret ← writeNBytes buffer size
      if toCInt ret < 0 then pure (.number (-1))
      else do
        let (ret, res) ← readNBytes statusSize
        pure (.number (if ret < 0 then -1 else intAt res 0))

def xpnUnlink (path : Path) : ClientM Result := returnStatus (dSendReceive (pathPetition opRm zeros path) path)

def xpnRename (path newpath : Path) : ClientM Result :=
  returnStatus (dSendReceiveRn (petition renameOpcode (setPath (setPath zeros 0 oldUrl path) 4 newUrl newpath)) path newpath)

def statSize : Nat := 144

/-- What `sb` gets is the front of the record. -/
def xpnStat (path : Path) : ClientM Result := do
  match ← dSendReceive (pathPetition opGetattr zeros path) path with
  | none => pure (.stored (-1) [])
  | some res =>
    if intAt res 0 ≠ 0 then pure (.stored (intAt res 0) [])
    else do
      let (ret, stReq) ← readNBytes attrReqSize
      if ret < 0 then pure (.stored (-1) [])
      else if charAt stReq attrReqStatus ≠ 0 then pure (.stored (-1) [])
      else pure (.stored (intAt res 0) (stReq.take statSize))

def xpnMkdir (path : Path) (perm : Int) : ClientM Result :=
  returnStatus (dSendReceive (pathPetition opMkdir (store zeros 4 4 perm) path) path)

def xpnRmdir (path : Path) : ClientM Result := returnStatus (dSendReceive (pathPetition opRmdir zeros path) path)

def slash : Byte := 47

/-- `path_aux`: the path with a slash at its end. -/
def withSlash (path : Path) : Path := if path.getLast? = some slash then path else path ++ [slash]

def xpnOpendir (path : Path) : ClientM Result := do
  match ← dSendReceive (pathPetition opOpendir zeros path) path with
  | none => pure (.dirp none)
  | some res =>
    if intAt res 0 ≠ 0 then pure (.dirp none)
    else do
      let (ret, stReq) ← readNBytes opendirReqSize
      if ret < 0 then pure (.dirp none)
      else if intAt stReq opendirReqStatus ≠ 0 then pure (.dirp none)
      else if sizeAt stReq opendirReqDir = 0 then pure (.dirp none)
      else pure (.dirp (some ⟨toCInt (longAt stReq 0), withSlash path, sizeAt stReq opendirReqDir⟩))

/-- Where `dir` is in `op_readdir` and in `op_closedir`. -/
def dirHandle : Nat := 8

/-- `dirp` stands for its `remote_handler`. -/
def xpnReaddir (dirp : Nat) : ClientM Result := do
  match ← dSendReceive (petition opReaddir.opcode (store zeros dirHandle 8 dirp)) [] with
  | none => pure (.dirent none)
  | some res =>
    if intAt res 0 ≠ 0 then pure (.dirent none)
    else do
      let (ret2, stReq) ← readNBytes readdirReqSize
      if ret2 < 0 then pure (.dirent none)
      else if intAt stReq readdirReqStatus ≠ 0 then pure (.dirent none)
      else pure (.dirent (some (pread stReq readdirReqRet direntSize)))

def xpnClosedir (dirp : Nat) : ClientM Result :=
  returnStatus (dSendReceive (petition opClosedir.opcode (store zeros dirHandle 8 dirp)) [])

/-! ### The server -/

/-- What `PROXY_XPN_...` stands for, and `malloc`. -/
inductive Call where
  | open (path : Path) (flags : Int) (mode : Nat)
  | creat (path : Path) (mode : Nat)
  | close (fd : Int)
  | malloc (size : Nat)
  | read (fd : Int) (size : Nat)
  | write (fd : Int) (data : List Byte)
  | unlink (path : Path)
  | rename (old new : Path)
  | stat (path : Path)
  | mkdir (path : Path) (mode : Nat)
  | opendir (path : Path)
  | closedir (dir : Nat)
  | readdir (dir : Nat)
  | rmdir (path : Path)
  deriving DecidableEq

/-- What a call gives; for a stream, `data` has the descriptor that it points to. -/
abbrev Answer := XpnServer.Answer

abbrev ServerM := Dialogue Byte Call Answer

def ask (request : Call) : ServerM Answer := .call request pure

/-- The string in `full_path`. A negative length has no defined result, nor has one that does
not fit. -/
def readFullpath (pathLen : Int) (pathSrc : List Byte) : ServerM Path :=
  if pathLen ≤ xpnPathMax then pure ((pathSrc.take pathLen.toNat).takeWhile (· ≠ 0))
  else do
    let (r, tail) ← readNBytes (pathLen - xpnPathMax)
    pure (if r < 0 then [] else (pathSrc.take xpnPathMax ++ tail).takeWhile (· ≠ 0))

def memberFullpath (member : PathMember) (u : List Byte) : ServerM Path :=
  readFullpath (intAt u member.pathLen) (pread u member.path xpnPathMax)

def sendStatus (ret errno : Int) : ServerM Unit := do
  let _ ← writeNBytes (field 4 ret ++ field 4 errno) statusSize

/-- Most petitions: the result of a call is the status. -/
def answerCall (request : Call) : ServerM Unit := do
  let answer ← ask request
  sendStatus answer.ret answer.errno

/-- `res.server_errno` before it is set. -/
def statusMemory (stack : Nat → Byte) : Int := intAt (contents stack statusSize) 4

def petitionRead (stack : Nat → Byte) (u : List Byte) : ServerM Unit := do
  let size := sizeAt u rwSize
  let buf ← ask (.malloc size)
  if buf.ret = 0 then sendStatus (-1) (statusMemory stack)
  else do
    let answer ← ask (.read (intAt u rwFd) size)
    sendStatus answer.ret answer.errno
    if 0 < toCInt answer.ret then do
      let _ ← writeNBytes (overwrite (List.replicate size 0) 0 (answer.data.take size)) (toCInt answer.ret).toNat

def petitionWrite (stack : Nat → Byte) (u : List Byte) : ServerM Unit := do
  let size := sizeAt u rwSize
  let buf2 ← ask (.malloc size)
  if buf2.ret = 0 then sendStatus (-1) (statusMemory stack)
  else do
    sendStatus 0 (statusMemory stack)
    let (ret, data) ← readNBytes size
    if 0 < toCInt ret then answerCall (.write (intAt u rwFd) (data.take (toCInt ret).toNat))
    else sendStatus ret buf2.errno

def petitionRename (u : List Byte) : ServerM Unit := do
  let old ← readFullpath (intAt u 0) (pread u oldUrl xpnPathMax)
  let new ← readFullpath (intAt u 4) (pread u newUrl xpnPathMax)
  answerCall (.rename old new)

def petitionGetattr (u : List Byte) : ServerM Unit := do
  let path ← memberFullpath opGetattr u
  let answer ← ask (.stat path)
  sendStatus answer.ret answer.errno
  if toCInt answer.ret = 0 then do
    let reqAttr := overwrite (List.replicate attrReqSize 0) 0 (answer.data.take statSize)
    let reqAttr := XpnServer.setStatus reqAttr attrReqStatusReq 0 answer.errno
    let _ ← writeNBytes (store reqAttr attrReqStatus 1 answer.ret) attrReqSize

/-- `res.ret` is still 0 when the call fails, and the null pointer is followed: the server is
gone, which is `false`. -/
def petitionOpendir (u : List Byte) : ServerM Bool := do
  let path ← memberFullpath opOpendir u
  let answer ← ask (.opendir path)
  sendStatus 0 answer.errno
  if answer.ret = 0 then pure false
  else do
    let fd := intAt answer.data 0
    let _ ← writeNBytes (field 8 fd ++ (field 8 answer.ret ++ (field 4 0 ++ field 4 answer.errno))) opendirReqSize
    pure true

def petitionReaddir (stack : Nat → Byte) (u : List Byte) : ServerM Unit := do
  let answer ← ask (.readdir (sizeAt u dirHandle))
  if answer.ret = 0 then sendStatus (-1) answer.errno
  else do
    sendStatus 0 answer.errno
    let retEntry := store (contents stack readdirReqSize) 0 4 1
    let retEntry := XpnServer.setStatus retEntry readdirReqStatus 0 answer.errno
    let _ ← writeNBytes (overwrite retEntry readdirReqRet (answer.data.take direntSize)) readdirReqSize

/-- A branch that lets the server live. -/
def lives (branch : ServerM Unit) : ServerM Bool := do
  branch
  pure true

def petitionSwitch (stack : Nat → Byte) (u : List Byte) : Int → ServerM Bool
  | 0 => lives do
    let path ← memberFullpath opOpen u
    answerCall (.open path (intAt u 0) (wordAt u 4))
  | 1 => lives do
    let path ← memberFullpath opCreat u
    answerCall (.creat path (wordAt u 4))
  | 2 => lives (petitionRead stack u)
  | 3 => lives (petitionWrite stack u)
  | 4 => lives (answerCall (.close (intAt u 0)))
  | 5 => lives do
    let path ← memberFullpath opRm u
    answerCall (.unlink path)
  | 7 => lives (petitionRename u)
  | 8 => lives (petitionGetattr u)
  | 20 => lives do
    let path ← memberFullpath opMkdir u
    answerCall (.mkdir path (wordAt u 4))
  | 21 => lives do
    let path ← memberFullpath opRmdir u
    answerCall (.rmdir path)
  | 23 => petitionOpendir u
  | 24 => lives (petitionReaddir stack u)
  | 25 => lives (answerCall (.closedir (sizeAt u dirHandle)))
  | _ => pure true

/-- What `handle_petition` returns; `none` when the server is gone. -/
def handlePetition (stack : Nat → Byte) : ServerM (Option Int) := do
  let (ret, pr) ← readNBytes petitionSize
  if ret < 0 then pure (some (-1))
  else do
    let alive ← petitionSwitch stack (pr.drop 8) (intAt pr 0)
    pure (if alive then some 0 else none)

/-! ### The functions with their arguments -/

/-- The buffer of a write is the memory it starts in. -/
inductive ProxyOp where
  | open (path : NfiXpnServer.CPath) (flags : Int32) (mode : UInt32)
  | creat (path : NfiXpnServer.CPath) (perm : UInt32)
  | close (fd : Int32)
  | read (fd : Int32) (size : UInt64)
  | write (fd : Int32) (buffer : Nat → Byte) (size : UInt64)
  | unlink (path : NfiXpnServer.CPath)
  | rename (path newpath : NfiXpnServer.CPath)
  | stat (path : NfiXpnServer.CPath)
  | mkdir (path : NfiXpnServer.CPath) (perm : UInt32)
  | rmdir (path : NfiXpnServer.CPath)
  | opendir (path : NfiXpnServer.CPath)
  | readdir (dirp : UInt64)
  | closedir (dirp : UInt64)

def ProxyOp.run : ProxyOp → ClientM Result
  | .open path flags mode => xpnOpen path.text flags.toInt mode.toNat
  | .creat path perm => xpnCreat path.text perm.toNat
  | .close fd => xpnClose fd.toInt
  | .read fd size => xpnRead fd.toInt size.toNat
  | .write fd buffer size => xpnWrite fd.toInt (contents buffer size.toNat) size.toNat
  | .unlink path => xpnUnlink path.text
  | .rename path newpath => xpnRename path.text newpath.text
  | .stat path => xpnStat path.text
  | .mkdir path perm => xpnMkdir path.text perm.toNat
  | .rmdir path => xpnRmdir path.text
  | .opendir path => xpnOpendir path.text
  | .readdir dirp => xpnReaddir dirp.toNat
  | .closedir dirp => xpnClosedir dirp.toNat

end Xpn.XpnProxy
