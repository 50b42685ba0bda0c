import Xpn.FileTable
import Xpn.PathMisc

/-! The loops of `socket.c` and `filesystem.c` that repeat a low-level transfer until all
bytes have moved, and the creation of all directories above a path. A buffer is an object in
memory, so its size fits `ssize_t`; the size that the socket calls take is an `int`. -/

namespace Xpn.Filesystem

/-! ### Writes

The results of the low-level calls come from outside. The bytes from the pointer on stand for
the pointer; what has been handed over is kept. `none` stands for a loop that goes on after
the last of the results. -/

def socketSendLoop (size : Int) : List Int → List Byte → Int → List Byte → Option (Int × List Byte)
  | [], _, _, _ => none
  | r :: results, buffer, l, sent =>
    if r < 0 then some (-1, sent)
    else
      let sent := sent ++ buffer.take r.toNat
      if 0 < l - r ∧ 0 ≤ r then socketSendLoop size results (buffer.drop r.toNat) (l - r) sent
      else some (size, sent)

def socketSend (buffer : List Byte) (size : Int) (results : List Int) : Option (Int × List Byte) :=
  socketSendLoop size results buffer size []

def filesystemWriteLoop (numBytesToWrite : Int) :
    List Int → List Byte → Int → List Byte → Option (Int × List Byte)
  | [], _, writeRemainingBytes, written =>
    if 0 < writeRemainingBytes then none else some (numBytesToWrite, written)
  | writeNumBytes :: results, writeBuffer, writeRemainingBytes, written =>
    if 0 < writeRemainingBytes then
      if writeNumBytes < 0 then some (-1, written)
      else filesystemWriteLoop numBytesToWrite results (writeBuffer.drop writeNumBytes.toNat)
        (writeRemainingBytes - writeNumBytes) (written ++ writeBuffer.take writeNumBytes.toNat)
    else some (numBytesToWrite, written)

def filesystemWrite (buffer : List Byte) (numBytesToWrite : Int) (results : List Int) : Option (Int × List Byte) :=
  filesystemWriteLoop numBytesToWrite results buffer numBytesToWrite []

/-! ### Reads

A low-level read that succeeds gives the bytes that it put at the pointer; `none` among the
results is a failed one. Memory is split at the pointer; the outcome is the return value and
the memory from the start of the buffer on. -/

def socketRecvLoop (size : Int) :
    List (Option (List Byte)) → List Byte → List Byte → Int → Option (Int × List Byte)
  | [], _, _, _ => none
  | none :: _, before, buffer, _ => some (-1, before ++ buffer)
  | some data :: results, before, buffer, l =>
    let r : Int := data.length
    if r = 0 then some (0, before ++ buffer)
    else if 0 < l - r ∧ 0 ≤ r then
      socketRecvLoop size results (before ++ data) (buffer.drop data.length) (l - r)
    else some (size, before ++ data ++ buffer.drop data.length)

def socketRecv (buffer : List Byte) (size : Int) (results : List (Option (List Byte))) : Option (Int × List Byte) :=
  socketRecvLoop size results [] buffer size

def filesystemReadLoop (bufferSize : Int) :
    List (Option (List Byte)) → List Byte → List Byte → Int → Option (Int × List Byte)
  | [], before, readBuffer, readRemainingBytes =>
    if 0 < readRemainingBytes then none else some (bufferSize, before ++ readBuffer)
  | result :: results, before, readBuffer, readRemainingBytes =>
    if 0 < readRemainingBytes then
      match result with
      | none => some (-1, before ++ readBuffer)
      | some data =>
        let readNumBytes : Int := data.length
        if readNumBytes = 0 then some (bufferSize - readRemainingBytes, before ++ readBuffer)
        else filesystemReadLoop bufferSize results (before ++ data) (readBuffer.drop data.length)
          (readRemainingBytes - readNumBytes)
    else some (bufferSize, before ++ readBuffer)

def filesystemRead (buffer : List Byte) (bufferSize : Int) (results : List (Option (List Byte))) :
    Option (Int × List Byte) :=
  filesystemReadLoop bufferSize results [] buffer bufferSize

/-! ### All directories above a path -/

/-- One pass of the loop over the characters: `ant` and what `s` holds. -/
def auxClearDirsStep : Byte × Path → Byte → Byte × Path
  | (ant, s), c =>
    if c = slash then if ant ≠ slash then (slash, s ++ [slash]) else (ant, s)
    else (c, s ++ [c])

/-- `none`: on an empty path nothing has been stored in `s` when it is copied back, and `s`
has no room for `PATH_MAX` characters and a terminator. -/
def auxClearDirs (path : Path) : Option Path :=
  let s := (path.foldl auxClearDirsStep (0, [])).2
  if path = [] ∨ pathMax ≤ s.length then none else some s

/-- The locals of `aux_get_dirs`. -/
structure DirScan where
  ant : Int
  pos : Int
  cont : Int
  deriving DecidableEq, Repr

/-- The scan for slashes, from character `i` on. -/
def dirScan (n : Int) : Path → Int → DirScan → DirScan
  | [], _, scan => scan
  | c :: path, i, scan =>
    if scan.cont < n + 1 then
      if c = slash then
        dirScan n path (i + 1) { ant := if scan.ant < 0 then i else scan.ant, pos := i, cont := scan.cont + 1 }
      else dirScan n path (i + 1) scan
    else scan

/-- What `s` holds in the end; the return value is its length. A copy that does not start at
the first character leaves the terminator there. -/
def auxGetDirs (pathname : Path) (n : Int) : Option Path := do
  -- the copy into `new_path`
  let newPath ← if pathname.length < pathMax then some pathname else none
  let path ← auxClearDirs newPath
  let scan := dirScan n path 0 { ant := -1, pos := -1, cont := -1 }
  if scan.cont < n + 1 then some []
  else if 0 < scan.ant then some []
  else some (path.take scan.pos.toNat)

/-- The directories that are passed to `mkdir`, from index `i` on, in a bounded number of
passes. What `mkdir` answers changes a message only. -/
def mkpathLoop (pathname : Path) : Nat → Nat → Option (List Path)
  | 0, _ => none
  | passes + 1, i => do
    let dir ← auxGetDirs pathname i
    if dir.length ≠ 0 then
      let later ← mkpathLoop pathname passes (i + 1)
      some (dir :: later)
    else some []

def filesystemMkpath (pathname : Path) (passes : Nat) : Option (List Path) := mkpathLoop pathname passes 0

end Xpn.Filesystem
