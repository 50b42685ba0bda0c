import Xpn.FileTable
import Xpn.Lib.ByteFile

/-! From the path that a program gives to a partition and a path inside it. The working
directory, the paths and the parts are C strings in buffers that are rewritten in place and
long enough for what goes into them. -/

namespace Xpn.PathResolution
open Lib.ByteFile

/-- The string at the start of a buffer. -/
def cString (buffer : List Byte) : Path := buffer.takeWhile (· ≠ 0)

def byteAt (buffer : List Byte) (i : Nat) : Byte := buffer.getD i 0

/-! ### The server of a name -/

/-- The bytes that `hash` adds up. -/
def hashedName (path : Path) (isfile : Int) : Path := if isfile = 1 then basename path else basename (dirname path)

/-- `hash` with its buffer `file`. At `PATH_MAX - 1` bytes the copy has no terminator and the
name runs on into what the stack held. -/
def hashFile (path : Path) (nServ isfile : Int) : Option Int :=
  if path.length < pathMax - 1 then some (hash path nServ isfile) else none

/-! ### The working directory -/

/-- `xpn_simple_chdir` -/
def xpnSimpleChdir (xpnCwdPath : List Byte) (path : Path) : List Byte := overwrite xpnCwdPath 0 (path ++ [0])

def xpnGetAbsolutePath (xpnCwdPath : List Byte) (path : Path) (pathPart : List Byte) : List Byte :=
  let pathPart := overwrite pathPart 0 [0]
  let pathPart :=
    if byteAt (path ++ [0]) 0 ≠ slash then overwrite pathPart 0 ([slash] ++ cString xpnCwdPath ++ path ++ [0])
    else overwrite pathPart 0 (path ++ [0])
  overwrite pathPart (path.length + 1) [0]

/-! ### The partition -/

/-- The end of the first component, from `i` on. -/
def partEnd (dir : List Byte) : Nat → Nat → Nat
  | 0, i => i
  | fuel + 1, i => if byteAt dir i ≠ 0 ∧ byteAt dir i ≠ slash then partEnd dir fuel (i + 1) else i

/-- The rest moves from `i` to `j`; the buffer and the end of the rest. -/
def shiftDown : Nat → List Byte → Nat → Nat → List Byte × Nat
  | 0, dir, _, j => (dir, j)
  | fuel + 1, dir, i, j =>
    if byteAt dir i ≠ 0 then shiftDown fuel (overwrite dir j [byteAt dir i]) (i + 1) (j + 1) else (dir, j)

/-- The result and the two buffers. -/
def getNamePart (part dir : List Byte) : Int × List Byte × List Byte :=
  if byteAt dir 0 ≠ slash then (-1, part, dir)
  else
    let i := partEnd dir dir.length 1
    let part := overwrite part 0 (pread dir 1 (i - 1))
    let part := overwrite part (i - 1) [0]
    let (dir, j) := shiftDown dir.length dir i 0
    (0, part, overwrite dir j [0])

end Xpn.PathResolution
