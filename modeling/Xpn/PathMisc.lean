import Mathlib.Algebra.BigOperators.Ring.Finset

/-! Names and where they hash to. A path is the bytes of a C string without its
terminator; `char` is signed, so a byte from 128 on counts as negative. -/

namespace Xpn

abbrev Byte := UInt8

abbrev Path := List Byte

def slash : Byte := 47

def dot : Byte := 46

/-- The value of a 64-bit or unsigned C expression stored into an `int`. -/
def toCInt (value : Int) : Int := value.bmod (2 ^ 32)

/-- `(int)aux_file[i]` with a signed `char`. -/
def charToInt (c : Byte) : Int := if c.toNat < 128 then c.toNat else c.toNat - 256

def dropTrailing (p : Byte → Bool) (path : Path) : Path := (path.reverse.dropWhile p).reverse

/-- POSIX `basename`: the last component, `.` of an empty path and `/` of slashes. -/
def basename (path : Path) : Path :=
  if path.isEmpty then [dot]
  else
    let trimmed := dropTrailing (· == slash) path
    if trimmed.isEmpty then [slash] else (trimmed.reverse.takeWhile (· != slash)).reverse

/-- POSIX `dirname`: what precedes the last component, `.` when there is no slash. -/
def dirname (path : Path) : Path :=
  let trimmed := dropTrailing (· == slash) path
  if trimmed.isEmpty then (if path.isEmpty then [dot] else [slash])
  else
    let parent := dropTrailing (· != slash) trimmed
    if parent.isEmpty then [dot]
    else
      let kept := dropTrailing (· == slash) parent
      if kept.isEmpty then [slash] else kept

/-- The server that a name hashes to: of the file itself when `isfile` is 1, of
its directory otherwise. The sum is an `unsigned`, the remainder a signed one. -/
def hash (path : Path) (nServ isfile : Int) : Int :=
  let auxFile := if isfile = 1 then basename path else basename (dirname path)
  (toCInt (auxFile.map charToInt).sum).tmod nServ

end Xpn
