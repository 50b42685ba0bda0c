import Xpn.FileTable
import Xpn.Messages

/-! The position of an open file: the seeks of the library and the calls of the bypass that
are built from them, on a descriptor of the library. Offsets are 64 bits wide and sums wrap
around; the position goes back to the caller through an `int`. -/

namespace Xpn

def seekSet : Int := 0

def seekCur : Int := 1

def seekEnd : Int := 2

/-- The value of an expression as a `size_t`. -/
def toCSize (value : Int) : Nat := (value % 2 ^ 64).toNat

def Client.refuse (c : Client) (errno : Int) : Int × Client := (-1, { c with errno })

/-- The last lines of `xpn_simple_lseek`: `res` is an `int`. -/
def Client.seekTo (c : Client) (position : Int) : Int × Client := (toCInt position, c.seek position.toNat)

/-- `size` is the `st_size` that `xpn_simple_fstat` finds, `none` when it fails. -/
def xpnSimpleLseek (c : Client) (size : Option Int) (offset flag : Int) : Int × Client :=
  if flag = seekSet then
    if offset < 0 then c.refuse einval else c.seekTo offset
  else if flag = seekCur then
    if toCLong (c.fd.offset + offset) < 0 then c.refuse einval else c.seekTo (toCLong (c.fd.offset + offset))
  else if flag = seekEnd then
    match size with
    | none => c.refuse ebadf
    | some size => if toCLong (size + offset) < 0 then c.refuse einval else c.seekTo (toCLong (size + offset))
  else c.refuse einval

def xpnSimpleFseek (c : Client) (size : Option Int) (offset flag : Int) : Int × Client :=
  let (ret, c) := xpnSimpleLseek c size offset flag
  (if ret = -1 then -1 else 0, c)

/-! ### The bypass -/

namespace Bypass

/-- What a transfer at the current position returns, leaves behind and puts into the buffer. -/
abbrev Transfer := Client → Int × Client × List Byte

/-- Seek, transfer, and seek back by what was transferred. -/
def positional (transfer : Transfer) (c : Client) (buffer : List Byte) (offset : Int) : Int × Client × List Byte :=
  let (ret, c) := xpnSimpleLseek c none offset seekSet
  if ret ≠ -1 then
    let (ret, c, buffer) := transfer c
    if ret ≠ -1 then (ret, (xpnSimpleLseek c none (-ret) seekCur).2, buffer) else (ret, c, buffer)
  else (ret, c, buffer)

def xpnRead (buffer : List Byte) (count : Nat) : Transfer := fun c =>
  let read := xpnSimpleRead c buffer count
  (read.ret, read.client, read.buffer)

def xpnWrite (buffer : List Byte) (count : Nat) : Transfer := fun c =>
  let written := xpnSimpleWrite c buffer count
  (written.ret, written.client, buffer)

def pread (c : Client) (buffer : List Byte) (count : Nat) (offset : Int) : Int × Client × List Byte :=
  positional (xpnRead buffer count) c buffer offset

def pwrite (c : Client) (buffer : List Byte) (count : Nat) (offset : Int) : Int × Client × List Byte :=
  positional (xpnWrite buffer count) c buffer offset

def pread64 (c : Client) (buffer : List Byte) (count : Nat) (offset : Int) : Int × Client × List Byte :=
  positional (xpnRead buffer count) c buffer offset

def pwrite64 (c : Client) (buffer : List Byte) (count : Nat) (offset : Int) : Int × Client × List Byte :=
  positional (xpnWrite buffer count) c buffer offset

/-- `int buf_size = size * nmemb`, as the `size_t` that the library gets. -/
def bufSize (size nmemb : Nat) : Nat := toCSize (toCInt (size * nmemb))

/-- `ret / size` with the result of the transfer in a `size_t`; `none` is the division by zero. -/
def items (transfer : Nat → Transfer) (c : Client) (size nmemb : Nat) : Option Nat × Client × List Byte :=
  let (ret, c, buffer) := transfer (bufSize size nmemb) c
  (if size = 0 then none else some (toCSize ret / size), c, buffer)

def fread (c : Client) (buffer : List Byte) (size nmemb : Nat) : Option Nat × Client × List Byte :=
  items (xpnRead buffer) c size nmemb

def fwrite (c : Client) (buffer : List Byte) (size nmemb : Nat) : Option Nat × Client × List Byte :=
  items (xpnWrite buffer) c size nmemb

/-- The result of the seek is the result of the call. -/
def fseek (c : Client) (size : Option Int) (offset whence : Int) : Int × Client :=
  let (ret, c) := xpnSimpleLseek c size offset whence
  (toCInt ret, c)

def ftell (c : Client) : Int × Client := xpnSimpleLseek c none 0 seekCur

def rewind (c : Client) : Client := (xpnSimpleLseek c none 0 seekSet).2

/-- The checks between the seeks look at `ret`, which is -1 there. -/
def feof (c : Client) (size : Option Int) : Int × Client :=
  let here := xpnSimpleLseek c none 0 seekCur
  let last := xpnSimpleLseek here.2 size 0 seekEnd
  (if toCInt here.1 ≠ toCInt last.1 then 0 else 1, last.2)

end Bypass

end Xpn
