import Xpn.Positions

/-! The calls on a descriptor with the checks that each of them makes of its argument before
it uses the table. `debug` says that a debug or profiler message is printed, which is when its
arguments are evaluated. -/

namespace Xpn

/-- A use of the table that has no defined result. -/
inductive Fault where
  | outOfBounds
  | nullDescriptor
  /-- The descriptor that the slot refers to was released. -/
  | released

/-- The table with the state of each descriptor. -/
structure OpenFiles where
  table : FileTable
  clients : Nat → Client

namespace OpenFiles

abbrev Outcome := Except Fault (Int × OpenFiles)

variable (files : OpenFiles)

/-- `xpn_file_table[fd]` -/
def slot (fd : Int) : Except Fault (Option Nat) :=
  if FileTable.InRange fd then .ok (files.table.slots fd.toNat) else .error .outOfBounds

/-- `xpn_file_table[fd]->...` -/
def descriptor (fd : Int) : Except Fault Nat := do
  match ← files.slot fd with
  | none => .error .nullDescriptor
  | some address => if (files.table.heap address).isSome then .ok address else .error .released

/-- The loop of `XpnShowFileTable`, which prints the path of every descriptor before the first
unused slot. -/
def showLoop : Nat → Nat → Except Fault Unit
  | 0, _ => .ok ()
  | fuel + 1, i => do
    match ← files.slot i with
    | none => .ok ()
    | some _ =>
      let _ ← files.descriptor i
      showLoop fuel (i + 1)

def xpnShowFileTable : Except Fault Unit := files.showLoop xpnMaxFile 0

def fail (errno : Int) : Outcome := .ok (-1, { files with table := { files.table with errno } })

def update (address : Nat) (client : Client) : OpenFiles :=
  { files with clients := Function.update files.clients address client }

def efault : Int := 14

/-- `buffer` is `none` for NULL. -/
def xpnRead (debug : Bool) (fd : Int) (buffer : Option (List Byte)) (size : Nat) : Outcome :=
  let refuse : Outcome := do
    files.xpnShowFileTable
    files.fail ebadf
  -- The last message of a call that ends here prints the offset of the descriptor.
  let ended (outcome : Outcome) : Outcome := do
    if debug then let _ ← files.descriptor fd
    outcome
  if fd < 0 ∨ (xpnMaxFile : Int) < fd then refuse
  else do
    match ← files.slot fd with
    | none => refuse
    | some _ =>
      match buffer with
      | none => ended (files.fail efault)
      | some buffer =>
        if size = 0 then ended (.ok (0, files))
        else
          let address ← files.descriptor fd
          let read := xpnSimpleRead (files.clients address) buffer size
          .ok (read.ret, files.update address read.client)

def xpnWrite (debug : Bool) (fd : Int) (buffer : Option (List Byte)) (size : Nat) : Outcome :=
  let ended (outcome : Outcome) : Outcome := do
    if debug then let _ ← files.descriptor fd
    outcome
  if fd < 0 ∨ (xpnMaxFile : Int) < fd then do
    files.xpnShowFileTable
    files.fail ebadf
  else do
    match ← files.slot fd, buffer with
    | some _, some buffer =>
      if size = 0 then ended (.ok (0, files))
      else
        let address ← files.descriptor fd
        let written := xpnSimpleWrite (files.clients address) buffer size
        .ok (written.ret, files.update address written.client)
    | _, _ => ended (files.fail efault)

/-- `XpnGetAtribFd`, which finds the size of the file of a descriptor or fails. -/
def xpnGetAtribFd (attributes : Nat → Option Int) (fd : Int) : Except Fault (Option Int) := do
  let address ← files.descriptor fd
  .ok (attributes address)

def xpnFstat (attributes : Nat → Option Int) (fd : Int) : Except Fault (Option Int × OpenFiles) :=
  if fd < 0 then .ok (none, { files with table := { files.table with errno := ebadf } })
  else do
    let size ← files.xpnGetAtribFd attributes fd
    .ok (size, files)

/-- The seek on the descriptor, once its arguments are not refused. -/
def seek (fd offset flag : Int) (size : Option Int) : Outcome := do
  let address ← files.descriptor fd
  let (ret, client) := xpnSimpleLseek (files.clients address) size offset flag
  .ok (ret, files.update address client)

def xpnLseek (attributes : Nat → Option Int) (fd offset flag : Int) : Outcome :=
  if flag = seekSet then
    if offset < 0 then files.fail einval else files.seek fd offset flag none
  else if flag = seekCur then files.seek fd offset flag none
  else if flag = seekEnd then do
    match ← files.xpnFstat attributes fd with
    | (none, files) => files.fail ebadf
    | (some size, files) => files.seek fd offset flag (some size)
  else files.fail einval

/-- The result of a call on the table, which is undefined on a released descriptor. -/
def onTable : Option (Int × FileTable) → Outcome
  | none => .error .released
  | some (ret, table) => .ok (ret, { files with table })

def xpnClose (fd : Int) : Outcome :=
  if fd < 0 ∨ (xpnMaxFile : Int) - 1 < fd then files.fail ebadf
  else do
    match ← files.slot fd with
    | none => files.fail ebadf
    | some _ => files.onTable (files.table.xpnSimpleClose fd)

def xpnDup (fd : Int) : Outcome :=
  if (xpnMaxFile : Int) - 1 < fd ∨ fd < 0 then .ok (-1, files)
  else do
    match ← files.slot fd with
    | none => .ok (-1, files)
    | some address => files.onTable ((files.table.share address files.table.freeSlot).map fun after => (files.table.freeSlot, after))

def xpnDup2 (fd fd2 : Int) : Outcome :=
  if ((xpnMaxFile : Int) - 1 < fd ∨ fd < 0) ∨ ((xpnMaxFile : Int) - 1 < fd2 ∨ fd2 < 0) then .ok (-1, files)
  else do
    match ← files.slot fd with
    | none => .ok (-1, files)
    | some address =>
      match ← files.slot fd2 with
      | some _ => .ok (-1, files)
      | none => files.onTable ((files.table.share address fd2.toNat).map fun after => (0, after))

end OpenFiles

end Xpn
