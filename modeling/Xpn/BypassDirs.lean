import Xpn.BypassTables

/-! The directories of the bypass: a second table that grows, of the DIRs that the library
has made. A directory has a slot in the table of descriptors, too. Of the library it only
matters which descriptors it hands out and which it is told to close. A call is undefined
where a table is accessed past its size. -/

namespace Xpn.BypassDirs
open BypassTables

def maxDirs : Nat := 10000

/-- `fdsdirtable` with its size and `fdsdirtable_first_free`; a DIR is its address. -/
structure FdsdirTable where
  size : Nat
  entries : Nat → Option Nat
  firstFree : Nat

namespace FdsdirTable
variable (table : FdsdirTable)

def fdsdirtableRealloc : FdsdirTable :=
  let size := if table.size = 0 then maxDirs else table.size * 2
  { table with size, entries := fun i => if table.size ≤ i ∧ i < size then none else table.entries i }

def fdsdirtableInit : FdsdirTable := fdsdirtableRealloc ⟨0, fun _ => none, 0⟩

/-- The first of `fuel` entries from `i` on that is `entry`. -/
def search (entry : Option Nat) : Nat → Nat → Option Nat
  | 0, _ => none
  | fuel + 1, i => if table.entries i = entry then some i else search entry fuel (i + 1)

def fdsdirtableGet (dir : Nat) : Option Nat := table.search (some dir) table.size 0

end FdsdirTable

structure DirTables where
  fds : FdsTable
  dirs : FdsdirTable
  /-- The field `fd` of every DIR. -/
  dirFd : Nat → Int

/-- `fdstable_put` with its trick for python3: `dup2` looks up the number of the library,
whatever that is to the bypass. The library refuses to duplicate onto a descriptor in use. -/
def fdstablePut (fds : FdsTable) (fd : GenericFd) : Option (Int × FdsTable) :=
  let (ret, fds) := fds.fdstablePut fd
  if ret < 0 then some (ret, fds) else (fds.fdstableGet fd.realFd).map fun _ => (ret, fds)

def fdstableRemove (fds : FdsTable) (fd : Int) : Option FdsTable :=
  if fd < plusXpn ∨ (fd - plusXpn).toNat < fds.size then some (fds.fdstableRemove fd) else none

namespace DirTables
variable (state : DirTables)

def initial : DirTables := ⟨FdsTable.fdstableInit, FdsdirTable.fdsdirtableInit, fun _ => -1⟩

/-- The directory takes slot `i`, and a slot of the table of descriptors. -/
def insert (dirs : FdsdirTable) (i dir : Nat) : Option DirTables := do
  let (vfd, fds) ← fdstablePut state.fds ⟨.xpn, state.dirFd dir⟩
  some ⟨fds, { dirs with entries := Function.update dirs.entries i (some dir), firstFree := i + 1 },
    Function.update state.dirFd dir vfd⟩

def fdsdirtablePut (dir : Nat) : Option (Int × DirTables) :=
  match state.dirs.search none (state.dirs.size - state.dirs.firstFree) state.dirs.firstFree with
  | some i => (state.insert state.dirs i dir).map fun after => (0, after)
  | none =>
    -- The size of the other table.
    let oldSize := state.fds.size
    let grown := state.dirs.fdsdirtableRealloc
    if oldSize < grown.size then
      if grown.entries oldSize = none then (state.insert grown oldSize dir).map fun after => (0, after)
      else some (-1, { state with dirs := grown })
    else none

def fdsdirtableRemove (dir : Nat) : Option (Int × DirTables) :=
  match state.dirs.fdsdirtableGet dir with
  | some i => do
    let fds ← fdstableRemove state.fds (state.dirFd dir)
    some (0, ⟨fds, { state.dirs with
        entries := Function.update state.dirs.entries i none
        firstFree := if i < state.dirs.firstFree then i else state.dirs.firstFree },
      Function.update state.dirFd dir (state.dirFd dir - plusXpn)⟩)
  | none => some (-1, state)

end DirTables

/-- A call, with what the library returns to it: `creat` is an `open`, and a directory comes
as a DIR with the descriptor in it. -/
inductive DirCall where
  | open (fd : Int)
  | opendir (opened : Option (Nat × Int))
  | close (fd : Int)
  | closedir (dir : Nat)

/-- What the caller gets, or the descriptor that the library is told to close. -/
inductive Answer where
  | opened (vfd : Int)
  | failed
  | closes (fd : Int)
  | system
  deriving DecidableEq

def DirCall.perform (state : DirTables) : DirCall → Option (Answer × DirTables)
  | .open fd =>
    if fd < 0 then some (.failed, state)
    else (fdstablePut state.fds ⟨.xpn, fd⟩).map fun (ret, fds) => (.opened ret, { state with fds })
  | .opendir none => some (.failed, state)
  | .opendir (some (dir, fd)) =>
    (DirTables.fdsdirtablePut { state with dirFd := Function.update state.dirFd dir fd } dir).map fun (_, after) =>
      (.opened (after.dirFd dir), after)
  | .close fd => do
    let virtualFd ← state.fds.fdstableGet fd
    if virtualFd.type = .xpn then
      let fds ← fdstableRemove state.fds fd
      some (.closes virtualFd.realFd, { state with fds })
    else some (.system, state)
  | .closedir dir =>
    if (state.dirs.fdsdirtableGet dir).isSome then do
      let (_, after) ← state.fdsdirtableRemove dir
      some (.closes (after.dirFd dir), after)
    else some (.system, state)

end Xpn.BypassDirs
