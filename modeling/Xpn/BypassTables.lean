import Xpn.FileTable
import Mathlib.Logic.Function.Basic

/-! The descriptors of the bypass: a table that grows, from virtual descriptors to those of
the library, and the calls that make and give up descriptors. The library is its table of
open files. What goes to the functions of the system is not followed further, and neither
is a number past the table. -/

namespace Xpn.BypassTables

def plusXpn : Nat := 1000

def maxFds : Nat := 10000

inductive FdType where
  | free
  | sys
  | xpn
  deriving DecidableEq

structure GenericFd where
  type : FdType
  realFd : Int
  deriving DecidableEq

def unusedFd : GenericFd := ⟨.free, -1⟩

/-- `fdstable` with its size and `fdstable_first_free`. -/
structure FdsTable where
  size : Nat
  entries : Nat → GenericFd
  firstFree : Nat

namespace FdsTable
variable (table : FdsTable)

def fdstableRealloc : FdsTable :=
  let size := if table.size = 0 then maxFds else table.size * 2
  { table with size, entries := fun i => if table.size ≤ i ∧ i < size then unusedFd else table.entries i }

def fdstableInit : FdsTable := fdstableRealloc ⟨0, fun _ => unusedFd, 0⟩

def fdstableGet (fd : Int) : Option GenericFd :=
  if (plusXpn : Int) ≤ fd then
    let i := (fd - plusXpn).toNat
    if i < table.size then some (table.entries i) else none
  else some ⟨.sys, fd⟩

def searchFree : Nat → Nat → Option Nat
  | 0, _ => none
  | fuel + 1, i => if (table.entries i).type = .free then some i else searchFree fuel (i + 1)

/-- After the table has grown the hint stays where it was. -/
def fdstablePut (fd : GenericFd) : Int × FdsTable :=
  match table.searchFree (table.size - table.firstFree) table.firstFree with
  | some i => ((i : Int) + plusXpn, { table with entries := Function.update table.entries i fd, firstFree := i + 1 })
  | none =>
    let grown := table.fdstableRealloc
    if (grown.entries table.size).type = .free then
      ((table.size : Int) + plusXpn, { grown with entries := Function.update grown.entries table.size fd })
    else (-1, grown)

def fdstableRemove (fd : Int) : FdsTable :=
  if fd < (plusXpn : Int) then table
  else
    let i := (fd - plusXpn).toNat
    { table with
      entries := Function.update table.entries i unusedFd
      firstFree := if i < table.firstFree then i else table.firstFree }

end FdsTable

structure BypassState where
  fds : FdsTable
  files : FileTable

/-- The result of a call that the library has answered, or that the system was called. -/
inductive Outcome where
  | library (ret : Int)
  | system

namespace BypassState
variable (state : BypassState)

def initial : BypassState := ⟨FdsTable.fdstableInit, FileTable.empty⟩

def dup (fd : Int) : Option (Outcome × BypassState) := do
  let virtualFd ← state.fds.fdstableGet fd
  if virtualFd.type = .xpn then
    let (ret, files) ← state.files.xpnSimpleDup virtualFd.realFd
    some (.library ret, { state with files })
  else some (.system, state)

def dup2 (fd fd2 : Int) : Option (Outcome × BypassState) := do
  let virtualFd ← state.fds.fdstableGet fd
  let virtualFd2 ← state.fds.fdstableGet fd2
  if virtualFd.type = .xpn then
    let (ret, files) ← state.files.xpnSimpleDup2 virtualFd.realFd virtualFd2.realFd
    some (.library ret, { state with files })
  else some (.system, state)

def addXpnFileToFdstable (fd : Int) : Option (Int × BypassState) :=
  if fd < 0 then some (fd, state)
  else
    let (ret, fds) := state.fds.fdstablePut ⟨.xpn, fd⟩
    -- The trick for python3: dup2 of the library's number, whatever it means to the bypass.
    if ret < 0 then some (ret, { state with fds })
    else do
      let (_, after) ← BypassState.dup2 { state with fds } fd ret
      some (ret, after)

def «open» (path : Option Nat) (opens : Bool) (address : Option Nat) : Option (Outcome × BypassState) := do
  let (fd, files) := state.files.xpnSimpleOpen path opens address
  let (ret, after) ← addXpnFileToFdstable { state with files } fd
  some (.library ret, after)

def close (fd : Int) : Option (Outcome × BypassState) := do
  let virtualFd ← state.fds.fdstableGet fd
  if virtualFd.type = .xpn then
    let (ret, files) ← state.files.xpnSimpleClose virtualFd.realFd
    -- Removing closes the number once more, which then means nothing to the library.
    some (.library ret, ⟨state.fds.fdstableRemove fd, files⟩)
  else some (.system, state)

end BypassState

/-- A call, with what the library's environment answers to an open. -/
inductive BypassCall where
  | open (path : Option Nat) (opens : Bool) (address : Option Nat)
  | dup (fd : Int)
  | dup2 (fd fd2 : Int)
  | close (fd : Int)

def BypassCall.perform (state : BypassState) : BypassCall → Option (Outcome × BypassState)
  | .open path opens address => state.open path opens address
  | .dup fd => state.dup fd
  | .dup2 fd fd2 => state.dup2 fd fd2
  | .close fd => state.close fd

/-- An address in use is never returned by `malloc`. -/
def BypassCall.Allocates (state : BypassState) : BypassCall → Prop
  | .open _ _ (some address) => (state.files.heap address).isNone
  | _ => True

end Xpn.BypassTables
