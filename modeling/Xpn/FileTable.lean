import Xpn.ReadWrite

/-! The table of open descriptors and the six calls that change it. Descriptors live
at addresses of a heap; `malloc` may return any address that is not in use. A call
that touches a freed descriptor has no defined result. -/

namespace Xpn

/-- XPN_MAX_FILE -/
def xpnMaxFile : Nat := 1024

def pathMax : Nat := 4096

def enoent : Int := 2

def einval : Int := 22

/-- What the calls here use of `struct xpn_filedesc`; its file handles and metadata
are released with it. -/
structure FileDesc where
  id : Nat
  links : Int

structure FileTable where
  slots : Nat → Option Nat
  heap : Nat → Option FileDesc
  errno : Int

namespace FileTable

def empty : FileTable := ⟨fun _ => none, fun _ => none, 0⟩

def fail (table : FileTable) (errno : Int) : Int × FileTable := (-1, { table with errno })

/-- The search for a slot stops at the last one, whether or not it is free. -/
def searchSlot (table : FileTable) : Nat → Nat → Nat
  | 0, i => i
  | fuel + 1, i => if (table.slots i).isSome then searchSlot table fuel (i + 1) else i

def freeSlot (table : FileTable) : Nat := table.searchSlot (xpnMaxFile - 1) 0

/-- `XpnSearchSlotFile`; the address is what `malloc` returns, `none` for NULL. -/
def xpnSearchSlotFile (table : FileTable) (address : Option Nat) : Int × FileTable :=
  let i := table.freeSlot
  match address with
  | none => (-1, { table with slots := Function.update table.slots i none })
  | some a => (i, { table with
      slots := Function.update table.slots i (some a)
      heap := Function.update table.heap a (some ⟨i, 1⟩) })

/-- The outcome of `xpn_internal_open` up to the search for a slot is `opens`. The path
is given by its length, `none` for NULL. -/
def xpnSimpleOpen (table : FileTable) (path : Option Nat) (opens : Bool) (address : Option Nat) : Int × FileTable :=
  match path with
  | none => table.fail einval
  | some length =>
    if pathMax < length then table.fail einval
    else if opens then table.xpnSearchSlotFile address
    else (-1, table)

/-- A directory stream is named by its descriptor; `-1` stands for NULL. `slashed` says
that the path ends in a slash and `stream` that the stream could be allocated. -/
def xpnSimpleOpendir (table : FileTable) (path : Option Nat) (slashed opens : Bool) (address : Option Nat)
    (stream : Bool) : Int × FileTable :=
  match path with
  | none => table.fail einval
  | some length =>
    if length = 0 ∨ pathMax < length then table.fail einval
    else
      let (res, table) := table.xpnSimpleOpen (some (if slashed then length else length + 1)) opens address
      (if res < 0 ∨ !stream then -1 else res, table)

/-- `table[slot] = table[fd]; table[fd]->links++` -/
def share (table : FileTable) (address slot : Nat) : Option FileTable :=
  (table.heap address).map fun desc => { table with
    slots := Function.update table.slots slot (some address)
    heap := Function.update table.heap address (some { desc with links := desc.links + 1 }) }

def InRange (fd : Int) : Prop := 0 ≤ fd ∧ fd ≤ (xpnMaxFile : Int) - 1

instance (fd : Int) : Decidable (InRange fd) := inferInstanceAs (Decidable (_ ∧ _))

def xpnSimpleDup (table : FileTable) (fd : Int) : Option (Int × FileTable) :=
  if InRange fd then
    match table.slots fd.toNat with
    | none => some (-1, table)
    | some address => (table.share address table.freeSlot).map fun after => (table.freeSlot, after)
  else some (-1, table)

def xpnSimpleDup2 (table : FileTable) (fd fd2 : Int) : Option (Int × FileTable) :=
  if InRange fd ∧ InRange fd2 then
    match table.slots fd.toNat, table.slots fd2.toNat with
    | some address, none => (table.share address fd2.toNat).map fun after => (0, after)
    | _, _ => some (-1, table)
  else some (-1, table)

/-- Give up one link. Only the last one frees the descriptor and clears the slot. -/
def release (table : FileTable) (fd : Int) (outOfRange unused : Int) : Option (Int × FileTable) :=
  if InRange fd then
    match table.slots fd.toNat with
    | none => some (table.fail unused)
    | some address => (table.heap address).map fun desc =>
        if desc.links - 1 = 0 then
          (0, { table with
            slots := Function.update table.slots fd.toNat none
            heap := Function.update table.heap address none })
        else (0, { table with heap := Function.update table.heap address (some { desc with links := desc.links - 1 }) })
  else some (table.fail outOfRange)

def xpnSimpleClose (table : FileTable) (fd : Int) : Option (Int × FileTable) := table.release fd ebadf ebadf

def xpnSimpleClosedir (table : FileTable) (fd : Int) : Option (Int × FileTable) := table.release fd einval enoent

/-! ### Tearing the table down -/

/-- What is released of one descriptor: of a handle also what `priv_fh` points to. -/
inductive TableObject where
  | privFh (address j : Nat)
  | handle (address j : Nat)
  | handles (address : Nat)
  | dataVfh (address : Nat)
  | mdata (address : Nat)
  | desc (address : Nat)
  deriving DecidableEq

/-- The objects of a descriptor with these handles, in the order of the loop: `none` for
NULL, and whether `priv_fh` is set. Every open sets `data_vfh`. -/
def objects (nfih : Nat → List (Option Bool)) (address : Nat) : List TableObject :=
  ((nfih address).zipIdx.flatMap fun
    | (none, _) => []
    | (some priv, j) => if priv then [.privFh address j, .handle address j] else [.handle address j]) ++
    [.handles address, .dataVfh address, .mdata address, .desc address]

/-- The loop over the slots from `i` on, with what is released so far; reading a descriptor
that was released has no defined result. -/
def destroyLoop (nfih : Nat → List (Option Bool)) : Nat → Nat → FileTable → List TableObject → Option (FileTable × List TableObject)
  | 0, _, table, released => some (table, released)
  | fuel + 1, i, table, released =>
    match table.slots i with
    | none => destroyLoop nfih fuel (i + 1) table released
    | some address =>
      if (table.heap address).isSome then
        destroyLoop nfih fuel (i + 1)
          { table with slots := Function.update table.slots i none, heap := Function.update table.heap address none }
          (released ++ objects nfih address)
      else none

def xpnDestroyFileTable (table : FileTable) (nfih : Nat → List (Option Bool)) : Option (FileTable × List TableObject) :=
  destroyLoop nfih xpnMaxFile 0 table []

end FileTable

/-- A call with what its environment answers. -/
inductive FileCall where
  | open (path : Option Nat) (opens : Bool) (address : Option Nat)
  | opendir (path : Option Nat) (slashed opens : Bool) (address : Option Nat) (stream : Bool)
  | dup (fd : Int)
  | dup2 (fd fd2 : Int)
  | close (fd : Int)
  | closedir (fd : Int)

namespace FileCall

/-- An address in use is never returned by `malloc`. -/
def Allocates (table : FileTable) : FileCall → Prop
  | .open _ _ (some address) => (table.heap address).isNone
  | .opendir _ _ _ (some address) _ => (table.heap address).isNone
  | _ => True

def perform (table : FileTable) : FileCall → Option (Int × FileTable)
  | .open path opens address => some (table.xpnSimpleOpen path opens address)
  | .opendir path slashed opens address stream => some (table.xpnSimpleOpendir path slashed opens address stream)
  | .dup fd => table.xpnSimpleDup fd
  | .dup2 fd fd2 => table.xpnSimpleDup2 fd fd2
  | .close fd => table.xpnSimpleClose fd
  | .closedir fd => table.xpnSimpleClosedir fd

end FileCall

end Xpn
