import Xpn.PathMisc

/-! The dynamic table: entries that are never given back, with the free ones threaded into a
list by their indices. Allocations succeed, so the dynamic array below is a list. -/

namespace Xpn.DTable

variable {ι : Type}

structure DtElto (ι : Type) where
  dtInfo : ι
  nextFree : Int
  myself : Int
  deriving DecidableEq, Repr

structure DTable (ι : Type) where
  dtable : List (DtElto ι)
  neltos : Int
  freeList : Int
  deriving DecidableEq, Repr

namespace DTable

/-- `c_DTABLE_T_NULL` -/
def empty : DTable ι := { dtable := [], neltos := 0, freeList := -1 }

/-- The entry that `DARRAY_GetNFromDarray` leads to, for a use of its fields. There is none
in front of the array, and behind the last one stands a null pointer. -/
def getElto (dt : DTable ι) (orden : Int) : Option (DtElto ι) :=
  if orden < 0 then none else dt.dtable[orden.toNat]?

def setElto (dt : DTable ι) (orden : Int) (elto : DtElto ι) : DTable ι :=
  { dt with dtable := dt.dtable.set orden.toNat elto }

/-- A `dt_info` of `none` is a null pointer. -/
def insert (dt : DTable ι) : Option ι → Option (Int × DTable ι)
  | none => some (-1, dt)
  | some info =>
    if dt.freeList = -1 then
      let neltos := dt.neltos + 1
      let elto := { dtInfo := info, nextFree := -1, myself := toCInt (neltos - 1) }
      some (elto.myself, { dt with dtable := dt.dtable ++ [elto], neltos })
    else do
      let elto ← dt.getElto dt.freeList
      let taken := dt.setElto dt.freeList { elto with dtInfo := info, nextFree := -1 }
      some (elto.myself, { taken with freeList := elto.nextFree })

def delete (dt : DTable ι) (fd : Int) : Option (Int × DTable ι) :=
  if dt.neltos ≤ fd then some (-1, dt)
  else do
    let elto ← dt.getElto fd
    let freed := dt.setElto fd { elto with nextFree := toCInt dt.freeList }
    some (1, { freed with freeList := elto.myself })

/-- A null pointer or the information. -/
def get (dt : DTable ι) (fd : Int) : Option (Option ι) :=
  if dt.neltos ≤ fd then some none
  else do
    let elto ← dt.getElto fd
    some (some elto.dtInfo)

end DTable

/-- The calls on a table, and what has been inserted under a descriptor and not deleted. -/
inductive Call (ι : Type) where
  | insert (info : Option ι)
  | get (fd : Int)
  | delete (fd : Int)

structure History (ι : Type) where
  table : DTable ι
  live : Int → Option ι

def History.start : History ι := { table := .empty, live := fun _ => none }

/-- A call that touches no entry has no next state. -/
def History.step (history : History ι) : Call ι → Option (History ι)
  | .insert info => do
    let (fd, table) ← history.table.insert info
    match info with
    | none => some { history with table }
    | some info => some { table, live := Function.update history.live fd (some info) }
  | .get fd => do
    let _ ← history.table.get fd
    some history
  | .delete fd => do
    let (_, table) ← history.table.delete fd
    some { table, live := Function.update history.live fd none }

end Xpn.DTable
