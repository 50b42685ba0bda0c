import Xpn.Lib.ByteFile

/-! Dynamic arrays: an allocation of pointers that a null pointer ends, and a counter. What
the allocator grants comes from outside, and so does what can be read behind an allocation.
No result means that a call reads or writes where nothing is allocated. -/

namespace Xpn.DArray
open Lib.ByteFile

variable {α : Type}

/-- An entry that has not been written, a null pointer or a pointer to an element. -/
inductive Cell (α : Type) where
  | junk
  | null
  | ptr (value : α)
  deriving DecidableEq, Repr

structure Darray (α : Type) where
  t : Option (List (Cell α))
  n : Int
  deriving DecidableEq, Repr

/-- The return value, what is stored under `delGPtr`, and the array. -/
structure Outcome (α : Type) where
  ret : Int
  delGPtr : Option (Cell α)
  array : Darray α
  deriving DecidableEq, Repr

def realloc (granted : Bool) (block : List (Cell α)) (count : Int) : Option (List (Cell α)) :=
  if granted then
    some (block.take count.toNat ++ List.replicate (count.toNat - block.length) .junk)
  else none

def read (block : List (Cell α)) (i : Int) : Option (Cell α) := if i < 0 then none else block[i.toNat]?

def write (block : List (Cell α)) (i : Int) (cell : Cell α) : Option (List (Cell α)) :=
  if 0 ≤ i ∧ i < block.length then some (block.set i.toNat cell) else none

/-- `beyond` are the entries behind the allocation that can be read. -/
def memmove (block beyond : List (Cell α)) (target source count : Int) : Option (List (Cell α)) :=
  if 0 ≤ target ∧ 0 ≤ source ∧ 0 ≤ count ∧ target + count ≤ block.length
      ∧ source + count ≤ (block ++ beyond).length then
    some (overwrite block target.toNat (((block ++ beyond).drop source.toNat).take count.toNat))
  else none

namespace Darray

def empty : Darray α := { t := none, n := 0 }

def insEndDarray (array : Darray α) (gptr : α) (granted : Bool) : Option (Outcome α) :=
  match array.t with
  | none =>
    if granted then some ⟨1, none, { t := some [.ptr gptr, .null], n := 1 }⟩ else some ⟨-1, none, array⟩
  | some t =>
    let n := array.n + 1
    match realloc granted t (n + 1) with
    | none => some ⟨-1, none, { array with n }⟩
    | some taux => do
      let taux ← write taux n .null
      let taux ← write taux (n - 1) (.ptr gptr)
      some ⟨1, none, { t := some taux, n }⟩

/-- The end of the three deletions. -/
def freeWhenEmpty (array : Darray α) : Darray α := if array.n = 0 then { array with t := none } else array

def delEndDarray (array : Darray α) (granted : Bool) : Option (Outcome α) :=
  match array.t with
  | none => some ⟨-1, none, array⟩
  | some t =>
    if array.n ≠ 0 then do
      let n := array.n - 1
      let delGPtr ← read t n
      let t ← write t n .null
      some ⟨1, some delGPtr, freeWhenEmpty { t := realloc granted t (n + 1), n }⟩
    else some ⟨1, none, array.freeWhenEmpty⟩

def delBeginDarray (array : Darray α) (granted : Bool) : Option (Outcome α) :=
  match array.t with
  | none => some ⟨-1, none, array⟩
  | some t =>
    if array.n ≠ 0 then do
      let n := array.n - 1
      let delGPtr ← read t 0
      let t ← memmove t [] 0 1 n
      let t ← write t n .null
      some ⟨1, some delGPtr, freeWhenEmpty { t := realloc granted t (n + 1), n }⟩
    else some ⟨1, none, array.freeWhenEmpty⟩

/-- The move is one entry longer than what is behind the position. -/
def delNFromDarray (array : Darray α) (orden : Int) (beyond : Option (Cell α)) (granted : Bool) :
    Option (Outcome α) :=
  match array.t with
  | none => some ⟨-1, none, array⟩
  | some t =>
    if array.n < orden then some ⟨-1, none, array⟩
    else if array.n ≠ 0 then do
      let delGPtr ← read t orden
      let t ← memmove t beyond.toList orden (orden + 1) (array.n - orden + 1)
      let n := array.n - 1
      some ⟨1, some delGPtr, freeWhenEmpty { t := realloc granted t (n + 1), n }⟩
    else some ⟨1, none, array.freeWhenEmpty⟩

def changeNFromDarray (array : Darray α) (orden : Int) (nPtr : α) : Option (Outcome α) :=
  match array.t with
  | none => some ⟨-1, none, array⟩
  | some t =>
    if array.n < orden then some ⟨-1, none, array⟩
    else do
      let t ← write t orden (.ptr nPtr)
      some ⟨1, none, { array with t := some t }⟩

end Darray

inductive Call (α : Type) where
  | insEnd (gptr : α) (granted : Bool)
  | delEnd (granted : Bool)
  | delBegin (granted : Bool)
  | delN (orden : Int) (beyond : Option (Cell α)) (granted : Bool)
  | changeN (orden : Int) (nPtr : α)

def Darray.call (array : Darray α) : Call α → Option (Outcome α)
  | .insEnd gptr granted => array.insEndDarray gptr granted
  | .delEnd granted => array.delEndDarray granted
  | .delBegin granted => array.delBeginDarray granted
  | .delN orden beyond granted => array.delNFromDarray orden beyond granted
  | .changeN orden nPtr => array.changeNFromDarray orden nPtr

end Xpn.DArray
