import Xpn.Lib.Stacking
import Xpn.Shrink
import Xpn.Proofs.OperationMatrix
import Xpn.Proofs.WriteAgreement

/-! When a grouped row writes what its operations write. The one operation starts where the
first of the row does and takes all their bytes, so the row has to lie there without a gap, its
pieces in order; only copies of one piece, which have the same bytes, may change places. -/

namespace Xpn.Proofs.GroupedRows
open Lib.ByteFile Lib.Stacking

abbrev Goes (op : NfiWorkerIo) (place : Int) : Prop := Lib.Stacking.Covers NfiWorkerIo.offset NfiWorkerIo.size op place

/-- What a row writes at a local offset: the byte of the last operation that goes over it. -/
def written (buffer : List Byte) (row : List NfiWorkerIo) (place : Int) : Option Byte :=
  (row.reverse.find? fun op => decide (Goes op place)).bind fun op => buffer[op.buffer + (place - op.offset).toNat]?

/-- The piece of the request that an operation writes: where it is in the buffer, and its size. -/
def piece (op : NfiWorkerIo) : Nat × Nat := (op.buffer, op.size)

section
variable {buffer : List Byte} {row : List NfiWorkerIo} {op : NfiWorkerIo} {place : Int} {size : Nat}

theorem written_append (buffer : List Byte) (row : List NfiWorkerIo) (op : NfiWorkerIo) (place : Int) :
    written buffer (row ++ [op]) place =
      if Goes op place then buffer[op.buffer + (place - op.offset).toNat]? else written buffer row place := by
  rw [written, List.reverse_append, List.reverse_singleton, List.singleton_append, List.find?_cons]
  by_cases goes : Goes op place <;> simp [goes, written]

/-- Afterwards a byte of a server's local file is what the row writes there, or what it was. -/
theorem execRow_written (behind : ∀ op ∈ row, 0 ≤ op.offset + xpnHeaderSize)
    (inside : ∀ op ∈ row, 0 < op.size ∧ op.buffer + op.size ≤ buffer.length) (file : List Byte)
    (here : 0 ≤ place + xpnHeaderSize) :
    (execRow buffer row file)[(place + xpnHeaderSize).toNat]?.getD 0 =
      (written buffer row place).getD (file[(place + xpnHeaderSize).toNat]?.getD 0) := by
  induction row using List.reverseRecOn with
  | nil => rfl
  | append_singleton row op ih =>
    have last : op ∈ row ++ [op] := List.mem_append_right _ (List.mem_singleton_self op)
    have start := behind op last
    obtain ⟨some, room⟩ := inside op last
    have earlier := ih (fun op member => behind op (List.mem_append_left _ member))
      fun op member => inside op (List.mem_append_left _ member)
    have length : (pread buffer op.buffer op.size).length = op.size := by
      rw [length_pread]
      omega
    have steps : execRow buffer (row ++ [op]) file =
        pwrite (execRow buffer row file) (op.offset + (xpnHeaderSize : Int)).toNat (pread buffer op.buffer op.size) := by
      rw [execRow, List.foldl_append]
      rfl
    rw [steps, getElem?_pwrite_hole _ (List.ne_nil_of_length_pos (by omega)), length, written_append]
    by_cases goes : Goes op place
    · rw [if_pos goes]
      obtain ⟨low, high⟩ := goes
      have index : (place + xpnHeaderSize).toNat - (op.offset + xpnHeaderSize).toNat = (place - op.offset).toNat := by omega
      rw [if_neg (by omega), if_pos (by omega), index, getElem?_pread, if_pos (by omega),
        List.getElem?_eq_getElem (by omega)]
      rfl
    · have apart : ¬(op.offset ≤ place ∧ place < op.offset + op.size) := goes
      rw [if_neg goes, ← earlier]
      split
      next before =>
        split
        next => rfl
        next beyond =>
          rw [List.getElem?_eq_none (not_lt.mp beyond)]
          rfl
      next =>
        rw [if_neg (by omega)]

/-- What the one operation of a grouped row writes. -/
def joined (buffer : List Byte) (row : List NfiWorkerIo) (place : Int) : Option Byte :=
  match row with
  | [] => none
  | op :: ops =>
    if op.offset ≤ place ∧ place < op.offset + rowSize (op :: ops) then
      (gathered buffer (op :: ops))[(place - op.offset).toNat]?
    else none

end

/-! ### Only packed rows -/

/-- A byte that is told apart from the others. -/
def marked (size position : Nat) : List Byte := (List.replicate size 0).set position 1

section
variable {row other : List NfiWorkerIo} {size : Nat}

end

/-! ### The rows of a request -/

/-- Where the copies of the pieces of a request are placed, piece by piece. -/
def placed (fd : XpnFiledesc) (size offset : Nat) : List (Int × NfiWorkerIo) :=
  (requestPieces fd.blockSize size offset size 0).flatMap fun piece =>
    (List.range (fd.part.replicationLevel + 1)).map fun (r : Nat) =>
      let (localOffset, serv) := xpnCalculateBlockMdata fd.mdata (offset + piece.1 : Nat) r
      (serv, ⟨localOffset, piece.2, piece.1⟩)

variable {fd : XpnFiledesc} {servers : Servers} {size offset n : Nat}

end Xpn.Proofs.GroupedRows
