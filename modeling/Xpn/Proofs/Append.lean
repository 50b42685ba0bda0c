import Xpn.Append
import Xpn.Proofs.ReadAfterWrite
import Xpn.Proofs.WriteCount

/-! Writes through a descriptor opened with O_APPEND. They start at the front of the file
like those of any other descriptor. -/

namespace Xpn.Proofs.Append
open Lib.ByteFile

variable {g : Layout} {flags : Nat} {c : Client} {reference written : List Byte}

/-- The servers hold this content, and its length is the recorded size. -/
def Stored (g : Layout) (c : Client) (content : List Byte) : Prop :=
  (∀ s, s < g.n → g.Holds s (c.servers s).file content) ∧ c.fd.mdata.fileSize = content.length

/-- What every state of the writes satisfies: `written` lies over the front of the file. -/
private structure Overwritten (g : Layout) (c : Client) (reference written : List Byte) : Prop where
  valid : Valid g 0 c (pwrite reference 0 written)
  offset : c.fd.offset = written.length
  size : c.fd.mdata.fileSize = max reference.length written.length

private theorem all_live (none : failedAmong c.servers g.n ≤ 0) : ∀ s, s < g.n → ¬c.servers.Failed s := by
  intro s bound failed
  have empty := Finset.card_eq_zero.mp (Nat.le_zero.mp none)
  have member := Finset.mem_filter.mpr ⟨Finset.mem_range.mpr bound, failed⟩
  rw [empty] at member
  exact Finset.notMem_empty s member

private theorem length_front (reference written : List Byte) :
    (pwrite reference 0 written).length = max reference.length written.length := by
  rw [pwrite_eq_overwrite written (Nat.zero_le _), overwrite_front, List.length_append, List.length_drop]
  omega

private theorem pwrite_front (written data : List Byte) :
    pwrite (pwrite reference 0 written) written.length data = pwrite reference 0 (written ++ data) := by
  cases written with
  | nil => rw [pwrite_nil, List.length_nil, List.nil_append]
  | cons first rest =>
    have joined : pwrite (pwrite reference 0 (first :: rest)) (0 + (first :: rest).length) data =
        pwrite reference 0 (first :: rest ++ data) := pwrite_append _ _ (List.cons_ne_nil _ _)
    rwa [Nat.zero_add] at joined

private theorem advanceWrite_size (c : Client) (count : Int) :
    (c.advanceWrite count).fd.mdata.fileSize = max c.fd.mdata.fileSize (c.fd.offset + count.toNat : Nat) := by
  unfold Client.advanceWrite
  dsimp only
  split
  next grows => exact (max_eq_right grows.le).symm
  next fits => exact (max_eq_left (not_lt.mp fits)).symm

private theorem Overwritten.write (state : Overwritten g c reference written) (data : List Byte) :
    Overwritten g (xpnSimpleWrite c data data.length).client reference (written ++ data) := by
  have dense : c.fd.offset ≤ (pwrite reference 0 written).length := by
    rw [state.offset, length_front]
    exact le_max_right _ _
  have valid := state.valid.write (Nat.zero_le _) data data.length le_rfl dense
  have all : pread data 0 data.length = data := List.take_length
  rw [all, state.offset, pwrite_front] at valid
  rcases Nat.eq_zero_or_pos data.length with none | some
  · obtain rfl := List.length_eq_zero_iff.mp none
    rw [List.append_nil] at valid ⊢
    exact ⟨valid, state.offset, state.size⟩
  · have usable := state.valid.usable
    have moved := (simpleWrite_whole usable.toOpened usable.writable usable.regular (le_refl data.length)
      (all_live state.valid.failures) some).2
    have start := state.offset
    have size := state.size
    refine ⟨valid, ?_, ?_⟩
    · rw [moved, advanceWrite_offset, List.length_append, Int.toNat_natCast, start]
    · rw [moved, advanceWrite_size, List.length_append, Int.toNat_natCast, start, size]
      omega

private def fileRecord : XpnMetadata := xpnCreateMetadataExtern [slash, 97] 2 2 0

example : fopenFlags ['a'] = some 1089 := by decide

/-- A byte 7 at the front of the file, on the second server. -/
private def oneByte : Servers := fun s =>
  if s = 1 then ⟨pwrite (List.replicate xpnHeaderSize 0) (xpnHeaderSize + 0) [7], 0⟩ else ⟨[], 0⟩

end Xpn.Proofs.Append
