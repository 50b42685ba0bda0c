import Xpn.ReadWrite
import Xpn.Proofs.Layout

/-! The invariant that ties a server's local file to the logical file: every
copy the server hosts is where the placement puts it. A byte past the end of the
logical file is also past the end of the local file. -/

namespace Xpn.Proofs
open Lib.ByteFile

/-- An open file with this layout. -/
structure Opened (g : Layout) (fd : XpnFiledesc) : Prop where
  servers : fd.part.dataNserv = g.n
  level : fd.part.replicationLevel = g.level
  blockSize : fd.blockSize = g.bs
  describes : g.Describes fd.mdata

def Layout.Holds (g : Layout) (s : Nat) (file reference : List Byte) : Prop :=
  ∀ p r, r ≤ g.level → g.server p r = s → file[xpnHeaderSize + g.localOffset p r]? = reference[p]?

variable {g : Layout} {s p : Nat} {file reference data : List Byte}

theorem Layout.Holds.empty (headerOnly : file.length ≤ xpnHeaderSize) : g.Holds s file [] := by
  intro p r _ _
  rw [List.getElem?_eq_none (by omega), List.getElem?_nil]

private theorem pwrite_outside {p' : Nat} (dense : p ≤ reference.length) (some : data ≠ [])
    (outside : ∀ k, k < data.length → p' ≠ p + k) : (pwrite reference p data)[p']? = reference[p']? := by
  rw [getElem?_pwrite p' some (by omega)]
  split
  · rfl
  · rw [if_neg]
    intro below
    exact outside (p' - p) (by omega) (by omega)

theorem Layout.Holds.write (holds : g.Holds s file reference) (dense : p ≤ reference.length) (some : data ≠ [])
    (piece : p % g.bs + data.length ≤ g.bs) {r : Nat} (copy : r ≤ g.level) (hosted : g.server p r = s) :
    g.Holds s (pwrite file (xpnHeaderSize + g.localOffset p r) data) (pwrite reference p data) := by
  intro p' r' copy' hosted'
  have written : xpnHeaderSize + g.localOffset p' r' < xpnHeaderSize + g.localOffset p r →
      xpnHeaderSize + g.localOffset p' r' < file.length := by
    intro before
    have earlier := place_ordered copy copy' (hosted'.trans hosted.symm) (by omega : g.localOffset p' r' < _)
    have stored := holds p' r' copy' hosted'
    rw [List.getElem?_eq_getElem (by omega : p' < reference.length)] at stored
    exact (List.getElem?_eq_some_iff.mp stored).1
  by_cases inside : ∃ k, k < data.length ∧ p' = p + k
  · obtain ⟨k, bound, rfl⟩ := inside
    have same : r = r' := by
      apply copies_apart (p := p + k) copy copy'
      rw [server_add (by omega), hosted, hosted']
    subst same
    have step := localOffset_add (by omega : p % g.bs + k < g.bs) r
    rw [getElem?_pwrite _ some written, getElem?_pwrite (p + k) some (by omega), step, if_neg (by omega),
      if_pos (by omega), if_neg (by omega), if_pos (by omega)]
    congr 1
    omega
  · have apart : ¬(g.localOffset p r ≤ g.localOffset p' r' ∧ g.localOffset p' r' < g.localOffset p r + data.length) := by
      rintro ⟨above, below⟩
      obtain ⟨k, distance⟩ := Nat.exists_eq_add_of_le above
      have within : p % g.bs + k < g.bs := by omega
      have found := place_injective copy' copy (hosted'.trans (hosted.symm.trans (server_add within r).symm))
        (distance.trans (localOffset_add within r).symm)
      exact inside ⟨k, by omega, found.1⟩
    rw [pwrite_outside dense some (fun k bound same => inside ⟨k, bound, same⟩), ← holds p' r' copy' hosted',
      getElem?_pwrite _ some written]
    split
    · rfl
    · rw [if_neg (by omega)]

theorem Layout.Holds.skip (holds : g.Holds s file reference) (dense : p ≤ reference.length) (some : data ≠ [])
    (piece : p % g.bs + data.length ≤ g.bs) (elsewhere : ∀ r, r ≤ g.level → g.server p r ≠ s) :
    g.Holds s file (pwrite reference p data) := by
  intro p' r' copy' hosted'
  rw [pwrite_outside dense some, holds p' r' copy' hosted']
  rintro k bound rfl
  exact elsewhere r' copy' (by rw [← hosted', server_add (by omega)])

theorem Layout.Holds.read (holds : g.Holds s file reference) {size r : Nat} (piece : p % g.bs + size ≤ g.bs)
    (copy : r ≤ g.level) (hosted : g.server p r = s) :
    pread file (xpnHeaderSize + g.localOffset p r) size = pread reference p size := by
  apply pread_congr
  intro i bound
  rw [Nat.add_assoc, ← localOffset_add (by omega)]
  exact holds (p + i) r copy ((server_add (by omega) r).trans hosted)

end Xpn.Proofs
