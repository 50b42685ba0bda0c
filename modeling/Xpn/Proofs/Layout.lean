import Xpn.Placement
import Xpn.Lib.Striping

/-! The placement of a file that was never expanded or shrunk, over natural
numbers: a copy of byte `p` is in bin `server p r` at `localOffset p r`. -/

namespace Xpn.Proofs
open Lib.Striping

/-- A block size, a server count, a replication level and a first node that
belong together: the copies of a block fit on the servers. -/
structure Layout where
  bs : Nat
  n : Nat
  level : Nat
  first : Nat
  bs_pos : 0 < bs
  fits : level + 1 ≤ n
  first_lt : first < n

namespace Layout
variable (g : Layout)

def slotOf (p r : Nat) : Nat := slot (g.level + 1) (p / g.bs) r

def server (p r : Nat) : Nat := bin g.n g.first (g.slotOf p r)

def localOffset (p r : Nat) : Nat := g.slotOf p r / g.n * g.bs + p % g.bs

/-- Metadata with this layout and no reconfiguration: `data_nserv = [n, 0, ..]`. -/
structure Describes (mdata : XpnMetadata) : Prop where
  blockSize : mdata.blockSize = g.bs
  replicationLevel : mdata.replicationLevel = g.level
  firstNode : mdata.firstNode = g.first
  servers : mdata.nserv 0 = g.n
  plain : mdata.nserv 1 = 0

theorem n_pos : 0 < g.n := Nat.lt_of_lt_of_le (Nat.succ_pos _) g.fits

theorem server_lt (p r : Nat) : g.server p r < g.n := bin_lt g.n_pos _

end Layout

/-- On natural numbers the placement needs no truncation. -/
theorem xpnCalculateBlock_ofNat (bs level n offset replication first : Nat) :
    xpnCalculateBlock bs level n offset replication first =
      (((slot (level + 1) (offset / bs) replication / n * bs + offset % bs : Nat) : Int),
        ((bin n first (slot (level + 1) (offset / bs) replication) : Nat) : Int)) := by
  simp only [xpnCalculateBlock, slot, bin]
  push_cast
  rfl

variable {g : Layout}

theorem Layout.Describes.calculate {mdata : XpnMetadata} (describes : g.Describes mdata) (p r : Nat) :
    xpnCalculateBlockMdata mdata p r = ((g.localOffset p r : Int), (g.server p r : Int)) := by
  rw [xpnCalculateBlockMdata, if_pos describes.plain, describes.blockSize, describes.replicationLevel,
    describes.firstNode, describes.servers]
  exact xpnCalculateBlock_ofNat g.bs g.level g.n p r g.first

namespace Layout

/-- The rest of a block is stored in one run. -/
theorem within_block {p i : Nat} (inside : p % g.bs + i < g.bs) :
    (p + i) / g.bs = p / g.bs ∧ (p + i) % g.bs = p % g.bs + i := by
  have split : p + i = g.bs * (p / g.bs) + (p % g.bs + i) := by
    have := Nat.div_add_mod p g.bs
    omega
  constructor
  · rw [split, Nat.mul_add_div g.bs_pos, Nat.div_eq_of_lt inside, Nat.add_zero]
  · rw [split, Nat.mul_add_mod, Nat.mod_eq_of_lt inside]

theorem server_add {p i : Nat} (inside : p % g.bs + i < g.bs) (r : Nat) : g.server (p + i) r = g.server p r := by
  unfold server slotOf
  rw [(within_block inside).1]

theorem localOffset_add {p i : Nat} (inside : p % g.bs + i < g.bs) (r : Nat) :
    g.localOffset (p + i) r = g.localOffset p r + i := by
  unfold localOffset slotOf
  rw [(within_block inside).1, (within_block inside).2]
  omega

private theorem line_eq {p r : Nat} : g.localOffset p r / g.bs = g.slotOf p r / g.n := by
  unfold localOffset
  rw [Nat.mul_comm, Nat.mul_add_div g.bs_pos, Nat.div_eq_of_lt (Nat.mod_lt _ g.bs_pos), Nat.add_zero]

private theorem rest_eq {p r : Nat} : g.localOffset p r % g.bs = p % g.bs := by
  unfold localOffset
  rw [Nat.mul_comm, Nat.mul_add_mod, Nat.mod_eq_of_lt (Nat.mod_lt _ g.bs_pos)]

/-- Different bytes or copies are never stored in one place. -/
theorem place_injective {p r p' r' : Nat} (copy : r ≤ g.level) (copy' : r' ≤ g.level)
    (servers : g.server p r = g.server p' r') (offsets : g.localOffset p r = g.localOffset p' r') : p = p' ∧ r = r' := by
  have lines : g.slotOf p r / g.n = g.slotOf p' r' / g.n := by rw [← line_eq, ← line_eq, offsets]
  have rests : p % g.bs = p' % g.bs := by
    have left := rest_eq (g := g) (p := p) (r := r)
    rw [offsets, rest_eq] at left
    exact left.symm
  have slots : g.slotOf p r = g.slotOf p' r' := slot_unique servers lines
  obtain ⟨blocks, copies⟩ := slot_injective (Nat.lt_succ_of_le copy) (Nat.lt_succ_of_le copy') slots
  refine ⟨?_, copies⟩
  rw [← Nat.div_add_mod p g.bs, ← Nat.div_add_mod p' g.bs, blocks, rests]

/-- A server stores the bytes it holds in file order. -/
theorem place_ordered {p r p' r' : Nat} (copy : r ≤ g.level) (copy' : r' ≤ g.level)
    (servers : g.server p' r' = g.server p r) (before : g.localOffset p' r' < g.localOffset p r) : p' < p := by
  rcases Nat.lt_or_ge (g.slotOf p' r' / g.n) (g.slotOf p r / g.n) with earlier | later
  · have item := earlier_item g.fits (Nat.lt_succ_of_le copy) (Nat.lt_succ_of_le copy') servers earlier
    exact Nat.lt_of_div_lt_div item
  · have lines : g.slotOf p' r' / g.n = g.slotOf p r / g.n := by
      apply Nat.le_antisymm _ later
      rw [← line_eq, ← line_eq]
      exact Nat.div_le_div_right before.le
    have slots : g.slotOf p' r' = g.slotOf p r := slot_unique servers lines
    obtain ⟨blocks, -⟩ := slot_injective (Nat.lt_succ_of_le copy') (Nat.lt_succ_of_le copy) slots
    have rests : p' % g.bs < p % g.bs := by
      unfold localOffset at before
      rw [slots] at before
      omega
    rw [← Nat.div_add_mod p g.bs, ← Nat.div_add_mod p' g.bs, blocks]
    omega

/-- The copies of one byte are on different servers. -/
theorem copies_apart {p r r' : Nat} (copy : r ≤ g.level) (copy' : r' ≤ g.level)
    (same : g.server p r = g.server p r') : r = r' :=
  Lib.Striping.copies_apart g.fits (Nat.lt_succ_of_le copy) (Nat.lt_succ_of_le copy') same

end Layout

end Xpn.Proofs
