import Mathlib.Tactic.Lift
import Xpn.Proofs.Layout

/-! `xpnCalculateBlockInvert` undoes `xpnCalculateBlock` and the other way round, also when
the copies of a block do not fit on the servers and some share one. -/

namespace Xpn.Proofs.BlockInverse
open Lib.Striping

/-- Both remainders of C together give the remainder that is not negative. -/
theorem tmod_add_tmod {n : Int} (positive : 0 < n) (a : Int) : (a.tmod n + n).tmod n = a % n := by
  have above : 0 ≤ a.tmod n + n := by
    have := Int.lt_tmod_of_pos a positive
    omega
  rw [Int.tmod_eq_emod_of_nonneg above, Int.add_emod_right, Int.tmod_eq_emod]
  split
  next => simp
  next =>
    rw [Int.natAbs_of_nonneg positive.le, Int.sub_emod_right, Int.emod_emod]

theorem column_eq {n : Nat} (positive : 0 < n) (first s : Nat) : (((s : Int) - first).tmod n + n).tmod n = (column n first s : Nat) := by
  have bound : first % n < n := Nat.mod_lt _ positive
  have split := Nat.div_add_mod first n
  rw [tmod_add_tmod (by omega), column, Int.natCast_emod, Nat.cast_add, Nat.cast_sub bound.le]
  have shifted : (s : Int) + (n - (first % n : Nat)) = s - first + n * (1 + (first / n : Nat)) := by
    have cast : (n : Int) * (first / n : Nat) + (first % n : Nat) = first := by exact_mod_cast split
    rw [Int.mul_add, Int.mul_one]
    omega
  rw [shifted, Int.add_mul_emod_self_left]

theorem xpnCalculateBlockInvert_ofNat (bs level : Nat) {n : Nat} (positive : 0 < n) (s localOffset first : Nat) :
    xpnCalculateBlockInvert bs level n s localOffset first =
      ((((localOffset / bs * n + column n first s) / (level + 1) * bs + localOffset % bs : Nat) : Int),
        (((localOffset / bs * n + column n first s) % (level + 1) : Nat) : Int)) := by
  simp only [xpnCalculateBlockInvert, column_eq positive]
  push_cast
  rfl

section
variable {bs level n first : Nat} (bs_pos : 0 < bs) (positive : 0 < n)
include bs_pos

private theorem line_of (line rest : Nat) (inside : rest < bs) : (line * bs + rest) / bs = line := by
  rw [Nat.mul_comm, Nat.mul_add_div bs_pos, Nat.div_eq_of_lt inside, Nat.add_zero]

omit bs_pos in
private theorem rest_of (line rest : Nat) (inside : rest < bs) : (line * bs + rest) % bs = rest := by
  rw [Nat.mul_comm, Nat.mul_add_mod, Nat.mod_eq_of_lt inside]

include positive

/-- The slot found from a place is the one that was stored there. -/
theorem invert_calculate (offset : Nat) {copy : Nat} (inside : copy ≤ level) :
    let place := xpnCalculateBlock bs level n offset copy first
    xpnCalculateBlockInvert bs level n place.2 place.1 first = ((offset : Int), (copy : Int)) := by
  have rest := Nat.mod_lt offset bs_pos
  dsimp only
  rw [xpnCalculateBlock_ofNat]
  dsimp only
  rw [xpnCalculateBlockInvert_ofNat bs level positive, line_of bs_pos _ _ rest, rest_of _ _ rest]
  have row : slot (level + 1) (offset / bs) copy / n * n + column n first (bin n first (slot (level + 1) (offset / bs) copy)) =
      slot (level + 1) (offset / bs) copy := by
    have here := (bin_eq_iff first positive (bin_lt positive _) (slot (level + 1) (offset / bs) copy)).mp rfl
    rw [← here, Nat.mul_comm, Nat.div_add_mod]
  rw [row, slot_div _ (by omega), slot_mod _ (by omega), Nat.mul_comm, Nat.div_add_mod]

/-- The slot stored at a place is found there. -/
theorem calculate_invert {s : Nat} (server : s < n) (localOffset : Nat) :
    let found := xpnCalculateBlockInvert bs level n s localOffset first
    xpnCalculateBlock bs level n found.1 found.2 first = ((localOffset : Int), (s : Int)) := by
  have rest := Nat.mod_lt localOffset bs_pos
  have inside : column n first s < n := Nat.mod_lt _ positive
  dsimp only
  rw [xpnCalculateBlockInvert_ofNat bs level positive]
  dsimp only
  rw [xpnCalculateBlock_ofNat, line_of bs_pos _ _ rest, rest_of _ _ rest]
  have found : slot (level + 1) ((localOffset / bs * n + column n first s) / (level + 1))
      ((localOffset / bs * n + column n first s) % (level + 1)) = localOffset / bs * n + column n first s := by
    rw [slot, Nat.mul_comm, Nat.div_add_mod]
  have same : bin n first (localOffset / bs * n + column n first s) = s := by
    apply (bin_eq_iff first positive server _).mpr
    rw [Nat.mul_comm, Nat.mul_add_mod, Nat.mod_eq_of_lt inside]
  have line : (localOffset / bs * n + column n first s) / n = localOffset / bs := line_of positive _ _ inside
  rw [found, same, line, Nat.mul_comm, Nat.div_add_mod]

end

/-- For all sizes, levels, server counts and first nodes. -/
theorem calculate_inverse {bs level n first : Int} (bs_pos : 0 < bs) (level_nonneg : 0 ≤ level) (positive : 0 < n)
    (first_nonneg : 0 ≤ first) :
    (∀ offset copy, 0 ≤ offset → 0 ≤ copy → copy ≤ level →
      let place := xpnCalculateBlock bs level n offset copy first
      xpnCalculateBlockInvert bs level n place.2 place.1 first = (offset, copy)) ∧
    (∀ s localOffset, 0 ≤ s → s < n → 0 ≤ localOffset →
      let found := xpnCalculateBlockInvert bs level n s localOffset first
      xpnCalculateBlock bs level n found.1 found.2 first = (localOffset, s)) ∧
    (level + 1 ≤ n → ∀ offset copy copy', 0 ≤ offset → 0 ≤ copy → copy ≤ level → 0 ≤ copy' → copy' ≤ level → copy ≠ copy' →
      (xpnCalculateBlock bs level n offset copy first).2 ≠ (xpnCalculateBlock bs level n offset copy' first).2) := by
  lift bs to Nat using bs_pos.le
  lift level to Nat using level_nonneg
  lift n to Nat using positive.le
  lift first to Nat using first_nonneg
  have size : 0 < bs := by omega
  have servers : 0 < n := by omega
  refine ⟨?_, ?_, ?_⟩
  · intro offset copy offset_nonneg copy_nonneg inside
    lift offset to Nat using offset_nonneg
    lift copy to Nat using copy_nonneg
    exact invert_calculate size servers offset (by omega)
  · intro s localOffset s_nonneg server local_nonneg
    lift s to Nat using s_nonneg
    lift localOffset to Nat using local_nonneg
    exact calculate_invert size servers (by omega) localOffset
  · intro fits offset copy copy' offset_nonneg copy_nonneg inside copy'_nonneg inside' different same
    lift offset to Nat using offset_nonneg
    lift copy to Nat using copy_nonneg
    lift copy' to Nat using copy'_nonneg
    rw [xpnCalculateBlock_ofNat, xpnCalculateBlock_ofNat] at same
    dsimp only at same
    have bins : bin n first (slot (level + 1) (offset / bs) copy) = bin n first (slot (level + 1) (offset / bs) copy') := by
      exact_mod_cast same
    exact different (congrArg Nat.cast (copies_apart (by omega) (by omega) (by omega) bins))

/-- Three copies on two servers: two of them share one. -/
theorem calculate_inverse_shared :
    let place := xpnCalculateBlock 4 2 2 9 2 1
    xpnCalculateBlockInvert 4 2 2 place.2 place.1 1 = (9, 2) :=
  (@calculate_inverse 4 2 2 1 (by decide) (by decide) (by decide) (by decide)).1 9 2
    (by decide) (by decide) (by decide)

end Xpn.Proofs.BlockInverse
