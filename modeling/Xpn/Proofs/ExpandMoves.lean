import Xpn.Proofs.ExpandTool

/-! Whether expanding a file moves a block that is already stored. The tool takes the
whole blocks of the file as its blocks, so a partial last block that would open a
new line is left to the new segment. -/

namespace Xpn.Proofs
open Lib.Striping

namespace Expansion
section
variable {e : Expansion} {size : Nat} {last : Int} {larger : e.n (e.k - 1) < size}

end
end Expansion

namespace Expansion
variable {e : Expansion} {size : Nat} {last : Int} {larger : e.n (e.k - 1) < size}

private theorem rounded {a n : Nat} (positive : 0 < n) : a ≤ (a + n - 1) / n * n ∧ (n ∣ a ↔ (a + n - 1) / n * n = a) := by
  have split := Nat.div_add_mod (a + n - 1) n
  have rest := Nat.mod_lt (a + n - 1) positive
  rw [Nat.mul_comm] at split
  refine ⟨by omega, ?_, fun same => ⟨_, (Nat.mul_comm _ _ ▸ same).symm⟩⟩
  rintro ⟨m, rfl⟩
  rw [Nat.add_sub_assoc positive, Nat.mul_add_div positive, Nat.div_eq_of_lt (by omega), Nat.add_zero, Nat.mul_comm]

end Expansion

end Xpn.Proofs
