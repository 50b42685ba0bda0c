import Mathlib.Algebra.BigOperators.Ring.Finset

/-! Tables of optional references and how many entries refer to one target. -/

namespace Xpn.Lib.References

variable {α : Type} [DecidableEq α] {n i : Nat} {slots : Nat → Option α} {target : α}

def references (n : Nat) (slots : Nat → Option α) (target : α) : Nat :=
  {i ∈ Finset.range n | slots i = some target}.card

private theorem references_eq_sum (n : Nat) (slots : Nat → Option α) (target : α) :
    references n slots target = ∑ i ∈ Finset.range n, if slots i = some target then 1 else 0 :=
  Finset.card_filter _ _

theorem references_update (slots : Nat → Option α) (target : α) (inside : i < n) (value : Option α) :
    references n (Function.update slots i value) target + (if slots i = some target then 1 else 0) =
      references n slots target + if value = some target then 1 else 0 := by
  have member : i ∈ Finset.range n := Finset.mem_range.mpr inside
  have others : ∑ j ∈ (Finset.range n).erase i, (if Function.update slots i value j = some target then 1 else 0) =
      ∑ j ∈ (Finset.range n).erase i, if slots j = some target then 1 else 0 := by
    apply Finset.sum_congr rfl
    intro j different
    rw [Function.update_of_ne (Finset.ne_of_mem_erase different)]
  rw [references_eq_sum, references_eq_sum, ← Finset.add_sum_erase _ _ member, others, Function.update_self,
    ← Finset.add_sum_erase _ (fun j => if slots j = some target then 1 else 0) member]
  omega

theorem references_eq_zero (absent : ∀ i, i < n → slots i ≠ some target) : references n slots target = 0 := by
  apply Finset.card_eq_zero.mpr
  apply Finset.filter_eq_empty_iff.mpr
  intro i member
  exact absent i (Finset.mem_range.mp member)

theorem references_pos (inside : i < n) (here : slots i = some target) : 0 < references n slots target :=
  Finset.card_pos.mpr ⟨i, Finset.mem_filter.mpr ⟨Finset.mem_range.mpr inside, here⟩⟩

theorem only_reference (single : references n slots target = 1) {j : Nat} (inside : i < n) (inside' : j < n)
    (here : slots i = some target) (there : slots j = some target) : j = i := by
  obtain ⟨only, unique⟩ := Finset.card_eq_one.mp single
  have first : i ∈ ({only} : Finset Nat) := unique ▸ Finset.mem_filter.mpr ⟨Finset.mem_range.mpr inside, here⟩
  have second : j ∈ ({only} : Finset Nat) := unique ▸ Finset.mem_filter.mpr ⟨Finset.mem_range.mpr inside', there⟩
  rw [Finset.mem_singleton.mp first, Finset.mem_singleton.mp second]

end Xpn.Lib.References
