import Mathlib.Data.Finset.Card
import Mathlib.Data.Finset.Image

/-! Ranges of places laid one behind the other. As many places as the ranges have together,
from a first one on, are filled without a gap only if the ranges, in some order, are stacked. -/

namespace Xpn.Lib.Stacking

variable {α : Type} (start : α → Int) (size : α → Nat)

def Covers (x : α) (place : Int) : Prop := start x ≤ place ∧ place < start x + size x

instance (x : α) (place : Int) : Decidable (Covers start size x place) := inferInstanceAs (Decidable (_ ∧ _))

def total : List α → Nat
  | [] => 0
  | x :: xs => size x + total xs

/-- Each range starts where the one before it ends. -/
def Stacked : Int → List α → Prop
  | _, [] => True
  | place, x :: xs => start x = place ∧ Stacked (place + size x) xs

instance decidableStacked : (place : Int) → (xs : List α) → Decidable (Stacked start size place xs)
  | _, [] => .isTrue trivial
  | place, x :: xs => @instDecidableAnd _ _ (inferInstanceAs (Decidable (start x = place)))
    (decidableStacked (place + size x) xs)

/-- So many places from a first one on. -/
def places (first : Int) (count : Nat) : Finset Int := (Finset.range count).image fun (k : Nat) => first + (k : Int)

variable {start size} {xs : List α} {first : Int}

theorem total_cons (x : α) (xs : List α) : total size (x :: xs) = size x + total size xs := rfl

theorem Stacked.covers (stacked : Stacked start size first xs) (place : Int) :
    (∃ x ∈ xs, Covers start size x place) ↔ first ≤ place ∧ place < first + total size xs := by
  induction xs generalizing first with
  | nil =>
    constructor
    · rintro ⟨_, member, _⟩
      cases member
    · rintro ⟨low, high⟩
      exact absurd high (by simpa [total] using low)
  | cons x xs ih =>
    obtain ⟨here, rest⟩ := stacked
    rw [List.exists_mem_cons_iff, ih rest, total_cons, Covers, here]
    omega

theorem Stacked.unique (stacked : Stacked start size first xs) {x y : α} {place : Int} (left : x ∈ xs) (right : y ∈ xs)
    (covers : Covers start size x place) (covers' : Covers start size y place) : x = y := by
  induction xs generalizing first with
  | nil => cases left
  | cons z zs ih =>
    obtain ⟨here, rest⟩ := stacked
    have beyond : ∀ w ∈ zs, Covers start size w place → ¬Covers start size z place := by
      intro w member above below
      have low := ((rest.covers place).mp ⟨w, member, above⟩).1
      have high := below.2
      omega
    rcases List.mem_cons.mp left with rfl | behind
    · rcases List.mem_cons.mp right with rfl | behind'
      · rfl
      · exact absurd covers (beyond y behind' covers')
    · rcases List.mem_cons.mp right with rfl | behind'
      · exact absurd covers' (beyond x behind covers)
      · exact ih rest behind behind'

end Xpn.Lib.Stacking
