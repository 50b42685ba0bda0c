import Mathlib.Algebra.GroupWithZero.Nat
import Mathlib.Data.List.Basic

/-! A transfer that is cut into pieces. Each piece is at least one item and at most what is
still asked for; how the pieces fall is up to the surroundings. -/

namespace Xpn.Lib.Fragments

/-- Pieces of these lengths, in this order, bring a request for the first count down to a
request for the second. -/
inductive Moves : Nat → Nat → List Nat → Prop where
  | stop (left : Nat) : Moves left left []
  | piece {asked left moved : Nat} {rest : List Nat} (least : 1 ≤ moved) (most : moved ≤ asked)
      (later : Moves (asked - moved) left rest) : Moves asked left (moved :: rest)

theorem Moves.sum {asked left : Nat} {moved : List Nat} (pieces : Moves asked left moved) :
    moved.sum + left = asked := by
  induction pieces with
  | stop left => rw [List.sum_nil, Nat.zero_add]
  | piece _ most _ ih =>
    rw [List.sum_cons]
    omega

theorem Moves.left_le {asked left : Nat} {moved : List Nat} (pieces : Moves asked left moved) : left ≤ asked := by
  have total := pieces.sum
  omega

theorem Moves.nothing {left : Nat} {moved : List Nat} (pieces : Moves 0 left moved) : moved = [] := by
  cases pieces with
  | stop => rfl
  | piece positive most _ => omega

variable {α : Type}

theorem take_piece (buffer : List α) (first rest : Nat) :
    buffer.take first ++ (buffer.drop first).take rest = buffer.take (first + rest) := List.take_add.symm

end Xpn.Lib.Fragments
