import Mathlib.Data.List.Range
import Mathlib.Data.Nat.ModEq
import Mathlib.Logic.Function.Basic

/-! A first-in first-out queue in the cells of a ring. The queue starts at the cell
`front` and has `count` items; the cells outside it hold what was there before. -/

namespace Xpn.Lib.RingBuffer

variable {α : Type} {capacity front count : Nat}

/-- The queued items in order, read off the cells. -/
def contents (capacity : Nat) (cells : Nat → α) (front count : Nat) : List α :=
  (List.range count).map fun i => cells ((front + i) % capacity)

@[simp] theorem length_contents (cells : Nat → α) : (contents capacity cells front count).length = count := by
  simp [contents]

@[simp] theorem contents_zero (cells : Nat → α) : contents capacity cells front 0 = [] := rfl

/-- Different positions of a queue that fits are different cells. -/
theorem cell_injective {i j : Nat} (left : i < capacity) (right : j < capacity)
    (same : (front + i) % capacity = (front + j) % capacity) : i = j := by
  have close := Nat.ModEq.add_left_cancel' front (show Nat.ModEq capacity (front + i) (front + j) from same)
  unfold Nat.ModEq at close
  rwa [Nat.mod_eq_of_lt left, Nat.mod_eq_of_lt right] at close

theorem contents_push (cells : Nat → α) (item : α) (room : count < capacity) :
    contents capacity (Function.update cells ((front + count) % capacity) item) front (count + 1) =
      contents capacity cells front count ++ [item] := by
  simp only [contents, List.range_succ, List.map_append, List.map_cons, List.map_nil, Function.update_self]
  congr 1
  apply List.map_congr_left
  intro i member
  have below : i < count := List.mem_range.mp member
  rw [Function.update_of_ne]
  intro same
  have := cell_injective (by omega) room same
  omega

theorem contents_pop (cells : Nat → α) :
    contents capacity cells front (count + 1) =
      cells (front % capacity) :: contents capacity cells ((front + 1) % capacity) count := by
  simp only [contents, List.range_succ_eq_map, List.map_cons, List.map_map, Nat.add_zero]
  congr 1
  apply List.map_congr_left
  intro i _
  simp only [Function.comp_apply, Nat.succ_eq_add_one]
  rw [Nat.mod_add_mod]
  congr 2
  omega

end Xpn.Lib.RingBuffer
