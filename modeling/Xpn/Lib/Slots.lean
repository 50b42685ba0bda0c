import Mathlib.Data.List.Basic

/-! A list of slots, each of which may hold something. Changing one slot changes what
the slots hold by that slot. -/

namespace Xpn.Lib.Slots

variable {σ α : Type} {slots : List σ} {i : Nat} {old : σ}

private theorem filterMap_cons_toList (held : σ → Option α) (slot : σ) (slots : List σ) :
    (slot :: slots).filterMap held = (held slot).toList ++ slots.filterMap held := by
  cases value : held slot with
  | none => simp [value]
  | some item => simp [value]

theorem filterMap_set (held : σ → Option α) (found : slots[i]? = some old) (new : σ) :
    ((slots.set i new).filterMap held ++ (held old).toList).Perm (slots.filterMap held ++ (held new).toList) := by
  induction slots generalizing i with
  | nil => simp at found
  | cons slot slots ih =>
    cases i with
    | zero =>
      obtain rfl : slot = old := by simpa using found
      rw [List.set_cons_zero, filterMap_cons_toList, filterMap_cons_toList, List.append_assoc]
      refine List.perm_append_comm.trans ?_
      rw [List.append_assoc]
      exact (List.perm_append_comm_assoc _ _ _).trans (by rw [List.append_assoc])
    | succ i =>
      rw [List.set_cons_succ, filterMap_cons_toList, filterMap_cons_toList, List.append_assoc, List.append_assoc]
      exact (ih (by simpa using found)).append_left _

end Xpn.Lib.Slots
