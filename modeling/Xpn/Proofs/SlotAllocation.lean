import Xpn.Proofs.FileTable

/-! Which slot `open`, `opendir` and `dup` take. The search ends at the last slot, free or not,
and the test for a full table asks for an index that it never reaches. -/

namespace Xpn.Proofs.SlotAllocation
open Xpn.FileTable FileCall Lib.Runs Proofs.FileTable

variable {table : FileTable}

def HasFree (table : FileTable) : Prop := ∃ i, i < xpnMaxFile ∧ table.slots i = none

/-- A free slot is taken and no other one changes, or none is free and nothing changes. -/
def Allocation (before : FileTable) (outcome : Int × FileTable) : Prop :=
  (∃ i : Nat, i < xpnMaxFile ∧ outcome.1 = i ∧ before.slots i = none ∧ (outcome.2.slots i).isSome ∧
      ∀ j, j ≠ i → outcome.2.slots j = before.slots j) ∨
    (¬HasFree before ∧ outcome.1 = -1 ∧ outcome.2.slots = before.slots)

private theorem allocation_iff {outcome : Int × FileTable} {address : Nat} (index : outcome.1 = table.freeSlot)
    (changed : outcome.2.slots = Function.update table.slots table.freeSlot (some address)) :
    Allocation table outcome ↔ HasFree table := by
  constructor
  · rintro (⟨i, inside, -, free, -, -⟩ | ⟨-, negative, -⟩)
    · exact ⟨i, inside, free⟩
    · exact absurd (index.symm.trans negative) (by omega)
  · rintro ⟨i, inside, free⟩
    obtain ⟨bound, here⟩ := freeSlot_free inside free
    refine Or.inl ⟨table.freeSlot, bound, index, here, ?_, fun j other => ?_⟩
    · rw [changed, Function.update_self]
      rfl
    · rw [changed, Function.update_of_ne other]

private theorem search_iff (address : Option Nat) :
    Allocation table (table.xpnSearchSlotFile address) ↔ HasFree table ∧ address.isSome := by
  cases address with
  | some a =>
    rw [allocation_iff rfl rfl]
    simp
  | none =>
    simp only [Option.isSome_none, Bool.false_eq_true, and_false, iff_false]
    rintro (⟨i, -, index, -⟩ | ⟨full, -, same⟩)
    · exact absurd index (by simp only [xpnSearchSlotFile]; omega)
    · apply full
      refine ⟨table.freeSlot, ?_, ?_⟩
      · have bound := (searchSlot_spec table (xpnMaxFile - 1) 0).2.1
        have size : xpnMaxFile = 1024 := rfl
        rw [freeSlot]
        omega
      · rw [← same]
        exact Function.update_self _ _ _

/-- The two searches, for every table; `none` is an allocation that fails. -/
theorem slot_allocation_iff (table : FileTable) :
    (∀ address, Allocation table (table.xpnSearchSlotFile address) ↔ HasFree table ∧ address.isSome) ∧
    (∀ (fd : Int) outcome, InRange fd → (table.slots fd.toNat).isSome → table.xpnSimpleDup fd = some outcome →
      (Allocation table outcome ↔ HasFree table)) ∧
    ∀ fd : Int, ¬(InRange fd ∧ (table.slots fd.toNat).isSome) → table.xpnSimpleDup fd = some (-1, table) := by
  refine ⟨search_iff, fun fd outcome range used done => ?_, fun fd bad => ?_⟩
  · obtain ⟨address, refers⟩ := Option.isSome_iff_exists.mp used
    rw [xpnSimpleDup, if_pos range, refers] at done
    obtain ⟨after, shared, rfl⟩ := Option.map_eq_some_iff.mp done
    obtain ⟨desc, -, rfl⟩ := Option.map_eq_some_iff.mp shared
    exact allocation_iff rfl rfl
  · rw [xpnSimpleDup]
    split
    next range =>
      have unused : table.slots fd.toNat = none := by
        by_contra used
        exact bad ⟨range, Option.isSome_iff_ne_none.mpr used⟩
      rw [unused]
    next => rfl

/-- The table after `k` files were opened and none closed. -/
def filled : Nat → FileTable
  | 0 => FileTable.empty
  | k + 1 => next (filled k) (.open (some 2) true (some k))

private theorem filled_spec : ∀ k, k ≤ xpnMaxFile → Reachable FileStep (fun _ _ => True) FileTable.empty (filled k) ∧
    (∀ i, (filled k).slots i = if i < k then some i else none) ∧ ∀ address, k ≤ address → (filled k).heap address = none
  | 0, _ => ⟨.start, fun _ => rfl, fun _ _ => rfl⟩
  | k + 1, inside => by
    obtain ⟨run, slots, unused⟩ := filled_spec k (by omega)
    have free : (filled k).slots k = none := by rw [slots, if_neg (lt_irrefl k)]
    have index : (filled k).freeSlot = k := by
      obtain ⟨-, here⟩ := freeSlot_free (by omega) free
      obtain ⟨-, -, full, -⟩ := searchSlot_spec (filled k) (xpnMaxFile - 1) 0
      rw [slots] at here
      have least : ¬k < (filled k).freeSlot := fun early => full k (Nat.zero_le _) early free
      by_contra different
      rw [if_pos (by omega)] at here
      exact absurd here (Option.some_ne_none _)
    have opened : filled (k + 1) = ((filled k).xpnSearchSlotFile (some k)).2 := rfl
    have allocates : Allocates (filled k) (.open (some 2) true (some k)) := by
      show ((filled k).heap k).isNone
      rw [unused k le_rfl]
      rfl
    refine ⟨run.next trivial (next_step _ _ allocates rfl), fun i => ?_, fun address past => ?_⟩
    · rw [opened, xpnSearchSlotFile]
      dsimp only
      rw [index]
      by_cases here : i = k
      · rw [here, Function.update_self, if_pos (Nat.lt_succ_self k)]
      · rw [Function.update_of_ne here, slots]
        split
        · rw [if_pos (by omega)]
        · rw [if_neg (by omega)]
    · rw [opened, xpnSearchSlotFile]
      dsimp only
      rw [Function.update_of_ne (by omega)]
      exact unused address (by omega)

/-- With all slots taken, the next open goes into the last one. -/
theorem full_table_overwritten : ¬∀ table, Reachable FileStep (fun _ _ => True) FileTable.empty table →
    ∀ address, Allocation table (table.xpnSearchSlotFile (some address)) := by
  intro allocates
  obtain ⟨run, slots, -⟩ := filled_spec xpnMaxFile le_rfl
  obtain ⟨i, inside, free⟩ := (search_iff _ |>.mp (allocates _ run xpnMaxFile)).1
  rw [slots, if_pos inside] at free
  exact Option.some_ne_none _ free

end Xpn.Proofs.SlotAllocation
