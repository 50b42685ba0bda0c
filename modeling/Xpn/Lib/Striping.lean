import Mathlib.Data.Nat.ModEq

/-! Slots dealt round-robin to `n` bins, starting at bin `first`. Slot `q` lies
in bin `(q + first) % n` at row `q / n`. An item with `copies` copies takes
`copies` consecutive slots. Nothing here knows what a slot holds. -/

namespace Xpn.Lib.Striping

def bin (n first q : Nat) : Nat := (q + first) % n

def slot (copies item copy : Nat) : Nat := item * copies + copy

/-- The column of a row that a bin occupies. -/
def column (n first s : Nat) : Nat := (s + (n - first % n)) % n

/-- How many of the slots below `q` lie in bin `s`. -/
def filled (n first s : Nat) : Nat → Nat
  | 0 => 0
  | q + 1 => filled n first s q + if bin n first q = s then 1 else 0

variable {n first : Nat}

theorem bin_lt (positive : 0 < n) (q : Nat) : bin n first q < n := Nat.mod_lt _ positive

theorem mod_eq_of_bin_eq {q p : Nat} (same : bin n first q = bin n first p) : q % n = p % n :=
  Nat.ModEq.add_right_cancel' first same

/-- A bin and a row determine the slot. -/
theorem slot_unique {q p : Nat} (bins : bin n first q = bin n first p) (rows : q / n = p / n) : q = p := by
  rw [← Nat.div_add_mod q n, ← Nat.div_add_mod p n, rows, mod_eq_of_bin_eq bins]

theorem bin_eq_iff (first : Nat) (positive : 0 < n) {s : Nat} (inside : s < n) (q : Nat) :
    bin n first q = s ↔ q % n = column n first s := by
  have bound : first % n < n := Nat.mod_lt _ positive
  have shifted : bin n first (column n first s) = s := by
    unfold bin column
    rw [Nat.mod_add_mod]
    have whole : s + (n - first % n) + first = s + n * (1 + first / n) := by
      have split := Nat.div_add_mod first n
      rw [Nat.mul_add, Nat.mul_one]
      omega
    rw [whole, Nat.add_mul_mod_self_left, Nat.mod_eq_of_lt inside]
  have column_lt : column n first s < n := Nat.mod_lt _ positive
  constructor
  · intro same
    have columns := mod_eq_of_bin_eq (same.trans shifted.symm)
    rwa [Nat.mod_eq_of_lt column_lt] at columns
  · intro same
    rw [← shifted]
    unfold bin
    rw [← Nat.mod_add_mod, same]

/-- Among the last `n` slots there is one of every bin. -/
theorem slot_of_bin {s q : Nat} (inside : s < n) (line : n ≤ q) :
    ∃ k, k < n ∧ k ≤ q ∧ bin n first (q - k) = s := by
  have positive : 0 < n := by omega
  have column_lt : column n first s < n := Nat.mod_lt _ positive
  have rest := Nat.mod_lt q positive
  rcases Nat.lt_or_ge (q % n) (column n first s) with before | here
  · refine ⟨q % n + n - column n first s, by omega, by omega, (bin_eq_iff first positive inside _).mpr ?_⟩
    have rows : 1 ≤ q / n := (Nat.one_le_div_iff positive).mpr line
    have whole : q - (q % n + n - column n first s) = n * (q / n - 1) + column n first s := by
      have split := Nat.div_add_mod q n
      rw [Nat.mul_sub, Nat.mul_one]
      have fits := Nat.mul_le_mul_left n rows
      omega
    rw [whole, Nat.mul_add_mod, Nat.mod_eq_of_lt column_lt]
  · have least := Nat.mod_le q n
    refine ⟨q % n - column n first s, by omega, by omega, (bin_eq_iff first positive inside _).mpr ?_⟩
    have whole : q - (q % n - column n first s) = n * (q / n) + column n first s := by
      have split := Nat.div_add_mod q n
      omega
    rw [whole, Nat.mul_add_mod, Nat.mod_eq_of_lt column_lt]

theorem slot_div (item : Nat) {copies copy : Nat} (inside : copy < copies) : slot copies item copy / copies = item := by
  unfold slot
  rw [Nat.mul_comm, Nat.mul_add_div (by omega), Nat.div_eq_of_lt inside, Nat.add_zero]

theorem slot_mod (item : Nat) {copies copy : Nat} (inside : copy < copies) : slot copies item copy % copies = copy := by
  unfold slot
  rw [Nat.mul_comm, Nat.mul_add_mod, Nat.mod_eq_of_lt inside]

theorem slot_injective {copies item copy item' copy' : Nat} (inside : copy < copies) (inside' : copy' < copies)
    (same : slot copies item copy = slot copies item' copy') : item = item' ∧ copy = copy' := by
  constructor
  · rw [← slot_div item inside, same, slot_div item' inside']
  · rw [← slot_mod item inside, same, slot_mod item' inside']

/-- The copies of one item lie in different bins when they fit in one row. -/
theorem copies_apart {copies item copy copy' : Nat} (fit : copies ≤ n) (inside : copy < copies)
    (inside' : copy' < copies) (same : bin n first (slot copies item copy) = bin n first (slot copies item copy')) :
    copy = copy' := by
  have close := mod_eq_of_bin_eq same
  have modeq : Nat.ModEq n (item * copies + copy) (item * copies + copy') := close
  have small := Nat.ModEq.add_left_cancel' (item * copies) modeq
  unfold Nat.ModEq at small
  rwa [Nat.mod_eq_of_lt (by omega), Nat.mod_eq_of_lt (by omega)] at small

/-- An earlier slot of the same bin lies in an earlier row, so it belongs to an
earlier item. -/
theorem earlier_item {copies item copy item' copy' : Nat} (fit : copies ≤ n) (inside : copy < copies)
    (inside' : copy' < copies) (bins : bin n first (slot copies item' copy') = bin n first (slot copies item copy))
    (rows : slot copies item' copy' / n < slot copies item copy / n) : item' < item := by
  have below : slot copies item' copy' < slot copies item copy := by
    by_contra above
    exact absurd (Nat.div_le_div_right (c := n) (Nat.le_of_not_lt above)) (by omega)
  by_contra later
  have same : item' = item := by
    have upper : item' ≤ item := by
      rw [← slot_div item' inside', ← slot_div item inside]
      exact Nat.div_le_div_right below.le
    omega
  subst same
  have := copies_apart fit inside' inside bins
  subst this
  exact absurd rows (Nat.lt_irrefl _)

private theorem mod_succ_cases (positive : 0 < n) (q : Nat) :
    (q % n + 1 < n ∧ (q + 1) % n = q % n + 1 ∧ (q + 1) / n = q / n) ∨
      (q % n + 1 = n ∧ (q + 1) % n = 0 ∧ (q + 1) / n = q / n + 1) := by
  have split := Nat.div_add_mod q n
  have bound := Nat.mod_lt q positive
  rcases Nat.lt_or_ge (q % n + 1) n with small | large
  · left
    have next : q + 1 = n * (q / n) + (q % n + 1) := by omega
    refine ⟨small, ?_, ?_⟩
    · rw [next, Nat.mul_add_mod, Nat.mod_eq_of_lt small]
    · rw [next, Nat.mul_add_div positive, Nat.div_eq_of_lt small, Nat.add_zero]
  · right
    have next : q + 1 = n * (q / n + 1) := by rw [Nat.mul_add]; omega
    refine ⟨by omega, ?_, ?_⟩
    · rw [next, Nat.mul_mod_right]
    · rw [next, Nat.mul_div_cancel_left _ positive]

theorem filled_eq (positive : 0 < n) {s : Nat} (inside : s < n) (q : Nat) :
    filled n first s q = q / n + if column n first s < q % n then 1 else 0 := by
  have column_lt : column n first s < n := Nat.mod_lt _ positive
  induction q with
  | zero => simp [filled]
  | succ q ih =>
    have member := bin_eq_iff first positive inside q
    rw [filled, ih]
    obtain ⟨small, rest, rows⟩ | ⟨last, rest, rows⟩ := mod_succ_cases positive q
    · rw [rest, rows]
      by_cases here : q % n = column n first s
      · rw [if_pos (member.mpr here), if_neg (by omega), if_pos (by omega)]
      · rw [if_neg (fun same => here (member.mp same))]
        by_cases before : column n first s < q % n
        · rw [if_pos before, if_pos (by omega)]
        · rw [if_neg before, if_neg (by omega)]
    · rw [rest, rows, if_neg (Nat.not_lt_zero _)]
      by_cases here : q % n = column n first s
      · rw [if_pos (member.mpr here), if_neg (by omega)]
      · rw [if_neg (fun same => here (member.mp same)), if_pos (by omega)]

/-- The slots below `q` in its own bin fill exactly the rows above `q`. -/
theorem filled_bin (positive : 0 < n) (q : Nat) : filled n first (bin n first q) q = q / n := by
  rw [filled_eq positive (bin_lt positive q), if_neg, Nat.add_zero]
  rw [(bin_eq_iff first positive (bin_lt positive q) q).mp rfl]
  exact Nat.lt_irrefl _

theorem filled_skip {s q : Nat} : ∀ k, (∀ j, j < k → bin n first (q + j) ≠ s) → filled n first s (q + k) = filled n first s q
  | 0, _ => rfl
  | k + 1, absent => by
    rw [← Nat.add_assoc, filled, if_neg (absent k (by omega)), Nat.add_zero]
    exact filled_skip k fun j inside => absent j (by omega)

/-- A bin that holds no copy of an item is as full after it as before. -/
theorem filled_absent {copies item s : Nat} (absent : ∀ copy, copy < copies → bin n first (slot copies item copy) ≠ s) :
    filled n first s (slot copies (item + 1) 0) = filled n first s (slot copies item 0) := by
  have next : slot copies (item + 1) 0 = slot copies item 0 + copies := by unfold slot; rw [Nat.add_mul]; omega
  rw [next]
  exact filled_skip copies absent

/-- The copy an item has in a bin takes the first free row of the bin, and is
the only one there. -/
theorem filled_present (first item : Nat) {copies copy : Nat} (positive : 0 < n) (fit : copies ≤ n) (inside : copy < copies) :
    let s := bin n first (slot copies item copy)
    slot copies item copy / n = filled n first s (slot copies item 0) ∧
      filled n first s (slot copies (item + 1) 0) = filled n first s (slot copies item 0) + 1 := by
  intro s
  have others : ∀ other, other < copies → other ≠ copy → bin n first (slot copies item other) ≠ s :=
    fun other bound different same => different (copies_apart fit bound inside same)
  have before : filled n first s (slot copies item copy) = filled n first s (slot copies item 0) :=
    filled_skip copy fun j bound => others j (by omega) (by omega)
  have here : filled n first s (slot copies item copy + 1) = filled n first s (slot copies item copy) + 1 := by
    rw [filled, if_pos rfl]
  have next : slot copies (item + 1) 0 = slot copies item copy + 1 + (copies - (copy + 1)) := by
    unfold slot
    rw [Nat.add_mul]
    omega
  have after : filled n first s (slot copies (item + 1) 0) = filled n first s (slot copies item copy + 1) := by
    rw [next]
    refine filled_skip _ fun j bound => ?_
    have shifted : slot copies item copy + 1 + j = slot copies item (copy + 1 + j) := by unfold slot; omega
    rw [shifted]
    exact others _ (by omega) (by omega)
  refine ⟨?_, by omega⟩
  rw [← before]
  exact (filled_bin positive _).symm

end Xpn.Lib.Striping
