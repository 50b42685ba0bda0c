import Mathlib.Data.List.TakeWhile
import Mathlib.Data.Nat.Digits.Lemmas
import Xpn.ConfReader
import Xpn.Proofs.Messages

/-! The numbers of a configuration, printed and read back. -/

namespace Xpn.Proofs.ConfNumbers
open Xpn.ConfReader
open Xpn.Proofs.Messages (toCInt_of_small)

theorem digit_toNat {d : Nat} (small : d < 10) : (digit d).toNat = 48 + d := by
  rw [digit, Nat.mod_eq_of_lt small, UInt8.toNat_ofNat']
  omega

theorem isDigit_iff (c : Byte) : isDigit c = true ↔ 48 ≤ c.toNat ∧ c.toNat ≤ 57 := by
  rw [isDigit, decide_eq_true_iff, UInt8.le_iff_toNat_le, UInt8.le_iff_toNat_le]
  rfl

theorem isDigit_digit {d : Nat} (small : d < 10) : isDigit (digit d) = true := by
  rw [isDigit_iff, digit_toNat small]
  omega

theorem decimalNat_digits (n : Nat) : ∀ c ∈ decimalNat n, isDigit c = true := by
  intro c inside
  rw [decimalNat] at inside
  split at inside
  · rw [List.mem_singleton.mp inside]
    decide
  · obtain ⟨d, digit, rfl⟩ := List.mem_map.mp inside
    exact isDigit_digit (Nat.digits_lt_base (by decide) (List.mem_reverse.mp digit))

theorem decimalNat_ne_nil (n : Nat) : decimalNat n ≠ [] := by
  rw [decimalNat]
  split
  next => exact List.cons_ne_nil 48 []
  next nonzero =>
    intro empty
    exact nonzero (Nat.digits_eq_nil_iff_eq_zero.mp (List.reverse_eq_nil_iff.mp (List.map_eq_nil_iff.mp empty)))

/-- Digits, the last one first, make the number they stand for. -/
theorem foldr_digits : ∀ ds : List Nat, (∀ d ∈ ds, d < 10) →
    (ds.map digit).foldr (fun c value => value * 10 + (c.toNat - 48)) 0 = Nat.ofDigits 10 ds
  | [], _ => rfl
  | d :: ds, small => by
    have rest := foldr_digits ds fun d inside => small d (List.mem_cons_of_mem _ inside)
    rw [List.map_cons, List.foldr_cons, rest, digit_toNat (small d List.mem_cons_self), Nat.ofDigits_cons]
    omega

theorem leadingNumber_decimalNat (n : Nat) : leadingNumber (decimalNat n) = n := by
  rw [leadingNumber, List.takeWhile_eq_self_iff.mpr (decimalNat_digits n), decimalNat]
  split
  next zero => exact zero.symm
  next =>
    rw [List.map_reverse, List.foldl_reverse, foldr_digits _ fun d inside => Nat.digits_lt_base (by decide) inside]
    exact Nat.ofDigits_digits 10 n

theorem plain_of_digit {c : Byte} (digit : isDigit c = true) : isSpace c = false ∧ c ≠ 45 ∧ c ≠ 43 := by
  have range := (isDigit_iff c).mp digit
  refine ⟨?_, ?_, ?_⟩
  · rw [isSpace, Bool.or_eq_false_iff, beq_eq_false_iff_ne, decide_eq_false_iff_not, UInt8.le_iff_toNat_le,
      UInt8.le_iff_toNat_le]
    refine ⟨fun blank => ?_, fun control => ?_⟩
    · subst blank
      exact absurd range (by decide)
    · have : c.toNat ≤ 13 := control.2
      omega
  · rintro rfl
    exact absurd range (by decide)
  · rintro rfl
    exact absurd range (by decide)

theorem atoi_decimalNat {n : Nat} (small : n < 2 ^ 31) : atoi (decimalNat n) = n := by
  have value := leadingNumber_decimalNat n
  have digits := decimalNat_digits n
  have nonempty := decimalNat_ne_nil n
  generalize decimalNat n = text at value digits nonempty
  obtain ⟨c, rest, rfl⟩ := List.exists_cons_of_ne_nil nonempty
  obtain ⟨solid, unsigned, plain⟩ := plain_of_digit (digits c List.mem_cons_self)
  rw [atoi, List.dropWhile_cons_of_neg (by simp [solid])]
  simp only [if_neg unsigned, if_neg plain, value]
  rw [min_eq_right (by omega), max_eq_right (by omega)]
  exact toCInt_of_small (by omega) (by omega)

theorem atoi_minus {n : Nat} (small : n ≤ 2 ^ 31) : atoi (45 :: decimalNat n) = -n := by
  rw [atoi, List.dropWhile_cons_of_neg (by decide)]
  simp only [if_true, leadingNumber_decimalNat]
  rw [min_eq_right (by omega), max_eq_right (by omega)]
  exact toCInt_of_small (by omega) (by omega)

/-- An `int` that is printed and read is the same `int`. -/
theorem atoi_decimal {value : Int} (low : -2 ^ 31 ≤ value) (high : value < 2 ^ 31) : atoi (decimal value) = value := by
  rw [decimal]
  split
  next negative =>
    rw [atoi_minus (by omega)]
    omega
  next =>
    rw [atoi_decimalNat (by omega)]
    omega

theorem decimal_natCast (n : Nat) : decimal n = decimalNat n := by
  rw [decimal, if_neg (by omega), Int.natAbs_natCast]

theorem getSizeFactor_of_last {text : List Byte} (digits : ∀ c, text.getLast? = some c → isDigit c = true) :
    getSizeFactor text = atoi text := by
  rw [getSizeFactor]
  split
  next => rfl
  next c before backwards =>
    have last : text.getLast? = some c := by rw [← List.head?_reverse, backwards, List.head?_cons]
    have range := (isDigit_iff c).mp (digits c last)
    have other : ∀ letter : Byte, 57 < letter.toNat → c ≠ letter := by
      rintro letter above rfl
      omega
    have plain : factor c = none := by
      rw [factor, if_neg, if_neg, if_neg]
      all_goals
        rintro (same | same)
        · exact other _ (by decide) same
        · exact other _ (by decide) same
    rw [plain]
    refine if_neg ?_
    rintro (same | same)
    · exact other _ (by decide) same
    · exact other _ (by decide) same

theorem getLast_decimalNat (n : Nat) (c : Byte) (last : (decimalNat n).getLast? = some c) : isDigit c = true :=
  decimalNat_digits n c (List.mem_of_getLast? last)

theorem getSizeFactor_decimalNat {n : Nat} (small : n < 2 ^ 31) : getSizeFactor (decimalNat n) = n :=
  (getSizeFactor_of_last (getLast_decimalNat n)).trans (atoi_decimalNat small)

theorem getSizeFactor_decimal {value : Int} (low : -2 ^ 31 ≤ value) (high : value < 2 ^ 31) :
    getSizeFactor (decimal value) = value := by
  rw [getSizeFactor_of_last, atoi_decimal low high]
  intro c last
  rw [decimal] at last
  split at last
  · obtain ⟨d, digits, some⟩ := List.exists_cons_of_ne_nil (decimalNat_ne_nil value.natAbs)
    rw [some, List.getLast?_cons_cons, ← some] at last
    exact getLast_decimalNat _ c last
  · exact getLast_decimalNat _ c last

def IsInt (value : Int) : Prop := -2 ^ 31 ≤ value ∧ value < 2 ^ 31

theorem toCInt_isInt (value : Int) : IsInt (toCInt value) := by
  have low := Int.le_bmod (show 0 < 2 ^ 32 by decide) (x := value)
  have high := Int.bmod_lt (show 0 < 2 ^ 32 by decide) (x := value)
  exact ⟨by rw [toCInt]; omega, by rw [toCInt]; omega⟩

theorem atoi_isInt (text : List Byte) : IsInt (atoi text) := toCInt_isInt _

theorem getSizeFactor_isInt (text : List Byte) : IsInt (getSizeFactor text) := by
  rw [getSizeFactor]
  split
  · exact atoi_isInt text
  split
  · exact toCInt_isInt _
  split
  · split
    · exact toCInt_isInt _
    · exact ⟨by decide, by decide⟩
  · exact atoi_isInt text

/-- What `setValue` keeps of a section: both numbers are values of type `int`. -/
def IntFields (part : Partition) : Prop := IsInt part.bsize ∧ IsInt part.replicationLevel

theorem new_intFields : IntFields Partition.new := ⟨⟨by decide, by decide⟩, by decide, by decide⟩

theorem setValue_intFields {part after : Partition} {key value : List Byte} (fields : IntFields part)
    (made : setValue part key value = .ok after) :
    IntFields after := by
  rw [setValue] at made
  split at made
  · obtain rfl := Except.ok.inj made
    exact fields
  split at made
  · obtain rfl := Except.ok.inj made
    exact ⟨getSizeFactor_isInt value, fields.2⟩
  split at made
  · obtain rfl := Except.ok.inj made
    exact ⟨fields.1, atoi_isInt value⟩
  split at made
  · obtain rfl := Except.ok.inj made
    exact fields
  · cases made

end Xpn.Proofs.ConfNumbers
