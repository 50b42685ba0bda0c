import Xpn.Positions
import Xpn.Proofs.WritePath

/-! Where the seeks, the positioned transfers and the stream calls leave the position of a
file, and what they report of it. -/

namespace Xpn.Proofs.Positions
open Bypass

section
variable {c : Client} {size : Option Int} {offset flag : Int}

theorem lseek_cur (c : Client) (offset : Int) : xpnSimpleLseek c size offset seekCur =
    if toCLong (c.fd.offset + offset) < 0 then c.refuse einval else c.seekTo (toCLong (c.fd.offset + offset)) := rfl

theorem lseek_end (c : Client) (s offset : Int) : xpnSimpleLseek c (some s) offset seekEnd =
    if toCLong (s + offset) < 0 then c.refuse einval else c.seekTo (toCLong (s + offset)) := rfl

/-- The position that a seek asks for, if it is a valid one. -/
def newPosition (c : Client) (size : Option Int) (offset flag : Int) : Option Int :=
  let target :=
    if flag = seekSet then some offset
    else if flag = seekCur then some (c.fd.offset + offset)
    else if flag = seekEnd then size.map (· + offset)
    else none
  target.filter fun position => 0 ≤ position ∧ position < 2 ^ 63

/-- The arguments and the file fit in 64 bits. -/
structure InOff (c : Client) (size : Option Int) (offset : Int) : Prop where
  position : (c.fd.offset : Int) < 2 ^ 63
  size : ∀ s, size = some s → 0 ≤ s ∧ s < 2 ^ 63
  low : -2 ^ 63 ≤ offset
  high : offset < 2 ^ 63

theorem toCLong_sum {a b : Int} (low : 0 ≤ a) (high : a < 2 ^ 63) (low' : -2 ^ 63 ≤ b) (high' : b < 2 ^ 63) :
    (toCLong (a + b) < 0 ∧ ¬(0 ≤ a + b ∧ a + b < 2 ^ 63)) ∨
      (toCLong (a + b) = a + b ∧ 0 ≤ a + b ∧ a + b < 2 ^ 63) := by
  by_cases fits : a + b < 2 ^ 63
  case pos =>
    have kept : toCLong (a + b) = a + b := Int.bmod_eq_of_le (by omega) (by omega)
    omega
  case neg =>
    have wrapped : toCLong (a + b) = a + b - 2 ^ 64 := by
      rw [toCLong, ← Int.sub_bmod_right]
      exact Int.bmod_eq_of_le (by omega) (by omega)
    omega

theorem lseek_spec (bounds : InOff c size offset) :
    (∃ p, newPosition c size offset flag = some p ∧ 0 ≤ p ∧ p < 2 ^ 63 ∧ xpnSimpleLseek c size offset flag = c.seekTo p) ∨
      (newPosition c size offset flag = none ∧ ∃ errno, xpnSimpleLseek c size offset flag = c.refuse errno) := by
  have sums : ∀ a : Int, 0 ≤ a → a < 2 ^ 63 → ∀ errno,
      (∃ p, (some (a + offset)).filter (fun position => 0 ≤ position ∧ position < 2 ^ 63) = some p ∧ 0 ≤ p ∧ p < 2 ^ 63 ∧
        (if toCLong (a + offset) < 0 then c.refuse errno else c.seekTo (toCLong (a + offset))) = c.seekTo p) ∨
      ((some (a + offset)).filter (fun position => 0 ≤ position ∧ position < 2 ^ 63) = none ∧
        ∃ errno', (if toCLong (a + offset) < 0 then c.refuse errno else c.seekTo (toCLong (a + offset))) = c.refuse errno') := by
    intro a low high errno
    rcases toCLong_sum low high bounds.low bounds.high with ⟨negative, invalid⟩ | ⟨same, valid⟩
    · right
      rw [if_pos negative]
      exact ⟨by simpa using invalid, errno, rfl⟩
    · left
      rw [same, if_neg (by omega)]
      exact ⟨a + offset, by simpa using valid, valid.1, valid.2, rfl⟩
  by_cases absolute : flag = seekSet
  case pos =>
    subst absolute
    simp only [newPosition, xpnSimpleLseek, if_true]
    by_cases negative : offset < 0
    · right
      rw [if_pos negative]
      exact ⟨by simpa using fun low => absurd negative (by omega), _, rfl⟩
    · left
      rw [if_neg negative]
      have high := bounds.high
      exact ⟨offset, by simpa using ⟨by omega, high⟩, by omega, high, rfl⟩
  case neg =>
    simp only [newPosition, xpnSimpleLseek, if_neg absolute]
    by_cases relative : flag = seekCur
    case pos =>
      simp only [if_pos relative]
      exact sums c.fd.offset (by omega) bounds.position einval
    case neg =>
      simp only [if_neg relative]
      by_cases fromEnd : flag = seekEnd
      case pos =>
        simp only [if_pos fromEnd]
        cases found : size with
        | none => exact Or.inr ⟨rfl, _, rfl⟩
        | some s =>
          obtain ⟨low, high⟩ := bounds.size s found
          exact sums s low high einval
      case neg =>
        simp only [if_neg fromEnd]
        exact Or.inr ⟨rfl, _, rfl⟩

theorem toCInt_eq_iff {p : Int} (low : 0 ≤ p) : toCInt p = p ↔ p < 2 ^ 31 := by
  constructor
  · intro same
    have bound := Int.bmod_lt (x := p) (m := 2 ^ 32) (by decide)
    rw [toCInt] at same
    rw [same] at bound
    omega
  · intro small
    exact Int.bmod_eq_of_le (by omega) (by omega)

/-- What a seek has to return and where it has to leave the position. -/
def LseekExact (c : Client) (size : Option Int) (offset flag : Int) : Prop :=
  let (ret, after) := xpnSimpleLseek c size offset flag
  match newPosition c size offset flag with
  | some p => ret = p ∧ (after.fd.offset : Int) = p
  | none => ret = -1 ∧ after.fd.offset = c.fd.offset

/-- Both calls keep to it exactly where the position fits the `int` it passes through. -/
theorem lseek_exact_iff (bounds : InOff c size offset) :
    (LseekExact c size offset flag ∧ ((xpnSimpleFseek c size offset flag).1 = 0 ↔ (newPosition c size offset flag).isSome)) ↔
      ∀ p, newPosition c size offset flag = some p → p < 2 ^ 31 := by
  rcases (lseek_spec bounds : _ ∨ newPosition c size offset flag = none ∧ _) with ⟨p, valid, low, high, taken⟩ | ⟨invalid, errno, refused⟩
  · have exact_iff : LseekExact c size offset flag ↔ p < 2 ^ 31 := by
      have natural : ((c.seekTo p).2.fd.offset : Int) = p := Int.toNat_of_nonneg low
      simp only [LseekExact, taken, valid, natural, and_true]
      exact toCInt_eq_iff low
    rw [exact_iff]
    simp only [valid, Option.some.injEq, forall_eq', Option.isSome_some, iff_true]
    constructor
    · exact fun both => both.1
    · intro small
      have kept : (c.seekTo p).1 = p := (toCInt_eq_iff low).mpr small
      refine ⟨small, ?_⟩
      simp only [xpnSimpleFseek, taken, kept]
      rw [if_neg (by omega)]
  · simp only [LseekExact, xpnSimpleFseek, refused, invalid]
    simp [Client.refuse]

end

def atFive : Client where
  fd := ⟨0, 2, ⟨1, 4, 0, -1⟩, xpnCreateMetadataExtern [47, 97] 1 4 0, 5, 4⟩
  servers := fun _ => ⟨[], 0⟩
  rand := fun _ => 0
  fresh := fun _ => 0
  errno := 0

theorem atFive_bounds {offset : Int} (low : -2 ^ 63 ≤ offset) (high : offset < 2 ^ 63) : InOff atFive none offset :=
  ⟨by decide, fun _ impossible => (nomatch impossible), low, high⟩

theorem lseek_exact_forward : LseekExact atFive none 2 seekCur ∧
    ((xpnSimpleFseek atFive none 2 seekCur).1 = 0 ↔ (newPosition atFive none 2 seekCur).isSome) := by
  apply (lseek_exact_iff (atFive_bounds (by decide) (by decide))).mpr
  intro p found
  have there : newPosition atFive none 2 seekCur = some 7 := by decide
  rw [there, Option.some.injEq] at found
  omega

/-- The position 2^31 comes back negative. -/
theorem lseek_wraps : ¬∀ (c : Client) (size : Option Int) (offset flag : Int), InOff c size offset → LseekExact c size offset flag := by
  intro exact
  have claimed := exact atFive none (2 ^ 31) seekSet (atFive_bounds (by decide) (by decide))
  exact absurd claimed.1 (by decide)

section
variable {transfer : Transfer} {c : Client} {buffer : List Byte} {offset : Int}

def direct (transfer : Transfer) (c : Client) (offset : Int) : Int × Client × List Byte := transfer (c.seek offset.toNat)

/-- The client but for its position and error number. -/
def Client.settled (c : Client) : Client := { c.seek 0 with errno := 0 }

/-- The position is as before and the transfer as it is at `offset`. -/
def Positioned (transfer : Transfer) (c : Client) (buffer : List Byte) (offset : Int) : Prop :=
  let result := positional transfer c buffer offset
  result.2.1.fd.offset = c.fd.offset ∧ result.1 = (direct transfer c offset).1 ∧
    Client.settled result.2.1 = Client.settled (direct transfer c offset).2.1 ∧ result.2.2 = (direct transfer c offset).2.2

/-- The result fits a `ssize_t`, and the position moves by what it counts or stays. -/
structure Moves (before : Client) (outcome : Int × Client × List Byte) : Prop where
  low : -2 ^ 63 < outcome.1
  high : outcome.1 < 2 ^ 63
  position : (outcome.2.1.fd.offset : Int) < 2 ^ 63
  moved : outcome.2.1.fd.offset = before.fd.offset + outcome.1.toNat ∨ outcome.2.1.fd.offset = before.fd.offset

/-- The position has moved by the result, and not at all when the transfer failed. -/
def Counts (offset : Int) (outcome : Int × Client × List Byte) : Prop :=
  outcome.1 = -1 ∨ (outcome.2.1.fd.offset : Int) = offset + outcome.1

instance (offset : Int) (outcome : Int × Client × List Byte) : Decidable (Counts offset outcome) :=
  inferInstanceAs (Decidable (_ ∨ _))

def Idle (c : Client) (buffer : List Byte) (outcome : Int × Client × List Byte) : Prop :=
  outcome.1 = -1 ∧ Client.settled outcome.2.1 = Client.settled c ∧ outcome.2.2 = buffer

/-- Where the seek back ends that does not undo the transfer's own move. -/
def strayed (outcome : Int × Client × List Byte) : Int :=
  let back := outcome.2.1.fd.offset - outcome.1
  if 0 ≤ back ∧ back < 2 ^ 63 then back else outcome.2.1.fd.offset

private theorem seekBack {after : Client} {ret : Int} (position : (after.fd.offset : Int) < 2 ^ 63) (low : -2 ^ 63 < ret)
    (high : ret < 2 ^ 63) :
    ((xpnSimpleLseek after none (-ret) seekCur).2.fd.offset : Int) =
        (if 0 ≤ after.fd.offset - ret ∧ after.fd.offset - ret < 2 ^ 63 then after.fd.offset - ret else after.fd.offset) ∧
      Client.settled (xpnSimpleLseek after none (-ret) seekCur).2 = Client.settled after := by
  rw [lseek_cur, ← Int.sub_eq_add_neg]
  rcases toCLong_sum (a := after.fd.offset) (b := -ret) (by omega) position (by omega) (by omega) with
    ⟨negative, invalid⟩ | ⟨same, valid, fits⟩
  · rw [← Int.sub_eq_add_neg] at negative invalid
    rw [if_pos negative, if_neg invalid]
    exact ⟨rfl, rfl⟩
  · rw [← Int.sub_eq_add_neg] at same valid fits
    rw [same, if_neg (by omega), if_pos ⟨valid, fits⟩]
    exact ⟨Int.toNat_of_nonneg valid, rfl⟩

theorem positional_iff (natural : 0 ≤ offset) (moves : Moves (c.seek offset.toNat) (direct transfer c offset)) :
    Positioned transfer c buffer offset ↔
      (toCInt offset ≠ -1 ∨ Idle (c.seek offset.toNat) buffer (direct transfer c offset)) ∧
        (c.fd.offset : Int) =
          if toCInt offset = -1 ∨ Counts offset (direct transfer c offset) then offset else strayed (direct transfer c offset) := by
  have sought : xpnSimpleLseek c none offset seekSet = (toCInt offset, c.seek offset.toNat) := by
    rw [xpnSimpleLseek, if_pos rfl, if_neg (by omega)]
    rfl
  have start : ((c.seek offset.toNat).fd.offset : Int) = offset := Int.toNat_of_nonneg natural
  by_cases cut : toCInt offset = -1
  case pos =>
    have stopped : positional transfer c buffer offset = (-1, c.seek offset.toNat, buffer) := by
      simp [positional, sought, cut]
    simp only [Positioned, stopped, Idle, cut, true_or, if_true, ne_eq, not_true_eq_false, false_or]
    constructor
    · rintro ⟨same, ret, rest, filled⟩
      exact ⟨⟨ret.symm, rest.symm, filled.symm⟩, by omega⟩
    · rintro ⟨⟨ret, rest, filled⟩, same⟩
      exact ⟨by omega, ret.symm, rest.symm, filled.symm⟩
  case neg =>
    have went : positional transfer c buffer offset =
        if (direct transfer c offset).1 ≠ -1 then
          ((direct transfer c offset).1,
            (xpnSimpleLseek (direct transfer c offset).2.1 none (-(direct transfer c offset).1) seekCur).2,
            (direct transfer c offset).2.2)
        else direct transfer c offset := by
      simp only [positional, sought, direct]
      rw [if_pos cut]
      rfl
    rw [Positioned, went]
    obtain ⟨low, high, position, moved⟩ := moves
    generalize direct transfer c offset = outcome at *
    obtain ⟨ret, after, filled⟩ := outcome
    dsimp only at *
    simp only [cut, ne_eq, not_false_eq_true, true_or, false_or, true_and, Counts, strayed]
    by_cases failed : ret = -1
    case pos =>
      subst failed
      have unmoved : after.fd.offset = (c.seek offset.toNat).fd.offset := by
        rcases moved with counted | same
        · exact counted
        · exact same
      simp only [not_true_eq_false, if_false, true_or, if_true, and_true]
      omega
    case neg =>
      obtain ⟨landed, rest⟩ := seekBack position low high
      simp only [failed, not_false_eq_true, if_true, false_or, rest, and_true]
      have exact_landing : ((xpnSimpleLseek after none (-ret) seekCur).2.fd.offset = c.fd.offset) ↔
          ((xpnSimpleLseek after none (-ret) seekCur).2.fd.offset : Int) = c.fd.offset := by omega
      rw [exact_landing, landed]
      by_cases counted : (after.fd.offset : Int) = offset + ret
      · rw [if_pos counted, if_pos (by omega)]
        omega
      · rw [if_neg counted]
        exact eq_comm

end

section
variable {c : Client} {buffer : List Byte}

private theorem advance_moved (c : Client) (total : Int) :
    (if 0 < total then c.advance total else c).fd.offset = c.fd.offset + total.toNat := by
  split
  · rfl
  next none =>
    rw [Int.toNat_of_nonpos (by omega)]
    rfl

private theorem advanceWrite_moved (c : Client) (total : Int) :
    (if 0 < total then c.advanceWrite total else c).fd.offset = c.fd.offset + total.toNat := by
  split
  next => exact advanceWrite_offset c total
  next none => rw [Int.toNat_of_nonpos (not_lt.mp none), Nat.add_zero]

private theorem sreadLoop_moved (c : Client) (size offset : Nat) : ∀ fuel count (client : Client) buffer,
    (sreadLoop c size offset fuel count client buffer).client.fd.offset =
        client.fd.offset + (sreadLoop c size offset fuel count client buffer).ret.toNat ∨
      (sreadLoop c size offset fuel count client buffer).client.fd.offset = client.fd.offset
  | 0, _, _, _ => Or.inr rfl
  | fuel + 1, count, client, buffer => by
    rw [sreadLoop]
    dsimp only
    split
    · exact Or.inr rfl
    next data _ =>
      split
      · exact sreadLoop_moved c size offset fuel (count + data.length) _ _
      · split
        · exact Or.inl rfl
        · exact Or.inr rfl

/-- The reads and writes of the library move the position by what they return, or not at all. -/
theorem read_moved (count : Nat) (c : Client) (offset : Int) :
    (direct (xpnRead buffer count) c offset).2.1.fd.offset = (c.seek offset.toNat).fd.offset + (direct (xpnRead buffer count) c offset).1.toNat ∨
      (direct (xpnRead buffer count) c offset).2.1.fd.offset = (c.seek offset.toNat).fd.offset := by
  unfold direct
  generalize c.seek offset.toNat = c
  simp only [xpnRead, xpnSimpleRead]
  split
  · exact Or.inr rfl
  · split
    · exact Or.inr rfl
    · split
      · exact Or.inr rfl
      · split
        · rw [xpnPread]
          dsimp only
          split
          · exact Or.inr rfl
          · exact Or.inl (advance_moved _ _)
        · rw [xpnSread]
          split
          · exact Or.inr rfl
          · exact sreadLoop_moved c count c.fd.offset _ _ c buffer

theorem write_moved (count : Nat) (c : Client) (offset : Int) :
    (direct (xpnWrite buffer count) c offset).2.1.fd.offset = (c.seek offset.toNat).fd.offset + (direct (xpnWrite buffer count) c offset).1.toNat ∨
      (direct (xpnWrite buffer count) c offset).2.1.fd.offset = (c.seek offset.toNat).fd.offset := by
  unfold direct
  generalize c.seek offset.toNat = c
  simp only [xpnWrite, xpnSimpleWrite]
  split
  · exact Or.inr rfl
  · split
    · exact Or.inr rfl
    · split
      · exact Or.inr rfl
      · split
        · rw [xpnPwrite]
          dsimp only
          split
          · exact Or.inr rfl
          · exact Or.inl (advanceWrite_moved _ _)
        · rw [xpnSwrite]
          split
          · exact Or.inr rfl
          · exact Or.inl (advanceWrite_moved _ _)

end

/-- The same with eight bytes in the file. -/
def eightBytes : Client :=
  { atFive with servers := fun _ => ⟨List.replicate xpnHeaderSize 0 ++ [10, 11, 12, 13, 14, 15, 16, 17], 0⟩ }

/-- Two bytes read and two bytes written at 5 from there. -/
theorem positional_iff_there : Positioned (xpnRead [0, 0] 2) eightBytes [0, 0] 5 ∧ Positioned (xpnWrite [1, 2] 2) eightBytes [1, 2] 5 ∧
    (positional (xpnRead [0, 0] 2) eightBytes [0, 0] 5).2.2 = [15, 16] := by
  have read : Moves (eightBytes.seek (Int.toNat 5)) (direct (xpnRead [0, 0] 2) eightBytes 5) :=
    ⟨by decide +kernel, by decide +kernel, by decide +kernel, read_moved 2 eightBytes 5⟩
  have written : Moves (eightBytes.seek (Int.toNat 5)) (direct (xpnWrite [1, 2] 2) eightBytes 5) :=
    ⟨by decide +kernel, by decide +kernel, by decide +kernel, write_moved 2 eightBytes 5⟩
  refine ⟨(positional_iff (by decide) read).mpr ⟨Or.inl (by decide), ?_⟩,
    (positional_iff (by decide) written).mpr ⟨Or.inl (by decide), ?_⟩, by decide +kernel⟩
  · have counts : Counts 5 (direct (xpnRead [0, 0] 2) eightBytes 5) := Or.inr (by decide +kernel)
    rw [if_pos (Or.inr counts)]
    rfl
  · have counts : Counts 5 (direct (xpnWrite [1, 2] 2) eightBytes 5) := Or.inr (by decide +kernel)
    rw [if_pos (Or.inr counts)]
    rfl

/-- The way back is by what was read, not to where the position was. -/
theorem pread_moves : ¬∀ (c : Client) (buffer : List Byte) (count : Nat) (offset : Int), 0 ≤ offset →
    (pread c buffer count offset).2.1.fd.offset = c.fd.offset := by
  intro kept
  exact absurd (kept atFive [0] 1 0 (by decide)) (by decide +kernel)

section
variable {c : Client} {size : Option Int} {offset whence : Int}

/-- The call returns the number of whole items among the bytes that were moved. -/
def ItemsExact (returned : Option Nat) (moved size nmemb : Nat) : Prop :=
  ∃ k, returned = some k ∧ k ≤ nmemb ∧ ∃ rest, moved = k * size + rest ∧ (rest < size ∨ rest = 0)

private theorem toCSize_nonneg {ret : Int} (low : 0 ≤ ret) (high : ret < 2 ^ 63) : toCSize ret = ret.toNat := by
  rw [toCSize, Int.emod_eq_of_lt low (by omega)]

private theorem toCSize_negative {ret : Int} (low : -2 ^ 63 ≤ ret) (high : ret < 0) : (toCSize ret : Int) = ret + 2 ^ 64 := by
  rw [toCSize, ← Int.add_emod_right, Int.emod_eq_of_lt (by omega) (by omega)]
  exact Int.toNat_of_nonneg (by omega)

theorem items_iff (transfer : Nat → Transfer) (c : Client) {n nmemb : Nat} (low : -2 ^ 63 ≤ (transfer (bufSize n nmemb) c).1)
    (high : (transfer (bufSize n nmemb) c).1 < 2 ^ 63) :
    ItemsExact (items transfer c n nmemb).1 (transfer (bufSize n nmemb) c).1.toNat n nmemb ↔
      n ≠ 0 ∧
        ((0 ≤ (transfer (bufSize n nmemb) c).1 ∧ (transfer (bufSize n nmemb) c).1 / n ≤ nmemb) ∨
          ((transfer (bufSize n nmemb) c).1 < 0 ∧ (transfer (bufSize n nmemb) c).1 + 2 ^ 64 < n)) := by
  have shape : (items transfer c n nmemb).1 =
      if n = 0 then none else some (toCSize (transfer (bufSize n nmemb) c).1 / n) := rfl
  rw [shape]
  generalize (transfer (bufSize n nmemb) c).1 = ret at *
  by_cases zero : n = 0
  · simp [ItemsExact, zero]
  · rw [if_neg zero]
    have positive : 0 < n := Nat.pos_of_ne_zero zero
    by_cases failed : ret < 0
    case neg =>
      lift ret to Nat using (by omega)
      rw [toCSize_nonneg (by omega) high]
      have divided : (ret : Int) / n = (ret / n : Nat) := rfl
      simp only [ItemsExact, Int.toNat_natCast, Option.some.injEq, exists_eq_left', divided]
      have split := Nat.div_add_mod ret n
      have short := Nat.mod_lt ret positive
      constructor
      · rintro ⟨within, -⟩
        exact ⟨zero, Or.inl ⟨by omega, by exact_mod_cast within⟩⟩
      · rintro ⟨-, ⟨-, within⟩ | ⟨negative, -⟩⟩
        · refine ⟨by exact_mod_cast within, ret % n, ?_, Or.inl short⟩
          rw [Nat.mul_comm]
          exact split.symm
        · exact absurd negative (by omega)
    case pos =>
      have large := toCSize_negative low failed
      rw [Int.toNat_of_nonpos (by omega)]
      constructor
      · rintro ⟨k, returned, -, rest, none, -⟩
        refine ⟨zero, Or.inr ⟨failed, ?_⟩⟩
        have whole : k = 0 := by
          by_contra some
          have positive' : 0 < k * n := Nat.mul_pos (Nat.pos_of_ne_zero some) positive
          omega
        rw [whole, Option.some.injEq] at returned
        have below := (Nat.div_eq_zero_iff_lt positive).mp returned
        omega
      · rintro ⟨-, ⟨natural, -⟩ | ⟨-, below⟩⟩
        · exact absurd failed (by omega)
        · refine ⟨0, ?_, Nat.zero_le _, 0, by simp, Or.inr rfl⟩
          rw [Nat.div_eq_of_lt (by omega)]

theorem fseek_iff (bounds : InOff c size offset) :
    ((fseek c size offset whence).1 = 0 ↔ (newPosition c size offset whence).isSome) ↔
      ∀ p, newPosition c size offset whence = some p → (2 ^ 32 : Int) ∣ p := by
  rcases (lseek_spec bounds : _ ∨ newPosition c size offset whence = none ∧ _) with ⟨p, valid, -, -, taken⟩ | ⟨invalid, errno, refused⟩
  · have result : (fseek c size offset whence).1 = toCInt p := by
      simp only [fseek, taken]
      exact Int.bmod_bmod
    simp only [result, valid, Option.some.injEq, forall_eq', Option.isSome_some, iff_true]
    exact Int.dvd_iff_bmod_eq_zero.symm
  · have result : (fseek c size offset whence).1 = -1 := by
      simp only [fseek, refused]
      rfl
    simp [result, invalid]

private theorem seekCur_zero (position : (c.fd.offset : Int) < 2 ^ 63) :
    (xpnSimpleLseek c none 0 seekCur).2 = c := by
  have same : toCLong (c.fd.offset + 0) = c.fd.offset := by
    rw [Int.add_zero]
    exact Int.bmod_eq_of_le (by omega) (by omega)
  rw [lseek_cur, same, if_neg (by omega)]
  rfl

/-- The end-of-file test stays where it seeks to. -/
theorem feof_iff (bounds : InOff c size 0) :
    (feof c size).2.fd.offset = c.fd.offset ↔ ∀ s, size = some s → s = c.fd.offset := by
  rw [feof]
  dsimp only
  rw [seekCur_zero bounds.position]
  cases found : size with
  | none =>
    simp [xpnSimpleLseek, seekEnd, seekSet, seekCur, Client.refuse]
  | some s =>
    obtain ⟨low, high⟩ := bounds.size s found
    have same : toCLong (s + 0) = s := by
      rw [Int.add_zero]
      exact Int.bmod_eq_of_le (by omega) (by omega)
    rw [lseek_end, same, if_neg (by omega)]
    have landed : ((c.seekTo s).2.fd.offset : Int) = s := Int.toNat_of_nonneg low
    simp only [Option.some.injEq, forall_eq']
    omega

/-- The four calls, for every outcome of the transfer. -/
theorem stdio_iff (transfer : Nat → Transfer) {n nmemb : Nat} (bounds : InOff c size offset)
    (low : -2 ^ 63 ≤ (transfer (bufSize n nmemb) c).1) (high : (transfer (bufSize n nmemb) c).1 < 2 ^ 63) :
    (ItemsExact (items transfer c n nmemb).1 (transfer (bufSize n nmemb) c).1.toNat n nmemb ↔
      n ≠ 0 ∧
        ((0 ≤ (transfer (bufSize n nmemb) c).1 ∧ (transfer (bufSize n nmemb) c).1 / n ≤ nmemb) ∨
          ((transfer (bufSize n nmemb) c).1 < 0 ∧ (transfer (bufSize n nmemb) c).1 + 2 ^ 64 < n))) ∧
    (((fseek c size offset whence).1 = 0 ↔ (newPosition c size offset whence).isSome) ↔
      ∀ p, newPosition c size offset whence = some p → (2 ^ 32 : Int) ∣ p) ∧
    (ftell c).2.fd.offset = c.fd.offset ∧
    ((feof c size).2.fd.offset = c.fd.offset ↔ ∀ s, size = some s → s = c.fd.offset) := by
  refine ⟨items_iff transfer c low high, fseek_iff bounds, ?_, feof_iff ⟨bounds.position, bounds.size, by decide, by decide⟩⟩
  rw [ftell, seekCur_zero bounds.position]

end

/-- Of two items of two bytes there are three bytes left. -/
theorem stdio_three_bytes :
    ItemsExact (items (xpnRead [0, 0, 0, 0]) eightBytes 2 2).1 (xpnRead [0, 0, 0, 0] (bufSize 2 2) eightBytes).1.toNat 2 2 ∧
      (xpnRead [0, 0, 0, 0] (bufSize 2 2) eightBytes).1 = 3 ∧ (ftell eightBytes).2.fd.offset = 5 := by
  have three : (xpnRead [0, 0, 0, 0] (bufSize 2 2) eightBytes).1 = 3 := by decide +kernel
  obtain ⟨counted, -, same, -⟩ := @stdio_iff eightBytes none 0 seekSet (xpnRead [0, 0, 0, 0]) 2 2
    ⟨by decide, fun _ impossible => absurd impossible (by simp), by decide, by decide⟩ (three ▸ by decide) (three ▸ by decide)
  refine ⟨counted.mpr ⟨by decide, Or.inl ?_⟩, three, same⟩
  rw [three]
  decide

/-- A seek that succeeds returns the position. -/
theorem fseek_returns_position : ¬∀ (c : Client) (size : Option Int) (offset whence : Int), InOff c size offset →
    ((fseek c size offset whence).1 = 0 ↔ (newPosition c size offset whence).isSome) := by
  intro exact
  have claimed := exact atFive none 1 seekSet (atFive_bounds (by decide) (by decide))
  exact absurd (claimed.mpr (by decide)) (by decide)

end Xpn.Proofs.Positions
