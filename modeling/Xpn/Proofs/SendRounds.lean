import Xpn.Proofs.Messages
import Xpn.NfiXpnServer

/-! The rounds in which a client sends the data of a write. A send that fails moves the
start of the next part back by one byte, so whether the rounds end, and whether they stay in
the buffer, is a matter of how failures and successes follow each other. -/

namespace Xpn.Proofs.SendRounds
open Lib.Conversation Xpn.Messages Messages NfiXpnServer

/-- A success counts as a full part and a failure as minus one. -/
def balance (part : Int) (fails : Nat → Bool) : Nat → Int
  | 0 => 0
  | n + 1 => balance part fails n + if fails n then -1 else part

/-- Round `n` is the last one: a success reaches the size. Of `2^31 - 1` bytes a failure in front
of the first leaves more to send than an `int` holds. -/
def Ends (size : Nat) (part : Int) (fails : Nat → Bool) (n : Nat) : Prop :=
  if fails n then balance part fails n = 0 ∧ size = 2 ^ 31 - 1 else size ≤ balance part fails n + part

/-- Failures never outnumber the bytes sent before them until a round ends the loop. -/
def Completes (size : Nat) (part : Int) (fails : Nat → Bool) : Prop :=
  ∃ n, (∀ i ≤ n, 0 ≤ balance part fails i) ∧ Ends size part fails n

/-- A part that starts in the buffer and ends in it. -/
def Inside (size : Nat) (part : Int × Int) : Prop := 0 ≤ part.1 ∧ part.1 < size ∧ part.1 + part.2 ≤ size

section
variable {size : Nat} {part : Int} {fails : Nat → Bool}

/-- The rounds end and pass on nothing outside the buffer. -/
def Sends (size : Nat) (part : Int) (fails : Nat → Bool) (n : Nat) (cont : Int) : Prop :=
  (∃ fuel sent, (sendRounds size part fails fuel n cont (size - cont)).2 = some sent) ∧
    ∀ fuel, ∀ passed ∈ (sendRounds size part fails fuel n cont (size - cont)).1, Inside size passed

def partLength (size : Nat) (part cont : Int) : Int := if part < size - cont then part else size - cont

/-- From a start outside the buffer the first part is already wrong. -/
theorem not_sends_of_negative {n : Nat} {cont : Int} (negative : cont < 0) : ¬Sends size part fails n cont := by
  rintro ⟨-, inside⟩
  have first : ∃ rest, (sendRounds size part fails 1 n cont (size - cont)).1 = (cont, partLength size part cont) :: rest := by
    rw [sendRounds]
    dsimp only
    rw [← partLength, apply_ite Prod.fst]
    split_ifs
    all_goals exact ⟨_, rfl⟩
  obtain ⟨rest, passed⟩ := first
  have nonneg := (inside 1 (cont, partLength size part cont) (passed ▸ List.mem_cons_self)).1
  exact absurd nonneg (not_le.mpr negative)

section
variable (int : (size : Int) < 2 ^ 31) (positive : 0 < part) (fits : part ≤ size)
  {n : Nat} (nonneg : 0 ≤ balance part fails n) (below : balance part fails n < size)

include nonneg below in
theorem inside_round : Inside size (balance part fails n, partLength size part (balance part fails n)) := by
  refine ⟨nonneg, below, ?_⟩
  rw [partLength]
  dsimp only
  split <;> omega

include int below in
theorem sendRounds_ends (ends : Ends size part fails n) (fuel : Nat) : ∃ sent,
    sendRounds size part fails (fuel + 1) n (balance part fails n) (size - balance part fails n) =
      ([(balance part fails n, partLength size part (balance part fails n))], some sent) := by
  rw [Ends] at ends
  rw [sendRounds, partLength]
  cases failed : fails n with
  | true =>
    rw [failed, if_pos rfl] at ends
    obtain ⟨start, rfl⟩ := ends
    have wraps : toCInt (((2 ^ 31 - 1 : Nat) : Int) - (0 + -1)) = -2 ^ 31 := by decide
    simp only [if_true, start]
    rw [toCInt_of_small (show -2 ^ 31 ≤ 0 + -1 by decide) (by decide), wraps, if_neg (by omega)]
    exact ⟨_, rfl⟩
  | false =>
    rw [failed, if_neg Bool.false_ne_true] at ends
    simp only [Bool.false_eq_true, if_false]
    have whole : balance part fails n + (size - balance part fails n) = size := by omega
    have nothing : toCInt ((size : Int) - size) = 0 := by rw [sub_self]; rfl
    rw [if_neg (show ¬part < size - balance part fails n by omega), whole, toCInt_of_small (by omega) int, nothing, if_neg (by omega)]
    exact ⟨_, rfl⟩

include positive nonneg below in
theorem balance_next (goes : ¬Ends size part fails n) : -1 ≤ balance part fails (n + 1) ∧ balance part fails (n + 1) < size := by
  rw [Ends] at goes
  rw [balance]
  cases failed : fails n with
  | true =>
    rw [if_pos rfl]
    omega
  | false =>
    rw [failed, if_neg Bool.false_ne_true] at goes
    rw [if_neg Bool.false_ne_true]
    omega

include int positive fits nonneg below

theorem sendRounds_goes (goes : ¬Ends size part fails n) (fuel : Nat) :
    sendRounds size part fails (fuel + 1) n (balance part fails n) (size - balance part fails n) =
      ((balance part fails n, partLength size part (balance part fails n)) ::
          (sendRounds size part fails fuel (n + 1) (balance part fails (n + 1)) (size - balance part fails (n + 1))).1,
        (sendRounds size part fails fuel (n + 1) (balance part fails (n + 1)) (size - balance part fails (n + 1))).2) := by
  obtain ⟨low, high⟩ := balance_next positive nonneg below goes
  have next : balance part fails n + (if fails n then -1 else partLength size part (balance part fails n)) = balance part fails (n + 1) := by
    rw [Ends] at goes
    rw [balance, partLength]
    cases failed : fails n with
    | true => rfl
    | false =>
      rw [failed, if_neg Bool.false_ne_true] at goes
      rw [if_neg Bool.false_ne_true, if_neg Bool.false_ne_true, if_pos (by omega)]
  have more : toCInt (size - balance part fails (n + 1)) = size - balance part fails (n + 1) := by
    refine toCInt_of_small (by omega) ?_
    by_contra wraps
    -- Only a failure in front of the first byte of `2 ^ 31 - 1` could wrap.
    apply goes
    rw [Ends]
    rw [balance] at wraps low
    cases failed : fails n with
    | true =>
      rw [failed, if_pos rfl] at wraps low
      rw [if_pos rfl]
      omega
    | false =>
      rw [failed, if_neg Bool.false_ne_true] at wraps
      omega
  have some : (if fails n then -1 else partLength size part (balance part fails n)) ≠ 0 := by
    rw [partLength]
    split
    · decide
    · split <;> omega
  rw [sendRounds]
  dsimp only
  have start : toCInt (balance part fails (n + 1)) = balance part fails (n + 1) := toCInt_of_small (by omega) (by omega)
  rw [← partLength, next, start, more, if_pos ⟨by omega, some⟩]

theorem sends_next (goes : ¬Ends size part fails n) :
    Sends size part fails n (balance part fails n) ↔ Sends size part fails (n + 1) (balance part fails (n + 1)) := by
  have step := sendRounds_goes int positive fits nonneg below goes
  constructor
  · rintro ⟨⟨fuel, sent, ended⟩, inside⟩
    constructor
    · cases fuel with
      | zero => cases ended
      | succ fuel =>
        rw [step] at ended
        exact ⟨fuel, sent, ended⟩
    · intro fuel passed member
      refine inside (fuel + 1) passed ?_
      rw [step]
      exact List.mem_cons_of_mem _ member
  · rintro ⟨⟨fuel, sent, ended⟩, inside⟩
    constructor
    · refine ⟨fuel + 1, sent, ?_⟩
      rw [step]
      exact ended
    · intro fuel passed member
      cases fuel with
      | zero => cases member
      | succ fuel =>
        rw [step] at member
        rcases List.mem_cons.mp member with rfl | later
        · exact inside_round nonneg below
        · exact inside fuel passed later

omit positive fits in
theorem sends_last (ends : Ends size part fails n) : Sends size part fails n (balance part fails n) := by
  have step := sendRounds_ends int below ends
  constructor
  · obtain ⟨sent, round⟩ := step 0
    refine ⟨1, sent, ?_⟩
    rw [round]
  · intro fuel passed member
    cases fuel with
    | zero => cases member
    | succ fuel =>
      obtain ⟨sent, round⟩ := step fuel
      rw [round] at member
      rw [List.mem_singleton.mp member]
      exact inside_round nonneg below

end

section
variable (int : (size : Int) < 2 ^ 31) (positive : 0 < part) (fits : part ≤ size)
include int positive fits

theorem ends_of_sends (fuel : Nat) : ∀ {n : Nat}, 0 ≤ balance part fails n → balance part fails n < size →
    Sends size part fails n (balance part fails n) →
      (sendRounds size part fails fuel n (balance part fails n) (size - balance part fails n)).2.isSome →
        ∃ last ≥ n, (∀ i, n ≤ i → i ≤ last → 0 ≤ balance part fails i) ∧ Ends size part fails last := by
  induction fuel with
  | zero =>
    intro n _ _ _ impossible
    cases impossible
  | succ fuel ih =>
    intro n nonneg below sends ended
    by_cases ends : Ends size part fails n
    · exact ⟨n, le_rfl, fun i low high => Nat.le_antisymm low high ▸ nonneg, ends⟩
    · have later := (sends_next int positive fits nonneg below ends).mp sends
      have above : 0 ≤ balance part fails (n + 1) := by
        by_contra negative
        exact not_sends_of_negative (not_le.mp negative) later
      rw [sendRounds_goes int positive fits nonneg below ends] at ended
      obtain ⟨last, beyond, kept, stops⟩ := ih above (balance_next positive nonneg below ends).2 later ended
      refine ⟨last, by omega, fun i low high => ?_, stops⟩
      rcases Nat.eq_or_lt_of_le low with rfl | further
      · exact nonneg
      · exact kept i further high

theorem sends_of_ends : ∀ (left : Nat) {n : Nat}, 0 ≤ balance part fails n → balance part fails n < size →
    (∀ i, n ≤ i → i ≤ n + left → 0 ≤ balance part fails i) → Ends size part fails (n + left) →
      Sends size part fails n (balance part fails n) := by
  intro left
  induction left with
  | zero => exact fun nonneg below _ ends => sends_last int nonneg below ends
  | succ left ih =>
    intro n nonneg below kept ends
    by_cases here : Ends size part fails n
    · exact sends_last int nonneg below here
    · rw [sends_next int positive fits nonneg below here]
      refine ih (kept (n + 1) (by omega) (by omega)) (balance_next positive nonneg below here).2
        (fun i low high => kept i (by omega) (by omega)) ?_
      rw [Nat.add_assoc, Nat.add_comm 1]
      exact ends

end

end

/-- The result of a client that only sends, when send `n` fails or takes its message whole. -/
def resultOf {α : Type} (fails : Nat → Bool) : Nat → ClientM α → Option α
  | _, .done result => some result
  | n, .send message next => resultOf fails (n + 1) (next (if fails n then -1 else message.length))
  | _, .receive _ _ => none
  | _, .call _ _ => none

/-- The client's rounds end with what the positions say. -/
theorem resultOf_writeParts {buffer : List Byte} {size : Nat} {part : Int} (whole : buffer.length = size) (int : (size : Int) < 2 ^ 31)
    (positive : 0 < part) (fits : part ≤ size) (fails : Nat → Bool) : ∀ (fuel n : Nat) (cont diff : Int),
      0 < diff → (0 ≤ cont → diff ≤ size - cont) →
        resultOf fails n (writeParts buffer size part fuel cont diff) = some (sendRounds size part fails fuel n cont diff).2 := by
  intro fuel
  induction fuel with
  | zero => exact fun _ _ _ _ _ => rfl
  | succ fuel ih =>
    intro n cont diff left inside
    rw [writeParts, sendRounds]
    generalize length_eq : (if part < diff then part else diff) = length
    have some : 0 < length := by split at length_eq <;> omega
    have short : length ≤ part ∧ length ≤ diff := by split at length_eq <;> omega
    have message : (((buffer.drop cont.toNat).take length.toNat).length : Int) = length := by
      rw [List.length_take, List.length_drop, whole]
      omega
    rw [commWriteData, toCInt_of_small (by omega) (by omega), if_neg some.ne', if_neg some.not_gt, Dialogue.send_bind]
    simp only [resultOf, message, Dialogue.pure_eq, Dialogue.done_bind]
    generalize (if fails n then -1 else length) = ret
    split
    next goes =>
      have bounded : toCInt (cont + ret) < (2 ^ 32 + 1) / 2 := Int.bmod_lt (by decide)
      refine ih (n + 1) _ _ goes.1 fun nonneg => ?_
      rw [toCInt_of_small] <;> omega
    next stops => rfl

def bufferSize (size : Nat) : Int := if (maxBufferSize : Int) < size then maxBufferSize else size

theorem bufferSize_spec {size : Nat} (some : 0 < size) : 0 < bufferSize size ∧ bufferSize size ≤ size := by
  have max : (maxBufferSize : Int) = 1048576 := rfl
  rw [bufferSize]
  split <;> omega

theorem sends_iff {size : Nat} (some : 0 < size) (int : size < 2 ^ 31) (fails : Nat → Bool) :
    (∀ buffer fuel, buffer.length = size → resultOf fails 0 (writeParts buffer size (bufferSize size) fuel 0 size) =
      Option.some (sendRounds size (bufferSize size) fails fuel 0 0 size).2) ∧
    (Sends size (bufferSize size) fails 0 0 ↔ Completes size (bufferSize size) fails) := by
  obtain ⟨positive, fits⟩ := bufferSize_spec some
  have small : (size : Int) < 2 ^ 31 := by omega
  have start : balance (bufferSize size) fails 0 < size := Int.natCast_pos.mpr some
  refine ⟨fun buffer fuel whole => ?_, ?_⟩
  · exact resultOf_writeParts whole small positive fits fails fuel 0 0 size (by omega) fun _ => (Int.sub_zero _).ge
  constructor
  · intro sends
    obtain ⟨fuel, sent, ended⟩ := sends.1
    obtain ⟨last, -, kept, ends⟩ := ends_of_sends small positive fits fuel le_rfl start sends (by
      change (sendRounds size (bufferSize size) fails fuel 0 0 (size - 0)).2.isSome
      rw [ended]
      rfl)
    exact ⟨last, fun i inside => kept i (Nat.zero_le i) inside, ends⟩
  · rintro ⟨last, kept, ends⟩
    exact sends_of_ends small positive fits last le_rfl start (fun i _ high => kept i (by omega)) (by rwa [Nat.zero_add])

/-- The only part fails. -/
theorem failed_send_leaves_buffer : ¬∀ size : Nat, 0 < size → size < 2 ^ 31 → ∀ fails, Sends size (bufferSize size) fails 0 0 := by
  intro always
  obtain ⟨-, inside⟩ := always 1 (by decide) (by decide) fun _ => true
  have passed : (-1, 1) ∈ (sendRounds 1 (bufferSize 1) (fun _ => true) 2 0 0 ((1 : Nat) - 0)).1 := by decide
  exact absurd (inside 2 (-1, 1) passed).1 (by decide)

/-- Two full parts and three bytes, of which the second part fails at first. -/
theorem interrupted_sends : Sends 2097155 (bufferSize 2097155) (fun n => n == 1) 0 0 :=
  (sends_iff (by decide) (by decide) _).2.mpr ⟨4, by decide, by unfold Ends; decide⟩

end Xpn.Proofs.SendRounds
