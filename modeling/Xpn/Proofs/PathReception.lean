import Xpn.PathReception

/-! The path that a request brings. A length outside the buffer writes outside it, and a tail
that does not arrive leaves the part before it unless the receipt reports the failure. -/

namespace Xpn.Proofs.PathReception
open Transport (xpnPathMax)
open Xpn.PathReception

variable (pathMsg : Nat → Byte) (pathLen : Int) (tail : Tail pathLen)

/-- Every byte goes into a buffer of `PATH_MAX`. -/
def InBuffer (write : Write) : Prop := ∀ k < write.length, 0 ≤ write.start + k ∧ write.start + k < pathMax

/-- The writes stay in the buffer, and a tail that does not arrive whole leaves the empty string. -/
def Bounded (memory : Memory) : Prop :=
  (∀ write ∈ xpnServerReadPath pathMax pathMsg pathLen tail, InBuffer write) ∧
    ((xpnPathMax : Int) < pathLen → tail.received < pathLen - xpnPathMax →
      fullPath memory (xpnServerReadPath pathMax pathMsg pathLen tail) 0 = 0)

theorem terminate_inBuffer {index : Int} : InBuffer (terminate index) ↔ 0 ≤ index ∧ index < pathMax := by
  constructor
  · intro inside
    have here := inside 0 Nat.one_pos
    simpa [terminate] using here
  · rintro inside k below
    obtain rfl : k = 0 := Nat.lt_one_iff.mp below
    simpa [terminate] using inside

variable {pathLen tail}

/-- The length alone decides where the writes go. -/
theorem inBuffer_iff :
    (∀ write ∈ xpnServerReadPath pathMax pathMsg pathLen tail, InBuffer write) ↔ 0 ≤ pathLen ∧ pathLen < pathMax := by
  have max : pathMax = 4096 := rfl
  have fieldMax : xpnPathMax = 128 := rfl
  have arrived := tail.fits
  constructor
  · intro inside
    exact terminate_inBuffer.mp (inside _ (by simp [xpnServerReadPath]))
  · rintro ⟨nonneg, below⟩ write member
    have count : (pathLen % 2 ^ 64).toNat = pathLen.toNat := by rw [Int.emod_eq_of_lt nonneg (by omega)]
    simp only [xpnServerReadPath, List.mem_append, List.mem_cons, List.not_mem_nil, or_false] at member
    rcases member with ((rfl | rfl) | received) | rfl
    · intro k small
      simp only [clear] at small ⊢
      omega
    · intro k small
      simp only [copyField, count] at small ⊢
      split at small <;> omega
    · split at received
      next long =>
        rcases List.mem_cons.mp received with rfl | failed
        · intro k small
          simp only [receiveTail] at small ⊢
          omega
        · split at failed
          · rw [List.mem_singleton.mp failed, terminate_inBuffer]
            omega
          · cases failed
      next short => cases received
    · exact terminate_inBuffer.mpr ⟨nonneg, below⟩

/-- The first byte is the one of the field unless the receipt reports a failure. -/
theorem fullPath_head (long : (xpnPathMax : Int) < pathLen) (memory : Memory) :
    fullPath memory (xpnServerReadPath pathMax pathMsg pathLen tail) 0 = if tail.code < 0 then 0 else pathMsg 0 := by
  have fieldMax : xpnPathMax = 128 := rfl
  have apart : ¬((xpnPathMax : Int) ≤ 0 ∧ (0 : Int) < xpnPathMax + tail.received) := by omega
  have behind : ¬(pathLen ≤ 0 ∧ 0 < pathLen + ((1 : Nat) : Int)) := by omega
  have field : (0 : Int) ≤ 0 ∧ (0 : Int) < 0 + xpnPathMax := by omega
  rw [xpnServerReadPath, if_pos long]
  split
  next failed =>
    have first : (0 : Int) ≤ 0 ∧ (0 : Int) < 0 + ((1 : Nat) : Int) := by omega
    simp only [fullPath, List.foldl_append, List.foldl_cons, List.foldl_nil, Write.apply, terminate, if_neg behind, if_pos first]
  next told =>
    simp only [fullPath, List.foldl_append, List.foldl_cons, List.foldl_nil, Write.apply, terminate, receiveTail, copyField, if_neg behind,
      if_neg apart, if_pos long, if_pos field, Int.sub_self, Int.toNat_zero]

/-- The length is one of the buffer, and a tail that is cut short is reported, unless the path
was empty anyway. -/
def Admits (pathMsg : Nat → Byte) (pathLen : Int) (tail : Tail pathLen) : Prop :=
  0 ≤ pathLen ∧ pathLen < pathMax ∧
    ((xpnPathMax : Int) < pathLen → tail.received < pathLen - xpnPathMax → tail.code < 0 ∨ pathMsg 0 = 0)

theorem bounded_iff (memory : Memory) :
    Bounded pathMsg pathLen tail memory ↔ Admits pathMsg pathLen tail := by
  rw [Bounded, inBuffer_iff pathMsg, Admits, and_assoc]
  refine and_congr_right fun _ => and_congr_right fun _ => forall_congr' fun long => forall_congr' fun _ => ?_
  rw [fullPath_head pathMsg long]
  by_cases failed : tail.code < 0 <;> simp [failed]

/-- A length of -1 puts the terminator in front of the buffer. -/
theorem negative_length_overruns : ¬∀ (pathMsg : Nat → Byte) (pathLen : Int) (tail : Tail pathLen) (memory : Memory),
    -2 ^ 31 ≤ pathLen → pathLen < 2 ^ 31 → Bounded pathMsg pathLen tail memory := by
  intro always
  obtain ⟨inside, -⟩ := always (fun _ => 47) (-1) ⟨0, 0, fun _ => 0, Nat.zero_le _⟩ (fun _ => 0) (by decide) (by decide)
  have terminated := terminate_inBuffer.mp (inside (terminate (-1)) (by simp [xpnServerReadPath]))
  exact absurd terminated.1 (by decide)

end Xpn.Proofs.PathReception
