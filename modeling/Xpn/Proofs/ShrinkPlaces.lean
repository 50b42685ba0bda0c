import Xpn.Proofs.Shrinking

/-! Where the copies of a shrunk file are. Each segment lies behind the lines of the segments
before it, and a removal takes the copies of a server to slots of their own at the front of the
next segment, so no two copies ever meet. -/

namespace Xpn.Proofs
open Lib.Striping

namespace Shrinking
variable {h : Shrinking} {b b' r r' j : Nat}

/-- Every removal records more lines than the server that leaves has. -/
def Recorded (h : Shrinking) : Prop :=
  ∀ j, j < h.k → ∀ b r, r ≤ h.level → h.segment b ≤ j → (h.settled b r j).2 = h.removed j → (h.settled b r j).1 < h.lines j

theorem slot_le {copies item item' copy : Nat} (items : item ≤ item') (inside : copy < copies) :
    slot copies item copy ≤ slot copies item' (copies - 1) := by
  unfold slot
  have rows := Nat.mul_le_mul_right copies items
  omega

/-- Blocks of segment `j` lie before those of the next one. -/
theorem spot_lt_base {item : Nat} (items : item ≤ h.innerBlock (h.limit j) j) (copy : r ≤ h.level) :
    (h.spot j (slot (h.level + 1) item r)).1 < h.base (j + 1) := by
  have slots : slot (h.level + 1) item r ≤ h.slotIn j (h.limit j) h.level := slot_le items (by omega)
  have rows : slot (h.level + 1) item r / (h.n - j) ≤ h.slotIn j (h.limit j) h.level / (h.n - j) :=
    Nat.div_le_div_right slots
  simp only [spot, base]
  omega

theorem innerBlock_le (before : b ≤ h.limit j) : h.innerBlock b j ≤ h.innerBlock (h.limit j) j := by
  cases j with
  | zero => exact before
  | succ j =>
    simp only [innerBlock]
    omega

theorem base_lt_succ (j : Nat) : h.base j < h.base (j + 1) := Nat.lt_add_of_pos_right (Nat.succ_pos _)

/-- After `j` removals the blocks up to `limit j` are on the lines of the first segments. -/
theorem settled_lt_base (recorded : Recorded h) (copy : r ≤ h.level) :
    ∀ j, j < h.k → h.segment b ≤ j → (h.settled b r j).1 < h.base (j + 1) := by
  intro j
  induction j with
  | zero =>
    intro inside reached
    have here : h.segment b = 0 := Nat.le_zero.mp reached
    have stops := segment_stops (h := h) b
    rw [here] at stops
    have before : b ≤ h.limit 0 := stops.resolve_left inside.ne
    exact spot_lt_base (innerBlock_le before) copy
  | succ j ih =>
    intro inside reached
    rcases Nat.lt_or_ge (h.segment b) (j + 1) with earlier | here
    · have before := ih (by omega) (by omega)
      rw [settled_succ r (by omega), shift]
      have grows := base_lt_succ (h := h) (j + 1)
      split
      next leaves =>
        -- The moved lines are the first of the segment.
        have line := recorded j (by omega) b r copy (by omega) leaves
        have ordered := h.ordered j inside
        apply spot_lt_base _ copy
        simp only [innerBlock]
        omega
      next =>
        split
        · exact before.trans grows
        · exact before.trans grows
    · have found : h.segment b = j + 1 := by omega
      have stops := segment_stops (h := h) b
      rw [found] at stops
      have before : b ≤ h.limit (j + 1) := stops.resolve_left inside.ne
      rw [settled, if_neg (by omega)]
      exact spot_lt_base (innerBlock_le before) copy

theorem spot_injective {q q' : Nat} (same : h.spot j q = h.spot j q') : q = q' := by
  obtain ⟨lines, servers⟩ := Prod.mk.inj same
  exact slot_unique servers (Nat.add_left_cancel lines)

theorem base_le_spot (j q : Nat) : h.base j ≤ (h.spot j q).1 := Nat.le_add_right _ _

private theorem kept_injective {place place' : Nat × Nat} {removed : Nat} (stays : place.2 ≠ removed)
    (stays' : place'.2 ≠ removed)
    (same : (if removed < place.2 then (place.1, place.2 - 1) else place) =
      if removed < place'.2 then (place'.1, place'.2 - 1) else place') : place = place' := by
  obtain ⟨line, serv⟩ := place
  obtain ⟨line', serv'⟩ := place'
  simp only at stays stays' same ⊢
  split at same
  · split at same
    · simp only [Prod.mk.injEq] at same ⊢
      omega
    · simp only [Prod.mk.injEq] at same ⊢
      omega
  · split at same
    · simp only [Prod.mk.injEq] at same ⊢
      omega
    · exact same

section
variable {place place' : Nat × Nat}

theorem shift_leaves (leaves : place.2 = h.removed j) : h.shift j r place = h.spot (j + 1) (slot (h.level + 1) place.1 r) :=
  if_pos leaves

theorem shift_stays (stays : place.2 ≠ h.removed j) :
    h.shift j r place = if h.removed j < place.2 then (place.1, place.2 - 1) else place := if_neg stays

theorem shift_line (stays : place.2 ≠ h.removed j) : (h.shift j r place).1 = place.1 := by
  rw [shift_stays stays]
  split
  · rfl
  · rfl

/-- A copy that a removal renumbers does not meet one of the next segment. -/
theorem stays_ne_spot (stays : place.2 ≠ h.removed j) (before : place.1 < h.base (j + 1)) (q : Nat) :
    h.shift j r place ≠ h.spot (j + 1) q := by
  intro same
  have behind := base_le_spot (h := h) (j + 1) q
  rw [← same, shift_line stays] at behind
  omega

/-- A removal keeps apart what was on the lines before it. -/
theorem shift_injective (before : place.1 < h.base (j + 1)) (before' : place'.1 < h.base (j + 1))
    (copy : r ≤ h.level) (copy' : r' ≤ h.level) (same : h.shift j r place = h.shift j r' place') : place = place' := by
  by_cases leaves : place.2 = h.removed j
  · by_cases leaves' : place'.2 = h.removed j
    · rw [shift_leaves leaves, shift_leaves leaves'] at same
      obtain ⟨lines, -⟩ := slot_injective (by omega) (by omega) (spot_injective same)
      exact Prod.ext lines (leaves.trans leaves'.symm)
    · rw [shift_leaves leaves] at same
      exact absurd same.symm (stays_ne_spot leaves' before' _)
  · by_cases leaves' : place'.2 = h.removed j
    · rw [shift_leaves leaves'] at same
      exact absurd same (stays_ne_spot leaves before _)
    · rw [shift_stays leaves, shift_stays leaves'] at same
      exact kept_injective leaves leaves' same

/-- A copy that a removal moves or renumbers does not meet one of a block that comes later. -/
theorem shift_ne_spot {item : Nat} (before : place.1 < h.base (j + 1)) (recorded : place.2 = h.removed j → place.1 < item)
    (copy : r ≤ h.level) (copy' : r' ≤ h.level) : h.shift j r place ≠ h.spot (j + 1) (slot (h.level + 1) item r') := by
  by_cases leaves : place.2 = h.removed j
  · intro same
    have line := recorded leaves
    rw [shift_leaves leaves] at same
    obtain ⟨lines, -⟩ := slot_injective (by omega) (by omega) (spot_injective same)
    omega
  · exact stays_ne_spot leaves before _

end

theorem settled_injective (recorded : Recorded h) (copy : r ≤ h.level) (copy' : r' ≤ h.level) :
    ∀ j, j ≤ h.k → h.settled b r j = h.settled b' r' j → b = b' ∧ r = r' := by
  intro j
  induction j with
  | zero =>
    intro _ same
    exact slot_injective (by omega) (by omega) (spot_injective same)
  | succ j ih =>
    intro inside same
    have earlier := ih (by omega)
    have late : ∀ {b : Nat}, j < h.segment b → h.limit j < b := fun later => limit_lt later
    have lines : ∀ {b r : Nat}, r ≤ h.level → h.segment b ≤ j → (h.settled b r j).2 = h.removed j →
        ∀ b', j < h.segment b' → (h.settled b r j).1 < h.innerBlock b' (j + 1) := by
      intro b r copy reached leaves b' later
      have line := recorded j (by omega) b r copy reached leaves
      simp only [innerBlock]
      omega
    rcases Nat.lt_or_ge j (h.segment b) with later | reached
    · rcases Nat.lt_or_ge j (h.segment b') with later' | reached'
      · rw [settled, settled, if_neg (by omega), if_neg (by omega)] at same
        obtain ⟨blocks, copies⟩ := slot_injective (by omega) (by omega) (spot_injective same)
        have here := late later
        have here' := late later'
        simp only [innerBlock] at blocks
        exact ⟨by omega, copies⟩
      · rw [settled, if_neg (by omega), settled_succ r' reached'] at same
        have before := settled_lt_base recorded copy' j (by omega) reached'
        exact absurd same.symm (shift_ne_spot before (fun leaves => lines copy' reached' leaves b later) copy' copy)
    · rcases Nat.lt_or_ge j (h.segment b') with later' | reached'
      · rw [settled_succ r reached, settled, if_neg (by omega)] at same
        have before := settled_lt_base recorded copy j (by omega) reached
        exact absurd same (shift_ne_spot before (fun leaves => lines copy reached leaves b' later') copy copy')
      · rw [settled_succ r reached, settled_succ r' reached'] at same
        have before := settled_lt_base recorded copy j (by omega) reached
        have before' := settled_lt_base recorded copy' j (by omega) reached'
        exact earlier (shift_injective before before' copy copy' same)

/-- Where the decoder finds a copy of a file that was shrunk or is still as it was created. -/
theorem Describes.calculate_any {mdata : XpnMetadata} (describes : h.Describes mdata) (p r : Nat) :
    xpnCalculateBlockMdata mdata p r =
      ((((h.place (p / h.bs) r).1 * h.bs + p % h.bs : Nat) : Int), (((h.place (p / h.bs) r).2 : Nat) : Int)) := by
  rcases Nat.eq_zero_or_pos h.k with none | some
  · have plain : mdata.nserv 1 = 0 := describes.servers_end 1 (by omega)
    have servers : mdata.nserv 0 = h.n := describes.servers 0 (Nat.zero_le _)
    rw [xpnCalculateBlockMdata, if_pos plain, describes.blockSize, describes.replicationLevel, describes.firstNode, servers,
      xpnCalculateBlock_ofNat]
    simp only [place, none, settled, spot, base, Nat.zero_add, Nat.sub_zero, slotIn, innerBlock]
  · exact describes.calculate some p r

/-- On a file that was shrunk any number of times no two copies of any blocks share storage, for
the blocks that it has and for those that it will have. -/
theorem shrunk_copies_apart {mdata : XpnMetadata} (describes : h.Describes mdata) (recorded : h.Recorded) :
    Set.InjOn (fun copy : Nat × Nat => xpnCalculateBlockMdata mdata copy.1 copy.2) {copy | copy.2 ≤ h.level} := by
  intro ⟨p, r⟩ copy ⟨p', r'⟩ copy' same
  dsimp only at same
  rw [describes.calculate_any, describes.calculate_any] at same
  obtain ⟨offsets, servers⟩ := Prod.mk.inj same
  have rest := Nat.mod_lt p h.bs_pos
  have rest' := Nat.mod_lt p' h.bs_pos
  have offset : (h.place (p / h.bs) r).1 * h.bs + p % h.bs = (h.place (p' / h.bs) r').1 * h.bs + p' % h.bs := by
    exact_mod_cast offsets
  have lines : (h.place (p / h.bs) r).1 = (h.place (p' / h.bs) r').1 := by
    have divided := congrArg (· / h.bs) offset
    simpa only [Nat.mul_comm _ h.bs, Nat.mul_add_div h.bs_pos, Nat.div_eq_of_lt rest, Nat.div_eq_of_lt rest', Nat.add_zero]
      using divided
  have server : (h.place (p / h.bs) r).2 = (h.place (p' / h.bs) r').2 := by exact_mod_cast servers
  obtain ⟨blocks, copies⟩ := settled_injective recorded copy copy' h.k le_rfl (Prod.ext lines server)
  rw [lines] at offset
  apply Prod.ext
  · calc p = h.bs * (p / h.bs) + p % h.bs := (Nat.div_add_mod p h.bs).symm
      _ = h.bs * (p' / h.bs) + p' % h.bs := by rw [blocks, Nat.add_left_cancel offset]
      _ = p' := Nat.div_add_mod p' h.bs
  · exact copies

end Shrinking

end Xpn.Proofs
