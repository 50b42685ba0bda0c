import Mathlib.Data.Nat.Find
import Mathlib.Tactic.Ring
import Xpn.Shrink
import Xpn.Proofs.Continuity

/-! The decoder on a file that was only shrunk, one server at a time. The servers of
segment `j` are those left after `j` removals; a copy on a removed server moves to the
front of the next segment, by the line it was on. -/

namespace Xpn.Proofs
open Lib.Striping

/-- A history of `k` removals. Removal `j` takes server `removed j` away, after block
`limit j`, and moves `lines j` lines of it. -/
structure Shrinking where
  bs : Nat
  level : Nat
  first : Nat
  n : Nat
  k : Nat
  removed : Nat → Nat
  lines : Nat → Nat
  limit : Nat → Nat
  bs_pos : 0 < bs
  fits : level + 1 + k ≤ n
  positive : 0 < k → 0 < limit 0
  ordered : ∀ j, j + 1 < k → limit j < limit (j + 1)

namespace Shrinking
variable (h : Shrinking)

structure Describes (mdata : XpnMetadata) : Prop where
  magic : xpnCheckMagicNumber mdata = true
  blockSize : mdata.blockSize = h.bs
  replicationLevel : mdata.replicationLevel = h.level
  firstNode : mdata.firstNode = h.first
  room : 2 * h.k + 1 ≤ maxReconstructions
  servers : ∀ j, j ≤ h.k → mdata.nserv (2 * j) = (h.n - j : Nat)
  leavers : ∀ j, j < h.k → mdata.nserv (2 * j + 1) = -((h.removed j : Int) + 1)
  start : mdata.offs 0 = 0
  moved : ∀ j, j < h.k → mdata.offs (2 * j + 1) = h.lines j
  limits : ∀ j, j < h.k → mdata.offs (2 * j + 2) = h.limit j
  servers_end : ∀ i, 2 * h.k < i → mdata.nserv i = 0
  limits_end : ∀ i, 2 * h.k < i → mdata.offs i = 0

def Stops (b j : Nat) : Prop := j = h.k ∨ b ≤ h.limit j

instance (b j : Nat) : Decidable (h.Stops b j) := inferInstanceAs (Decidable (_ ∨ _))

theorem stops_somewhere (b : Nat) : ∃ j, h.Stops b j := ⟨h.k, Or.inl rfl⟩

def segment (b : Nat) : Nat := Nat.find (h.stops_somewhere b)

def innerBlock (b : Nat) : Nat → Nat
  | 0 => b
  | j + 1 => b - h.limit j - 1 + h.lines j

def slotIn (j b r : Nat) : Nat := slot (h.level + 1) (h.innerBlock b j) r

def base : Nat → Nat
  | 0 => 0
  | j + 1 => base j + (h.slotIn j (h.limit j) h.level / (h.n - j) + 1)

def spot (j q : Nat) : Nat × Nat := (h.base j + q / (h.n - j), bin (h.n - j) h.first q)

/-- What removal `j` does to copy `r` of a block, given where it is. -/
def shift (j r : Nat) (place : Nat × Nat) : Nat × Nat :=
  if place.2 = h.removed j then h.spot (j + 1) (slot (h.level + 1) place.1 r)
  else if h.removed j < place.2 then (place.1, place.2 - 1)
  else place

/-- Where copy `r` of block `b` is after `j` removals. -/
def settled (b r : Nat) : Nat → Nat × Nat
  | 0 => h.spot 0 (h.slotIn 0 b r)
  | j + 1 => if h.segment b ≤ j then h.shift j r (settled b r j) else h.spot (j + 1) (h.slotIn (j + 1) b r)

def place (b r : Nat) : Nat × Nat := h.settled b r h.k

variable {h}

theorem servers_pos {j : Nat} (inside : j ≤ h.k) : 0 < h.n - j := by
  have := h.fits
  omega

theorem segment_le (b : Nat) : h.segment b ≤ h.k := Nat.find_le (Or.inl rfl)

theorem segment_stops (b : Nat) : h.Stops b (h.segment b) := Nat.find_spec (h.stops_somewhere b)

theorem not_stops {b j : Nat} (before : j < h.segment b) : ¬h.Stops b j := Nat.find_min (h.stops_somewhere b) before

theorem limit_lt {b j : Nat} (before : j < h.segment b) : h.limit j < b := by
  have goes_on := not_stops before
  simp only [Stops, not_or, not_le] at goes_on
  exact goes_on.2

theorem limit_pos {j : Nat} (inside : j < h.k) : 0 < h.limit j := by
  induction j with
  | zero => exact h.positive inside
  | succ j ih => exact lt_trans (ih (by omega)) (h.ordered j inside)

theorem settled_segment (b r : Nat) : h.settled b r (h.segment b) = h.spot (h.segment b) (h.slotIn (h.segment b) b r) := by
  cases found : h.segment b with
  | zero => rfl
  | succ j => rw [settled, if_neg (by omega)]

theorem settled_succ {b j : Nat} (r : Nat) (reached : h.segment b ≤ j) :
    h.settled b r (j + 1) = h.shift j r (h.settled b r j) := by
  rw [settled, if_pos reached]

namespace Describes
variable {mdata : XpnMetadata} (describes : h.Describes mdata)
include describes

theorem nserv_pos {j : Nat} (inside : j ≤ h.k) : 0 < mdata.nserv (2 * j) := by
  rw [describes.servers j inside]
  exact Int.natCast_pos.mpr (servers_pos inside)

theorem nserv_neg {j : Nat} (inside : j < h.k) : mdata.nserv (2 * j + 1) < 0 := by
  rw [describes.leavers j inside]
  omega

theorem isShrink_succ {j : Nat} (inside : j < h.k) : mdata.isShrink (2 * (j + 1)) = true := by
  have := describes.nserv_neg inside
  have index : 2 * (j + 1) - 1 = 2 * j + 1 := by omega
  simp only [XpnMetadata.isShrink, index, Bool.and_eq_true, decide_eq_true_eq]
  omega

theorem isShrink_odd {j : Nat} (inside : j ≤ h.k) : mdata.isShrink (2 * j + 1) = false := by
  have := describes.nserv_pos inside
  simp only [XpnMetadata.isShrink, Nat.add_sub_cancel, Bool.and_eq_false_iff, decide_eq_false_iff_not]
  omega

private theorem haveGreatterShrink_before {fuel j : Nat} (inside : j < h.k) :
    mdata.haveGreatterShrink (fuel + 2) (2 * j) = true := by
  have here := describes.nserv_pos (le_of_lt inside)
  have next := describes.nserv_neg inside
  rw [XpnMetadata.haveGreatterShrink, if_neg here.ne', XpnMetadata.haveGreatterShrink, if_neg next.ne]
  simp [next]

theorem inSegment_iff {b j : Nat} (inside : j ≤ h.k) (reached : j ≤ h.segment b) :
    mdata.inSegment b (2 * j) = true ↔ h.Stops b j := by
  have after : mdata.offs (2 * j) < b ∨ (b : Int) = 0 := by
    cases j with
    | zero =>
      rw [Nat.mul_zero, describes.start]
      omega
    | succ j =>
      have past := limit_lt (Nat.lt_of_succ_le reached)
      rw [show 2 * (j + 1) = 2 * j + 2 by omega, describes.limits j (by omega)]
      omega
  have limit_eq : (if 0 < mdata.nserv (2 * j + 1) then mdata.offs (2 * j + 1) else mdata.offs (2 * j + 2)) =
      if j = h.k then 0 else (h.limit j : Int) := by
    by_cases last : j = h.k
    · rw [if_pos last, describes.servers_end _ (by omega), if_neg (by omega), describes.limits_end _ (by omega)]
    · rw [if_neg last, if_neg (describes.nserv_neg (by omega)).not_gt, describes.limits j (by omega)]
  simp only [XpnMetadata.inSegment, limit_eq, Bool.and_eq_true, Bool.or_eq_true, decide_eq_true_eq, beq_iff_eq, after,
    true_and, Stops]
  by_cases last : j = h.k
  · simp [last]
  · have := limit_pos (by omega : j < h.k)
    simp only [last, if_false, false_or, Nat.cast_le]
    omega

private theorem prevSegment_succ {j : Nat} (inside : j < h.k) :
    mdata.prevSegment (2 * (j + 1)) = (((h.n - j : Nat) : Int), ((h.innerBlock (h.limit j) j : Nat) : Int)) := by
  have back : 2 * (j + 1) - 2 = 2 * j := by omega
  have upper := describes.limits j inside
  have servers := describes.servers j (le_of_lt inside)
  have shrinks := describes.isShrink_succ inside
  rw [show 2 * (j + 1) = 2 * j + 2 by omega] at shrinks back ⊢
  simp only [XpnMetadata.prevSegment, shrinks, if_true, back, servers, upper]
  rw [if_pos (by omega)]
  congr 1
  cases j with
  | zero => simp [innerBlock]
  | succ j =>
    have order := h.ordered j inside
    have lower := describes.limits j (by omega)
    have leaver := describes.nserv_neg (by omega : j < h.k)
    have moved := describes.moved j (by omega)
    have index : 2 * (j + 1) + 2 - (2 + 1) = 2 * j + 1 := by omega
    rw [if_neg (by omega), index, if_pos ⟨by omega, leaver⟩, moved, show 2 * (j + 1) = 2 * j + 2 by omega, lower, innerBlock]
    omega

private theorem segmentLines (j : Nat) (b : Nat) :
    (xpnCalculateBlock mdata.blockSize mdata.replicationLevel ((h.n - j : Nat) : Int) (b * mdata.blockSize)
      mdata.replicationLevel mdata.firstNode).1 = ((slot (h.level + 1) b h.level / (h.n - j) * h.bs : Nat) : Int) := by
  have whole : (b : Int) * h.bs = ((b * h.bs : Nat) : Int) := (Nat.cast_mul _ _).symm
  rw [describes.blockSize, describes.replicationLevel, describes.firstNode, whole, xpnCalculateBlock_ofNat]
  simp only [Nat.mul_div_cancel _ h.bs_pos, Nat.mul_mod_left, Nat.add_zero]

private theorem substractOffset_eq {decoder : Decoder} {s l : Int} (natural : 0 ≤ s) {i : Nat} (inside : i ≤ 2 * h.k) :
    substractOffset mdata decoder s l i = l := by
  induction i with
  | zero => rfl
  | succ i ih =>
    have rest := ih (by omega)
    rw [substractOffset]
    rcases Nat.even_or_odd' (i + 1) with ⟨j, even | odd⟩
    · obtain ⟨j, rfl⟩ := Nat.exists_eq_succ_of_ne_zero (by omega : j ≠ 0)
      have notJoined : ¬(3 ≤ 2 * (j + 1) ∧ 0 < mdata.nserv (2 * (j + 1) - 3) ∧ s = mdata.nserv (2 * (j + 1)) - 1) := by
        rintro ⟨later, joined, -⟩
        have leaver := describes.nserv_neg (by omega : j - 1 < h.k)
        rw [show 2 * (j + 1) - 3 = 2 * (j - 1) + 1 by omega] at joined
        omega
      rw [even, if_neg (describes.nserv_pos (by omega)).ne', describes.isShrink_succ (by omega), if_pos rfl, if_neg notJoined,
        rest]
    · have leaver := describes.nserv_neg (by omega : j < h.k)
      rw [odd, if_neg leaver.ne, describes.isShrink_odd (by omega), if_neg (by decide), if_neg (by omega), rest]

end Describes

/-- The decoder before segment `j`: the sums are right, and a block of an earlier
segment is where the removals so far put it. -/
private structure Decoded (h : Shrinking) (p r j : Nat) (decoder : Decoder) : Prop where
  acum : decoder.acumLocalOffset = (h.base (j - 1) * h.bs : Nat)
  bases : ∀ i, i < j ∨ i = 0 → decoder.base (2 * i) = (h.base i * h.bs : Nat)
  index : decoder.actualIndex = if h.segment (p / h.bs) < j then some (2 * h.segment (p / h.bs)) else none
  localOffset : h.segment (p / h.bs) < j →
    decoder.localOffset = ((h.settled (p / h.bs) r (j - 1)).1 * h.bs + p % h.bs : Nat)
  serv : h.segment (p / h.bs) < j → decoder.serv = (h.settled (p / h.bs) r (j - 1)).2

private theorem decoded_initial (p r : Nat) : Decoded h p r 0 Decoder.initial := by
  refine ⟨by simp [Decoder.initial, base], ?_, rfl, fun impossible => absurd impossible (Nat.not_lt_zero _),
    fun impossible => absurd impossible (Nat.not_lt_zero _)⟩
  rintro i (impossible | rfl)
  · omega
  · rw [base, Nat.zero_mul]
    rfl

/-- What `enterSegment` leaves for the rest of the pass. -/
private structure Entered (h : Shrinking) (p r j : Nat) (decoder : Decoder) : Prop where
  acum : decoder.acumLocalOffset = (h.base j * h.bs : Nat)
  bases : ∀ i, i ≤ j → decoder.base (2 * i) = (h.base i * h.bs : Nat)
  index : decoder.actualIndex = if h.segment (p / h.bs) ≤ j then some (2 * h.segment (p / h.bs)) else none
  localOffset : h.segment (p / h.bs) < j →
    decoder.localOffset = ((h.settled (p / h.bs) r (j - 1)).1 * h.bs + p % h.bs : Nat)
  serv : h.segment (p / h.bs) < j → decoder.serv = (h.settled (p / h.bs) r (j - 1)).2

private theorem enterSegment_spec {mdata : XpnMetadata} (describes : h.Describes mdata) {p r j : Nat} {decoder : Decoder}
    (inside : j ≤ h.k) (decoded : Decoded h p r j decoder) :
    Entered h p r j (enterSegment mdata (p / h.bs : Nat) (2 * j) decoder) := by
  have selected : (if decoder.actualIndex.isNone && mdata.inSegment (p / h.bs : Nat) (2 * j) then some (2 * j)
      else decoder.actualIndex) = if h.segment (p / h.bs) ≤ j then some (2 * h.segment (p / h.bs)) else none := by
    rw [decoded.index]
    by_cases earlier : h.segment (p / h.bs) < j
    · simp [earlier, earlier.le]
    · have reached : j ≤ h.segment (p / h.bs) := not_lt.mp earlier
      simp only [if_neg earlier, Option.isNone_none, Bool.true_and, describes.inSegment_iff inside reached]
      by_cases here : j = h.segment (p / h.bs)
      · have stops : h.Stops (p / h.bs) j := here ▸ segment_stops _
        rw [if_pos stops, if_pos here.ge, ← here]
      · rw [if_neg (not_stops (by omega)), if_neg (by omega)]
  cases j with
  | zero =>
    have first : (mdata.prevSegment (2 * 0)).1 = -1 := rfl
    simp only [enterSegment, first, ne_eq, not_true_eq_false, if_false]
    refine ⟨decoded.acum, fun i bound => decoded.bases i (Or.inr (Nat.le_zero.mp bound)), selected, decoded.localOffset,
      decoded.serv⟩
  | succ j =>
    have previous : ((h.n - j : Nat) : Int) ≠ -1 := by omega
    have room : 2 * (j + 1) < maxReconstructions := by
      have := describes.room
      omega
    have sum : decoder.acumLocalOffset +
        (((slot (h.level + 1) (h.innerBlock (h.limit j) j) h.level / (h.n - j) * h.bs : Nat) : Int) + mdata.blockSize) =
          (h.base (j + 1) * h.bs : Nat) := by
      rw [decoded.acum, describes.blockSize, Nat.add_sub_cancel, base, slotIn]
      push_cast
      ring
    simp only [enterSegment, describes.prevSegment_succ (Nat.lt_of_succ_le inside), if_pos previous, describes.segmentLines, sum]
    refine ⟨rfl, fun i bound => ?_, selected, decoded.localOffset, decoded.serv⟩
    simp only [Decoder.base]
    rw [Vector.getElem?_setIfInBounds]
    by_cases last : 2 * (j + 1) = 2 * i
    · obtain rfl : j + 1 = i := by omega
      simp [room]
    · rw [if_neg last]
      exact decoded.bases i (Or.inl (by omega))

private theorem placeInSegment_spec {mdata : XpnMetadata} (describes : h.Describes mdata) {p r j : Nat} {decoder : Decoder}
    (inside : j ≤ h.k) (here : h.segment (p / h.bs) = j) (entered : Entered h p r j decoder) :
    Decoded h p r (j + 1) (placeInSegment mdata p r (2 * j) decoder) := by
  have split := Nat.div_add_mod p h.bs
  have inner : (if 2 * j ≠ 0 then
      if mdata.isShrink (2 * j) then (p : Int) - mdata.blockSize * (mdata.offs (2 * j) + 1) + mdata.blockSize * mdata.offs (2 * j - 1)
      else (p : Int) - mdata.blockSize * (mdata.offs (2 * j) + 1)
      else (p : Int)) = ((h.innerBlock (p / h.bs) j * h.bs + p % h.bs : Nat) : Int) := by
    cases j with
    | zero =>
      rw [if_neg (by omega), innerBlock, Nat.mul_comm, split]
    | succ j =>
      have past : h.limit j < p / h.bs := limit_lt (by omega)
      obtain ⟨rest, block⟩ := Nat.exists_eq_add_of_lt past
      rw [if_pos (by omega), describes.isShrink_succ (by omega), if_pos rfl, show 2 * (j + 1) = 2 * j + 2 by omega,
        describes.limits j (by omega), show 2 * j + 2 - 1 = 2 * j + 1 by omega, describes.moved j (by omega), describes.blockSize,
        innerBlock, show p / h.bs - h.limit j - 1 + h.lines j = rest + h.lines j by omega]
      rw [block] at split
      have whole : (p : Int) = (h.bs : Int) * (h.limit j + rest + 1) + (p % h.bs : Nat) := by
        exact_mod_cast split.symm
      rw [whole]
      push_cast
      ring
  have quotient : (h.innerBlock (p / h.bs) j * h.bs + p % h.bs) / h.bs = h.innerBlock (p / h.bs) j := by
    rw [Nat.mul_comm, Nat.mul_add_div h.bs_pos, Nat.div_eq_of_lt (Nat.mod_lt _ h.bs_pos), Nat.add_zero]
  have remainder : (h.innerBlock (p / h.bs) j * h.bs + p % h.bs) % h.bs = p % h.bs := by
    rw [Nat.mul_comm, Nat.mul_add_mod, Nat.mod_mod]
  have settled := settled_segment (h := h) (p / h.bs) r
  rw [here, spot, slotIn] at settled
  have placed : placeInSegment mdata p r (2 * j) decoder = { decoder with
      localOffset := (((h.base j + slot (h.level + 1) (h.innerBlock (p / h.bs) j) r / (h.n - j)) * h.bs + p % h.bs : Nat) : Int)
      serv := ((bin (h.n - j) h.first (slot (h.level + 1) (h.innerBlock (p / h.bs) j) r) : Nat) : Int) } := by
    simp only [placeInSegment]
    rw [inner, describes.servers j inside, describes.blockSize, describes.replicationLevel, describes.firstNode, xpnCalculateBlock_ofNat,
      quotient, remainder]
    dsimp only
    rw [describes.substractOffset_eq (Int.natCast_nonneg _) (Nat.mul_le_mul_left 2 inside), entered.bases j le_rfl]
    congr 1
    push_cast
    ring
  rw [placed]
  refine ⟨entered.acum, fun i bound => entered.bases i (by omega), ?_, fun _ => ?_, fun _ => ?_⟩
  · rw [entered.index]
    simp only [Nat.lt_succ_iff]
  · rw [Nat.add_sub_cancel, settled]
  · rw [Nat.add_sub_cancel, settled]

private theorem moveForShrink_spec {mdata : XpnMetadata} (describes : h.Describes mdata) {p r j : Nat} {decoder : Decoder}
    (inside : j < h.k) (before : h.segment (p / h.bs) ≤ j) (entered : Entered h p r (j + 1) decoder) :
    Decoded h p r (j + 2) (moveForShrink mdata r (2 * (j + 1)) decoder) := by
  have local_eq := entered.localOffset (Nat.lt_succ_of_le before)
  have serv_eq := entered.serv (Nat.lt_succ_of_le before)
  rw [Nat.add_sub_cancel] at local_eq serv_eq
  have removed : ((mdata.nserv (2 * (j + 1) - 1)).natAbs : Int) - 1 = h.removed j := by
    rw [show 2 * (j + 1) - 1 = 2 * j + 1 by omega, describes.leavers j inside]
    omega
  have notJoined : ∀ serv, ¬(3 ≤ 2 * (j + 1) ∧ 0 < mdata.nserv (2 * (j + 1) - 3) ∧ serv = mdata.nserv (2 * (j + 1)) - 1) := by
    rintro serv ⟨later, joined, -⟩
    have leaver := describes.nserv_neg (by omega : j - 1 < h.k)
    rw [show 2 * (j + 1) - 3 = 2 * (j - 1) + 1 by omega] at joined
    omega
  have settled := settled_succ (h := h) r before
  generalize place_eq : h.settled (p / h.bs) r j = place at *
  have quotient : (place.1 * h.bs + p % h.bs) / h.bs = place.1 := by
    rw [Nat.mul_comm, Nat.mul_add_div h.bs_pos, Nat.div_eq_of_lt (Nat.mod_lt _ h.bs_pos), Nat.add_zero]
  have remainder : (place.1 * h.bs + p % h.bs) % h.bs = p % h.bs := by
    rw [Nat.mul_comm, Nat.mul_add_mod, Nat.mod_mod]
  have moved : moveForShrink mdata r (2 * (j + 1)) decoder = { decoder with
      localOffset := (((h.shift j r place).1 * h.bs + p % h.bs : Nat) : Int)
      serv := (((h.shift j r place).2 : Nat) : Int) } := by
    simp only [moveForShrink, removed, serv_eq, shift]
    by_cases here : place.2 = h.removed j
    · rw [if_pos (congrArg Nat.cast here), if_pos here, local_eq, describes.servers (j + 1) inside, describes.blockSize,
        describes.replicationLevel, describes.firstNode, xpnCalculateBlock_ofNat, quotient, remainder, spot]
      dsimp only
      rw [← describes.servers (j + 1) inside, if_neg (notJoined _), entered.bases (j + 1) le_rfl]
      congr 1
      push_cast
      ring
    · rw [if_neg (fun same => here (by exact_mod_cast same)), if_neg here]
      by_cases above : h.removed j < place.2
      · rw [if_pos (by exact_mod_cast above), if_pos above, ← local_eq]
        congr 1
        omega
      · rw [if_neg (fun less => above (by exact_mod_cast less)), if_neg above, ← local_eq, ← serv_eq]
  rw [moved]
  refine ⟨entered.acum, fun i bound => entered.bases i (by omega), ?_, fun _ => ?_, fun _ => ?_⟩
  · rw [entered.index]
    simp only [Nat.lt_succ_iff]
  · rw [show j + 2 - 1 = j + 1 by omega, settled]
  · rw [show j + 2 - 1 = j + 1 by omega, settled]

private theorem decodeSegment_spec {mdata : XpnMetadata} (describes : h.Describes mdata) {p r j : Nat} {decoder : Decoder}
    (inside : j ≤ h.k) (decoded : Decoded h p r j decoder) : Decoded h p r (j + 1) (decodeSegment mdata p r (2 * j) decoder) := by
  have entered := enterSegment_spec describes inside decoded
  have blockNum : (p : Int).tdiv mdata.blockSize = (p / h.bs : Nat) := by
    rw [describes.blockSize]
    exact (Int.ofNat_tdiv p h.bs).symm
  rw [decodeSegment, blockNum]
  generalize enterSegment mdata (p / h.bs : Nat) (2 * j) decoder = after at *
  have index := entered.index
  rcases Nat.lt_trichotomy (h.segment (p / h.bs)) j with earlier | here | later
  · rw [if_pos earlier.le] at index
    obtain ⟨j, rfl⟩ := Nat.exists_eq_succ_of_ne_zero (by omega : j ≠ 0)
    rw [index, if_neg (fun same => by have := Option.some.inj same; omega), describes.isShrink_succ inside, if_pos rfl]
    exact moveForShrink_spec describes inside (Nat.le_of_lt_succ earlier) entered
  · rw [if_pos here.le, here] at index
    rw [index, if_pos rfl]
    exact placeInSegment_spec describes inside here entered
  · rw [if_neg (not_le.mpr later)] at index
    have waits : Decoded h p r (j + 1) after := by
      refine ⟨entered.acum, fun i bound => entered.bases i (by omega), ?_, fun reached => ?_, fun reached => ?_⟩
      · rw [index, if_neg (by omega)]
      · exact absurd reached (by omega)
      · exact absurd reached (by omega)
    rw [index, if_neg (Option.some_ne_none _).symm]
    cases j with
    | zero =>
      have start : mdata.isShrink (2 * 0) = false := rfl
      rw [start, if_neg Bool.false_ne_true]
      exact waits
    | succ j =>
      -- Nothing is placed yet, so what the removal does to the place is lost.
      rw [describes.isShrink_succ inside, if_pos rfl]
      obtain ⟨sameIndex, sameAcum, sameBases⟩ := Continuity.moveForShrink_index mdata r (2 * (j + 1)) after
      refine ⟨sameAcum.trans waits.acum, fun i bound => ?_, sameIndex.trans waits.index, fun reached => ?_, fun reached => ?_⟩
      · rw [Decoder.base, sameBases]
        exact waits.bases i bound
      · exact absurd reached (by omega)
      · exact absurd reached (by omega)

/-- From segment `j` on the loop ends with the place after all removals. -/
private theorem decodeSegments_spec {mdata : XpnMetadata} (describes : h.Describes mdata) {p r : Nat} : ∀ left j fuel decoder,
    j + left = h.k → 2 * left < fuel → Decoded h p r j decoder →
      Decoded h p r (h.k + 1) (decodeSegments mdata p r fuel (2 * j) decoder) := by
  intro left
  induction left with
  | zero =>
    intro j fuel decoder last enough decoded
    obtain rfl : j = h.k := by omega
    obtain ⟨fuel, rfl⟩ := Nat.exists_eq_succ_of_ne_zero (by omega : fuel ≠ 0)
    have here := describes.nserv_pos le_rfl
    have next := decodeSegment_spec describes le_rfl decoded
    rw [decodeSegments, if_neg here.ne', if_neg here.not_gt]
    dsimp only
    split
    · exact next
    · cases fuel with
      | zero => exact next
      | succ fuel =>
        rw [decodeSegments, if_pos (describes.servers_end _ (by omega))]
        exact next
  | succ left ih =>
    intro j fuel decoder last enough decoded
    have inside : j < h.k := by omega
    obtain ⟨fuel, rfl⟩ := Nat.exists_eq_add_of_le (by omega : 2 ≤ fuel)
    have here := describes.nserv_pos inside.le
    have leaver := describes.nserv_neg inside
    have room := describes.room
    have more : mdata.haveGreatterShrink (maxReconstructions - 2 * j) (2 * j) = true := by
      obtain ⟨rest, count⟩ := Nat.exists_eq_add_of_le (by omega : 2 ≤ maxReconstructions - 2 * j)
      rw [count, Nat.add_comm]
      exact describes.haveGreatterShrink_before inside
    have next := decodeSegment_spec describes inside.le decoded
    rw [show 2 + fuel = (fuel + 1) + 1 by omega, decodeSegments, if_neg here.ne', if_neg here.not_gt]
    dsimp only
    rw [more, if_neg (fun stops => Bool.noConfusion stops.2), decodeSegments, if_neg leaver.ne, if_pos leaver]
    exact ih (j + 1) fuel _ (by omega) (by omega) next

/-- Where the decoder finds a copy of a file that was only shrunk. -/
theorem Describes.calculate {mdata : XpnMetadata} (describes : h.Describes mdata) (removals : 0 < h.k) (p r : Nat) :
    xpnCalculateBlockMdata mdata p r =
      ((((h.place (p / h.bs) r).1 * h.bs + p % h.bs : Nat) : Int), (((h.place (p / h.bs) r).2 : Nat) : Int)) := by
  have leaver := describes.nserv_neg removals
  have room := describes.room
  have decoded := decodeSegments_spec describes h.k 0 maxReconstructions Decoder.initial (Nat.zero_add _) (by omega) (decoded_initial p r)
  have reached : h.segment (p / h.bs) < h.k + 1 := Nat.lt_succ_of_le (segment_le _)
  rw [xpnCalculateBlockMdata, if_neg leaver.ne]
  exact Prod.ext (decoded.localOffset reached) (decoded.serv reached)

end Shrinking

end Xpn.Proofs
