import Mathlib.Data.Nat.Find
import Mathlib.Tactic.Ring
import Xpn.Reconfigure
import Xpn.Proofs.Layout

/-! The decoder on a file that was only expanded. The history is a list of server
counts with the last block of each; the decoder finds the segment of a block, adds
up where the segment starts and takes off what a server that joined later skips. -/

namespace Xpn.Proofs
open Lib.Striping

/-- A history of `k` server counts. `limit i` is the last block before segment `i`. -/
structure Expansion where
  bs : Nat
  level : Nat
  first : Nat
  k : Nat
  n : Nat → Nat
  limit : Nat → Int
  bs_pos : 0 < bs
  fits : level + 1 ≤ n 0
  first_lt : first < n 0
  k_pos : 0 < k
  increasing : ∀ i, i + 1 < k → n i < n (i + 1)
  start : limit 0 = 0

namespace Expansion
variable (e : Expansion)

structure Describes (mdata : XpnMetadata) : Prop where
  magic : xpnCheckMagicNumber mdata = true
  blockSize : mdata.blockSize = e.bs
  replicationLevel : mdata.replicationLevel = e.level
  firstNode : mdata.firstNode = e.first
  room : e.k ≤ maxReconstructions
  servers : ∀ i, i < e.k → mdata.nserv i = e.n i
  limits : ∀ i, i < e.k → mdata.offs i = e.limit i
  servers_end : ∀ i, e.k ≤ i → mdata.nserv i = 0
  limits_end : ∀ i, e.k ≤ i → mdata.offs i = 0

/-- The block belongs to segment `i` unless an earlier one has it. -/
def Stops (b : Int) (i : Nat) : Prop := i + 1 = e.k ∨ b ≤ e.limit (i + 1) ∨ e.limit (i + 1) = 0

instance (b : Int) (i : Nat) : Decidable (e.Stops b i) :=
  inferInstanceAs (Decidable (_ ∨ _ ∨ _))

theorem stops_somewhere (b : Int) : ∃ i, e.Stops b i := ⟨e.k - 1, Or.inl (Nat.succ_pred_eq_of_pos e.k_pos)⟩

def segment (b : Int) : Nat := Nat.find (e.stops_somewhere b)

def lastBlock (i : Nat) : Int := if i = 0 then e.limit 1 else e.limit (i + 1) - e.limit i - 1

def lastLine (i : Nat) : Int := (e.lastBlock i * (e.level + 1) + e.level).tdiv (e.n i)

def base : Nat → Int
  | 0 => 0
  | i + 1 => base i + (e.lastLine i + 1)

def joined (s : Int) : Nat → Int
  | 0 => 0
  | j + 1 => if (e.n j : Int) - 1 < s ∧ s ≤ (e.n (j + 1) : Int) - 1 then e.base (j + 1) else joined s j

def innerBlock (b : Int) (i : Nat) : Int := if i = 0 then b else b - e.limit i - 1

def slotIn (i p r : Nat) : Nat := slot (e.level + 1) (e.innerBlock (p / e.bs : Nat) i).toNat r

def serverIn (i p r : Nat) : Nat := bin (e.n i) e.first (e.slotIn i p r)

def placeIn (i p r : Nat) : Int × Int :=
  (((e.slotIn i p r / e.n i : Nat) + e.base i - e.joined (e.serverIn i p r) i) * e.bs + (p % e.bs : Nat), e.serverIn i p r)

def place (p r : Nat) : Int × Int := e.placeIn (e.segment (p / e.bs : Nat)) p r

variable {e}

theorem n_le {i j : Nat} (order : i ≤ j) (bound : j < e.k) : e.n i ≤ e.n j := by
  induction j with
  | zero => rw [Nat.le_zero.mp order]
  | succ j ih =>
    rcases Nat.lt_or_eq_of_le order with earlier | rfl
    · have := ih (Nat.le_of_lt_succ earlier) (by omega)
      have := e.increasing j bound
      omega
    · exact le_rfl

theorem n_pos {i : Nat} (bound : i < e.k) : 0 < e.n i := by
  have := e.fits
  have := n_le (Nat.zero_le i) bound
  omega

theorem segment_lt (b : Int) : e.segment b < e.k := by
  have last : e.segment b ≤ e.k - 1 := Nat.find_le (Or.inl (Nat.succ_pred_eq_of_pos e.k_pos))
  have := e.k_pos
  omega

theorem segment_stops (b : Int) : e.Stops b (e.segment b) := Nat.find_spec (e.stops_somewhere b)

theorem not_stops {b : Int} {i : Nat} (before : i < e.segment b) : ¬e.Stops b i := Nat.find_min (e.stops_somewhere b) before

theorem limit_lt {b : Int} {i : Nat} (positive : 0 < i) (upto : i ≤ e.segment b) : e.limit i < b := by
  obtain ⟨j, rfl⟩ := Nat.exists_eq_succ_of_ne_zero positive.ne'
  have goes_on := not_stops (Nat.lt_of_succ_le upto)
  unfold Stops at goes_on
  push Not at goes_on
  exact goes_on.2.1

theorem inner_nonneg {b : Int} (natural : 0 ≤ b) {i : Nat} (upto : i ≤ e.segment b) : 0 ≤ e.innerBlock b i := by
  unfold innerBlock
  split
  · exact natural
  next later =>
    have := limit_lt (Nat.pos_of_ne_zero later) upto
    omega

namespace Describes
variable {mdata : XpnMetadata} (describes : e.Describes mdata)
include describes

theorem nserv_nonneg (i : Nat) : 0 ≤ mdata.nserv i := by
  rcases Nat.lt_or_ge i e.k with inside | past
  · rw [describes.servers i inside]
    exact Int.natCast_nonneg _
  · rw [describes.servers_end i past]

theorem nserv_pos {i : Nat} (inside : i < e.k) : 0 < mdata.nserv i := by
  rw [describes.servers i inside]
  exact Int.natCast_pos.mpr (n_pos inside)

theorem isShrink_eq (i : Nat) : mdata.isShrink i = false := by
  have := describes.nserv_nonneg (i - 1)
  simp only [XpnMetadata.isShrink, Bool.and_eq_false_iff, decide_eq_false_iff_not]
  omega

private theorem haveGreatterShrink_eq (fuel j : Nat) : mdata.haveGreatterShrink fuel j = false := by
  induction fuel generalizing j with
  | zero => rfl
  | succ fuel ih =>
    have := describes.nserv_nonneg j
    rw [XpnMetadata.haveGreatterShrink, ih, Bool.or_false]
    split
    · rfl
    · exact decide_eq_false (by omega)

theorem inSegment_iff {b : Int} {i : Nat} (natural : 0 ≤ b) (inside : i < e.k) (reached : i ≤ e.segment b) :
    mdata.inSegment b i = true ↔ e.Stops b i := by
  have after : (mdata.offs i < b ∨ b = 0) := by
    rcases Nat.eq_zero_or_pos i with rfl | positive
    · rw [describes.limits 0 e.k_pos, e.start]
      omega
    · rw [describes.limits i inside]
      exact Or.inl (limit_lt positive reached)
  have limit_eq : (if 0 < mdata.nserv (i + 1) then mdata.offs (i + 1) else mdata.offs (i + 2)) =
      if i + 1 = e.k then 0 else e.limit (i + 1) := by
    by_cases last : i + 1 = e.k
    · rw [if_pos last, describes.servers_end _ (by omega), if_neg (by omega), describes.limits_end _ (by omega)]
    · rw [if_neg last, if_pos (describes.nserv_pos (by omega)), describes.limits _ (by omega)]
  unfold XpnMetadata.inSegment Stops
  simp only [limit_eq, Bool.and_eq_true, Bool.or_eq_true, decide_eq_true_eq, beq_iff_eq, after, true_and]
  by_cases last : i + 1 = e.k
  · simp [last]
  · simp [last]

private theorem prevSegment_zero : (mdata.prevSegment 0).1 = -1 := by
  simp [XpnMetadata.prevSegment, describes.isShrink_eq]

private theorem prevSegment_succ {i : Nat} (inside : i + 1 < e.k) :
    mdata.prevSegment (i + 1) = ((e.n i : Int), e.lastBlock i) := by
  have kept : ¬(2 ≤ i + 1 ∧ mdata.nserv (i + 1 - 2) < 0) := by
    have := describes.nserv_nonneg (i + 1 - 2)
    omega
  have lower := describes.limits i (by omega)
  have upper := describes.limits (i + 1) inside
  have servers := describes.servers i (by omega)
  simp only [XpnMetadata.prevSegment, describes.isShrink_eq, Bool.false_eq_true, if_false, Nat.reduceAdd, if_neg kept,
    Nat.add_sub_cancel, servers, lower, upper, lastBlock, Int.add_zero]
  rw [if_pos (by omega)]
  split
  next zero => subst zero; rfl
  next => rfl

private theorem segmentLines {i : Nat} :
    (xpnCalculateBlock mdata.blockSize mdata.replicationLevel (e.n i) (e.lastBlock i * mdata.blockSize)
      mdata.replicationLevel mdata.firstNode).1 = e.lastLine i * e.bs := by
  have some : (e.bs : Int) ≠ 0 := Int.natCast_ne_zero.mpr e.bs_pos.ne'
  rw [xpnCalculateBlock, describes.blockSize, describes.replicationLevel]
  dsimp only
  rw [Int.mul_tdiv_cancel _ some, Int.mul_tmod_left, Int.add_zero]
  rfl

end Describes

/-- The sums are right for the segments before `i`. -/
private structure Summed (e : Expansion) (i : Nat) (decoder : Decoder) : Prop where
  undecided : decoder.actualIndex = none
  acum : decoder.acumLocalOffset = e.base (i - 1) * e.bs
  bases : ∀ j, j < i ∨ j = 0 → decoder.base j = e.base j * e.bs

private theorem summed_initial : Summed e 0 Decoder.initial := by
  refine ⟨rfl, by simp [Decoder.initial, base], ?_⟩
  rintro j (impossible | rfl)
  · omega
  · rw [base, Int.zero_mul]
    rfl

private theorem enterSegment_spec {mdata : XpnMetadata} (describes : e.Describes mdata) {b : Int} {i : Nat}
    {decoder : Decoder} (natural : 0 ≤ b) (inside : i < e.k) (reached : i ≤ e.segment b) (summed : Summed e i decoder) :
    (enterSegment mdata b i decoder).actualIndex = (if e.Stops b i then some i else none) ∧
      (enterSegment mdata b i decoder).acumLocalOffset = e.base i * e.bs ∧
      ∀ j, j ≤ i → (enterSegment mdata b i decoder).base j = e.base j * e.bs := by
  have selected : (if decoder.actualIndex.isNone && mdata.inSegment b i then some i else decoder.actualIndex) =
      if e.Stops b i then some i else none := by
    rw [summed.undecided]
    simp only [Option.isNone_none, Bool.true_and, describes.inSegment_iff natural inside reached]
  rcases i with - | i
  · unfold enterSegment
    simp only [describes.prevSegment_zero, ne_eq, not_true_eq_false, if_false, selected]
    refine ⟨trivial, summed.acum, fun j bound => ?_⟩
    exact summed.bases j (Or.inr (Nat.le_zero.mp bound))
  · have previous : (e.n i : Int) ≠ -1 := by omega
    have room : i + 1 < maxReconstructions := Nat.lt_of_lt_of_le inside describes.room
    have sum : decoder.acumLocalOffset + (e.lastLine i * e.bs + mdata.blockSize) = e.base (i + 1) * e.bs := by
      rw [summed.acum, describes.blockSize, Nat.add_sub_cancel, base, Int.add_mul, Int.add_mul, Int.one_mul]
    unfold enterSegment
    simp only [describes.prevSegment_succ inside, if_pos previous, describes.segmentLines, sum, selected]
    refine ⟨trivial, trivial, fun j bound => ?_⟩
    unfold Decoder.base
    dsimp only
    rw [Vector.getElem?_setIfInBounds]
    by_cases last : i + 1 = j
    · subst last
      simp [room]
    · rw [if_neg last]
      exact summed.bases j (Or.inl (by omega))

private theorem substractOffset_eq {mdata : XpnMetadata} (describes : e.Describes mdata) {decoder : Decoder} {s l : Int}
    {i : Nat} (inside : i < e.k) (bases : ∀ j, j ≤ i → decoder.base j = e.base j * e.bs) :
    substractOffset mdata decoder s l i = l - e.joined s i * e.bs := by
  induction i with
  | zero => simp [substractOffset, joined]
  | succ i ih =>
    have here := describes.nserv_pos inside
    rw [substractOffset, if_neg here.ne', describes.isShrink_eq, if_neg (by decide), describes.servers i (by omega),
      describes.servers (i + 1) inside, joined, bases (i + 1) le_rfl]
    split
    · rfl
    · exact ih (by omega) fun j bound => bases j (by omega)

private theorem inner_offset {p i : Nat} (reached : i ≤ e.segment (p / e.bs : Nat)) :
    (if i ≠ 0 then (p : Int) - e.bs * (e.limit i + 1) else p) =
      (((e.innerBlock (p / e.bs : Nat) i).toNat * e.bs + p % e.bs : Nat) : Int) := by
  have natural : (0 : Int) ≤ (p / e.bs : Nat) := Int.natCast_nonneg _
  have split : (p : Int) = e.bs * (p / e.bs : Nat) + (p % e.bs : Nat) := by
    exact_mod_cast (Nat.div_add_mod p e.bs).symm
  rw [Nat.cast_add, Nat.cast_mul, Int.toNat_of_nonneg (inner_nonneg natural reached), innerBlock]
  split
  · rw [split]
    ring
  next zero =>
    rw [if_pos (not_not.mp zero), split]
    ring

private theorem placeInSegment_eq {mdata : XpnMetadata} (describes : e.Describes mdata) {decoder : Decoder} {p r i : Nat}
    (inside : i < e.k) (reached : i ≤ e.segment (p / e.bs : Nat))
    (bases : ∀ j, j ≤ i → decoder.base j = e.base j * e.bs) :
    (placeInSegment mdata p r i decoder).localOffset = (e.placeIn i p r).1 ∧
      (placeInSegment mdata p r i decoder).serv = (e.placeIn i p r).2 := by
  have offset_eq := inner_offset (e := e) (p := p) reached
  have limit := describes.limits i inside
  generalize c_eq : (e.innerBlock (p / e.bs : Nat) i).toNat = c at offset_eq
  have block : (c * e.bs + p % e.bs) / e.bs = c := by
    rw [Nat.mul_comm, Nat.mul_add_div e.bs_pos, Nat.div_eq_of_lt (Nat.mod_lt _ e.bs_pos), Nat.add_zero]
  have rest : (c * e.bs + p % e.bs) % e.bs = p % e.bs := by
    rw [Nat.mul_comm, Nat.mul_add_mod, Nat.mod_mod]
  have calculated := xpnCalculateBlock_ofNat e.bs e.level (e.n i) (c * e.bs + p % e.bs) r e.first
  rw [block, rest] at calculated
  have slot_eq : e.slotIn i p r = slot (e.level + 1) c r := by rw [slotIn, c_eq]
  unfold placeInSegment
  simp only [describes.isShrink_eq, Bool.false_eq_true, if_false, describes.blockSize, describes.replicationLevel,
    describes.firstNode, describes.servers i inside, limit, offset_eq, calculated, bases i le_rfl,
    substractOffset_eq describes inside bases, placeIn, serverIn, slot_eq]
  refine ⟨?_, trivial⟩
  push_cast
  ring

private theorem decodeSegments_spec {mdata : XpnMetadata} (describes : e.Describes mdata) (p r : Nat) :
    ∀ fuel i decoder, e.k ≤ i + fuel → i ≤ e.segment (p / e.bs : Nat) → Summed e i decoder →
      (decodeSegments mdata p r fuel i decoder).localOffset = (e.place p r).1 ∧
        (decodeSegments mdata p r fuel i decoder).serv = (e.place p r).2 := by
  have block : (p : Int).tdiv mdata.blockSize = ((p / e.bs : Nat) : Int) := by
    rw [describes.blockSize]
    rfl
  intro fuel
  induction fuel with
  | zero =>
    intro i decoder enough reached _
    have := segment_lt (e := e) (p / e.bs : Nat)
    omega
  | succ fuel ih =>
    intro i decoder enough reached summed
    have inside : i < e.k := Nat.lt_of_le_of_lt reached (segment_lt _)
    have present := describes.nserv_pos inside
    obtain ⟨selected, acum, bases⟩ :=
      enterSegment_spec describes (Int.natCast_nonneg (p / e.bs)) inside reached summed
    rw [decodeSegments, if_neg present.ne', if_neg present.not_gt]
    unfold decodeSegment
    rw [block, describes.isShrink_eq, describes.haveGreatterShrink_eq]
    by_cases stops : e.Stops (p / e.bs : Nat) i
    · have here : i = e.segment (p / e.bs : Nat) := by
        by_contra different
        exact not_stops (by omega) stops
      rw [if_pos stops] at selected
      dsimp only
      rw [if_pos selected]
      have kept : (placeInSegment mdata p r i (enterSegment mdata (p / e.bs : Nat) i decoder)).actualIndex = some i := selected
      simp only [kept, and_self, if_true]
      rw [place, ← here]
      exact placeInSegment_eq describes inside reached bases
    · have later : i ≠ e.segment (p / e.bs : Nat) := by
        rintro rfl
        exact stops (segment_stops _)
      rw [if_neg stops] at selected
      simp only [selected, reduceCtorEq, if_false, false_and, Bool.false_eq_true]
      exact ih (i + 1) _ (by omega) (by omega) ⟨selected, acum, fun j bound => bases j (by omega)⟩

/-- The decoder places every byte by its segment. -/
theorem Describes.calculate {mdata : XpnMetadata} (describes : e.Describes mdata) (p r : Nat) :
    xpnCalculateBlockMdata mdata p r = e.place p r := by
  unfold xpnCalculateBlockMdata
  split
  next plain =>
    have single : e.k = 1 := by
      by_contra more
      have := describes.nserv_pos (i := 1) (by have := e.k_pos; omega)
      omega
    have zero : e.segment (p / e.bs : Nat) = 0 := by
      have := segment_lt (e := e) (p / e.bs : Nat)
      omega
    rw [describes.blockSize, describes.replicationLevel, describes.firstNode, describes.servers 0 e.k_pos,
      xpnCalculateBlock_ofNat, place, zero]
    simp only [placeIn, serverIn, slotIn, innerBlock, if_true, Int.toNat_natCast, joined, base]
    push_cast
    ring_nf
  next =>
    obtain ⟨localOffset, serv⟩ := decodeSegments_spec describes p r maxReconstructions 0 Decoder.initial
      (by have := describes.room; omega) (Nat.zero_le _) summed_initial
    exact Prod.ext localOffset serv

end Expansion

end Xpn.Proofs
