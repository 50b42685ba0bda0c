import Xpn.Proofs.MetadataPlaces
import Xpn.Proofs.ExpandTool
import Xpn.Proofs.ShrinkPlaces

/-! What `xpn_shrink` writes into the metadata. It goes on from the end of the file until it has
passed a copy on every server, and back from there to the last one on the server that leaves, so
the lines it records are all that server had. -/

namespace Xpn.Proofs
open Lib.Striping ElementaryRequests

namespace Shrinking
variable {h : Shrinking} {mdata mdata' : XpnMetadata} {b r : Nat}

/-- The block lies behind all removals. -/
def Beyond (h : Shrinking) (b : Nat) : Prop := ∀ j, j + 1 = h.k → h.limit j < b

theorem limit_mono {i j : Nat} (before : i ≤ j) (inside : j < h.k) : h.limit i ≤ h.limit j := by
  induction j, before using Nat.le_induction with
  | base => exact le_rfl
  | succ j _ ih => exact (ih (by omega)).trans (h.ordered j inside).le

theorem segment_of_beyond (beyond : h.Beyond b) : h.segment b = h.k := by
  by_contra other
  have early : h.segment b < h.k := Nat.lt_of_le_of_ne (segment_le b) other
  have before : b ≤ h.limit (h.segment b) := (segment_stops b).resolve_left other
  have last := beyond (h.k - 1) (by omega)
  have grows := limit_mono (h := h) (by omega : h.segment b ≤ h.k - 1) (by omega)
  omega

theorem innerBlock_mono {b' : Nat} (before : b ≤ b') (j : Nat) : h.innerBlock b j ≤ h.innerBlock b' j := by
  cases j with
  | zero => exact before
  | succ j =>
    simp only [innerBlock]
    omega

theorem innerBlock_succ (beyond : h.Beyond b) : h.innerBlock (b + 1) h.k = h.innerBlock b h.k + 1 := by
  cases count : h.k with
  | zero => rfl
  | succ j =>
    have behind := beyond j count.symm
    simp only [innerBlock]
    omega

abbrev lastSlot (h : Shrinking) (b r : Nat) : Nat := h.slotIn h.k b r

theorem lastSlot_next (beyond : h.Beyond b) : h.lastSlot (b + 1) 0 = h.lastSlot b h.level + 1 := by
  simp only [lastSlot, slotIn, slot, innerBlock_succ beyond, Nat.add_mul]
  omega

theorem lastSlot_copy (b r : Nat) : h.lastSlot b r = h.lastSlot b 0 + r := by
  simp only [lastSlot, slotIn, slot]
  omega

theorem Describes.calculate_block (describes : h.Describes mdata) (b r : Nat) :
    xpnCalculateBlockMdata mdata (b * mdata.blockSize) r =
      ((((h.place b r).1 * h.bs : Nat) : Int), (((h.place b r).2 : Nat) : Int)) := by
  have whole : (b : Int) * mdata.blockSize = ((b * h.bs : Nat) : Int) := by
    rw [describes.blockSize]
    push_cast
    rfl
  rw [whole, describes.calculate_any, Nat.mul_div_cancel _ h.bs_pos, Nat.mul_mod_left, Nat.add_zero]

theorem Describes.calculate_beyond (describes : h.Describes mdata) (beyond : h.Beyond b) (r : Nat) :
    xpnCalculateBlockMdata mdata (b * mdata.blockSize) r =
      ((((h.base h.k + h.lastSlot b r / (h.n - h.k)) * h.bs : Nat) : Int),
        ((bin (h.n - h.k) h.first (h.lastSlot b r) : Nat) : Int)) := by
  have place : h.place b r = h.spot h.k (h.lastSlot b r) := by
    have settled := settled_segment (h := h) b r
    rw [segment_of_beyond beyond] at settled
    exact settled
  rw [describes.calculate_block, place]
  rfl

private theorem ends_unique {first node node' nserv : Int} (ends : XpnShrink.isPrevFirstNode first node nserv = true)
    (ends' : XpnShrink.isPrevFirstNode first node' nserv = true) : node = node' := by
  simp only [XpnShrink.isPrevFirstNode, Bool.or_eq_true, Bool.and_eq_true, beq_iff_eq, bne_iff_ne] at ends ends'
  omega

/-- The tool stops a whole line behind the first end of a line, or when its steps are used up. -/
theorem advanceBlock_spec (describes : h.Describes mdata) : ∀ fuel start b r seen, h.Beyond b → r ≤ h.level →
    (seen = true → start < h.lastSlot b r ∧
      XpnShrink.isPrevFirstNode mdata.firstNode (bin (h.n - h.k) h.first start : Nat) (h.n - h.k : Nat) = true) →
    ∃ last : Nat, XpnShrink.advanceBlock mdata (h.n - h.k : Nat) fuel b r seen = last ∧ b ≤ last ∧
      min ((if seen then start else h.lastSlot b r) + (h.n - h.k)) (h.lastSlot b r + fuel) ≤ h.lastSlot last h.level := by
  intro fuel
  induction fuel with
  | zero =>
    intro start b r seen _ copy _
    have here := lastSlot_copy (h := h) b r
    have block := lastSlot_copy (h := h) b h.level
    exact ⟨b, rfl, le_rfl, (Nat.min_le_right _ _).trans (by omega)⟩
  | succ fuel ih =>
    intro start b r seen beyond copy first
    have here := lastSlot_copy (h := h) b r
    have block := lastSlot_copy (h := h) b h.level
    have next := lastSlot_next beyond
    have level := describes.replicationLevel
    -- The copy after this one has the next slot.
    have onward : ∀ start' seen', (seen' = true → start' < h.lastSlot b r + 1 ∧
        XpnShrink.isPrevFirstNode mdata.firstNode (bin (h.n - h.k) h.first start' : Nat) (h.n - h.k : Nat) = true) →
        ∃ last : Nat, (if mdata.replicationLevel < (r : Int) + 1 then
            XpnShrink.advanceBlock mdata (h.n - h.k : Nat) fuel ((b : Int) + 1) 0 seen'
          else XpnShrink.advanceBlock mdata (h.n - h.k : Nat) fuel b ((r : Int) + 1) seen') = last ∧ b ≤ last ∧
          min ((if seen' then start' else h.lastSlot b r + 1) + (h.n - h.k))
            (h.lastSlot b r + 1 + fuel) ≤ h.lastSlot last h.level := by
      intro start' seen' first'
      split
      next ends =>
        obtain rfl : r = h.level := by omega
        have further : h.Beyond (b + 1) := fun j last => (beyond j last).trans (Nat.lt_succ_self b)
        rw [← next] at first' ⊢
        obtain ⟨last, found, later, passed⟩ := ih start' (b + 1) 0 seen' further (Nat.zero_le _) first'
        exact ⟨last, found, by omega, passed⟩
      next =>
        have copies : h.lastSlot b (r + 1) = h.lastSlot b r + 1 := by
          rw [lastSlot_copy b (r + 1)]
          omega
        rw [← copies] at first' ⊢
        exact ih start' b (r + 1) seen' beyond (by omega) first'
    simp only [XpnShrink.advanceBlock, describes.calculate_beyond beyond]
    generalize ended : XpnShrink.isPrevFirstNode mdata.firstNode (bin (h.n - h.k) h.first (h.lastSlot b r) : Nat)
      (h.n - h.k : Nat) = ends
    cases ends with
    | false =>
      cases seen with
      | false =>
        obtain ⟨last, found, later, passed⟩ := onward start false (fun impossible => Bool.noConfusion impossible)
        refine ⟨last, found, later, le_trans ?_ passed⟩
        simp only [Bool.false_eq_true, if_false]
        omega
      | true =>
        obtain ⟨before, line⟩ := first rfl
        obtain ⟨last, found, later, passed⟩ := onward start true (fun _ => ⟨by omega, line⟩)
        refine ⟨last, found, later, le_trans ?_ passed⟩
        simp only [if_true]
        omega
    | true =>
      cases seen with
      | false =>
        obtain ⟨last, found, later, passed⟩ := onward (h.lastSlot b r) true (fun _ => ⟨by omega, ended⟩)
        refine ⟨last, found, later, le_trans ?_ passed⟩
        simp only [Bool.false_eq_true, if_false, if_true]
        omega
      | true =>
        obtain ⟨before, line⟩ := first rfl
        have servers : bin (h.n - h.k) h.first (h.lastSlot b r) = bin (h.n - h.k) h.first start :=
          Int.ofNat_inj.mp (ends_unique ended line)
        have rows : start + (h.n - h.k) ≤ h.lastSlot b r :=
          Nat.ModEq.add_le_of_lt (mod_eq_of_bin_eq servers.symm) before
        refine ⟨b, rfl, le_rfl, (Nat.min_le_left _ _).trans ?_⟩
        simp only [if_true]
        omega

theorem Beyond.later {start : Nat} (beyond : h.Beyond start) (later : start ≤ b) : h.Beyond b := fun j last =>
  (beyond j last).trans_le later

/-- Going back copy by copy ends at the last slot of the server. -/
theorem lastLocalOffset_spec (describes : h.Describes mdata) {start s : Nat} (beyond : h.Beyond start) :
    ∀ fuel k b r (localOffset : Int), k < fuel → r ≤ h.level → start ≤ b → h.lastSlot start 0 + k ≤ h.lastSlot b r →
      bin (h.n - h.k) h.first (h.lastSlot b r - k) = s →
      ∃ q, XpnShrink.lastLocalOffset mdata s fuel b r localOffset = (((h.base h.k + q / (h.n - h.k)) * h.bs : Nat) : Int) ∧
        ∀ q', q' ≤ h.lastSlot b r → bin (h.n - h.k) h.first q' = s → q' ≤ q := by
  intro fuel
  induction fuel with
  | zero => omega
  | succ fuel ih =>
    intro k b r localOffset enough copy later bound found
    simp only [XpnShrink.lastLocalOffset, describes.calculate_beyond (beyond.later later)]
    split
    next here => exact ⟨_, rfl, fun q' before _ => before⟩
    next other =>
      have elsewhere : bin (h.n - h.k) h.first (h.lastSlot b r) ≠ s := fun same => other (congrArg Nat.cast same)
      have some : k ≠ 0 := by
        rintro rfl
        exact elsewhere found
      -- The copy before this one has the slot before.
      have before : ∀ {b' r' : Nat} (localOffset : Int), r' ≤ h.level → start ≤ b' → h.lastSlot b' r' + 1 = h.lastSlot b r →
          ∃ q, XpnShrink.lastLocalOffset mdata s fuel b' r' localOffset =
              (((h.base h.k + q / (h.n - h.k)) * h.bs : Nat) : Int) ∧
            ∀ q', q' ≤ h.lastSlot b r → bin (h.n - h.k) h.first q' = s → q' ≤ q := by
        intro b' r' localOffset copy' later' previous
        have back : h.lastSlot b' r' - (k - 1) = h.lastSlot b r - k := by omega
        obtain ⟨q, result, last⟩ := ih (k - 1) b' r' localOffset (by omega) copy' later' (by omega)
          (by rw [back]; exact found)
        refine ⟨q, result, fun q' bound' same => last q' ?_ same⟩
        have apart : q' ≠ h.lastSlot b r := by
          rintro rfl
          exact elsewhere same
        omega
      split
      next first =>
        obtain rfl : r = 0 := by omega
        have further : start < b := by
          apply Nat.lt_of_le_of_ne later
          rintro rfl
          omega
        have next := lastSlot_next (beyond.later (by omega : start ≤ b - 1))
        rw [Nat.sub_add_cancel (by omega : 1 ≤ b)] at next
        rw [show (b : Int) - 1 = ((b - 1 : Nat) : Int) by omega, describes.replicationLevel]
        exact before _ le_rfl (by omega) next.symm
      next =>
        have here := lastSlot_copy (h := h) b r
        have previous := lastSlot_copy (h := h) b (r - 1)
        rw [show (r : Int) - 1 = ((r - 1 : Nat) : Int) by omega]
        exact before _ (by omega) later (by omega)

def leave (h : Shrinking) (server lines last : Nat) (stays : h.level + 1 + (h.k + 1) ≤ h.n) (some : 0 < last)
    (beyond : h.Beyond last) : Shrinking where
  bs := h.bs
  level := h.level
  first := h.first
  n := h.n
  k := h.k + 1
  removed := Function.update h.removed h.k server
  lines := Function.update h.lines h.k lines
  limit := Function.update h.limit h.k last
  bs_pos := h.bs_pos
  fits := stays
  positive := by
    intro _
    rcases Nat.eq_zero_or_pos h.k with none | earlier
    · rw [none, Function.update_self]
      exact some
    · rw [Function.update_of_ne earlier.ne]
      exact h.positive earlier
  ordered := by
    intro j inside
    rw [Function.update_of_ne (by omega : j ≠ h.k)]
    rcases Nat.lt_or_ge (j + 1) h.k with earlier | here
    · rw [Function.update_of_ne earlier.ne]
      exact h.ordered j earlier
    · obtain here : j + 1 = h.k := by omega
      rw [here, Function.update_self]
      exact beyond j here

section
variable {server lines last : Nat} {stays : h.level + 1 + (h.k + 1) ≤ h.n} {some : 0 < last}
    {beyond : h.Beyond last} {j : Nat}

private theorem leave_limit (before : j < h.k) : (h.leave server lines last stays some beyond).limit j = h.limit j :=
  Function.update_of_ne before.ne _ _

private theorem leave_lines (before : j < h.k) : (h.leave server lines last stays some beyond).lines j = h.lines j :=
  Function.update_of_ne before.ne _ _

private theorem leave_removed (before : j < h.k) : (h.leave server lines last stays some beyond).removed j = h.removed j :=
  Function.update_of_ne before.ne _ _

private theorem leave_innerBlock (b : Nat) (inside : j ≤ h.k) :
    (h.leave server lines last stays some beyond).innerBlock b j = h.innerBlock b j := by
  cases j with
  | zero => rfl
  | succ j => rw [innerBlock, innerBlock, leave_limit (by omega), leave_lines (by omega)]

private theorem leave_slotIn (b r : Nat) (inside : j ≤ h.k) :
    (h.leave server lines last stays some beyond).slotIn j b r = h.slotIn j b r := by
  rw [slotIn, slotIn, leave_innerBlock b inside]
  rfl

private theorem leave_base (inside : j ≤ h.k) : (h.leave server lines last stays some beyond).base j = h.base j := by
  induction j with
  | zero => rfl
  | succ j ih =>
    rw [base, base, ih (by omega), leave_slotIn _ _ (by omega), leave_limit (by omega)]
    rfl

private theorem leave_spot (q : Nat) (inside : j ≤ h.k) : (h.leave server lines last stays some beyond).spot j q =
    h.spot j q := by
  rw [spot, spot, leave_base inside]
  rfl

private theorem leave_segment (b : Nat) (inside : j < h.k) :
    (h.leave server lines last stays some beyond).segment b ≤ j ↔ h.segment b ≤ j := by
  rw [segment, segment, Nat.find_le_iff, Nat.find_le_iff]
  apply exists_congr
  intro m
  apply and_congr_right
  intro early
  have before : m < h.k := by omega
  have far : m ≠ h.k + 1 := by omega
  rw [Stops, Stops, leave_limit before]
  exact or_congr_left (iff_of_false far before.ne)

private theorem leave_settled (b r : Nat) (inside : j ≤ h.k) :
    (h.leave server lines last stays some beyond).settled b r j = h.settled b r j := by
  induction j with
  | zero =>
    rw [settled, settled, leave_slotIn b r (Nat.zero_le _), leave_spot _ (Nat.zero_le _)]
  | succ j ih =>
    have earlier : j < h.k := by omega
    rw [settled, settled, ih (by omega), leave_slotIn b r inside, leave_spot _ inside, shift, shift, leave_removed earlier,
      leave_spot _ inside]
    by_cases reached : h.segment b ≤ j
    · rw [if_pos reached, if_pos ((leave_segment b earlier).mpr reached)]
      rfl
    · rw [if_neg reached, if_neg (fun early => reached ((leave_segment b earlier).mp early))]

private theorem leave_place (before : b ≤ last) (elsewhere : (h.place b r).2 ≠ server) :
    (h.leave server lines last stays some beyond).place b r =
      ((h.place b r).1, if server < (h.place b r).2 then (h.place b r).2 - 1 else (h.place b r).2) := by
  have limit : (h.leave server lines last stays some beyond).limit h.k = last := Function.update_self _ _ _
  have gone : (h.leave server lines last stays some beyond).removed h.k = server := Function.update_self _ _ _
  have reached : (h.leave server lines last stays some beyond).segment b ≤ h.k :=
    Nat.find_min' _ (Or.inr (before.trans limit.ge))
  change (h.leave server lines last stays some beyond).settled b r (h.k + 1) = _
  rw [settled_succ r reached, leave_settled b r le_rfl, shift_stays (by rw [gone]; exact elsewhere), gone]
  change (if server < (h.place b r).2 then ((h.place b r).1, (h.place b r).2 - 1) else h.place b r) = _
  split
  · rfl
  · rfl

end

def Inside (h : Shrinking) : Prop := ∀ j, j < h.k → h.removed j < h.n - j

private theorem leave_inside (leavers : h.Inside) {server lines last : Nat} {stays : h.level + 1 + (h.k + 1) ≤ h.n}
    {some : 0 < last} {beyond : h.Beyond last} (inside : server < h.n - h.k) :
    (h.leave server lines last stays some beyond).Inside := by
  intro j early
  have early : j < h.k + 1 := early
  rcases Nat.lt_or_ge j h.k with earlier | here
  · rw [leave_removed earlier]
    exact leavers j earlier
  · obtain rfl : j = h.k := by omega
    exact (Function.update_self h.k server h.removed).trans_lt inside

/-- Up to block `last` a copy has a slot among those of the last segment, or is before it. -/
private theorem settled_cases (recorded : h.Recorded) {last : Nat} (copy : r ≤ h.level) (before : b ≤ last) :
    (∃ q, q ≤ h.lastSlot last h.level ∧ h.settled b r h.k = h.spot h.k q) ∨ (h.settled b r h.k).1 < h.base h.k := by
  rcases Nat.lt_or_ge (h.segment b) h.k with early | here
  · obtain ⟨j, count⟩ := Nat.exists_eq_succ_of_ne_zero (by omega : h.k ≠ 0)
    have reached : h.segment b ≤ j := by omega
    have line := settled_lt_base recorded copy j (by omega) reached
    rw [lastSlot, count, settled_succ r reached]
    by_cases leaves : (h.settled b r j).2 = h.removed j
    · have moved := recorded j (by omega) b r copy reached leaves
      refine Or.inl ⟨_, slot_le ?_ (Nat.lt_succ_of_le copy), shift_leaves leaves⟩
      simp only [innerBlock]
      omega
    · refine Or.inr ?_
      rw [shift_line leaves]
      exact line
  · have found : h.segment b = h.k := Nat.le_antisymm (segment_le b) here
    have settled := settled_segment (h := h) b r
    rw [found] at settled
    exact Or.inl ⟨_, slot_le (innerBlock_mono before h.k) (Nat.lt_succ_of_le copy), settled⟩

/-- When the recorded lines are behind the last copy on the server that leaves. -/
private theorem leave_recorded (recorded : h.Recorded) {server lines last q : Nat} {stays : h.level + 1 + (h.k + 1) ≤ h.n}
    {some : 0 < last} {beyond : h.Beyond last} (covers : lines = h.base h.k + q / (h.n - h.k) + 1)
    (final : ∀ q', q' ≤ h.lastSlot last h.level → bin (h.n - h.k) h.first q' = server → q' ≤ q) :
    (h.leave server lines last stays some beyond).Recorded := by
  intro j inside b r copy reached leaves
  have inside : j < h.k + 1 := inside
  rcases Nat.lt_or_ge j h.k with earlier | here
  · rw [leave_settled b r earlier.le] at leaves ⊢
    rw [leave_removed earlier] at leaves
    rw [leave_lines earlier]
    exact recorded j earlier b r copy ((leave_segment b earlier).mp reached) leaves
  · obtain rfl : j = h.k := by omega
    have before : b ≤ last := by
      have stops := segment_stops (h := h.leave server lines last stays some beyond) b
      have limit := stops.resolve_left (by
        intro same
        have counted : (h.leave server lines last stays some beyond).segment b = h.k + 1 := same
        omega)
      have grows := limit_mono (h := h.leave server lines last stays some beyond) reached inside
      have whole : (h.leave server lines last stays some beyond).limit h.k = last := Function.update_self _ _ _
      omega
    have gone : (h.leave server lines last stays some beyond).removed h.k = server := Function.update_self _ _ _
    have recorded_lines : (h.leave server lines last stays some beyond).lines h.k = lines := Function.update_self _ _ _
    rw [leave_settled b r le_rfl] at leaves ⊢
    rw [gone] at leaves
    rw [recorded_lines, covers]
    rcases settled_cases recorded copy before with ⟨q', slots, place⟩ | line
    · rw [place] at leaves ⊢
      have rows : q' / (h.n - h.k) ≤ q / (h.n - h.k) := Nat.div_le_div_right (final q' slots leaves)
      simp only [spot]
      omega
    · rw [Nat.add_assoc]
      exact line.trans_le (Nat.le_add_right _ _)

private theorem leave_describes (describes : h.Describes mdata) {server lines last : Nat}
    {stays : h.level + 1 + (h.k + 1) ≤ h.n}
    {some : 0 < last} {beyond : h.Beyond last} (room : 2 * h.k + 2 < maxReconstructions) :
    (h.leave server lines last stays some beyond).Describes { mdata with
      dataNserv := (mdata.dataNserv.setIfInBounds (2 * h.k + 1) (((server : Int) + 1) * -1)).setIfInBounds (2 * h.k + 1 + 1)
        ((h.n - h.k : Nat) - 1)
      offsets := (mdata.offsets.setIfInBounds (2 * h.k + 1) (lines : Int)).setIfInBounds (2 * h.k + 1 + 1)
        (last : Int) } := by
  have max : maxReconstructions = 40 := rfl
  have first : 2 * h.k + 1 < maxReconstructions := by omega
  have second : 2 * h.k + 1 + 1 < maxReconstructions := by omega
  refine ⟨describes.magic, describes.blockSize, describes.replicationLevel, describes.firstNode, ?_, ?_, ?_, ?_, ?_,
    ?_, ?_, ?_⟩
  · change 2 * (h.k + 1) + 1 ≤ maxReconstructions
    omega
  · intro j inside
    have inside : j ≤ h.k + 1 := inside
    simp only [XpnMetadata.nserv]
    rw [get_set _ second, get_set _ first, if_neg (by omega : ¬2 * j = 2 * h.k + 1)]
    change _ = ((h.n - j : Nat) : Int)
    split
    next => omega
    next => exact describes.servers j (by omega)
  · intro j inside
    have inside : j < h.k + 1 := inside
    simp only [XpnMetadata.nserv]
    rw [get_set _ second, get_set _ first, if_neg (by omega)]
    split
    next here =>
      obtain rfl : j = h.k := by omega
      have gone : (h.leave server lines last stays some beyond).removed h.k = server := Function.update_self _ _ _
      rw [gone]
      omega
    next =>
      rw [leave_removed (by omega)]
      exact describes.leavers j (by omega)
  · simp only [XpnMetadata.offs]
    rw [get_set _ second, get_set _ first, if_neg (by omega), if_neg (by omega)]
    exact describes.start
  · intro j inside
    have inside : j < h.k + 1 := inside
    simp only [XpnMetadata.offs]
    rw [get_set _ second, get_set _ first, if_neg (by omega)]
    split
    next here =>
      obtain rfl : j = h.k := by omega
      exact congrArg Nat.cast (Function.update_self h.k lines h.lines).symm
    next =>
      rw [leave_lines (by omega)]
      exact describes.moved j (by omega)
  · intro j inside
    have inside : j < h.k + 1 := inside
    simp only [XpnMetadata.offs]
    rw [get_set _ second]
    split
    next here =>
      obtain rfl : j = h.k := by omega
      exact congrArg Nat.cast (Function.update_self h.k last h.limit).symm
    next =>
      rw [get_set _ first, if_neg (by omega), leave_limit (by omega)]
      exact describes.limits j (by omega)
  · intro i behind
    have behind : 2 * (h.k + 1) < i := behind
    simp only [XpnMetadata.nserv]
    rw [get_set _ second, get_set _ first, if_neg (by omega), if_neg (by omega)]
    exact describes.servers_end i (by omega)
  · intro i behind
    have behind : 2 * (h.k + 1) < i := behind
    simp only [XpnMetadata.offs]
    rw [get_set _ second, get_set _ first, if_neg (by omega), if_neg (by omega)]
    exact describes.limits_end i (by omega)

/-- One pass of the tool's loop adds one removal, with all lines of the server recorded, where no `int` is too small. -/
theorem Describes.removeServer (describes : h.Describes mdata) (recorded : h.Recorded) (leavers : h.Inside)
    {server : Nat} (inside : server < h.n - h.k)
    (stays : h.level + 1 + (h.k + 1) ≤ h.n) (room : 2 * h.k + 2 < maxReconstructions) {actualLastBlock last : Int}
    (after : ∀ j, j + 1 = h.k → (h.limit j : Int) ≤ actualLastBlock)
    (removed : XpnShrink.removeServer id mdata (2 * h.k + 1) actualLastBlock server = (mdata', last)) :
    ∃ h' : Shrinking, h'.k = h.k + 1 ∧ h'.n = h.n ∧ h'.level = h.level ∧ h'.bs = h.bs ∧ h'.Describes mdata' ∧ h'.Recorded ∧
      h'.Inside ∧ (∀ j, j + 1 = h'.k → (h'.limit j : Int) ≤ last) ∧ actualLastBlock ≤ last ∧
      ∀ b r : Nat, (b : Int) ≤ actualLastBlock → (h.place b r).2 ≠ server → h'.place b r =
        ((h.place b r).1, if server < (h.place b r).2 then (h.place b r).2 - 1 else (h.place b r).2) := by
  have servers : mdata.nserv (2 * h.k) = (h.n - h.k : Nat) := describes.servers h.k le_rfl
  have positive : ¬((h.n - h.k : Nat) : Int) < 0 := by omega
  rw [XpnShrink.removeServer] at removed
  simp only [Nat.add_sub_cancel, servers, if_neg positive, id_eq, Prod.mk.injEq] at removed
  obtain ⟨rfl, found⟩ := removed
  obtain ⟨start, begins⟩ : ∃ start : Nat,
      (if actualLastBlock < ((h.n - h.k : Nat) : Int) then ((h.n - h.k : Nat) : Int) else actualLastBlock) + 1 = start := by
    apply Int.eq_ofNat_of_zero_le
    split <;> omega
  have beyond : h.Beyond start := by
    intro j here
    have limit := after j here
    split at begins <;> omega
  rw [begins] at found ⊢
  have enough : (((h.n - h.k : Nat) : Int) * 2).toNat = (h.n - h.k) * 2 := by omega
  obtain ⟨stop, reached, later, passed⟩ := advanceBlock_spec describes ((h.n - h.k) * 2) 0 start 0 false beyond
    (Nat.zero_le _)
    (fun impossible => Bool.noConfusion impossible)
  rw [enough] at found ⊢
  rw [Nat.cast_zero] at reached
  rw [reached] at found ⊢
  have line : h.lastSlot start 0 + (h.n - h.k) ≤ h.lastSlot stop h.level := by
    refine le_trans ?_ passed
    simp only [Bool.false_eq_true, if_false]
    omega
  obtain ⟨k, near, bound, there⟩ : ∃ k, k < h.n - h.k ∧ k ≤ h.lastSlot stop h.level ∧
      bin (h.n - h.k) h.first (h.lastSlot stop h.level - k) = server := slot_of_bin inside (by omega)
  obtain ⟨q, offset, final⟩ := lastLocalOffset_spec describes (s := server) beyond
    (h.n - h.k) k stop h.level 0 near le_rfl later
    (by omega) there
  have lines : (XpnShrink.lastLocalOffset mdata server ((h.n - h.k : Nat) : Int).toNat stop mdata.replicationLevel 0).tdiv
      mdata.blockSize + 1 = ((h.base h.k + q / (h.n - h.k) + 1 : Nat) : Int) := by
    rw [Int.toNat_natCast, describes.replicationLevel, offset, describes.blockSize, Nat.cast_mul,
      Int.mul_tdiv_cancel _ (by have := h.bs_pos; omega), Nat.cast_succ]
  rw [lines]
  have some : 0 < stop := by
    split at begins <;> omega
  refine ⟨h.leave server (h.base h.k + q / (h.n - h.k) + 1) stop stays some (beyond.later later), rfl, rfl, rfl,
    rfl, leave_describes describes room, leave_recorded recorded rfl final, leave_inside leavers inside, ?_, ?_, ?_⟩
  · intro j here
    obtain rfl : j = h.k := Nat.succ.inj here
    have whole : (h.leave server (h.base h.k + q / (h.n - h.k) + 1) stop stays some (beyond.later later)).limit h.k =
        stop := Function.update_self _ _ _
    rw [whole]
    exact found.le
  · split at begins <;> omega
  · intro b r stored elsewhere
    exact leave_place (by split at begins <;> omega) elsewhere

/-- The ranks that are kept have the numbers of the servers, in their order. -/
structure Numbered (n servers : Nat) (transRank : Nat → Int) (kept : Nat → Prop) : Prop where
  natural : ∀ rank, kept rank → 0 ≤ transRank rank
  inside : ∀ rank, kept rank → transRank rank < servers
  ordered : ∀ rank rank', kept rank → kept rank' → rank < rank' → transRank rank < transRank rank'
  onto : ∀ s, s < servers → ∃ rank, kept rank ∧ transRank rank = s
  gone : ∀ rank, rank < n → ¬kept rank → transRank rank < 0

theorem Numbered.initial (n : Nat) : Numbered n n (fun rank => (rank : Int)) (fun rank => rank < n) :=
  ⟨fun rank _ => Int.natCast_nonneg rank, fun _ inside => Int.ofNat_lt.mpr inside, fun _ _ _ _ less => Int.ofNat_lt.mpr less,
    fun s inside => ⟨s, inside, rfl⟩, fun _ inside outside => absurd inside outside⟩

theorem Numbered.renumber {n servers rank : Nat} {transRank : Nat → Int} {kept : Nat → Prop}
    (numbered : Numbered n servers transRank kept) (here : kept rank) :
    Numbered n (servers - 1) (XpnShrink.renumber transRank rank) (fun other => kept other ∧ other ≠ rank) := by
  have natural := numbered.natural rank here
  have inside := numbered.inside rank here
  have above : ∀ other, rank < other → XpnShrink.renumber transRank rank other = transRank other - 1 :=
    fun other greater => if_pos greater
  have below : ∀ other, other < rank → XpnShrink.renumber transRank rank other = transRank other := by
    intro other less
    rw [XpnShrink.renumber, if_neg (by omega), if_neg less.ne]
  have cases : ∀ other, kept other ∧ other ≠ rank →
      (rank < other ∧ transRank rank < transRank other) ∨ (other < rank ∧ transRank other < transRank rank) := by
    rintro other ⟨member, different⟩
    rcases Nat.lt_or_gt_of_ne different with less | greater
    · exact Or.inr ⟨less, numbered.ordered other rank member here less⟩
    · exact Or.inl ⟨greater, numbered.ordered rank other here member greater⟩
  refine ⟨?_, ?_, ?_, ?_, ?_⟩
  · intro other member
    have low := numbered.natural other member.1
    rcases cases other member with ⟨greater, order⟩ | ⟨less, order⟩
    · rw [above other greater]
      omega
    · rw [below other less]
      exact low
  · intro other member
    have high := numbered.inside other member.1
    rcases cases other member with ⟨greater, order⟩ | ⟨less, order⟩
    · rw [above other greater]
      omega
    · rw [below other less]
      omega
  · intro first second member member' order
    have kept := numbered.ordered first second member.1 member'.1 order
    rcases cases first member with ⟨greater, -⟩ | ⟨less, low⟩
    · rw [above first greater, above second (greater.trans order)]
      omega
    · rcases cases second member' with ⟨greater', high⟩ | ⟨less', -⟩
      · rw [below first less, above second greater']
        omega
      · rw [below first less, below second less']
        exact kept
  · intro s bound
    by_cases before : (s : Int) < transRank rank
    · obtain ⟨other, member, number⟩ := numbered.onto s (by omega)
      have less : other < rank := by
        by_contra most
        rcases Nat.lt_or_eq_of_le (Nat.not_lt.mp most) with greater | same
        · have order := numbered.ordered rank other here member greater
          omega
        · rw [same] at before
          omega
      exact ⟨other, ⟨member, less.ne⟩, (below other less).trans number⟩
    · obtain ⟨other, member, number⟩ := numbered.onto (s + 1) (by omega)
      have greater : rank < other := by
        by_contra most
        rcases Nat.lt_or_eq_of_le (Nat.not_lt.mp most) with less | same
        · have order := numbered.ordered other rank member here less
          omega
        · rw [same] at number
          omega
      refine ⟨other, ⟨member, greater.ne'⟩, ?_⟩
      rw [above other greater, number]
      omega
  · intro other bound outside
    by_cases same : other = rank
    · rw [XpnShrink.renumber, if_neg (by omega), if_pos same]
      decide
    · have negative := numbered.gone other bound (fun member => outside ⟨member, same⟩)
      rcases Nat.lt_or_gt_of_ne same with less | greater
      · rw [below other less]
        exact negative
      · rw [above other greater]
        omega

/-- The copies up to block `stored` that are at home on a kept rank are still on their lines there. -/
def Keeps (h : Shrinking) (stored : Int) (home : Nat → Nat → Nat × Nat) (transRank : Nat → Int) (kept : Nat → Prop) : Prop :=
  ∀ b r : Nat, (b : Int) ≤ stored → kept (home b r).2 →
    (h.place b r).1 = (home b r).1 ∧ ((h.place b r).2 : Int) = transRank (home b r).2

theorem Keeps.renumber {h' : Shrinking} {stored : Int} {home : Nat → Nat → Nat × Nat} {transRank : Nat → Int}
    {kept : Nat → Prop} {n servers rank server : Nat} (keeps : h.Keeps stored home transRank kept)
    (numbered : Numbered n servers transRank kept) (here : kept rank) (number : transRank rank = server)
    (moves : ∀ b r : Nat, (b : Int) ≤ stored → (h.place b r).2 ≠ server → h'.place b r =
      ((h.place b r).1, if server < (h.place b r).2 then (h.place b r).2 - 1 else (h.place b r).2)) :
    h'.Keeps stored home (XpnShrink.renumber transRank rank) (fun other => kept other ∧ other ≠ rank) := by
  intro b r before ⟨member, different⟩
  obtain ⟨line, place⟩ := keeps b r before member
  rcases Nat.lt_or_gt_of_ne different with less | greater
  · have order := numbered.ordered _ _ member here less
    rw [moves b r before (by omega), if_neg (by omega)]
    refine ⟨line, ?_⟩
    rw [XpnShrink.renumber, if_neg (by omega), if_neg different]
    exact place
  · have order := numbered.ordered _ _ here member greater
    rw [moves b r before (by omega), if_pos (by omega)]
    refine ⟨line, ?_⟩
    rw [XpnShrink.renumber, if_pos greater]
    omega

/-- What the loop leaves: the removals in the metadata, and the numbers of the kept ranks when
there was an entry for every removal. -/
theorem copyLoop_describes (home : Nat → Nat → Nat × Nat) (stored : Int) : ∀ (ranks : List Nat) (fuel : Nat) {h : Shrinking}
    {mdata : XpnMetadata} {actualLastBlock : Int} {transRank numbers : Nat → Int} {kept : Nat → Prop},
    fuel + (2 * h.k + 1) = maxReconstructions → h.Describes mdata → h.Recorded → h.Inside →
    (∀ j, j + 1 = h.k → (h.limit j : Int) ≤ actualLastBlock) → stored ≤ actualLastBlock → ranks.Nodup →
    (∀ rank ∈ ranks, kept rank) → Numbered h.n (h.n - h.k) transRank kept → h.Keeps stored home transRank kept →
    h.level + 1 + (h.k + ranks.length) ≤ h.n →
    XpnShrink.copyLoop id fuel (2 * h.k + 1) mdata actualLastBlock transRank ranks = (mdata', numbers) →
    ∃ h' : Shrinking, h'.level = h.level ∧ h'.n = h.n ∧ h'.bs = h.bs ∧ h'.Describes mdata' ∧ h'.Recorded ∧ h'.Inside ∧
      (2 * (h.k + ranks.length) < maxReconstructions →
        Numbered h'.n (h'.n - h'.k) numbers (fun rank => kept rank ∧ rank ∉ ranks) ∧
          h'.Keeps stored home numbers (fun rank => kept rank ∧ rank ∉ ranks)) := by
  have max : maxReconstructions = 40 := rfl
  intro ranks
  induction ranks with
  | nil =>
    intro fuel h mdata actualLastBlock transRank numbers kept _ describes recorded leavers _ _ _ _ numbered keeps _ copied
    rw [XpnShrink.copyLoop] at copied
    obtain ⟨rfl, rfl⟩ := Prod.mk.inj copied
    have all : (fun rank => kept rank ∧ rank ∉ []) = kept := funext fun rank => propext (and_iff_left List.not_mem_nil)
    rw [all]
    exact ⟨h, rfl, rfl, rfl, describes, recorded, leavers, fun _ => ⟨numbered, keeps⟩⟩
  | cons rank ranks ih =>
    intro fuel h mdata actualLastBlock transRank numbers kept total describes recorded leavers after before apart members
      numbered keeps stays copied
    rw [List.length_cons] at stays
    obtain ⟨fresh, apart⟩ := List.nodup_cons.mp apart
    obtain ⟨fuel, rfl⟩ := Nat.exists_eq_succ_of_ne_zero (by have := describes.room; omega : fuel ≠ 0)
    rw [XpnShrink.copyLoop] at copied
    have free : mdata.nserv (2 * h.k + 1) = 0 := describes.servers_end _ (Nat.lt_succ_self _)
    by_cases inside : 2 * h.k + 1 + 1 < maxReconstructions
    · rw [if_pos ⟨free, inside⟩] at copied
      generalize removed : XpnShrink.removeServer id mdata (2 * h.k + 1) actualLastBlock (transRank rank) = pass at copied
      obtain ⟨next, last⟩ := pass
      dsimp only at copied
      have here := members rank List.mem_cons_self
      obtain ⟨server, number⟩ := Int.eq_ofNat_of_zero_le (numbered.natural rank here)
      have known := numbered.inside rank here
      rw [number] at removed known
      obtain ⟨h', count, servers, level, blocks, describes', recorded', leavers', after', later, moves⟩ :=
        describes.removeServer recorded leavers (by omega) (by omega) inside after removed
      have renumbered := numbered.renumber here
      have kept' := keeps.renumber numbered here number fun b r behind => moves b r (behind.trans before)
      have others : ∀ other ∈ ranks, kept other ∧ other ≠ rank := fun other member =>
        ⟨members other (List.mem_cons_of_mem _ member), fun same => fresh (same ▸ member)⟩
      have all : (fun other => kept other ∧ other ∉ rank :: ranks) =
          fun other => (kept other ∧ other ≠ rank) ∧ other ∉ ranks :=
        funext fun other => propext (by rw [List.mem_cons, not_or, and_assoc])
      rw [Nat.sub_sub, ← servers, ← count] at renumbered
      rw [all]
      cases ranks with
      | nil =>
        rw [XpnShrink.copyLoop] at copied
        obtain ⟨rfl, rfl⟩ := Prod.mk.inj copied
        have none : (fun other => (kept other ∧ other ≠ rank) ∧ other ∉ []) = fun other => kept other ∧ other ≠ rank :=
          funext fun other => propext (and_iff_left List.not_mem_nil)
        rw [none]
        exact ⟨h', level, servers, blocks, describes', recorded', leavers', fun _ => ⟨renumbered, kept'⟩⟩
      | cons other ranks =>
        rw [List.length_cons] at stays
        obtain ⟨fuel, rfl⟩ := Nat.exists_eq_succ_of_ne_zero (by omega : fuel ≠ 0)
        have taken : next.nserv (2 * h.k + 1 + 1) = (h'.n - h'.k : Nat) := by
          have entry := describes'.servers h'.k le_rfl
          rw [← entry, count]
          rfl
        rw [XpnShrink.copyLoop, if_neg (fun both => by omega)] at copied
        obtain ⟨h'', level', servers', blocks', describes'', recorded'', leavers'', numbers'⟩ := ih fuel (h := h') (by omega)
          describes' recorded' leavers' after' (before.trans later) apart others renumbered kept'
          (by rw [List.length_cons]; omega) (by rw [count]; exact copied)
        exact ⟨h'', level'.trans level, servers'.trans servers, blocks'.trans blocks, describes'', recorded'', leavers'',
          fun entries => numbers' (by simp only [List.length_cons] at entries ⊢; omega)⟩
    · have last : fuel = 0 := by omega
      rw [if_neg (fun both => inside both.2), last, XpnShrink.copyLoop.eq_def] at copied
      obtain rfl := (Prod.mk.inj copied).1
      exact ⟨h, rfl, rfl, rfl, describes, recorded, leavers, fun entries => absurd entries (by rw [List.length_cons]; omega)⟩

theorem Describes.created {mdata : XpnMetadata} (new : Created mdata) :
    ∃ h : Shrinking, h.k = 0 ∧ (h.n : Int) = mdata.nserv 0 ∧ (h.level : Int) = mdata.replicationLevel ∧
      h.Describes mdata := by
  obtain ⟨low, high⟩ := new.first
  have level := new.level
  have fits := new.fits
  have blocks := new.blockSize
  refine ⟨⟨mdata.blockSize.toNat, mdata.replicationLevel.toNat, mdata.firstNode.toNat, (mdata.nserv 0).toNat, 0, fun _ => 0,
    fun _ => 0, fun _ => 0, by omega, by omega, fun impossible => absurd impossible (Nat.lt_irrefl 0),
    fun _ impossible => absurd impossible (Nat.not_lt_zero _)⟩, rfl, Int.toNat_of_nonneg (by omega),
      Int.toNat_of_nonneg level,
    new.magic, ?_, ?_, ?_, ?_, ?_, ?_, new.unset 0, ?_, ?_, ?_, ?_⟩
  · exact (Int.toNat_of_nonneg (by omega)).symm
  · exact (Int.toNat_of_nonneg level).symm
  · exact (Int.toNat_of_nonneg low).symm
  · exact (by decide : 2 * 0 + 1 ≤ maxReconstructions)
  · intro j none
    obtain rfl : j = 0 := Nat.le_zero.mp none
    change mdata.nserv 0 = (((mdata.nserv 0).toNat - 0 : Nat) : Int)
    rw [Nat.sub_zero]
    exact (Int.toNat_of_nonneg (by omega)).symm
  · exact fun j impossible => absurd impossible (Nat.not_lt_zero j)
  · exact fun j impossible => absurd impossible (Nat.not_lt_zero j)
  · exact fun j impossible => absurd impossible (Nat.not_lt_zero j)
  · exact fun i later => new.plain i later
  · exact fun i _ => new.unset i

end Shrinking

/-- What the tool makes of a file that was never reconfigured, where no `int` is too small. -/
theorem copy_describes {mdata mdata' : XpnMetadata} (new : Created mdata) {ranks : List Nat} {numbers : Nat → Int}
    (apart : ranks.Nodup) (inside : ∀ rank ∈ ranks, (rank : Int) < mdata.nserv 0)
    (stays : mdata.replicationLevel + 1 + ranks.length ≤ mdata.nserv 0)
    (shrunk : XpnShrink.copyWith id mdata ranks = some (mdata', numbers)) :
    ∃ h h' : Shrinking, h.k = 0 ∧ (h.n : Int) = mdata.nserv 0 ∧ (h.level : Int) = mdata.replicationLevel ∧
      h.Describes mdata ∧ h'.level = h.level ∧ h'.n = h.n ∧ h'.bs = h.bs ∧ h'.Describes mdata' ∧ h'.Recorded ∧ h'.Inside ∧
      (2 * ranks.length < maxReconstructions →
        Shrinking.Numbered h'.n (h'.n - h'.k) numbers (fun rank => rank < h.n ∧ rank ∉ ranks) ∧
          h'.Keeps (mdata.fileSize.tdiv mdata.blockSize) h.place numbers (fun rank => rank < h.n ∧ rank ∉ ranks)) := by
  obtain ⟨h, none, servers, level, describes⟩ := Shrinking.Describes.created new
  simp only [XpnShrink.copyWith, Option.ite_none_right_eq_some, Option.some.injEq, id_eq] at shrunk
  obtain ⟨-, copied⟩ := shrunk
  have start : 2 * h.k + 1 = 1 := by rw [none]
  have numbered : Shrinking.Numbered h.n (h.n - h.k) (fun rank => (rank : Int)) (fun rank => rank < h.n) := by
    rw [none]
    exact Shrinking.Numbered.initial h.n
  obtain ⟨h', final⟩ := Shrinking.copyLoop_describes h.place _ ranks (maxReconstructions - 1)
    (by rw [start]; exact Nat.sub_add_cancel (by decide)) describes (fun j early => by omega) (fun j early => by omega)
    (fun j impossible => by omega) le_rfl apart (fun rank member => by have := inside rank member; omega) numbered
    (fun b r _ _ => ⟨rfl, rfl⟩) (by omega) (by rw [start, copied])
  rw [none, Nat.zero_add] at final
  exact ⟨h, h', none, servers, level, describes, final⟩

/-- However many servers the tool takes away from a file that was never reconfigured, and wherever
the file ends, no two copies of any blocks share storage, as long as no `int` of the tool overflows. -/
theorem shrink_copies_apart {mdata mdata' : XpnMetadata} (new : Created mdata) {ranks : List Nat} (apart : ranks.Nodup)
    (inside : ∀ rank ∈ ranks, (rank : Int) < mdata.nserv 0)
    (stays : mdata.replicationLevel + 1 + ranks.length ≤ mdata.nserv 0)
    (holds : XpnShrink.copyWith id mdata ranks = XpnShrink.copy mdata ranks)
    (shrunk : (XpnShrink.copy mdata ranks).map (·.1) = some mdata') :
    Set.InjOn (fun copy : Nat × Nat => xpnCalculateBlockMdata mdata' copy.1 copy.2)
      {copy | (copy.2 : Int) ≤ mdata.replicationLevel} := by
  obtain ⟨⟨written, numbers⟩, copied, rfl⟩ := Option.map_eq_some_iff.mp shrunk
  obtain ⟨h, h', -, -, level, -, level', -, -, describes', recorded, -⟩ := copy_describes new apart inside stays (holds.trans copied)
  have copies := Shrinking.shrunk_copies_apart describes' recorded
  intro copy within copy' within' same
  rw [← level, ← level'] at within within'
  exact copies (Int.ofNat_le.mp within) (Int.ofNat_le.mp within') same

def grownRecord : XpnMetadata := { xpnCreateMetadataExtern [slash, 97] 4 2 1 with fileSize := 9 }

/-- The same when the servers 1 and 3 have left. -/
def shrunkRecord : XpnMetadata :=
  { grownRecord with
    dataNserv := (((grownRecord.dataNserv.setIfInBounds 1 (-2)).setIfInBounds 2 3).setIfInBounds 3 (-3)).setIfInBounds 4 2
    offsets := (((grownRecord.offsets.setIfInBounds 1 4).setIfInBounds 2 7).setIfInBounds 3 8).setIfInBounds 4 9 }

theorem grownRecord_created : Created grownRecord := by
  have new : Created (xpnCreateMetadataExtern [slash, 97] 4 2 1) :=
    xpnCreateMetadataExtern_created (by decide) (by decide) (by decide) (by decide)
  exact ⟨new.magic, new.blockSize, new.level, new.fits, new.first, (by decide : (0 : Int) ≤ 9), new.plain, new.unset⟩

private theorem grownRecord_records : MetadataPlaces.Records grownRecord 1 4 := by
  refine ⟨le_rfl, by decide, by decide, fun i small => ?_, fun i beyond => grownRecord_created.plain i beyond⟩
  obtain rfl : i = 0 := by omega
  decide

theorem grownRecord_holds : XpnShrink.copyWith id grownRecord [1, 3] = XpnShrink.copy grownRecord [1, 3] := by
  obtain ⟨⟨record, numbers⟩, copied⟩ := Option.isSome_iff_exists.mp
    (by decide +kernel : (XpnShrink.copyWith id grownRecord [1, 3]).isSome = true)
  obtain ⟨⟨record', numbers'⟩, copied'⟩ := Option.isSome_iff_exists.mp
    (by decide +kernel : (XpnShrink.copyWith toCInt grownRecord [1, 3]).isSome = true)
  have records : (XpnShrink.copyWith id grownRecord [1, 3]).map (·.1) = (XpnShrink.copyWith toCInt grownRecord [1, 3]).map (·.1) := by
    decide +kernel
  rw [copied, copied'] at records
  obtain rfl : record = record' := Option.some.inj records
  rw [XpnShrink.copy, copied, copied', MetadataPlaces.copy_numbers grownRecord_records (by decide) copied,
    MetadataPlaces.copy_numbers grownRecord_records (by decide) copied']

theorem grownRecord_shrunk : (XpnShrink.copy grownRecord [1, 3]).map (·.1) = some shrunkRecord := by decide +kernel

theorem shrink_copies_apart_nine_bytes :
    Set.InjOn (fun copy : Nat × Nat => xpnCalculateBlockMdata shrunkRecord copy.1 copy.2) {copy | (copy.2 : Int) ≤ 1} :=
  shrink_copies_apart grownRecord_created (by decide : [1, 3].Nodup) (by decide) (by decide) grownRecord_holds
    grownRecord_shrunk

end Xpn.Proofs
