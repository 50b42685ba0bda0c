import Mathlib.Data.Nat.Nth
import Mathlib.Tactic.IntervalCases
import Xpn.MetadataPlaces
import Xpn.Proofs.ElementaryRequests
import Xpn.Proofs.MetadataServers

/-! The new metadata of a file is where its readers look unless the servers that have copies go
round the end: `xpn_shrink` wraps at the old server count, its readers at the new one. -/

namespace Xpn.Proofs.MetadataPlaces
open NfiClient MetadataServers

/-- The number of a rank among those that are not gone. -/
def numberAmong (gone : List Nat) (rank : Nat) : Nat := Nat.count (fun other => other ∉ gone) rank

/-- The rank that gets a number when the others are gone. -/
noncomputable def stays (gone : List Nat) (number : Nat) : Nat := Nat.nth (fun other => other ∉ gone) number

section
variable {gone : List Nat}

theorem countP_succ (rank : Nat) : gone.countP (fun other => decide (other < rank + 1)) =
    gone.countP (fun other => decide (other < rank)) + gone.count rank := by
  induction gone with
  | nil => rfl
  | cons other gone ih =>
    rw [List.countP_cons, List.countP_cons, List.count_cons, ih]
    rcases Nat.lt_trichotomy other rank with below | rfl | above
    · simp [below, Nat.lt_succ_of_lt below, below.ne, Nat.add_right_comm]
    · simp [Nat.add_assoc]
    · simp [above.not_gt, above.ne', Nat.not_lt.mpr (Nat.succ_le_of_lt above)]

/-- The ranks before one are those gone and those that stay. -/
theorem numberAmong_add (distinct : gone.Nodup) (rank : Nat) :
    numberAmong gone rank + gone.countP (fun other => decide (other < rank)) = rank := by
  induction rank with
  | zero => simp [numberAmong]
  | succ rank ih =>
    rw [numberAmong, Nat.count_succ, ← numberAmong, countP_succ]
    by_cases here : rank ∈ gone
    · rw [if_neg (not_not.mpr here), List.count_eq_one_of_mem distinct here]
      omega
    · rw [if_pos here, List.count_eq_zero.mpr here]
      omega

theorem infinite_stays : (Set.ofPred fun other => other ∉ gone).Infinite := by
  have finite : (Set.ofPred fun other => other ∈ gone).Finite := gone.finite_toSet
  exact finite.infinite_compl

theorem stays_stays (number : Nat) : stays gone number ∉ gone := Nat.nth_mem_of_infinite infinite_stays number

theorem numberAmong_stays (number : Nat) : numberAmong gone (stays gone number) = number :=
    Nat.count_nth_of_infinite infinite_stays number

theorem stays_numberAmong {rank : Nat} (here : rank ∉ gone) : stays gone (numberAmong gone rank) = rank := Nat.nth_count here

/-- All numbers below the new count are taken. -/
theorem stays_lt {size number : Nat} (distinct : gone.Nodup) (inside : ∀ rank ∈ gone, rank < size)
    (below : number < size - gone.length) :
    stays gone number < size := by
  have all : gone.countP (fun other => decide (other < size)) = gone.length :=
    List.countP_eq_length.mpr fun rank member => decide_eq_true (inside rank member)
  have total := numberAmong_add distinct size
  apply Nat.nth_lt_of_lt_count
  change number < numberAmong gone size
  omega

end

/-- A rank that stays gets the number it has among those recorded as gone. -/
theorem renumbered : ∀ (recorded : List Nat) (before : Nat → Int) {rank : Nat}, rank ∉ recorded →
    recorded.foldl XpnShrink.renumber before rank = before rank - recorded.countP (fun other => decide (other < rank))
  | [], before, rank, _ => by simp
  | removed :: recorded, before, rank, here => by
    rw [List.mem_cons, not_or] at here
    rw [List.foldl_cons, renumbered recorded _ here.2, List.countP_cons, XpnShrink.renumber]
    rcases Nat.lt_trichotomy removed rank with below | same | above
    · rw [if_pos below, if_pos (decide_eq_true below)]
      push_cast
      omega
    · exact absurd same.symm here.1
    · rw [if_neg above.not_gt, if_neg here.1, if_neg (by simpa using above.le)]
      simp

theorem transRank_eq {recorded : List Nat} (distinct : recorded.Nodup) {rank : Nat} (here : rank ∉ recorded) :
    recorded.foldl XpnShrink.renumber (fun rank => rank) rank = numberAmong recorded rank := by
  have total := numberAmong_add distinct rank
  rw [renumbered recorded _ here]
  omega

/-- The table of a file over `size` servers, with its first `used` entries in use. -/
structure Records (mdata : XpnMetadata) (used size : Nat) : Prop where
  some : 1 ≤ used
  inside : used ≤ maxReconstructions
  last : mdata.nserv (used - 1) = size
  taken : ∀ i < used, mdata.nserv i ≠ 0
  free : ∀ i ≥ used, mdata.nserv i = 0

/-- The removals that a table with so many entries in use has room for. -/
def room (used : Nat) : Nat := (maxReconstructions - used) / 2

/-- A removal changes the two entries it fills. -/
theorem removeServer_nserv {int : Int → Int} {mdata newMdata : XpnMetadata} {i n : Nat} {actualLastBlock last server : Int}
    (inside : i + 1 < maxReconstructions)
    (count : mdata.nserv (i - 1) = n) (removed : XpnShrink.removeServer int mdata i actualLastBlock server = (newMdata, last)) :
    newMdata.nserv (i + 1) = n - 1 ∧ ∀ j > i + 1, newMdata.nserv j = mdata.nserv j := by
  have positive : ¬mdata.nserv (i - 1) < 0 := by omega
  rw [XpnShrink.removeServer] at removed
  simp only [if_neg positive, Prod.mk.injEq] at removed
  obtain ⟨rfl, -⟩ := removed
  simp only [XpnMetadata.nserv] at count ⊢
  constructor
  · rw [ElementaryRequests.get_set _ inside, if_pos rfl, count]
  · intro j beyond
    rw [ElementaryRequests.get_set _ inside, if_neg (by omega), ElementaryRequests.get_set _ (by omega), if_neg (by omega)]

theorem copyLoop_free (int : Int → Int) : ∀ (ranks : List Nat) (fuel i n : Nat) (mdata : XpnMetadata) (actualLastBlock : Int)
    (transRank : Nat → Int), i + fuel = maxReconstructions → (∀ j ≥ i, mdata.nserv j = 0) →
      mdata.nserv (i - 1) = n → ranks.length < n →
      (XpnShrink.copyLoop int fuel i mdata actualLastBlock transRank ranks).2 =
        (ranks.take (room i)).foldl XpnShrink.renumber transRank := by
  have max : maxReconstructions = 40 := rfl
  intro ranks
  induction ranks with
  | nil =>
    intro fuel i n mdata actualLastBlock transRank _ _ _ _
    rw [XpnShrink.copyLoop, List.take_nil]
    rfl
  | cons rank ranks ih =>
    intro fuel i n mdata actualLastBlock transRank total free count more
    rw [List.length_cons] at more
    cases fuel with
    | zero =>
      have full : room i = 0 := by rw [room]; omega
      rw [XpnShrink.copyLoop.eq_def, full]
      rfl
    | succ fuel =>
      rw [XpnShrink.copyLoop]
      by_cases inside : i + 1 < maxReconstructions
      · rw [if_pos ⟨free i le_rfl, inside⟩]
        generalize removed : XpnShrink.removeServer int mdata i actualLastBlock (transRank rank) = pass
        obtain ⟨next, last⟩ := pass
        obtain ⟨filled, kept⟩ := removeServer_nserv inside count removed
        have taken : room i = room (i + 2) + 1 := by rw [room, room]; omega
        rw [taken, List.take_succ_cons, List.foldl_cons]
        dsimp only
        cases ranks with
        | nil =>
          rw [XpnShrink.copyLoop, List.take_nil]
          rfl
        | cons other ranks =>
          obtain ⟨fuel, rfl⟩ := Nat.exists_eq_succ_of_ne_zero (by omega : fuel ≠ 0)
          rw [List.length_cons] at more
          rw [XpnShrink.copyLoop, if_neg (fun both => by omega)]
          refine ih fuel (i + 2) (n - 1) next last (XpnShrink.renumber transRank rank) (by omega) (fun j beyond => ?_) ?_ ?_
          · rw [kept j (by omega)]
            exact free j (by omega)
          · change next.nserv (i + 1) = _
            omega
          · rw [List.length_cons]
            omega
      · have full : room i = 0 := by rw [room]; omega
        have last : fuel = 0 := by omega
        rw [if_neg (fun both => inside both.2), last, XpnShrink.copyLoop.eq_def, full]
        rfl

/-- The entries in use are passed over. -/
theorem copyLoop_used (int : Int → Int) {mdata : XpnMetadata} {used : Nat} (taken : ∀ i < used, mdata.nserv i ≠ 0)
    (actualLastBlock : Int) (transRank : Nat → Int)
    (ranks : List Nat) : ∀ (left i fuel : Nat), i + left = used →
      XpnShrink.copyLoop int (fuel + left) i mdata actualLastBlock transRank ranks =
        XpnShrink.copyLoop int fuel used mdata actualLastBlock transRank ranks := by
  intro left
  induction left with
  | zero =>
    rintro i fuel rfl
    rfl
  | succ left ih =>
    intro i fuel total
    cases ranks with
    | nil => rw [XpnShrink.copyLoop, XpnShrink.copyLoop]
    | cons rank ranks =>
      rw [← Nat.add_assoc, XpnShrink.copyLoop, if_neg (fun both => taken i (by omega) both.1)]
      exact ih (i + 1) fuel (by omega)

/-- The numbers that the ranks end with are those of the removals that were recorded. -/
theorem copy_numbers {int : Int → Int} {mdata newMdata : XpnMetadata} {used size : Nat} (records : Records mdata used size)
    {removed : List Nat} (remain : removed.length < size) {numbers : Nat → Int}
    (copied : XpnShrink.copyWith int mdata removed = some (newMdata, numbers)) :
    numbers = (removed.take (room used)).foldl XpnShrink.renumber fun rank => rank := by
  have max : maxReconstructions = 40 := rfl
  have some := records.some
  have inside := records.inside
  rw [XpnShrink.copyWith] at copied
  split at copied
  · have passed := copyLoop_used int records.taken (int (mdata.fileSize.tdiv mdata.blockSize)) (fun rank => rank)
      removed (used - 1) 1 (maxReconstructions - used) (by omega)
    rw [show maxReconstructions - used + (used - 1) = maxReconstructions - 1 by omega] at passed
    rw [passed] at copied
    have found := copyLoop_free int removed (maxReconstructions - used) used size mdata (int (mdata.fileSize.tdiv mdata.blockSize))
      (fun rank => rank) (by omega) records.free records.last remain
    rw [Option.some.inj copied] at found
    exact found
  · cases copied

/-- Readers wrap `m + i` at `n`, the tool wraps `m + j` at a larger `size`, and `place` keeps the
order of the numbers: it meets the tool's choice only where nobody wraps, or for all at once. -/
theorem wraps_agree_iff {place : Nat → Nat} (mono : StrictMono place) {m level n size : Nat} (start : m < n) (fits : level + 1 ≤ n)
    (fewer : n < size) (inside : ∀ number < n, place number < size) :
    (∀ i ≤ level, ∃ j ≤ level, place ((m + i) % n) = (m + j) % size) ↔
      m + level < n ∧ place (m + level) = m + level ∨ level + 1 = n ∧ ∀ number < n, ∃ j ≤ level, place number = (m + j) % size := by
  have grows : ∀ number, number ≤ place number := fun number => mono.le_apply
  have apart : ∀ k number, place number + k ≤ place (number + k) := by
    intro k
    induction k with
    | zero => exact fun _ => le_rfl
    | succ k ih => exact fun number => Nat.succ_le_of_lt ((ih number).trans_lt (mono (Nat.lt_succ_self _)))
  have wrapped : ∀ j ≤ level, (m + j) % size = m + j ∧ m + j < size ∨ (m + j) % size = m + j - size ∧ size ≤ m + j := by
    intro j small
    rcases Nat.lt_or_ge (m + j) size with below | beyond
    · exact Or.inl ⟨Nat.mod_eq_of_lt below, below⟩
    · right
      rw [Nat.mod_eq_sub_mod beyond, Nat.mod_eq_of_lt (by omega)]
      exact ⟨rfl, beyond⟩
  constructor
  · intro agree
    rcases Nat.lt_or_ge (m + level) n with flat | round
    · left
      obtain ⟨j, small, same⟩ := agree level le_rfl
      rw [Nat.mod_eq_of_lt flat, Nat.mod_eq_of_lt (by omega)] at same
      have above := grows (m + level)
      exact ⟨flat, by omega⟩
    · right
      have reached : ∀ number < n, number + n ≤ m + level ∨ m ≤ number → ∃ j ≤ level, place number = (m + j) % size := by
        rintro number below (early | late)
        · obtain ⟨j, small, same⟩ := agree (number + n - m) (by omega)
          rw [show m + (number + n - m) = number + n by omega, Nat.add_mod_right, Nat.mod_eq_of_lt below] at same
          exact ⟨j, small, same⟩
        · obtain ⟨j, small, same⟩ := agree (number - m) (by omega)
          rw [show m + (number - m) = number by omega, Nat.mod_eq_of_lt below] at same
          exact ⟨j, small, same⟩
      have full : level + 1 = n := by
        by_contra shortOf
        -- The first numbers would have to stay in front of what wraps at `size`, up to one that cannot.
        have behind : ∀ number, number + n ≤ m + level → place number + size ≤ m + level := by
          intro number
          induction number with
          | zero =>
            intro early
            obtain ⟨j, small, same⟩ := reached 0 (by omega) (Or.inl early)
            obtain ⟨j', small', same'⟩ := reached (n - 1) (by omega) (Or.inr (by omega))
            have spread := apart (n - 1) 0
            rw [Nat.zero_add] at spread
            have here := wrapped j small
            have last := wrapped j' small'
            omega
          | succ number ih =>
            intro early
            have before := ih (by omega)
            obtain ⟨j, small, same⟩ := reached (number + 1) (by omega) (Or.inl early)
            have spread := apart (n - 1 - (number + 1)) (number + 1)
            rw [show number + 1 + (n - 1 - (number + 1)) = n - 1 by omega] at spread
            have last := inside (n - 1) (by omega)
            have here := wrapped j small
            have low := grows number
            omega
        have ends := behind (m + level - n) (by omega)
        have low := grows (m + level - n)
        omega
      exact ⟨full, fun number below => reached number below (by omega)⟩
  · rintro (⟨flat, fixed⟩ | ⟨full, all⟩) i small
    · have spread := apart (level - i) (m + i)
      rw [show m + i + (level - i) = m + level by omega, fixed] at spread
      have low := grows (m + i)
      refine ⟨i, small, ?_⟩
      rw [Nat.mod_eq_of_lt (by omega), Nat.mod_eq_of_lt (by omega)]
      omega
    · exact all _ (Nat.mod_lt _ (by omega))

section
variable (part : XpnPartition) (path : Path)

/-- Every copy that the readers of the expanded partition address is written. -/
def ExpandLands : Prop :=
  ∀ i ≤ part.replicationLevel, ∃ rank < part.dataNserv, (rank : Int) = metadataServer part path i ∧
    XpnExpand.hasNewMdata path part.replicationLevel part.dataNserv rank = true

/-- Every copy that the readers of the shrunk partition address is written. -/
def ShrinkLands (mdata : XpnMetadata) (size : Nat) (removed : List Nat) (numbers : Nat → Int) : Prop :=
  ∀ i ≤ part.replicationLevel, ∃ rank < size, rank ∉ removed ∧ (numberAmong removed rank : Int) = metadataServer part path i ∧
    XpnShrink.hasNewMdata path mdata.replicationLevel size part.dataNserv numbers rank = true

variable {part path}

variable (path) in
theorem hash_small (positive : 0 < part.dataNserv) : -(part.dataNserv : Int) < hash path part.dataNserv 1 ∧
    hash path part.dataNserv 1 < part.dataNserv :=
  ⟨Int.lt_tmod_of_pos _ (by omega), Int.tmod_lt_of_pos _ (by omega)⟩

/-- The first server asked is the one hashed to. -/
theorem metadataServer_zero (positive : 0 < part.dataNserv) : metadataServer part path 0 = hash path part.dataNserv 1 := by
  obtain ⟨low, high⟩ := hash_small path positive
  rw [metadataServer, Int.natCast_zero, add_zero, tmod_of_small low high]

theorem metadataServer_of_nonneg {m : Nat} (hashed : hash path part.dataNserv 1 = m) (i : Nat) :
    metadataServer part path i = ((m + i) % part.dataNserv : Nat) := by
  rw [metadataServer, hashed]
  push_cast
  exact Int.tmod_eq_emod_of_nonneg (by omega)

theorem expand_lands_iff (positive : 0 < part.dataNserv) : ExpandLands part path ↔ 0 ≤ hash path part.dataNserv 1 := by
  constructor
  · intro lands
    obtain ⟨rank, -, here, -⟩ := lands 0 (Nat.zero_le _)
    rw [metadataServer_zero positive] at here
    omega
  · intro nonneg i small
    obtain ⟨m, hashed⟩ := Int.eq_ofNat_of_zero_le nonneg
    refine ⟨(m + i) % part.dataNserv, Nat.mod_lt _ positive, (metadataServer_of_nonneg hashed i).symm, ?_⟩
    rw [XpnExpand.hasNewMdata, amongCopies, List.any_eq_true]
    refine ⟨i, List.mem_range.mpr (by omega), beq_iff_eq.mpr ?_⟩
    rw [hashed, Int.toNat_natCast]
    push_cast
    exact Int.tmod_eq_emod_of_nonneg (by omega)

/-- The number that the tool gives to the one that stays and gets a number from the readers. -/
noncomputable def placeOf (recorded removed : List Nat) (number : Nat) : Nat := numberAmong recorded (stays removed number)

variable {size : Nat} {removed : List Nat} {k : Nat}

theorem placeOf_strictMono : StrictMono (placeOf (removed.take k) removed) := fun _ _ before =>
  Nat.count_strict_mono (fun member => stays_stays _ (List.mem_of_mem_take member)) (Nat.nth_strictMono infinite_stays before)

/-- The place moves up by the removals in front that were not recorded. -/
theorem placeOf_eq (distinct : removed.Nodup) (number : Nat) : placeOf (removed.take k) removed number =
    number + (removed.drop k).countP (fun other => decide (other < stays removed number)) := by
  have all := numberAmong_add distinct (stays removed number)
  have recorded := numberAmong_add (distinct.sublist (List.take_sublist k removed)) (stays removed number)
  have parts : removed.countP (fun other => decide (other < stays removed number)) =
      (removed.take k).countP (fun other => decide (other < stays removed number)) +
        (removed.drop k).countP (fun other => decide (other < stays removed number)) := by
    rw [← List.countP_append, List.take_append_drop]
  rw [numberAmong_stays] at all
  rw [placeOf]
  omega

theorem placeOf_fixed_iff (distinct : removed.Nodup) (number : Nat) : placeOf (removed.take k) removed number = number ↔
    ∀ rank ∈ removed.drop k, stays removed number ≤ rank := by
  rw [placeOf_eq distinct, Nat.add_eq_left, List.countP_eq_zero]
  simp only [decide_eq_true_eq, not_lt]

/-- What a removal of servers `removed` needs to be found again, where `lost` are those that the
table had no room for. No copy goes round the end and none of `lost` comes before the last one; or
every server has a copy, and the places that the tool chooses are theirs. -/
def ShrinkKeeps (part : XpnPartition) (path : Path) (size : Nat) (removed : List Nat) (k : Nat) : Prop :=
  ∃ m : Nat, hash path part.dataNserv 1 = m ∧
    (m + part.replicationLevel < part.dataNserv ∧ (∀ rank ∈ removed.drop k, stays removed (m + part.replicationLevel) ≤ rank) ∨
      part.replicationLevel + 1 = part.dataNserv ∧
        ∀ number < part.dataNserv, ∃ j ≤ part.replicationLevel, placeOf (removed.take k) removed number = (m + j) % size)

variable {mdata : XpnMetadata} (level : mdata.replicationLevel = part.replicationLevel)
    (fits : part.replicationLevel + 1 ≤ part.dataNserv)
  (distinct : removed.Nodup) (inside : ∀ rank ∈ removed, rank < size) (count : part.dataNserv = size - removed.length)
include level fits distinct inside count

theorem shrink_lands_iff_places {m : Nat} (hashed : hash path part.dataNserv 1 = m) :
    ShrinkLands part path mdata size removed ((removed.take k).foldl XpnShrink.renumber fun rank => rank) ↔
      ∀ i ≤ part.replicationLevel, ∃ j ≤ part.replicationLevel,
        placeOf (removed.take k) removed ((m + i) % part.dataNserv) = (m + j) % size := by
  have positive : 0 < part.dataNserv := by omega
  have numbers : ∀ {rank : Nat}, rank ∉ removed → (removed.take k).foldl XpnShrink.renumber (fun rank => (rank : Int)) rank =
      numberAmong (removed.take k) rank := fun here =>
    transRank_eq (distinct.sublist (List.take_sublist k removed)) fun member => here (List.mem_of_mem_take member)
  have writes : ∀ {rank : Nat}, rank ∉ removed → (XpnShrink.hasNewMdata path mdata.replicationLevel size part.dataNserv
      ((removed.take k).foldl XpnShrink.renumber fun rank => rank) rank = true ↔
        ∃ j ≤ part.replicationLevel, numberAmong (removed.take k) rank = (m + j) % size) := by
    intro rank here
    have copies : ((part.replicationLevel : Int) + 1).toNat = part.replicationLevel + 1 := by omega
    rw [XpnShrink.hasNewMdata, List.any_eq_true, level]
    simp only [copies, List.mem_range, Nat.lt_succ_iff, beq_iff_eq, numbers here, hashed]
    refine exists_congr fun j => and_congr_right fun _ => ?_
    rw [Int.tmod_eq_emod_of_nonneg (by omega)]
    norm_cast
  refine forall_congr' fun i => forall_congr' fun small => ?_
  rw [metadataServer_of_nonneg hashed]
  constructor
  · rintro ⟨rank, below, here, number, written⟩
    obtain ⟨j, copy, same⟩ := (writes here).mp written
    have numbered : numberAmong removed rank = (m + i) % part.dataNserv := Int.ofNat_inj.mp number
    refine ⟨j, copy, ?_⟩
    rw [placeOf, ← numbered, stays_numberAmong here]
    exact same
  · rintro ⟨j, copy, same⟩
    have below : (m + i) % part.dataNserv < size - removed.length := count ▸ Nat.mod_lt _ positive
    refine ⟨stays removed ((m + i) % part.dataNserv), stays_lt distinct inside below, stays_stays _,
      ?_, (writes (stays_stays _)).mpr ⟨j, copy, same⟩⟩
    rw [numberAmong_stays]

theorem shrink_lands_iff (some : removed ≠ []) :
    ShrinkLands part path mdata size removed ((removed.take k).foldl XpnShrink.renumber fun rank => rank) ↔
      ShrinkKeeps part path size removed k := by
  have positive : 0 < part.dataNserv := by omega
  have fewer : part.dataNserv < size := by
    have gone := List.length_pos_iff.mpr some
    omega
  have small := hash_small path positive
  have places : ∀ number < part.dataNserv, placeOf (removed.take k) removed number < size := fun number below =>
    (Nat.count_le _).trans_lt (stays_lt distinct inside (count ▸ below))
  constructor
  · intro lands
    have nonneg : 0 ≤ hash path part.dataNserv 1 := by
      obtain ⟨rank, -, -, here, -⟩ := lands 0 (Nat.zero_le _)
      rw [metadataServer_zero positive] at here
      omega
    obtain ⟨m, hashed⟩ := Int.eq_ofNat_of_zero_le nonneg
    have agree := (shrink_lands_iff_places level fits distinct inside count hashed).mp lands
    rw [wraps_agree_iff placeOf_strictMono (by omega) fits fewer places, placeOf_fixed_iff distinct] at agree
    exact ⟨m, hashed, agree⟩
  · rintro ⟨m, hashed, keeps⟩
    rw [shrink_lands_iff_places level fits distinct inside count hashed,
      wraps_agree_iff placeOf_strictMono (by omega) fits fewer places,
      placeOf_fixed_iff distinct]
    exact keeps

end

/-- New metadata is where readers look. After an expansion the hash has to be a server; after a
shrink the copies must not go round the end either. -/
theorem metadata_lands_iff {part : XpnPartition} {path : Path} (fits : part.replicationLevel + 1 ≤ part.dataNserv) :
    (ExpandLands part path ↔ 0 ≤ hash path part.dataNserv 1) ∧
      ∀ {mdata newMdata : XpnMetadata} {used size : Nat} {removed : List Nat} {numbers : Nat → Int}, Records mdata used size →
        mdata.replicationLevel = part.replicationLevel → removed ≠ [] → removed.Nodup → (∀ rank ∈ removed, rank < size) →
          part.dataNserv = size - removed.length → XpnShrink.copy mdata removed = some (newMdata, numbers) →
            (ShrinkLands part path mdata size removed numbers ↔ ShrinkKeeps part path size removed (room used)) := by
  refine ⟨expand_lands_iff (by omega), ?_⟩
  intro mdata newMdata used size removed numbers records level some distinct inside count copied
  rw [copy_numbers records (by omega) copied]
  exact shrink_lands_iff level fits distinct inside count some

def tinyRecord : XpnMetadata := xpnCreateMetadataExtern [47, 97] 3 1 1

theorem records_tiny : Records tinyRecord 1 3 := by
  refine ⟨le_rfl, by decide, by decide, fun i small => ?_, fun i beyond => ?_⟩
  · obtain rfl : i = 0 := by omega
    decide
  · have entries : (Vector.replicate maxReconstructions (0 : Int))[i]?.getD 0 = 0 := by
      rw [Vector.getElem?_replicate]
      split
      · rfl
      · rfl
    exact (ElementaryRequests.get_set _ (by decide) 3 i).trans ((if_neg (by omega)).trans entries)

/-- The file `/a` with two copies on three servers, the last of which leaves: its copies are on
servers 1 and 0, the tool writes to 1 and 2. -/
theorem shrunk_metadata_lost : ¬∀ (part : XpnPartition) (path : Path), part.replicationLevel + 1 ≤ part.dataNserv →
    ExpandLands part path ∧
      ∀ (mdata newMdata : XpnMetadata) (used size : Nat) (removed : List Nat) (numbers : Nat → Int), Records mdata used size →
        mdata.replicationLevel = part.replicationLevel → removed ≠ [] → removed.Nodup → (∀ rank ∈ removed, rank < size) →
          part.dataNserv = size - removed.length → XpnShrink.copy mdata removed = some (newMdata, numbers) →
            ShrinkLands part path mdata size removed numbers := by
  intro always
  obtain ⟨⟨newMdata, numbers⟩, copied⟩ : ∃ run, XpnShrink.copy tinyRecord [2] = some run := ⟨_, rfl⟩
  have lands := (always ⟨2, 1, 1, -1⟩ [47, 97]
    (by decide)).2 tinyRecord newMdata 1 3 [2] numbers records_tiny rfl (by decide) (by decide)
    (by decide) rfl copied
  rw [copy_numbers records_tiny (by decide) copied] at lands
  obtain ⟨rank, below, here, number, written⟩ := lands 1 le_rfl
  have first : rank = 0 := by
    interval_cases rank
    · rfl
    · revert number
      decide
    · exact absurd List.mem_cons_self here
  subst first
  revert written
  decide

theorem tiny_shrink_lands_iff : ∃ newMdata numbers, XpnShrink.copy tinyRecord [2] = some (newMdata, numbers) ∧
    (ShrinkLands ⟨2, 1, 1, -1⟩ [47, 97] tinyRecord 3 [2] numbers ↔ ShrinkKeeps ⟨2, 1, 1, -1⟩ [47, 97] 3 [2] (room 1)) :=
  ⟨_, _, rfl, (metadata_lands_iff (by decide)).2 records_tiny rfl (by decide) (by decide) (by decide) rfl rfl⟩

end Xpn.Proofs.MetadataPlaces
