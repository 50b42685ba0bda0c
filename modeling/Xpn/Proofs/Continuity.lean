import Mathlib.Tactic.Ring
import Xpn.Placement
import Xpn.Proofs.Layout

/-! The bytes of a stored block follow each other on its server, whatever history of
expansions and shrinks the metadata has. The decoder is run on two neighbouring bytes; its
two states differ in the local offset only. -/

namespace Xpn.Proofs.Continuity

/-- Tables that can be decoded: no entry behind the first unused one, and a new count after
every removed server. -/
structure History (mdata : XpnMetadata) : Prop where
  blockSize : 0 < mdata.blockSize
  servers : 0 < mdata.nserv 0
  start : mdata.offs 0 = 0
  shrinks : ∀ i, mdata.nserv i < 0 → 0 < mdata.nserv (i + 1)
  servers_end : ∀ i j, i ≤ j → mdata.nserv i = 0 → mdata.nserv j = 0
  limits_end : ∀ i, mdata.nserv i = 0 → mdata.offs i = 0

private theorem ediv_succ {a b : Int} (positive : 0 < b) (next : ¬b ∣ a + 1) : (a + 1) / b = a / b ∧ (a + 1) % b = a % b + 1 := by
  have split := Int.mul_ediv_add_emod a b
  have bound := Int.emod_lt_of_pos a positive
  have low := Int.emod_nonneg a positive.ne'
  have short : a % b + 1 < b := by
    by_contra full
    apply next
    refine ⟨a / b + 1, ?_⟩
    rw [Int.mul_add]
    omega
  have shape : a + 1 = (a % b + 1) + b * (a / b) := by omega
  constructor
  · rw [shape, Int.add_mul_ediv_left _ _ positive.ne', Int.ediv_eq_zero_of_lt (by omega) short, Int.zero_add]
  · rw [shape, Int.add_mul_emod_self_left, Int.emod_eq_of_lt (by omega) short]

/-- Neighbours in one block, on either side of zero. -/
theorem tdiv_succ {a b : Int} (positive : 0 < b) (here : ¬b ∣ a) (next : ¬b ∣ a + 1) :
    (a + 1).tdiv b = a.tdiv b ∧ (a + 1).tmod b = a.tmod b + 1 := by
  obtain ⟨quotient, remainder⟩ := ediv_succ positive next
  rw [Int.tdiv_eq_ediv, Int.tdiv_eq_ediv, Int.tmod_eq_emod, Int.tmod_eq_emod, quotient, remainder]
  have sign : (0 ≤ a + 1) ↔ 0 ≤ a := by
    constructor
    · intro nonneg
      by_contra negative
      have zero : a + 1 = 0 := by omega
      rw [zero] at next
      exact next (dvd_zero b)
    · omega
  simp only [sign, here, next, or_false]
  split
  next => simp
  next =>
    refine ⟨trivial, ?_⟩
    omega

section
variable {bs : Int} (level nserv replication first : Int) (positive : 0 < bs)
include positive

theorem calculate_succ {a : Int} (here : ¬bs ∣ a) (next : ¬bs ∣ a + 1) :
    xpnCalculateBlock bs level nserv (a + 1) replication first =
      ((xpnCalculateBlock bs level nserv a replication first).1 + 1, (xpnCalculateBlock bs level nserv a replication first).2) := by
  obtain ⟨quotient, remainder⟩ := tdiv_succ positive here next
  simp only [xpnCalculateBlock, quotient, remainder, Int.add_assoc]

omit positive in
/-- The place in the block is kept. -/
theorem calculate_modEq (bs level nserv replication first a : Int) : bs ∣ (xpnCalculateBlock bs level nserv a replication first).1 - a := by
  have split := Int.mul_tdiv_add_tmod a bs
  simp only [xpnCalculateBlock]
  refine ⟨(a.tdiv bs * (level + 1) + replication).tdiv nserv - a.tdiv bs, ?_⟩
  rw [Int.mul_sub]
  have commuted : bs * (a.tdiv bs * (level + 1) + replication).tdiv nserv = (a.tdiv bs * (level + 1) + replication).tdiv nserv * bs :=
    Int.mul_comm _ _
  omega

end

section
variable {mdata : XpnMetadata} {decoder decoder' : Decoder}

/-- The sums of the decoder are whole blocks. -/
structure Whole (mdata : XpnMetadata) (decoder : Decoder) : Prop where
  acum : mdata.blockSize ∣ decoder.acumLocalOffset
  bases : ∀ i, mdata.blockSize ∣ decoder.base i

/-- The runs on byte `o` and on the byte behind it. -/
structure Beside (mdata : XpnMetadata) (o : Int) (decoder decoder' : Decoder) : Prop where
  index : decoder'.actualIndex = decoder.actualIndex
  acum : decoder'.acumLocalOffset = decoder.acumLocalOffset
  bases : decoder'.arrayLocalOffset = decoder.arrayLocalOffset
  serv : decoder'.serv = decoder.serv
  waiting : decoder.actualIndex = none → decoder'.localOffset = decoder.localOffset
  placed : decoder.actualIndex ≠ none →
    decoder'.localOffset = decoder.localOffset + 1 ∧ mdata.blockSize ∣ decoder.localOffset - o

theorem substractOffset_succ (bases : decoder'.arrayLocalOffset = decoder.arrayLocalOffset) (serv localOffset : Int) : ∀ i,
    substractOffset mdata decoder' serv (localOffset + 1) i = substractOffset mdata decoder serv localOffset i + 1
  | 0 => rfl
  | j + 1 => by
    have same : ∀ i, decoder'.base i = decoder.base i := fun i => by rw [Decoder.base, Decoder.base, bases]
    rw [substractOffset, substractOffset, same, same, substractOffset_succ bases serv localOffset j]
    split
    next => rfl
    next =>
      split
      next =>
        split
        next => omega
        next => rfl
      next =>
        split
        next => omega
        next => rfl

theorem substractOffset_whole (whole : Whole mdata decoder) (serv localOffset : Int) : ∀ i,
    mdata.blockSize ∣ substractOffset mdata decoder serv localOffset i - localOffset
  | 0 => by simp [substractOffset]
  | j + 1 => by
    have taken : ∀ i, mdata.blockSize ∣ localOffset - decoder.base i - localOffset := by
      intro i
      have negated := (Int.dvd_neg).mpr (whole.bases i)
      rwa [show localOffset - decoder.base i - localOffset = -decoder.base i by omega]
    have rest := substractOffset_whole whole serv localOffset j
    rw [substractOffset]
    split
    next => simp
    next =>
      split
      next =>
        split
        next => exact taken _
        next => exact rest
      next =>
        split
        next => exact taken _
        next => exact rest

private theorem Beside.base (beside : Beside mdata o decoder decoder') (i : Nat) : decoder'.base i = decoder.base i := by
  rw [Decoder.base, Decoder.base, beside.bases]

variable {o : Int} (positive : 0 < mdata.blockSize) (here : ¬mdata.blockSize ∣ o) (next : ¬mdata.blockSize ∣ o + 1)
include positive here next

omit positive in
private theorem shifted {a : Int} (same : mdata.blockSize ∣ a - o) : ¬mdata.blockSize ∣ a ∧ ¬mdata.blockSize ∣ a + 1 := by
  constructor
  · intro divides
    exact here ((Int.dvd_iff_dvd_of_dvd_sub same).mp divides)
  · intro divides
    apply next
    rw [show a - o = (a + 1) - (o + 1) by omega] at same
    exact (Int.dvd_iff_dvd_of_dvd_sub same).mp divides

private def inner (mdata : XpnMetadata) (i : Nat) (offset : Int) : Int :=
  if i ≠ 0 then
    let shifted := offset - mdata.blockSize * (mdata.offs i + 1)
    if mdata.isShrink i then shifted + mdata.blockSize * mdata.offs (i - 1) else shifted
  else offset

omit positive here next in
private theorem inner_succ (mdata : XpnMetadata) (i : Nat) (offset : Int) :
    inner mdata i (offset + 1) = inner mdata i offset + 1 ∧ mdata.blockSize ∣ inner mdata i offset - offset := by
  have back : mdata.blockSize ∣ offset - mdata.blockSize * (mdata.offs i + 1) - offset := ⟨-(mdata.offs i + 1), by ring⟩
  have moved : mdata.blockSize ∣ offset - mdata.blockSize * (mdata.offs i + 1) + mdata.blockSize * mdata.offs (i - 1) - offset :=
    ⟨mdata.offs (i - 1) - (mdata.offs i + 1), by ring⟩
  simp only [inner]
  split
  next =>
    split
    next => exact ⟨by omega, moved⟩
    next => exact ⟨by omega, back⟩
  next => exact ⟨rfl, by simp⟩

theorem placeInSegment_beside (whole : Whole mdata decoder) (bases : decoder'.arrayLocalOffset = decoder.arrayLocalOffset)
    (replication : Int) (i : Nat) :
    let placed := placeInSegment mdata o replication i decoder
    let placed' := placeInSegment mdata (o + 1) replication i decoder'
    placed'.serv = placed.serv ∧ placed'.localOffset = placed.localOffset + 1 ∧ mdata.blockSize ∣ placed.localOffset - o := by
  obtain ⟨moved, congruent⟩ := inner_succ mdata i o
  obtain ⟨apart, apart'⟩ := shifted here next congruent
  have calculated := calculate_succ mdata.replicationLevel (mdata.nserv i) replication mdata.firstNode positive apart apart'
  have kept := calculate_modEq mdata.blockSize mdata.replicationLevel (mdata.nserv i) replication mdata.firstNode (inner mdata i o)
  have base : decoder'.base i = decoder.base i := by rw [Decoder.base, Decoder.base, bases]
  have shape : ∀ offset d, placeInSegment mdata offset replication i d =
      let found := xpnCalculateBlock mdata.blockSize mdata.replicationLevel (mdata.nserv i) (inner mdata i offset) replication
        mdata.firstNode
      { d with localOffset := substractOffset mdata d found.2 (found.1 + d.base i) i, serv := found.2 } := fun _ _ => rfl
  simp only [shape, moved, calculated, base, Int.add_right_comm _ 1, substractOffset_succ bases]
  refine ⟨trivial, trivial, ?_⟩
  generalize xpnCalculateBlock mdata.blockSize mdata.replicationLevel (mdata.nserv i) (inner mdata i o) replication mdata.firstNode
    = found at kept
  have taken := substractOffset_whole whole found.2 (found.1 + decoder.base i) i
  have sum := Int.dvd_add (Int.dvd_add taken (whole.bases i)) (Int.dvd_add kept congruent)
  convert sum using 1
  ring

theorem moveForShrink_beside (whole : Whole mdata decoder) (beside : Beside mdata o decoder decoder') (replication : Int) (i : Nat) :
    Beside mdata o (moveForShrink mdata replication i decoder) (moveForShrink mdata replication i decoder') := by
  cases found : decoder.actualIndex with
  | none =>
    -- Nothing is placed yet: both runs are in the same state.
    have same : decoder' = decoder := by
      have localOffset := beside.waiting found
      cases decoder
      cases decoder'
      simp only [Decoder.mk.injEq]
      exact ⟨beside.index, beside.acum, beside.bases, localOffset, beside.serv⟩
    rw [same]
    have kept : (moveForShrink mdata replication i decoder).actualIndex = none := by
      rw [moveForShrink]
      dsimp only
      split
      · exact found
      · split
        · exact found
        · exact found
    exact ⟨rfl, rfl, rfl, rfl, fun _ => rfl, fun placed => absurd kept placed⟩
  | some index =>
    obtain ⟨behind, congruent⟩ := beside.placed (by rw [found]; exact Option.some_ne_none _)
    obtain ⟨apart, apart'⟩ := shifted here next congruent
    have calculated := calculate_succ mdata.replicationLevel (mdata.nserv i) replication mdata.firstNode positive apart apart'
    have kept := calculate_modEq mdata.blockSize mdata.replicationLevel (mdata.nserv i) replication mdata.firstNode
      decoder.localOffset
    simp only [moveForShrink, beside.serv, behind, calculated, beside.base]
    generalize xpnCalculateBlock mdata.blockSize mdata.replicationLevel (mdata.nserv i) decoder.localOffset replication
      mdata.firstNode = place at kept
    have moved := Int.dvd_add (Int.dvd_add kept congruent) (whole.bases i)
    split
    next =>
      refine ⟨beside.index, beside.acum, beside.bases, rfl, fun none => absurd (found.symm.trans none) (Option.some_ne_none _), fun _ => ?_⟩
      dsimp only
      split
      next =>
        refine ⟨by omega, ?_⟩
        have taken := Int.dvd_sub moved (whole.bases (i - 2))
        convert taken using 1
        ring
      next =>
        refine ⟨by omega, ?_⟩
        convert moved using 1
        ring
    next =>
      split
      next =>
        exact ⟨beside.index, beside.acum, beside.bases, rfl, fun none => absurd (found.symm.trans none) (Option.some_ne_none _),
          fun _ => ⟨rfl, congruent⟩⟩
      next =>
        exact ⟨beside.index, beside.acum, beside.bases, beside.serv, beside.waiting, fun _ => ⟨behind, congruent⟩⟩

omit here next positive in
private theorem enterSegment_beside (blockNum : Int) (i : Nat) (beside : Beside mdata o decoder decoder') :
    let entered := enterSegment mdata blockNum i decoder
    let entered' := enterSegment mdata blockNum i decoder'
    entered'.actualIndex = entered.actualIndex ∧ entered'.acumLocalOffset = entered.acumLocalOffset ∧
      entered'.arrayLocalOffset = entered.arrayLocalOffset ∧ entered'.serv = decoder'.serv ∧ entered.serv = decoder.serv ∧
      entered'.localOffset = decoder'.localOffset ∧ entered.localOffset = decoder.localOffset ∧
      (entered.actualIndex ≠ some i → entered.actualIndex = decoder.actualIndex) := by
  simp only [enterSegment, beside.index, beside.acum, beside.bases]
  split
  next =>
    refine ⟨rfl, rfl, rfl, rfl, rfl, rfl, rfl, ?_⟩
    split
    · exact fun other => absurd rfl other
    · exact fun _ => rfl
  next =>
    refine ⟨rfl, rfl, rfl, rfl, rfl, rfl, rfl, ?_⟩
    split
    · exact fun other => absurd rfl other
    · exact fun _ => rfl

omit positive here next in
theorem enterSegment_whole (blockNum : Int) (i : Nat) (whole : Whole mdata decoder) : Whole mdata (enterSegment mdata blockNum i decoder) := by
  have lines := calculate_modEq mdata.blockSize mdata.replicationLevel (mdata.prevSegment i).1 mdata.replicationLevel
    mdata.firstNode ((mdata.prevSegment i).2 * mdata.blockSize)
  have line := (Int.dvd_iff_dvd_of_dvd_sub lines).mpr (Dvd.intro_left _ rfl)
  have sum := Int.dvd_add whole.acum (Int.dvd_add line (dvd_refl mdata.blockSize))
  simp only [enterSegment]
  split
  next =>
    refine ⟨sum, fun j => ?_⟩
    simp only [Decoder.base]
    rw [Vector.getElem?_setIfInBounds]
    split
    next same =>
      split
      · exact sum
      · exact dvd_zero _
    next => exact whole.bases j
  next => exact ⟨whole.acum, whole.bases⟩

omit positive here next in
theorem moveForShrink_index (mdata : XpnMetadata) (replication : Int) (i : Nat) (decoder : Decoder) :
    (moveForShrink mdata replication i decoder).actualIndex = decoder.actualIndex ∧
      (moveForShrink mdata replication i decoder).acumLocalOffset = decoder.acumLocalOffset ∧
      (moveForShrink mdata replication i decoder).arrayLocalOffset = decoder.arrayLocalOffset := by
  rw [moveForShrink]
  dsimp only
  split
  · exact ⟨rfl, rfl, rfl⟩
  · split
    · exact ⟨rfl, rfl, rfl⟩
    · exact ⟨rfl, rfl, rfl⟩

omit positive here next in
private theorem Whole.of_sums {decoder decoder' : Decoder} (whole : Whole mdata decoder)
    (acum : decoder'.acumLocalOffset = decoder.acumLocalOffset) (bases : decoder'.arrayLocalOffset = decoder.arrayLocalOffset) :
    Whole mdata decoder' := by
  constructor
  · rw [acum]
    exact whole.acum
  · intro i
    rw [Decoder.base, bases]
    exact whole.bases i

omit positive here next in
theorem decodeSegment_whole (mdata : XpnMetadata) (offset replication : Int) (i : Nat) (whole : Whole mdata decoder) :
    Whole mdata (decodeSegment mdata offset replication i decoder) := by
  have entered := enterSegment_whole (offset.tdiv mdata.blockSize) i whole
  rw [decodeSegment]
  split
  · exact entered.of_sums rfl rfl
  · split
    · obtain ⟨-, acum, bases⟩ :=
        moveForShrink_index mdata replication i (enterSegment mdata (offset.tdiv mdata.blockSize) i decoder)
      exact entered.of_sums acum bases
    · exact entered

theorem decodeSegment_beside (whole : Whole mdata decoder) (beside : Beside mdata o decoder decoder') (replication : Int) (i : Nat) :
    Beside mdata o (decodeSegment mdata o replication i decoder) (decodeSegment mdata (o + 1) replication i decoder') := by
  have same := (tdiv_succ positive here next).1
  have whole' := enterSegment_whole (o.tdiv mdata.blockSize) i whole
  obtain ⟨index, acum, bases, serv', serv, place', place, kept⟩ := enterSegment_beside (o.tdiv mdata.blockSize) i beside
  simp only [decodeSegment, same]
  by_cases found : (enterSegment mdata (o.tdiv mdata.blockSize) i decoder).actualIndex = some i
  · rw [if_pos found, if_pos (index.trans found)]
    obtain ⟨server, behind, congruent⟩ := placeInSegment_beside positive here next whole' bases replication i
    refine ⟨index, acum, bases, server, fun none => ?_, fun _ => ⟨behind, congruent⟩⟩
    exact absurd (found.symm.trans none) (Option.some_ne_none _)
  · rw [if_neg found, if_neg (fun found' => found (index.symm.trans found'))]
    have entered : Beside mdata o (enterSegment mdata (o.tdiv mdata.blockSize) i decoder)
        (enterSegment mdata (o.tdiv mdata.blockSize) i decoder') := by
      have unplaced := kept found
      refine ⟨index, acum, bases, by rw [serv', serv, beside.serv], fun none => ?_, fun some => ?_⟩
      · rw [place', place, beside.waiting (unplaced ▸ none)]
      · rw [place', place]
        exact beside.placed (unplaced ▸ some)
    split
    · exact moveForShrink_beside positive here next whole' entered replication i
    · exact entered

theorem decodeSegments_beside (replication : Int) : ∀ (fuel i : Nat) (decoder decoder' : Decoder), Whole mdata decoder →
    Beside mdata o decoder decoder' →
    Beside mdata o (decodeSegments mdata o replication fuel i decoder) (decodeSegments mdata (o + 1) replication fuel i decoder')
  | 0, _, _, _, _, beside => beside
  | fuel + 1, i, decoder, decoder', whole, beside => by
    have stepped := decodeSegment_beside positive here next whole beside replication i
    have whole' := decodeSegment_whole mdata o replication i whole
    rw [decodeSegments, decodeSegments]
    dsimp only
    rw [stepped.index]
    split
    · exact beside
    · split
      · exact decodeSegments_beside replication fuel (i + 1) decoder decoder' whole beside
      · split
        · exact stepped
        · exact decodeSegments_beside replication fuel (i + 1) _ _ whole' stepped

end

section
variable {mdata : XpnMetadata}

theorem decodeSegment_index (offset replication : Int) (i : Nat) (decoder : Decoder) :
    (decodeSegment mdata offset replication i decoder).actualIndex =
      if decoder.actualIndex.isNone && mdata.inSegment (offset.tdiv mdata.blockSize) i then some i else decoder.actualIndex := by
  have entered : ∀ blockNum, (enterSegment mdata blockNum i decoder).actualIndex =
      if decoder.actualIndex.isNone && mdata.inSegment blockNum i then some i else decoder.actualIndex := by
    intro blockNum
    rw [enterSegment]
    dsimp only
    split
    · rfl
    · rfl
  rw [decodeSegment]
  split
  · exact entered _
  · split
    · rw [(moveForShrink_index _ _ _ _).1, entered]
    · exact entered _

theorem decodeSegments_found (offset replication : Int) : ∀ (fuel i : Nat) (decoder : Decoder), decoder.actualIndex ≠ none →
    (decodeSegments mdata offset replication fuel i decoder).actualIndex ≠ none
  | 0, _, _, found => found
  | fuel + 1, i, decoder, found => by
    have kept : (decodeSegment mdata offset replication i decoder).actualIndex ≠ none := by
      rw [decodeSegment_index]
      split
      · exact Option.some_ne_none _
      · exact found
    rw [decodeSegments]
    dsimp only
    split
    · exact found
    · split
      · exact decodeSegments_found offset replication fuel (i + 1) decoder found
      · split
        · exact kept
        · exact decodeSegments_found offset replication fuel (i + 1) _ kept

theorem nserv_end {i : Nat} (outside : maxReconstructions ≤ i) : mdata.nserv i = 0 := by
  rw [XpnMetadata.nserv, Vector.getElem?_eq_none outside, Option.getD_none]

/-- A block that is past the limit of one segment is looked for in the next one. -/
theorem decodeSegments_finds (history : History mdata) (offset replication : Int) : ∀ (fuel i : Nat) (decoder : Decoder),
    maxReconstructions ≤ fuel + i → 0 < mdata.nserv i →
    mdata.offs i < offset.tdiv mdata.blockSize ∨ offset.tdiv mdata.blockSize = 0 →
    (decodeSegments mdata offset replication fuel i decoder).actualIndex ≠ none
  | 0, i, _, enough, used, _ => by
    rw [nserv_end (by omega)] at used
    exact absurd used (lt_irrefl 0)
  | fuel + 1, i, decoder, enough, used, reached => by
    rw [decodeSegments, if_neg used.ne', if_neg (by omega)]
    dsimp only
    by_cases found : (decodeSegment mdata offset replication i decoder).actualIndex = none
    case neg =>
      split
      · exact found
      · exact decodeSegments_found offset replication fuel (i + 1) _ found
    case pos =>
      have outside : mdata.inSegment (offset.tdiv mdata.blockSize) i = false := by
        rw [decodeSegment_index] at found
        cases inside : mdata.inSegment (offset.tdiv mdata.blockSize) i with
        | false => rfl
        | true =>
          cases index : decoder.actualIndex with
          | none => simp [inside, index] at found
          | some j => simp [index] at found
      rw [if_neg (by rw [found]; simp)]
      simp only [XpnMetadata.inSegment, Bool.and_eq_false_iff, Bool.or_eq_false_iff, decide_eq_false_iff_not, beq_eq_false_iff_ne] at outside
      have limited := outside.resolve_left (by omega)
      by_cases grown : 0 < mdata.nserv (i + 1)
      case pos =>
        rw [if_pos grown] at limited
        exact decodeSegments_finds history offset replication fuel (i + 1) _ (by omega) grown (by omega)
      case neg =>
        rw [if_neg grown] at limited
        have removed : mdata.nserv (i + 1) < 0 := by
          by_contra unused
          have last : mdata.nserv (i + 1) = 0 := by omega
          have unset := history.limits_end (i + 2) (history.servers_end (i + 1) (i + 2) (Nat.le_succ _) last)
          omega
        cases fuel with
        | zero =>
          rw [nserv_end (by omega)] at removed
          exact absurd removed (lt_irrefl 0)
        | succ fuel =>
          rw [decodeSegments, if_neg removed.ne, if_pos removed]
          exact decodeSegments_finds history offset replication fuel (i + 2) _ (by omega) (history.shrinks (i + 1) removed) (by omega)

end

/-- Neighbours that no block boundary separates are neighbours on the server. -/
theorem calculate_next {mdata : XpnMetadata} (history : History mdata) {o : Int} (natural : 0 ≤ o) (replication : Int)
    (here : ¬mdata.blockSize ∣ o) (next : ¬mdata.blockSize ∣ o + 1) :
    xpnCalculateBlockMdata mdata (o + 1) replication =
      ((xpnCalculateBlockMdata mdata o replication).1 + 1, (xpnCalculateBlockMdata mdata o replication).2) := by
  have positive := history.blockSize
  rw [xpnCalculateBlockMdata, xpnCalculateBlockMdata]
  split
  · exact calculate_succ _ _ _ _ positive here next
  · have empty : Whole mdata Decoder.initial := by
      refine ⟨dvd_zero _, fun i => ?_⟩
      have zero : Decoder.initial.base i = 0 := by
        simp only [Decoder.base, Decoder.initial, Vector.getElem?_replicate]
        split <;> rfl
      rw [zero]
      exact dvd_zero _
    have start : Beside mdata o Decoder.initial Decoder.initial :=
      ⟨rfl, rfl, rfl, rfl, fun _ => rfl, fun placed => absurd rfl placed⟩
    have decoded := decodeSegments_beside positive here next replication maxReconstructions 0 _ _ empty start
    have block : 0 ≤ o.tdiv mdata.blockSize := Int.tdiv_nonneg natural positive.le
    have found := decodeSegments_finds history o replication maxReconstructions 0 Decoder.initial (Nat.le_refl _) history.servers
      (by rw [history.start]; omega)
    dsimp only
    rw [(decoded.placed found).1, decoded.serv]

end Xpn.Proofs.Continuity
