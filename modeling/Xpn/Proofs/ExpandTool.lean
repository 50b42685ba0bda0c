import Mathlib.Tactic.Linarith
import Xpn.Proofs.Expansion

/-! What `xpn_expand` does to the placement of a file. A file's metadata is created,
grows and is expanded any number of times; every such metadata is an expansion
history, and expanding it once more appends an entry. -/

namespace Xpn.Proofs
open Lib.Striping

structure Created (mdata : XpnMetadata) : Prop where
  magic : xpnCheckMagicNumber mdata = true
  blockSize : 0 < mdata.blockSize
  level : 0 ≤ mdata.replicationLevel
  fits : mdata.replicationLevel + 1 ≤ mdata.nserv 0
  first : 0 ≤ mdata.firstNode ∧ mdata.firstNode < mdata.nserv 0
  size : 0 ≤ mdata.fileSize
  plain : ∀ i, 1 ≤ i → mdata.nserv i = 0
  unset : ∀ i, mdata.offs i = 0

theorem xpnCreateMetadataExtern_created {path : Path} {nserv blockSize level : Int} (blocks : 0 < blockSize)
    (natural : 0 ≤ level) (fits : level + 1 ≤ nserv) (hashed : 0 ≤ hash path nserv 1 ∧ hash path nserv 1 < nserv) :
    Created (xpnCreateMetadataExtern path nserv blockSize level) := by
  have count : (xpnCreateMetadataExtern path nserv blockSize level).nserv 0 = nserv := by
    simp only [XpnMetadata.nserv, xpnCreateMetadataExtern, Vector.getElem?_setIfInBounds]
    rfl
  refine ⟨rfl, blocks, natural, by rw [count]; exact fits, by rw [count]; exact hashed, le_rfl, ?_, ?_⟩
  · intro i later
    simp only [XpnMetadata.nserv, xpnCreateMetadataExtern, XpnMetadata.zero, Vector.getElem?_setIfInBounds]
    rw [if_neg (by omega), Vector.getElem?_replicate]
    split <;> rfl
  · intro i
    simp only [XpnMetadata.offs, xpnCreateMetadataExtern, XpnMetadata.zero, Vector.getElem?_replicate]
    split <;> rfl

theorem toCInt_natural {value : Nat} (small : value < 2 ^ 31) : toCInt value = value := Int.bmod_eq_of_le (by omega) (by omega)

theorem toCInt_range (value : Int) : -2 ^ 31 ≤ toCInt value ∧ toCInt value < 2 ^ 31 := by
  have low := Int.le_bmod (x := value) (m := 2 ^ 32) (by decide)
  have high := Int.bmod_lt (x := value) (m := 2 ^ 32) (by decide)
  simp only [toCInt]
  omega

/-- Metadata with `k` server counts: a file is created, grows, and is expanded to
more servers while the table has room. `guard` is asked before every expansion. -/
inductive Expansions (guard : Nat → XpnMetadata → Prop) : Nat → XpnMetadata → Prop where
  | created {mdata} (new : Created mdata) : Expansions guard 1 mdata
  | grown {k mdata} (run : Expansions guard k mdata) (size : Int) (grows : mdata.fileSize ≤ size) :
      Expansions guard k { mdata with fileSize := size }
  | expanded {k mdata mdata'} (run : Expansions guard k mdata) (allowed : guard k mdata) (room : k < maxReconstructions)
      (size : Int) (larger : mdata.nserv (k - 1) < size) (written : XpnExpand.copy mdata size = some mdata') :
      Expansions guard (k + 1) mdata'

namespace Expansion

def initial (bs level first n : Nat) (bs_pos : 0 < bs) (fits : level + 1 ≤ n) (first_lt : first < n) : Expansion where
  bs := bs
  level := level
  first := first
  k := 1
  n := fun _ => n
  limit := fun _ => 0
  bs_pos := bs_pos
  fits := fits
  first_lt := first_lt
  k_pos := Nat.one_pos
  increasing := fun i impossible => absurd impossible (by omega)
  start := rfl

/-- One more server count, for the blocks after `last`. -/
def extend (e : Expansion) (size : Nat) (last : Int) (larger : e.n (e.k - 1) < size) : Expansion where
  bs := e.bs
  level := e.level
  first := e.first
  k := e.k + 1
  n := fun i => if i = e.k then size else e.n i
  limit := fun i => if i = e.k then last else e.limit i
  bs_pos := e.bs_pos
  fits := by rw [if_neg e.k_pos.ne]; exact e.fits
  first_lt := by rw [if_neg e.k_pos.ne]; exact e.first_lt
  k_pos := Nat.succ_pos _
  increasing := by
    intro i inside
    rw [if_neg (by omega)]
    split
    next last =>
      rw [← last] at larger
      exact larger
    next => exact e.increasing i (by omega)
  start := by rw [if_neg e.k_pos.ne]; exact e.start

variable {e : Expansion}

theorem Describes.created {mdata : XpnMetadata} (new : Created mdata) : ∃ e : Expansion, e.k = 1 ∧ e.Describes mdata := by
  have level := new.level
  have fits := new.fits
  have first := new.first
  have blocks := new.blockSize
  refine ⟨initial mdata.blockSize.toNat mdata.replicationLevel.toNat mdata.firstNode.toNat (mdata.nserv 0).toNat
    (by omega) (by omega) (by omega), rfl, new.magic, ?_, ?_, ?_, (show 1 ≤ maxReconstructions by decide), ?_, ?_, ?_, ?_⟩
  · exact (Int.toNat_of_nonneg (by omega)).symm
  · exact (Int.toNat_of_nonneg (by omega)).symm
  · exact (Int.toNat_of_nonneg (by omega)).symm
  · intro i inside
    rw [show i = 0 from Nat.lt_one_iff.mp inside]
    exact (Int.toNat_of_nonneg (by omega)).symm
  · exact fun i _ => new.unset i
  · exact new.plain
  · exact fun i _ => new.unset i

theorem Describes.grown {mdata : XpnMetadata} (describes : e.Describes mdata) (size : Int) :
    e.Describes { mdata with fileSize := size } :=
  ⟨describes.magic, describes.blockSize, describes.replicationLevel, describes.firstNode, describes.room,
    describes.servers, describes.limits, describes.servers_end, describes.limits_end⟩

private theorem freeEntry_eq {mdata : XpnMetadata} (describes : e.Describes mdata) (room : e.k < maxReconstructions) :
    XpnExpand.freeEntry mdata = some e.k := by
  have past := describes.servers_end e.k le_rfl
  unfold XpnExpand.freeEntry
  rw [List.find?_range_eq_some]
  refine ⟨by simpa [past] using Nat.succ_le_of_lt e.k_pos, List.mem_range.mpr room, fun j before => ?_⟩
  have present := describes.nserv_pos before
  simp [present.ne']

/-- Expanding a described file appends the limit that the tool computes. -/
theorem Describes.copied {mdata mdata' : XpnMetadata} (describes : e.Describes mdata) (room : e.k < maxReconstructions)
    {size : Int} (larger : mdata.nserv (e.k - 1) < size) (written : XpnExpand.copy mdata size = some mdata') :
    mdata'.fileSize = mdata.fileSize ∧
      ∃ larger : e.n (e.k - 1) < size.toNat,
        (e.extend size.toNat (XpnExpand.limitActualBlocks mdata.fileSize e.bs (e.n (e.k - 1))) larger).Describes mdata' := by
  have top := describes.servers (e.k - 1) (by have := e.k_pos; omega)
  rw [top] at larger
  rw [XpnExpand.copy, if_pos describes.magic, freeEntry_eq describes room] at written
  obtain rfl := Option.some.inj written
  have blocks := describes.blockSize
  generalize computed : XpnExpand.limitActualBlocks mdata.fileSize e.bs (e.n (e.k - 1)) = last
  rw [← blocks, ← top] at computed
  rw [computed]
  have servers : ∀ i, (mdata.dataNserv.setIfInBounds e.k size)[i]?.getD 0 = if i = e.k then size else mdata.nserv i := by
    intro i
    rw [Vector.getElem?_setIfInBounds, XpnMetadata.nserv]
    by_cases same : e.k = i
    · simp [same, same ▸ room]
    · rw [if_neg same, if_neg (Ne.symm same)]
  have limits : ∀ i, (mdata.offsets.setIfInBounds e.k last)[i]?.getD 0 = if i = e.k then last else mdata.offs i := by
    intro i
    rw [Vector.getElem?_setIfInBounds, XpnMetadata.offs]
    by_cases same : e.k = i
    · simp [same, same ▸ room]
    · rw [if_neg same, if_neg (Ne.symm same)]
  refine ⟨rfl, by omega, describes.magic, describes.blockSize, describes.replicationLevel,
    describes.firstNode, room, ?_, ?_, ?_, ?_⟩
  · intro i inside
    refine (servers i).trans ?_
    show _ = ((if i = e.k then size.toNat else e.n i : Nat) : Int)
    split
    · exact (Int.toNat_of_nonneg (by omega)).symm
    · exact describes.servers i (by have : i < e.k + 1 := inside; omega)
  · intro i inside
    refine (limits i).trans ?_
    show _ = (if i = e.k then last else e.limit i)
    split
    · rfl
    · exact describes.limits i (by have : i < e.k + 1 := inside; omega)
  · intro i past
    have : e.k + 1 ≤ i := past
    refine (servers i).trans ?_
    rw [if_neg (by omega)]
    exact describes.servers_end i (by omega)
  · intro i past
    have : e.k + 1 ≤ i := past
    refine (limits i).trans ?_
    rw [if_neg (by omega)]
    exact describes.limits_end i (by omega)

private theorem rounded_lines {a n : Nat} (positive : 0 < n) :
    ((a : Int) + n - 1).tdiv n * n = (((a + n - 1) / n * n : Nat) : Int) := by
  have rounded : (a : Int) + n - 1 = ((a + n - 1 : Nat) : Int) := by omega
  rw [rounded, ← Int.ofNat_tdiv, Nat.cast_mul]

/-- The limit is the last block of the lines that the whole blocks of the file fill, when an `int`
holds their number. -/
theorem limit_eq {fileSize : Int} (bs : Nat) {n : Nat} (natural : 0 ≤ fileSize) (positive : 0 < n)
    (fits : fileSize.toNat / bs + n ≤ 2 ^ 31) :
    XpnExpand.limitActualBlocks fileSize bs n = (((fileSize.toNat / bs + n - 1) / n * n : Nat) : Int) - 1 := by
  obtain ⟨size, rfl⟩ := Int.eq_ofNat_of_zero_le natural
  have blocks : (size : Int).tdiv bs = ((size / bs : Nat) : Int) := rfl
  rw [Int.toNat_natCast] at fits ⊢
  rw [XpnExpand.limitActualBlocks, blocks]
  generalize size / bs = a at *
  have rounded : (a : Int) + n - 1 = ((a + n - 1 : Nat) : Int) := by omega
  have lines := Nat.div_mul_le_self (a + n - 1) n
  rw [toCInt_natural (by omega), rounded, toCInt_natural (by omega), ← rounded, rounded_lines positive]
  exact Int.bmod_eq_of_le (by omega) (by omega)

/-- What holds of a new history and is kept by every guarded expansion holds of
the history of every metadata of a run. -/
theorem described {guard : Nat → XpnMetadata → Prop} (property : Expansion → Prop) (new : ∀ e : Expansion, e.k = 1 → property e)
    (grows : ∀ (e : Expansion) (mdata : XpnMetadata) (size : Nat) (last : Int) (larger : e.n (e.k - 1) < size),
      e.Describes mdata → 0 ≤ mdata.fileSize → guard e.k mdata →
      last = XpnExpand.limitActualBlocks mdata.fileSize e.bs (e.n (e.k - 1)) → property e →
      property (e.extend size last larger))
    {k : Nat} {mdata : XpnMetadata} (run : Expansions guard k mdata) :
    ∃ e : Expansion, e.k = k ∧ e.Describes mdata ∧ 0 ≤ mdata.fileSize ∧ property e := by
  induction run with
  | created fresh =>
    obtain ⟨e, one, describes⟩ := Describes.created fresh
    exact ⟨e, one, describes, fresh.size, new e one⟩
  | grown _ size larger ih =>
    obtain ⟨e, same, describes, natural, holds⟩ := ih
    exact ⟨e, same, describes.grown size, le_trans natural larger, holds⟩
  | expanded _ allowed room size larger written ih =>
    obtain ⟨e, rfl, describes, natural, holds⟩ := ih
    obtain ⟨sameSize, larger, described⟩ := describes.copied room larger written
    exact ⟨_, rfl, described, sameSize ▸ natural, grows e _ size.toNat _ larger describes natural allowed rfl holds⟩

/-- Limits that do not fall by more than the lines of their segment can make up for. -/
structure Steady (e : Expansion) : Prop where
  limits : ∀ i, 0 < i → i < e.k → -1 ≤ e.limit i
  falls : ∀ i, 0 < i → i + 1 < e.k → (e.limit i - e.limit (i + 1)) * (e.level + 1) + 1 < 2 * e.n i

private theorem tdiv_ge {x : Int} {n : Nat} (positive : 0 < n) (above : -2 * (n : Int) < x) : -1 ≤ x.tdiv n := by
  rcases Int.le_total 0 x with natural | negative
  · have := Int.tdiv_nonneg natural (Int.natCast_nonneg n)
    omega
  · obtain ⟨y, rfl⟩ : ∃ y, x = -y := ⟨-x, (Int.neg_neg x).symm⟩
    have small : y.tdiv n < 2 := by
      rw [Int.tdiv_eq_ediv_of_nonneg (by omega)]
      exact Int.ediv_lt_of_lt_mul (by omega) (by omega)
    rw [Int.neg_tdiv]
    omega

theorem Steady.base_le (steady : e.Steady) {i j : Nat} (order : i ≤ j) (bound : j < e.k) : e.base i ≤ e.base j := by
  induction j with
  | zero => rw [Nat.le_zero.mp order]
  | succ j ih =>
    rcases Nat.lt_or_eq_of_le order with earlier | rfl
    · have before := ih (Nat.le_of_lt_succ earlier) (by omega)
      have line : -1 ≤ e.lastLine j := by
        apply tdiv_ge (n_pos (by omega))
        unfold lastBlock
        split
        next zero =>
          subst zero
          have low := steady.limits 1 Nat.one_pos bound
          have fits := n_pos (e := e) e.k_pos
          nlinarith
        next later =>
          have falls := steady.falls j (Nat.pos_of_ne_zero later) bound
          nlinarith
      rw [base]
      omega
    · exact le_rfl

/-- A server skips the same lines in every segment. -/
theorem joined_stable {s : Int} {i j : Nat} (order : i ≤ j) (bound : j < e.k) (present : s < e.n i) :
    e.joined s j = e.joined s i := by
  induction j with
  | zero => rw [Nat.le_zero.mp order]
  | succ j ih =>
    rcases Nat.lt_or_eq_of_le order with earlier | rfl
    · have wider := n_le (Nat.le_of_lt_succ earlier) (by omega : j < e.k)
      rw [joined, if_neg (by omega)]
      exact ih (Nat.le_of_lt_succ earlier) (by omega)
    · rfl

theorem Steady.joined_le (steady : e.Steady) (s : Int) {i : Nat} (bound : i < e.k) : e.joined s i ≤ e.base i := by
  induction i with
  | zero => exact le_rfl
  | succ i ih =>
    rw [joined]
    split
    · exact le_rfl
    · exact le_trans (ih (by omega)) (steady.base_le (Nat.le_succ i) bound)

/-- The blocks of a segment end before the next segment starts. -/
theorem line_lt_next {p r i : Nat} (copy : r ≤ e.level) (here : e.segment (p / e.bs : Nat) = i) (bound : i + 1 < e.k)
    (limited : e.limit (i + 1) ≠ 0) : ((e.slotIn i p r / e.n i : Nat) : Int) + e.base i < e.base (i + 1) := by
  have natural := inner_nonneg (e := e) (Int.natCast_nonneg (p / e.bs)) (Nat.le_of_eq here.symm)
  have inside : ((p / e.bs : Nat) : Int) ≤ e.limit (i + 1) := by
    rcases here ▸ segment_stops (e := e) (p / e.bs : Nat) with last | below | zero
    · omega
    · exact below
    · exact absurd zero limited
  have below : e.innerBlock (p / e.bs : Nat) i ≤ e.lastBlock i := by
    unfold innerBlock lastBlock
    split
    next zero =>
      subst zero
      exact inside
    next => omega
  have line : ((e.slotIn i p r / e.n i : Nat) : Int) ≤ e.lastLine i := by
    unfold lastLine slotIn slot
    generalize e.innerBlock (p / e.bs : Nat) i = c at *
    have slots : ((c.toNat * (e.level + 1) + r : Nat) : Int) ≤ e.lastBlock i * (e.level + 1) + e.level := by
      push_cast
      rw [Int.toNat_of_nonneg natural]
      nlinarith
    rw [Int.tdiv_eq_ediv_of_nonneg (le_trans (Int.natCast_nonneg _) slots), Int.natCast_ediv]
    exact Int.ediv_le_ediv (by have := n_pos (e := e) (by omega : i < e.k); omega) slots
  rw [base]
  omega

private def lineIn (e : Expansion) (i p r : Nat) : Int :=
  (e.slotIn i p r / e.n i : Nat) + e.base i - e.joined (e.serverIn i p r) i

private theorem server_lt (e : Expansion) (p r : Nat) {i : Nat} (bound : i < e.k) : e.serverIn i p r < e.n i :=
  bin_lt (n_pos bound) _

private theorem Steady.earlier_line (steady : e.Steady) {p r p' r' : Nat} (copy : r ≤ e.level)
    (order : e.segment (p / e.bs : Nat) < e.segment (p' / e.bs : Nat))
    (servers : e.serverIn (e.segment (p / e.bs : Nat)) p r = e.serverIn (e.segment (p' / e.bs : Nat)) p' r') :
    lineIn e (e.segment (p / e.bs : Nat)) p r < lineIn e (e.segment (p' / e.bs : Nat)) p' r' := by
  have bound' := segment_lt (e := e) (p' / e.bs : Nat)
  have limited : e.limit (e.segment (p / e.bs : Nat) + 1) ≠ 0 := by
    have goes_on := not_stops (e := e) order
    unfold Stops at goes_on
    push Not at goes_on
    exact goes_on.2.2
  have ends := line_lt_next copy rfl (by omega) limited
  have starts := steady.base_le (Nat.succ_le_of_lt order) bound'
  have present := server_lt e p r (segment_lt (e := e) (p / e.bs : Nat))
  have skipped := joined_stable (e := e) (s := e.serverIn (e.segment (p / e.bs : Nat)) p r) order.le bound' (by omega)
  unfold lineIn
  rw [← servers, skipped]
  rw [Nat.succ_eq_add_one] at starts
  have : (0 : Int) ≤ (e.slotIn (e.segment (p' / e.bs : Nat)) p' r' / e.n (e.segment (p' / e.bs : Nat)) : Nat) :=
    Int.natCast_nonneg _
  omega

private theorem divided {bs x y x' y' : Int} (positive : 0 < bs) (low : 0 ≤ y ∧ y < bs) (low' : 0 ≤ y' ∧ y' < bs)
    (same : x * bs + y = x' * bs + y') : x = x' ∧ y = y' := by
  have quotient : x = x' := by
    by_contra different
    rcases Int.lt_or_gt_of_ne different with less | more
    · nlinarith
    · nlinarith
  subst quotient
  exact ⟨rfl, by omega⟩

/-- No two copies are stored in one place. -/
theorem Steady.place_injective (steady : e.Steady) {p r p' r' : Nat} (copy : r ≤ e.level) (copy' : r' ≤ e.level)
    (same : e.place p r = e.place p' r') : p = p' ∧ r = r' := by
  obtain ⟨offsets, servers⟩ := Prod.ext_iff.mp same
  have servers : e.serverIn (e.segment (p / e.bs : Nat)) p r = e.serverIn (e.segment (p' / e.bs : Nat)) p' r' :=
    Int.ofNat_inj.mp servers
  have rest := Nat.mod_lt p e.bs_pos
  have rest' := Nat.mod_lt p' e.bs_pos
  obtain ⟨lines, rests⟩ : lineIn e (e.segment (p / e.bs : Nat)) p r = lineIn e (e.segment (p' / e.bs : Nat)) p' r' ∧
      ((p % e.bs : Nat) : Int) = (p' % e.bs : Nat) :=
    divided (Int.natCast_pos.mpr e.bs_pos) (by omega) (by omega) offsets
  have segments : e.segment (p / e.bs : Nat) = e.segment (p' / e.bs : Nat) := by
    rcases Nat.lt_trichotomy (e.segment (p / e.bs : Nat)) (e.segment (p' / e.bs : Nat)) with before | same | after
    · exact absurd lines (steady.earlier_line copy before servers).ne
    · exact same
    · exact absurd lines.symm (steady.earlier_line copy' after servers.symm).ne
  have slots : e.slotIn (e.segment (p / e.bs : Nat)) p r = e.slotIn (e.segment (p' / e.bs : Nat)) p' r' := by
    unfold lineIn at lines
    rw [← servers, ← segments] at lines
    rw [← segments] at servers ⊢
    exact slot_unique servers (by omega)
  obtain ⟨blocks, copies⟩ := slot_injective (Nat.lt_succ_of_le copy) (Nat.lt_succ_of_le copy') slots
  refine ⟨?_, copies⟩
  have inner := inner_nonneg (e := e) (Int.natCast_nonneg (p / e.bs)) le_rfl
  have inner' := inner_nonneg (e := e) (Int.natCast_nonneg (p' / e.bs)) le_rfl
  have numbers : p / e.bs = p' / e.bs := by
    rw [← segments] at inner' blocks
    unfold Expansion.innerBlock at inner inner' blocks
    split at blocks <;> omega
  rw [← Nat.div_add_mod p e.bs, ← Nat.div_add_mod p' e.bs, numbers, Int.ofNat_inj.mp rests]

/-- Every copy is at a whole block of one of the current servers. -/
theorem Steady.place_range (steady : e.Steady) (b r : Nat) :
    let found := e.place (b * e.bs) r
    0 ≤ found.1 ∧ (e.bs : Int) ∣ found.1 ∧ 0 ≤ found.2 ∧ found.2 < e.n (e.k - 1) := by
  have bound := segment_lt (e := e) (b * e.bs / e.bs : Nat)
  have skipped := steady.joined_le (e.serverIn (e.segment (b * e.bs / e.bs : Nat)) (b * e.bs) r) bound
  have present := server_lt e (b * e.bs) r bound
  have wider := n_le (e := e) (by omega : e.segment (b * e.bs / e.bs : Nat) ≤ e.k - 1) (by omega)
  simp only [place, placeIn, Nat.mul_mod_left, Nat.cast_zero, Int.add_zero]
  refine ⟨Int.mul_nonneg ?_ (Int.natCast_nonneg _), Int.dvd_mul_left _ _, Int.natCast_nonneg _, by omega⟩
  have : (0 : Int) ≤ (e.slotIn (e.segment (b * e.bs / e.bs : Nat)) (b * e.bs) r /
    e.n (e.segment (b * e.bs / e.bs : Nat)) : Nat) := Int.natCast_nonneg _
  omega

end Expansion

/-- The tool's `int`s hold the whole blocks of the file, rounded up to full lines. -/
def HoldsBlocks (k : Nat) (mdata : XpnMetadata) : Prop :=
  mdata.fileSize.tdiv mdata.blockSize + mdata.nserv (k - 1) ≤ 2 ^ 31

instance (k : Nat) (mdata : XpnMetadata) : Decidable (HoldsBlocks k mdata) := inferInstanceAs (Decidable (_ ≤ _))

/-- The condition on the metadata before an expansion: an `int` holds the blocks of the file, and
rounded up to full lines they do not end so far before the last limit that the start of the new
segment would go back. -/
def KeepsBase (k : Nat) (mdata : XpnMetadata) : Prop :=
  HoldsBlocks k mdata ∧ (k = 1 ∨ (mdata.offs (k - 1) + 1 - (mdata.fileSize.tdiv mdata.blockSize + mdata.nserv (k - 1) - 1).tdiv
    (mdata.nserv (k - 1)) * mdata.nserv (k - 1)) * (mdata.replicationLevel + 1) + 1 < 2 * mdata.nserv (k - 1))

instance (k : Nat) (mdata : XpnMetadata) : Decidable (KeepsBase k mdata) :=
  inferInstanceAs (Decidable (_ ∧ (_ ∨ _)))

theorem HoldsBlocks.blocks {e : Expansion} {mdata : XpnMetadata} (describes : e.Describes mdata) (natural : 0 ≤ mdata.fileSize) :
    HoldsBlocks e.k mdata ↔ mdata.fileSize.toNat / e.bs + e.n (e.k - 1) ≤ 2 ^ 31 := by
  obtain ⟨stored, size⟩ := Int.eq_ofNat_of_zero_le natural
  have whole : mdata.fileSize.tdiv mdata.blockSize = ((stored / e.bs : Nat) : Int) := by
    rw [size, describes.blockSize]
    rfl
  rw [HoldsBlocks, whole, describes.servers _ (by have := e.k_pos; omega), size, Int.toNat_natCast]
  omega

open Expansion in
private theorem Expansions.steady {k : Nat} {mdata : XpnMetadata} (run : Expansions KeepsBase k mdata) :
    ∃ e : Expansion, e.k = k ∧ e.Describes mdata ∧ 0 ≤ mdata.fileSize ∧ e.Steady := by
  refine described Steady ?_ ?_ run
  · intro e one
    exact ⟨fun i positive inside => by omega, fun i positive inside => by omega⟩
  · intro e mdata size last larger describes natural allowed computed steady
    have top : e.k - 1 < e.k := by have := e.k_pos; omega
    obtain ⟨holds, allowed⟩ := allowed
    have last_eq := limit_eq e.bs natural (n_pos top) ((HoldsBlocks.blocks describes natural).mp holds)
    rw [← computed] at last_eq
    have low : -1 ≤ last := by omega
    constructor
    · intro i positive inside
      show -1 ≤ if i = e.k then last else e.limit i
      have inside : i < e.k + 1 := inside
      split
      · exact low
      · exact steady.limits i positive (by omega)
    · intro i positive inside
      have inside : i + 1 < e.k + 1 := inside
      show ((if i = e.k then last else e.limit i) - (if i + 1 = e.k then last else e.limit (i + 1))) * ((e.level : Int) + 1) + 1
        < 2 * ((if i = e.k then size else e.n i : Nat) : Int)
      rw [if_neg (by omega), if_neg (by omega : ¬i = e.k)]
      split
      next newest =>
        -- The new limit is the one the condition is about.
        have i_eq : i = e.k - 1 := by omega
        subst i_eq
        rcases allowed with one | keeps
        · omega
        · rw [describes.limits _ top, describes.servers _ top, describes.blockSize, describes.replicationLevel] at keeps
          obtain ⟨stored, size⟩ := Int.eq_ofNat_of_zero_le natural
          have lines : (mdata.fileSize.tdiv e.bs + (e.n (e.k - 1) : Nat) - 1).tdiv (e.n (e.k - 1) : Nat) * (e.n (e.k - 1) : Nat) =
              (((mdata.fileSize.toNat / e.bs + e.n (e.k - 1) - 1) / e.n (e.k - 1) * e.n (e.k - 1) : Nat) : Int) := by
            have positive := n_pos top
            have blocks : ((stored : Nat) : Int).tdiv e.bs = ((stored / e.bs : Nat) : Int) := rfl
            rw [size, Int.toNat_natCast, blocks, rounded_lines positive]
          rw [lines] at keeps
          rw [last_eq]
          linarith
      next => exact steady.falls i positive (by omega)

/-- In every run whose expansions keep their bases, no two copies of blocks share
storage, and every copy is at a whole block of a current server. -/
theorem expanded_blocks_apart {k : Nat} {mdata : XpnMetadata} (run : Expansions KeepsBase k mdata) :
    (∀ b r b' r' : Nat, (r : Int) ≤ mdata.replicationLevel → (r' : Int) ≤ mdata.replicationLevel →
      xpnCalculateBlockMdata mdata (b * mdata.blockSize) r = xpnCalculateBlockMdata mdata (b' * mdata.blockSize) r' →
      b = b' ∧ r = r') ∧
    ∀ b r : Nat, (r : Int) ≤ mdata.replicationLevel →
      let found := xpnCalculateBlockMdata mdata (b * mdata.blockSize) r
      0 ≤ found.1 ∧ mdata.blockSize ∣ found.1 ∧ 0 ≤ found.2 ∧ found.2 < mdata.nserv (k - 1) := by
  obtain ⟨e, rfl, describes, -, steady⟩ := run.steady
  have placed : ∀ b r : Nat, xpnCalculateBlockMdata mdata (b * mdata.blockSize) r = e.place (b * e.bs) r := by
    intro b r
    rw [describes.blockSize, ← describes.calculate, Nat.cast_mul]
  rw [describes.replicationLevel]
  refine ⟨fun b r b' r' copy copy' same => ?_, fun b r copy => ?_⟩
  · rw [placed, placed] at same
    obtain ⟨bytes, copies⟩ := steady.place_injective (by omega) (by omega) same
    exact ⟨Nat.eq_of_mul_eq_mul_right e.bs_pos bytes, copies⟩
  · rw [placed, describes.servers _ (by have := e.k_pos; omega), describes.blockSize]
    exact steady.place_range b r

/-- Six blocks of one byte on five servers, five copies each. -/
def sixBlocks : XpnMetadata := { xpnCreateMetadataExtern [slash, 100] 5 1 4 with fileSize := 6 }

private theorem sixBlocks_run (guard : Nat → XpnMetadata → Prop) : Expansions guard 1 sixBlocks :=
  .grown (.created (xpnCreateMetadataExtern_created (by decide) (by decide) (by decide) (by decide))) 6 (by decide)

def sixBlocksOnSix : XpnMetadata :=
  { sixBlocks with
    dataNserv := sixBlocks.dataNserv.setIfInBounds 1 6
    offsets := sixBlocks.offsets.setIfInBounds 1 9 }

def sixBlocksOnEighteen : XpnMetadata :=
  { sixBlocksOnSix with
    dataNserv := sixBlocksOnSix.dataNserv.setIfInBounds 2 18
    offsets := sixBlocksOnSix.offsets.setIfInBounds 2 5 }

/-- The second limit falls from 9 to 5, and copies of blocks 9 and 10 meet. -/
theorem expanded_blocks_collide : ¬∀ (k : Nat) (mdata : XpnMetadata), Expansions (fun _ _ => True) k mdata → k ≤ 38 →
    ∀ b r b' r' : Nat, (r : Int) ≤ mdata.replicationLevel → (r' : Int) ≤ mdata.replicationLevel →
      xpnCalculateBlockMdata mdata (b * mdata.blockSize) r = xpnCalculateBlockMdata mdata (b' * mdata.blockSize) r' →
      b = b' ∧ r = r' := by
  intro apart
  have six : Expansions (fun _ _ => True) 2 sixBlocksOnSix :=
    .expanded (sixBlocks_run _) trivial (by decide) 6 (by decide) (by decide)
  have run : Expansions (fun _ _ => True) 3 sixBlocksOnEighteen :=
    .expanded six trivial (by decide) 18 (by decide) (by decide)
  have same := apart 3 sixBlocksOnEighteen run (by decide) 10 0 9 2 (by decide) (by decide) (by decide)
  exact absurd same.1 (by decide)

/-- With four more blocks the limit does not fall and the same expansions are safe. -/
def tenBlocksOnSix : XpnMetadata := { sixBlocksOnSix with fileSize := 10 }

theorem expanded_blocks_apart_ten :
    ∃ mdata, XpnExpand.copy tenBlocksOnSix 18 = some mdata ∧ ∀ b r b' r' : Nat, r ≤ 4 → r' ≤ 4 →
      xpnCalculateBlockMdata mdata b r = xpnCalculateBlockMdata mdata b' r' → b = b' ∧ r = r' := by
  have six : Expansions KeepsBase 2 sixBlocksOnSix :=
    .expanded (sixBlocks_run _) (by decide) (by decide) 6 (by decide) (by decide)
  have run : Expansions KeepsBase 2 tenBlocksOnSix := .grown six 10 (by decide)
  obtain ⟨mdata, written⟩ : ∃ mdata, XpnExpand.copy tenBlocksOnSix 18 = some mdata :=
    Option.isSome_iff_exists.mp (by decide)
  have same : mdata = { tenBlocksOnSix with
      dataNserv := tenBlocksOnSix.dataNserv.setIfInBounds 2 18
      offsets := tenBlocksOnSix.offsets.setIfInBounds 2 11 } :=
    Option.some.inj (written.symm.trans (by decide))
  have apart := (expanded_blocks_apart (.expanded run (by decide) (by decide) 18 (by decide) written)).1
  have level : mdata.replicationLevel = 4 := by rw [same]; rfl
  have blocks : mdata.blockSize = 1 := by rw [same]; rfl
  refine ⟨mdata, written, fun b r b' r' copy copy' collide => apart b r b' r' (by omega) (by omega) ?_⟩
  rw [blocks, Int.mul_one, Int.mul_one]
  exact collide

end Xpn.Proofs
