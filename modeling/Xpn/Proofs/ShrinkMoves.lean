import Xpn.Proofs.ShrinkTool

/-! What moves the blocks. Every server that leaves sends all copies it has to where the new
metadata places them, and as no two copies share a place the order in which the messages of all of
them arrive does not matter. -/

namespace Xpn.Proofs
open Lib.ByteFile Lib.Striping XpnShrink

/-- The message writes this byte of the file of this rank. -/
def WritesByte (rank i : Nat) (message : BlockMessage) : Prop :=
  message.rankToSend = rank ∧ Covers i ((message.offset + xpnHeaderSize).toNat, message.data)

/-- Messages that agree on a byte can arrive in any order. -/
theorem recvBlocks_agree {rank i : Nat} {x : Byte} : ∀ (messages : List BlockMessage) (files : Nat → List Byte),
    (∀ message ∈ messages, WritesByte rank i message →
      message.data[i - (message.offset + xpnHeaderSize).toNat]? = some x) →
    ((files rank)[i]? = some x ∨ ∃ message ∈ messages, WritesByte rank i message) →
    (messages.foldl recvBlock files rank)[i]? = some x := by
  intro messages
  induction messages with
  | nil =>
    intro files _ reached
    rcases reached with kept | ⟨_, member, _⟩
    · exact kept
    · cases member
  | cons message messages ih =>
    intro files agree reached
    rw [List.foldl_cons]
    refine ih _ (fun other member => agree other (List.mem_cons_of_mem _ member)) ?_
    by_cases here : rank = message.rankToSend
    · have written : recvBlock files message rank =
          pwrite (files rank) (message.offset + xpnHeaderSize).toNat message.data := by
        rw [recvBlock, ← here, Function.update_self]
      rcases reached with kept | ⟨other, member, writes⟩
      · rw [written]
        exact Or.inl (getElem?_pwrite_agree (fun covers => agree message List.mem_cons_self ⟨here.symm, covers⟩)
          (Or.inl kept))
      · rcases List.mem_cons.mp member with rfl | later
        · rw [written]
          exact Or.inl (getElem?_pwrite_agree (fun covers => agree other List.mem_cons_self ⟨here.symm, covers⟩)
            (Or.inr writes.2))
        · exact Or.inr ⟨other, later, writes⟩
    · have untouched : recvBlock files message rank = files rank := Function.update_of_ne here _ _
      rcases reached with kept | ⟨other, member, writes⟩
      · rw [untouched]
        exact Or.inl kept
      · rcases List.mem_cons.mp member with rfl | later
        · exact absurd writes.1.symm here
        · exact Or.inr ⟨other, later, writes⟩

namespace Shrinking
variable {h h' : Shrinking} {mdata mdata' : XpnMetadata} {b r : Nat}

theorem Numbered.injective {n servers rank rank' : Nat} {numbers : Nat → Int} {kept : Nat → Prop}
    (numbered : Numbered n servers numbers kept) (here : kept rank) (here' : kept rank')
      (same : numbers rank = numbers rank') :
    rank = rank' := by
  rcases Nat.lt_trichotomy rank rank' with less | equal | greater
  · have := numbered.ordered rank rank' here here' less
    omega
  · exact equal
  · have := numbered.ordered rank' rank here' here greater
    omega

/-- The tool finds the kept rank with the number. -/
theorem Numbered.rankToSend_eq {n servers s rank : Nat} {numbers : Nat → Int} {kept : Nat → Prop}
    (numbered : Numbered n servers numbers kept) (here : kept rank) (bound : rank < n) (number : numbers rank = s) :
    rankToSend numbers n s = rank := by
  have found : (List.range n).find? (fun other => (s : Int) == numbers other) = some rank := by
    rw [List.find?_range_eq_some]
    refine ⟨by rw [number]; exact beq_self_eq_true _, List.mem_range.mpr bound, ?_⟩
    intro other before
    rw [Bool.not_eq_true', beq_eq_false_iff_ne, ← number]
    intro same
    by_cases member : kept other
    · exact before.ne (numbered.injective member here same.symm)
    · have := numbered.gone other (by omega) member
      omega
  rw [rankToSend, found, Option.getD_some]

theorem settled_lt (leavers : h.Inside) : ∀ j, j ≤ h.k → (h.settled b r j).2 < h.n - j := by
  intro j
  induction j with
  | zero =>
    intro _
    exact bin_lt (servers_pos (Nat.zero_le _)) _
  | succ j ih =>
    intro inside
    have earlier := ih (by omega)
    have leaver := leavers j inside
    have next : ∀ q, (h.spot (j + 1) q).2 < h.n - (j + 1) := fun q => bin_lt (servers_pos inside) q
    rw [settled]
    split
    · rw [shift]
      split
      · exact next _
      · split
        next above =>
          change (h.settled b r j).2 - 1 < _
          omega
        next => omega
    · exact next _

section
variable (describes : h.Describes mdata)
include describes

theorem findCopy_some {rank : Nat} {o : Int} : ∀ fuel first,
    findCopy mdata rank (b * mdata.blockSize) fuel first = some (o, r) →
    r < first + fuel ∧ (h.place b r).2 = rank ∧ o = ((h.place b r).1 * h.bs : Nat) := by
  intro fuel
  induction fuel with
  | zero =>
    intro first found
    cases found
  | succ fuel ih =>
    intro first found
    rw [findCopy, describes.calculate_block] at found
    dsimp only at found
    split at found
    next here =>
      obtain ⟨rfl, rfl⟩ := Prod.mk.inj (Option.some.inj found)
      exact ⟨by omega, (Int.ofNat_inj.mp here).symm, rfl⟩
    next =>
      obtain ⟨bound, place⟩ := ih (first + 1) found
      exact ⟨by omega, place⟩

theorem findCopy_none {rank : Nat} : ∀ fuel first, findCopy mdata rank (b * mdata.blockSize) fuel first = none →
    ∀ r, first ≤ r → r < first + fuel → (h.place b r).2 ≠ rank := by
  intro fuel
  induction fuel with
  | zero =>
    intro first _ r above below
    omega
  | succ fuel ih =>
    intro first missing r above below
    rw [findCopy, describes.calculate_block] at missing
    dsimp only at missing
    split at missing
    next => cases missing
    next elsewhere =>
      rcases Nat.lt_or_eq_of_le above with later | rfl
      · exact ih (first + 1) missing r later (by omega)
      · exact fun same => elsewhere (congrArg Nat.cast same.symm)

end

def message (h h' : Shrinking) (numbers : Nat → Int) (file : List Byte) (b r : Nat) : BlockMessage :=
  ⟨rankToSend numbers h.n (h'.place b r).2, ((h'.place b r).1 * h'.bs : Nat),
    pread file ((h.place b r).1 * h.bs + xpnHeaderSize) h.bs⟩

theorem readerLoop_succ (numbers : Nat → Int) (rank : Nat) (file : List Byte) (describes : h.Describes mdata)
    (describes' : h'.Describes mdata') (same : h'.bs = h.bs) (fuel b : Nat) :
    (readerLoop mdata mdata' numbers h.n rank file (fuel + 1) b =
        readerLoop mdata mdata' numbers h.n rank file fuel (b + 1) ∧ ∀ r, r ≤ h.level → (h.place b r).2 ≠ rank) ∨
      ∃ r, r ≤ h.level ∧ (h.place b r).2 = rank ∧ readerLoop mdata mdata' numbers h.n rank file (fuel + 1) b =
        if (h.message h' numbers file b r).data = [] then []
        else h.message h' numbers file b r :: readerLoop mdata mdata' numbers h.n rank file fuel (b + 1) := by
  have copies : (mdata.replicationLevel + 1).toNat = h.level + 1 := by
    rw [describes.replicationLevel]
    omega
  rw [readerLoop, copies]
  cases found : findCopy mdata rank (b * mdata.blockSize) (h.level + 1) 0 with
  | none =>
    have nowhere := findCopy_none describes _ _ found
    exact Or.inl ⟨rfl, fun r copy => nowhere r (Nat.zero_le r) (by omega)⟩
  | some copy =>
    obtain ⟨o, r⟩ := copy
    obtain ⟨bound, here, rfl⟩ := findCopy_some describes _ _ found
    refine Or.inr ⟨r, by omega, here, ?_⟩
    have blocks : (b : Int) * mdata.blockSize = b * mdata'.blockSize := by
      rw [describes.blockSize, describes'.blockSize, same]
    have size : mdata'.blockSize.toNat = h.bs := by
      rw [describes'.blockSize, Int.toNat_natCast, same]
    have position : (((h.place b r).1 * h.bs : Nat) + (xpnHeaderSize : Int)).toNat =
      (h.place b r).1 * h.bs + xpnHeaderSize := by
      omega
    simp only [blocks, describes'.calculate_block, size, position, List.isEmpty_iff]
    rfl

section
variable {numbers : Nat → Int} {rank : Nat} {file : List Byte}

/-- Everything that is sent is a copy of the server that leaves. -/
theorem mem_readerLoop (describes : h.Describes mdata) (describes' : h'.Describes mdata') (same : h'.bs = h.bs)
    {m : BlockMessage} : ∀ fuel b, m ∈ readerLoop mdata mdata' numbers h.n rank file fuel b →
    ∃ b r, r ≤ h.level ∧ (h.place b r).2 = rank ∧ m = h.message h' numbers file b r := by
  intro fuel
  induction fuel with
  | zero =>
    intro b member
    cases member
  | succ fuel ih =>
    intro b member
    rcases readerLoop_succ numbers rank file describes describes' same fuel b with
      ⟨skips, -⟩ | ⟨r, copy, here, sends⟩
    · rw [skips] at member
      exact ih _ member
    · rw [sends] at member
      split at member
      · cases member
      · rcases List.mem_cons.mp member with now | later
        · exact ⟨b, r, copy, here, now⟩
        · exact ih _ later

end

theorem place_plain (none : h.k = 0) (b r : Nat) :
    h.place b r = (slot (h.level + 1) b r / h.n, bin h.n h.first (slot (h.level + 1) b r)) := by
  simp only [place, none, settled, spot, base, Nat.zero_add, Nat.sub_zero, slotIn, innerBlock]

theorem copy_unique (none : h.k = 0) {r r' : Nat} (copy : r ≤ h.level) (copy' : r' ≤ h.level)
    (same : (h.place b r).2 = (h.place b r').2) : r = r' := by
  have fits := h.fits
  rw [place_plain none, place_plain none] at same
  exact copies_apart (by omega) (Nat.lt_succ_of_le copy) (Nat.lt_succ_of_le copy') same

theorem line_mono (none : h.k = 0) {b b' r : Nat} (before : b < b') (copy : r ≤ h.level) (r' : Nat) :
    (h.place b r).1 ≤ (h.place b' r').1 := by
  rw [place_plain none, place_plain none]
  apply Nat.div_le_div_right
  have rows := Nat.mul_le_mul_right (h.level + 1) (Nat.succ_le_of_lt before)
  rw [Nat.succ_mul] at rows
  simp only [slot]
  omega

/-- The reader finds bytes of this copy in the file. -/
def HasBytes (h : Shrinking) (file : List Byte) (b r : Nat) : Prop := (h.place b r).1 * h.bs + xpnHeaderSize < file.length

theorem block_lt (none : h.k = 0) {file : List Byte} (stored : h.HasBytes file b r) : b < h.n * file.length := by
  have fits := h.fits
  rw [HasBytes, place_plain none] at stored
  have bytes := Nat.mul_le_mul_left (slot (h.level + 1) b r / h.n) h.bs_pos
  rw [Nat.mul_one] at bytes
  have row : slot (h.level + 1) b r / h.n < file.length := by
    dsimp only at stored
    omega
  rw [Nat.div_lt_iff_lt_mul (by omega), Nat.mul_comm] at row
  have items : b ≤ b * (h.level + 1) := Nat.le_mul_of_pos_right b (Nat.succ_pos h.level)
  unfold slot at row
  omega

theorem data_ne_nil (numbers : Nat → Int) {file : List Byte} (stored : h.HasBytes file b r) :
    (h.message h' numbers file b r).data ≠ [] := by
  have positive := h.bs_pos
  apply List.ne_nil_of_length_pos
  change 0 < (pread file _ _).length
  rw [length_pread]
  simp only [HasBytes] at stored
  omega

theorem data_eq_nil (numbers : Nat → Int) {file : List Byte} (missing : ¬h.HasBytes file b r) :
    (h.message h' numbers file b r).data = [] := by
  apply List.eq_nil_of_length_eq_zero
  change (pread file _ _).length = 0
  rw [length_pread]
  simp only [HasBytes] at missing
  omega

section
variable {numbers : Nat → Int} {rank : Nat} {file : List Byte}
  (describes : h.Describes mdata) (describes' : h'.Describes mdata') (same : h'.bs = h.bs) (none : h.k = 0)
include describes describes' same none

/-- A server that leaves sends every copy of which it has bytes. -/
theorem readerLoop_complete {b r : Nat} (copy : r ≤ h.level) (here : (h.place b r).2 = rank) (stored : h.HasBytes file b r) :
    ∀ fuel b₀, b₀ ≤ b → b < b₀ + fuel →
      h.message h' numbers file b r ∈ readerLoop mdata mdata' numbers h.n rank file fuel b₀ := by
  intro fuel
  induction fuel with
  | zero => omega
  | succ fuel ih =>
    intro b₀ before bound
    rcases readerLoop_succ numbers rank file describes describes' same fuel b₀ with
      ⟨skips, nowhere⟩ | ⟨r₀, copy₀, here₀, sends⟩
    · have different : b₀ ≠ b := by
        rintro rfl
        exact nowhere r copy here
      rw [skips]
      exact ih _ (by omega) (by omega)
    · rcases Nat.lt_or_eq_of_le before with earlier | rfl
      · have line := Nat.mul_le_mul_right h.bs (line_mono none earlier copy₀ r)
        have stored₀ : h.HasBytes file b₀ r₀ := by
          simp only [HasBytes] at stored ⊢
          omega
        rw [sends, if_neg (data_ne_nil numbers stored₀)]
        exact List.mem_cons_of_mem _ (ih _ earlier (by omega))
      · obtain rfl := copy_unique none copy₀ copy (here₀.trans here.symm)
        rw [sends, if_neg (data_ne_nil numbers stored)]
        exact List.mem_cons_self

/-- The reader stops by itself at a block of which it finds nothing. -/
theorem readerLoop_stops {b r : Nat} (copy : r ≤ h.level) (here : (h.place b r).2 = rank) (missing : ¬h.HasBytes file b r)
    (more : Nat) : ∀ fuel b₀, b₀ ≤ b → b < b₀ + fuel →
      readerLoop mdata mdata' numbers h.n rank file (fuel + more) b₀ =
        readerLoop mdata mdata' numbers h.n rank file fuel b₀ := by
  intro fuel
  induction fuel with
  | zero => omega
  | succ fuel ih =>
    intro b₀ before bound
    rw [Nat.add_right_comm]
    rcases readerLoop_succ numbers rank file describes describes' same (fuel + more) b₀ with
      ⟨skips, nowhere⟩ | ⟨r₀, copy₀, here₀, sends⟩
    · rcases readerLoop_succ numbers rank file describes describes' same fuel b₀ with
        ⟨skips', -⟩ | ⟨r₁, copy₁, here₁, -⟩
      · have different : b₀ ≠ b := by
          rintro rfl
          exact nowhere r copy here
        rw [skips, skips']
        exact ih _ (by omega) (by omega)
      · exact absurd here₁ (nowhere r₁ copy₁)
    · rcases readerLoop_succ numbers rank file describes describes' same fuel b₀ with
        ⟨-, nowhere⟩ | ⟨r₁, copy₁, here₁, sends'⟩
      · exact absurd here₀ (nowhere r₀ copy₀)
      · obtain rfl := copy_unique none copy₀ copy₁ (here₀.trans here₁.symm)
        rw [sends, sends']
        split
        · rfl
        next present =>
          have different : b₀ ≠ b := by
            rintro rfl
            obtain rfl := copy_unique none copy₀ copy (here₀.trans here.symm)
            exact present (data_eq_nil numbers missing)
          rw [ih _ (by omega) (by omega)]

/-- So many blocks are enough for the reader, whatever the file. -/
theorem readerLoop_ends (inside : rank < h.n) {fuel : Nat} (enough : h.n * (file.length + 2) ≤ fuel) (more : Nat) :
    readerLoop mdata mdata' numbers h.n rank file (fuel + more) 0 =
      readerLoop mdata mdata' numbers h.n rank file fuel 0 := by
  have whole : h.n ≤ h.n * (file.length + 2) - 1 := by
    have twice := Nat.mul_le_mul_left h.n (by omega : 2 ≤ file.length + 2)
    omega
  obtain ⟨k, near, -, there⟩ : ∃ k, k < h.n ∧ k ≤ h.n * (file.length + 2) - 1 ∧
      bin h.n h.first (h.n * (file.length + 2) - 1 - k) = rank := slot_of_bin inside whole
  generalize found : h.n * (file.length + 2) - 1 - k = q at there
  have parts : slot (h.level + 1) (q / (h.level + 1)) (q % (h.level + 1)) = q := Nat.div_add_mod' q (h.level + 1)
  have line : file.length + 1 ≤ q / h.n := by
    rw [Nat.le_div_iff_mul_le (by omega), Nat.mul_comm]
    have rows : h.n * (file.length + 2) = h.n * (file.length + 1) + h.n := Nat.mul_succ _ _
    omega
  have block : q / (h.level + 1) ≤ q := Nat.div_le_self _ _
  have copy := Nat.mod_lt q (Nat.succ_pos h.level)
  refine readerLoop_stops describes describes' same none (b := q / (h.level + 1)) (r := q % (h.level + 1))
    (Nat.le_of_lt_succ copy) ?_ ?_ more fuel 0 (Nat.zero_le _) (by omega)
  · rw [place_plain none, parts]
    exact there
  · rw [HasBytes, place_plain none, parts]
    have bytes := Nat.mul_le_mul_left (q / h.n) h.bs_pos
    rw [Nat.mul_one] at bytes
    dsimp only
    omega

end

end Shrinking

/-- The byte of a server's file at a local offset, behind the metadata. -/
def storedByte (file : List Byte) (localOffset : Int) : Option Byte := file[(localOffset + xpnHeaderSize).toNat]?

private theorem lines_eq {bs line line' rest : Nat} (inside : rest < bs) (above : line' * bs ≤ line * bs + rest)
    (below : line * bs + rest < line' * bs + bs) : line' = line := by
  have least : line' < line + 1 := by
    apply Nat.lt_of_mul_lt_mul_right (a := bs)
    rw [Nat.succ_mul]
    omega
  have most : line < line' + 1 := by
    apply Nat.lt_of_mul_lt_mul_right (a := bs)
    rw [Nat.succ_mul]
    omega
  omega

/-- Removing servers keeps the contents of a file that was never reconfigured, in whatever order the
messages of the servers that leave arrive: where the new metadata places a copy of a byte, a rank
that stays has what the old server had. The readers come to an end. -/
theorem shrink_keeps_contents {mdata mdata' : XpnMetadata} {size : Nat} {numbers : Nat → Int} {ranks : List Nat}
    (new : Created mdata) (servers : mdata.nserv 0 = size) (apart : ranks.Nodup) (inside : ∀ rank ∈ ranks, rank < size)
    (stays : mdata.replicationLevel + 1 + ranks.length ≤ size) (entries : 2 * ranks.length < maxReconstructions)
    (holds : copyWith id mdata ranks = copy mdata ranks) (shrunk : copy mdata ranks = some (mdata', numbers)) (files : Nat → List Byte) {fuel : Nat}
    (enough : ∀ rank ∈ ranks, size * ((files rank).length + 2) ≤ fuel) {messages : List BlockMessage}
    (sent : messages.Perm (ranks.flatMap fun rank => readerLoop mdata mdata' numbers size rank (files rank) fuel 0)) :
    (∀ rank ∈ ranks, ∀ more, readerLoop mdata mdata' numbers size rank (files rank) (fuel + more) 0 =
      readerLoop mdata mdata' numbers size rank (files rank) fuel 0) ∧
    ∀ p r : Nat, (p : Int) < mdata.fileSize → (r : Int) ≤ mdata.replicationLevel →
      ∃ rank, rank < size ∧ rank ∉ ranks ∧ numbers rank = (xpnCalculateBlockMdata mdata' p r).2 ∧
        ∀ x, storedByte (files (xpnCalculateBlockMdata mdata p r).2.toNat) (xpnCalculateBlockMdata mdata p r).1 = some x →
          storedByte (messages.foldl recvBlock files rank) (xpnCalculateBlockMdata mdata' p r).1 = some x := by
  obtain ⟨h, h', none, count, level, describes, level', count', blocks, describes', recorded, leavers, final⟩ :=
    copy_describes new apart (fun rank member => by rw [servers]; exact Int.ofNat_lt.mpr (inside rank member))
      (by rw [servers]; exact stays) (holds.trans shrunk)
  obtain ⟨numbered, keeps⟩ := final entries
  obtain rfl : size = h.n := by omega
  refine ⟨fun rank member => Shrinking.readerLoop_ends describes describes' blocks none (inside rank member)
    (enough rank member),
    ?_⟩
  intro p r below copied
  have copied : r ≤ h.level := by omega
  have rest := Nat.mod_lt p h.bs_pos
  have block : ((p / h.bs : Nat) : Int) ≤ mdata.fileSize.tdiv mdata.blockSize := by
    obtain ⟨stored, length⟩ := Int.eq_ofNat_of_zero_le new.size
    rw [length] at below
    rw [length, describes.blockSize, ← Int.ofNat_tdiv]
    exact Int.ofNat_le.mpr (Nat.div_le_div_right (by omega))
  have server : ∀ b r, (h'.place b r).2 < h'.n - h'.k := fun b r => Shrinking.settled_lt leavers h'.k le_rfl
  obtain ⟨rank, ⟨bound, outside⟩, number⟩ := numbered.onto _ (server (p / h.bs) r)
  have position : ∀ line, (((line * h.bs + p % h.bs : Nat) : Int) + (xpnHeaderSize : Int)).toNat =
      line * h.bs + p % h.bs + xpnHeaderSize := by omega
  have start : ∀ line, (((line * h.bs : Nat) : Int) + (xpnHeaderSize : Int)).toNat = line * h.bs + xpnHeaderSize := by omega
  rw [describes.calculate_any, describes'.calculate_any, blocks]
  simp only [storedByte, position, Int.toNat_natCast]
  refine ⟨rank, bound, outside, number, ?_⟩
  intro x old
  have inside_file := (List.getElem?_eq_some_iff.mp old).1
  -- A message that writes this byte is the one of this copy.
  have own : ∀ (other b₁ r₁ : Nat), r₁ ≤ h.level →
      WritesByte rank ((h'.place (p / h.bs) r).1 * h.bs + p % h.bs + xpnHeaderSize)
        (h.message h' numbers (files other) b₁ r₁) → b₁ = p / h.bs ∧ r₁ = r := by
    intro other b₁ r₁ copied₁ ⟨target, covers⟩
    obtain ⟨rank₁, kept₁, number₁⟩ := numbered.onto _ (server b₁ r₁)
    have found := numbered.rankToSend_eq kept₁ (count'.symm ▸ kept₁.1) number₁
    rw [count'] at found
    obtain rfl : rank₁ = rank := found.symm.trans target
    have servers : (h'.place b₁ r₁).2 = (h'.place (p / h.bs) r).2 := Int.ofNat_inj.mp (number₁.symm.trans number)
    have lines : (h'.place b₁ r₁).1 = (h'.place (p / h.bs) r).1 := by
      obtain ⟨above, under⟩ := covers
      simp only [Shrinking.message, length_pread, blocks] at above under
      apply lines_eq rest
      · omega
      · omega
    exact Shrinking.settled_injective recorded (by omega) (by omega) h'.k le_rfl (Prod.ext lines servers)
  apply recvBlocks_agree
  · intro m member writes
    obtain ⟨other, gone, member⟩ := List.mem_flatMap.mp (sent.mem_iff.mp member)
    obtain ⟨b₁, r₁, copied₁, rfl, rfl⟩ := Shrinking.mem_readerLoop describes describes' blocks _ _ member
    obtain ⟨rfl, rfl⟩ := own _ b₁ r₁ copied₁ writes
    simp only [Shrinking.message, blocks, start]
    have index : ∀ line line', line * h.bs + xpnHeaderSize +
        (line' * h.bs + p % h.bs + xpnHeaderSize - (line' * h.bs + xpnHeaderSize)) =
          line * h.bs + p % h.bs + xpnHeaderSize := by omega
    rw [getElem?_pread, if_pos (by omega), index]
    exact old
  · by_cases gone : (h.place (p / h.bs) r).2 ∈ ranks
    · right
      have stored : h.HasBytes (files (h.place (p / h.bs) r).2) (p / h.bs) r := by
        simp only [Shrinking.HasBytes]
        omega
      have early : p / h.bs < 0 + fuel := by
        rw [Nat.zero_add]
        exact (Shrinking.block_lt none stored).trans_le ((Nat.mul_le_mul_left _ (Nat.le_add_right _ 2)).trans
          (enough _ gone))
      refine ⟨h.message h' numbers (files (h.place (p / h.bs) r).2) (p / h.bs) r, ?_, ?_, ?_, ?_⟩
      · exact sent.mem_iff.mpr (List.mem_flatMap.mpr ⟨_, gone,
          Shrinking.readerLoop_complete describes describes' blocks none copied rfl stored fuel 0 (Nat.zero_le _) early⟩)
      · have found := numbered.rankToSend_eq ⟨bound, outside⟩ (count'.symm ▸ bound) number
        rw [count'] at found
        exact found
      · simp only [Shrinking.message, blocks, start]
        omega
      · simp only [Shrinking.message, blocks, start, length_pread]
        omega
    · left
      have kept : (h.place (p / h.bs) r).2 < h.n := by
        rw [Shrinking.place_plain none]
        exact bin_lt (by omega) _
      obtain ⟨line, place⟩ := keeps (p / h.bs) r block ⟨kept, gone⟩
      obtain rfl := numbered.injective ⟨bound, outside⟩ ⟨kept, gone⟩ (number.trans place)
      rw [line]
      exact old

/-- The files of nine bytes on four servers, two copies of each block. -/
def fourFiles (rank : Nat) : List Byte :=
  List.replicate xpnHeaderSize 0 ++ if rank = 1 ∨ rank = 2 then [1, 2, 5, 6, 9] else [3, 4, 7, 8]

def shrunkNumbers : Nat → Int := ((copy grownRecord [1, 3]).map (·.2)).getD fun rank => rank

def lateMessages : List BlockMessage :=
  ([1, 3].flatMap fun rank => readerLoop grownRecord shrunkRecord shrunkNumbers 4 rank (fourFiles rank) 40000 0).reverse

theorem shrink_keeps_contents_nine_bytes : ∃ rank, rank < 4 ∧ rank ∉ [1, 3] ∧
    shrunkNumbers rank = (xpnCalculateBlockMdata shrunkRecord (8 : Nat) (0 : Nat)).2 ∧
      storedByte (lateMessages.foldl recvBlock fourFiles rank)
        (xpnCalculateBlockMdata shrunkRecord (8 : Nat) (0 : Nat)).1 = some 9 := by
  have shrunk : copy grownRecord [1, 3] = some (shrunkRecord, shrunkNumbers) := by
    obtain ⟨⟨record, numbers⟩, copied, rfl⟩ := Option.map_eq_some_iff.mp grownRecord_shrunk
    rw [shrunkNumbers, copied]
    rfl
  have old : storedByte (fourFiles 1) 4 = some 9 := by
    rw [storedByte, fourFiles, List.getElem?_append_right (by rw [List.length_replicate]; decide), List.length_replicate]
    rfl
  have enough : ∀ rank ∈ [1, 3], 4 * ((fourFiles rank).length + 2) ≤ 40000 := by
    intro rank _
    rw [fourFiles, List.length_append, List.length_replicate]
    split <;> decide
  obtain ⟨-, kept⟩ := shrink_keeps_contents grownRecord_created rfl (by decide : [1, 3].Nodup) (by decide) (by decide)
    (by decide) grownRecord_holds shrunk fourFiles enough (List.reverse_perm _)
  obtain ⟨rank, bound, stays, number, bytes⟩ := kept 8 0 (by decide) (by decide)
  exact ⟨rank, bound, stays, number, bytes 9 old⟩

end Xpn.Proofs
