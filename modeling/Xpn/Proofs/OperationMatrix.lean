import Xpn.OperationMatrix
import Xpn.Proofs.WriteCount

/-! The operation matrix fits what is allocated for it, as long as no row lies in front of it.
Both loops cut the request into the same pieces; there are at most two more than whole blocks
fit into the request, whatever the offset is. -/

namespace Xpn.Proofs
open Lib.ByteFile

variable {fd : XpnFiledesc} {servers : Servers} {rand : Nat → Nat} {size offset : Nat} {servClient : Int}

/-- The pieces of a request: where one starts in the buffer, and its size. -/
def requestPieces (bs size offset : Nat) : Nat → Nat → List (Nat × Nat)
  | 0, _ => []
  | fuel + 1, count =>
    if count < size then
      let piece := lSize bs (offset + count) (size - count)
      (count, piece) :: requestPieces bs size offset fuel (count + piece)
    else []

section
variable {bs : Nat}

theorem pieces_done (fuel : Nat) : requestPieces bs size offset fuel size = [] := by
  cases fuel with
  | zero => rfl
  | succ fuel => rw [requestPieces, if_neg (Nat.lt_irrefl _)]

theorem sum_pieces (blocks : 0 < bs) {fuel count : Nat} (inside : count ≤ size) (enough : size ≤ count + fuel) :
    ((requestPieces bs size offset fuel count).map Prod.snd).sum = size - count := by
  induction fuel generalizing count with
  | zero =>
    rw [requestPieces, List.map_nil, List.sum_nil]
    omega
  | succ fuel ih =>
    rw [requestPieces]
    split
    next more =>
      have moved := lSize_pos (p := offset + count) blocks (Nat.sub_pos_of_lt more)
      have within := lSize_le bs (offset + count) (size - count)
      rw [List.map_cons, List.sum_cons, ih (by omega) (by omega)]
      omega
    next done =>
      rw [List.map_nil, List.sum_nil]
      omega

theorem piece_inside {fuel count : Nat} {piece : Nat × Nat}
    (member : piece ∈ requestPieces bs size offset fuel count) :
    piece.1 < size ∧ piece.1 + piece.2 ≤ size := by
  induction fuel generalizing count with
  | zero => cases member
  | succ fuel ih =>
    rw [requestPieces] at member
    split at member
    next more =>
      rcases List.mem_cons.mp member with rfl | later
      · have within := lSize_le bs (offset + count) (size - count)
        exact ⟨more, by simp only; omega⟩
      · exact ih later
    next => cases member

/-- A piece that ends before the request does ends with its block. -/
theorem piece_next (blocks : 0 < bs) {count : Nat} (left : count + lSize bs (offset + count) (size - count) < size) :
    bs ∣ offset + (count + lSize bs (offset + count) (size - count)) := by
  rcases lSize_ends blocks (offset + count) (size - count) with all | whole
  · omega
  · have split := Nat.div_add_mod (offset + count) bs
    refine ⟨(offset + count) / bs + 1, ?_⟩
    rw [Nat.mul_add, Nat.mul_one]
    omega

/-- Where pieces start: where the loop is, and at the blocks that start inside the request. -/
theorem piece_starts (blocks : 0 < bs) {fuel count : Nat} (enough : size ≤ count + fuel) (start : Nat) :
    (∃ piece ∈ requestPieces bs size offset fuel count, piece.1 = start)
      ↔ start < size ∧ (start = count ∨ count < start ∧ bs ∣ offset + start) := by
  induction fuel generalizing count with
  | zero =>
    apply iff_of_false
    · rintro ⟨piece, member, -⟩
      cases member
    · rintro ⟨below, rfl | ⟨after, -⟩⟩ <;> omega
  | succ fuel ih =>
    rw [requestPieces]
    split
    next more =>
      have moved := lSize_pos (p := offset + count) blocks (Nat.sub_pos_of_lt more)
      have piece := lSize_piece blocks (offset + count) (size - count)
      have next : count + lSize bs (offset + count) (size - count) < size →
          bs ∣ offset + (count + lSize bs (offset + count) (size - count)) := piece_next blocks
      simp only [List.mem_cons, exists_eq_or_imp,
        ih (show size ≤ count + lSize bs (offset + count) (size - count) + fuel by omega)]
      generalize lSize bs (offset + count) (size - count) = length at *
      constructor
      · rintro (rfl | ⟨below, rfl | ⟨after, aligned⟩⟩)
        · exact ⟨more, .inl rfl⟩
        · exact ⟨below, .inr ⟨by omega, next below⟩⟩
        · exact ⟨below, .inr ⟨by omega, aligned⟩⟩
      · rintro ⟨below, rfl | ⟨after, aligned⟩⟩
        · exact .inl rfl
        · -- no block starts inside the piece
          have beyond : count + length ≤ start := by
            by_contra before
            have place := Nat.mod_add_mod (offset + count) bs (start - count)
            rw [Nat.mod_eq_of_lt (by omega), show offset + count + (start - count) = offset + start by omega,
              Nat.mod_eq_zero_of_dvd aligned] at place
            omega
          rcases Nat.eq_or_lt_of_le beyond with same | later
          · exact .inr ⟨below, .inl same.symm⟩
          · exact .inr ⟨below, .inr ⟨later, aligned⟩⟩
    next done =>
      apply iff_of_false
      · rintro ⟨piece, member, -⟩
        cases member
      · rintro ⟨below, rfl | ⟨after, -⟩⟩ <;> omega

/-- From the start of a block on. -/
theorem length_pieces_aligned (blocks : 0 < bs) {fuel count : Nat} (aligned : bs ∣ offset + count) :
    (requestPieces bs size offset fuel count).length ≤ (size - count + bs - 1) / bs := by
  induction fuel generalizing count with
  | zero => exact Nat.zero_le _
  | succ fuel ih =>
    rw [requestPieces]
    split
    next more =>
      rw [List.length_cons]
      by_cases last : count + lSize bs (offset + count) (size - count) < size
      · have next := piece_next blocks last
        have here := Nat.mod_eq_zero_of_dvd aligned
        have ends := lSize_ends blocks (offset + count) (size - count)
        have full : lSize bs (offset + count) (size - count) = bs := by omega
        have later := ih next
        rw [full] at last later ⊢
        have whole : size - count + bs - 1 = size - (count + bs) + bs - 1 + bs := by omega
        rw [whole, Nat.add_div_right _ blocks]
        exact Nat.succ_le_succ later
      · have within := lSize_le bs (offset + count) (size - count)
        have done : count + lSize bs (offset + count) (size - count) = size := by omega
        rw [done, pieces_done, List.length_nil, zero_add, Nat.le_div_iff_mul_le blocks]
        omega
    next => exact Nat.zero_le _

/-- However the request lies on the blocks, it has no more pieces than there is room for. -/
theorem length_pieces (blocks : 0 < bs) (fuel : Nat) :
    (requestPieces bs size offset fuel 0).length ≤ if size % bs ≠ 0 then size / bs + 1 + 1 else size / bs + 1 := by
  cases fuel with
  | zero => exact Nat.zero_le _
  | succ fuel =>
    rw [requestPieces]
    split
    next more =>
      have moved := lSize_pos (p := offset + 0) blocks (Nat.sub_pos_of_lt more)
      have rest : (requestPieces bs size offset fuel (0 + lSize bs (offset + 0) (size - 0))).length
          ≤ (size - 1 + bs - 1) / bs := by
        by_cases last : 0 + lSize bs (offset + 0) (size - 0) < size
        · exact (length_pieces_aligned blocks (piece_next blocks last)).trans (Nat.div_le_div_right (by omega))
        · have within := lSize_le bs (offset + 0) (size - 0)
          rw [show 0 + lSize bs (offset + 0) (size - 0) = size by omega, pieces_done]
          exact Nat.zero_le _
      have split := Nat.div_add_mod size bs
      have short := Nat.mod_lt size blocks
      rw [List.length_cons]
      split_ifs with partial_
      · have bound : (size - 1 + bs - 1) / bs < size / bs + 2 := by
          apply Nat.div_lt_of_lt_mul
          rw [Nat.mul_add]
          omega
        omega
      · have bound : (size - 1 + bs - 1) / bs < size / bs + 1 := by
          apply Nat.div_lt_of_lt_mul
          rw [Nat.mul_add]
          omega
        omega
    next => exact Nat.zero_le _

end

theorem readEntries_pieces (fuel count : Nat) (rand : Nat → Nat) :
    (readEntriesLoop fd servers size offset servClient fuel count rand).map
    (fun entry => (entry.2.buffer, entry.2.size))
      = requestPieces fd.blockSize size offset fuel count := by
  induction fuel generalizing count rand with
  | zero => rfl
  | succ fuel ih =>
    rw [readEntriesLoop, requestPieces]
    split
    · rw [List.map_cons, ih]
    · rfl

theorem writeEntries_pieces (fuel count : Nat) :
    writeEntriesLoop fd servers size offset fuel count
      = (requestPieces fd.blockSize size offset fuel count).flatMap fun piece =>
          copyEntries fd servers (offset + piece.1) piece.1 piece.2 := by
  induction fuel generalizing count with
  | zero => rfl
  | succ fuel ih =>
    rw [writeEntriesLoop, requestPieces]
    split
    · exact congrArg (_ ++ ·) (ih _)
    · rfl

/-- The row of a read is the one of a copy that was chosen for the place where its piece starts. -/
theorem readEntries_choice (fuel count : Nat) (rand : Nat → Nat) :
    ∀ entry ∈ readEntriesLoop fd servers size offset servClient fuel count rand,
      ∃ rand, entry.1 = (xpnReadGetBlock fd servers rand (offset + entry.2.buffer) servClient).1.2 := by
  induction fuel generalizing count rand with
  | zero => exact fun entry impossible => absurd impossible List.not_mem_nil
  | succ fuel ih =>
    rw [readEntriesLoop]
    split
    · exact List.forall_mem_cons.mpr ⟨⟨rand, rfl⟩, ih _ _⟩
    · exact fun entry impossible => absurd impossible List.not_mem_nil

theorem length_copies (parts : List (Nat × Nat)) :
    (parts.flatMap fun piece => copyEntries fd servers (offset + piece.1) piece.1 piece.2).length
      = parts.length * (fd.part.replicationLevel + 1) := by
  induction parts with
  | nil => simp
  | cons piece parts ih =>
    rw [List.flatMap_cons, List.length_append, ih, copyEntries, List.length_map, List.length_range, List.length_cons,
      Nat.succ_mul, Nat.add_comm]

theorem sum_copies (parts : List (Nat × Nat)) :
    ((parts.flatMap fun piece => copyEntries fd servers (offset + piece.1) piece.1 piece.2).map
      fun entry => entry.2.size).sum = (parts.map Prod.snd).sum * (fd.part.replicationLevel + 1) := by
  induction parts with
  | nil => simp
  | cons piece parts ih =>
    have own : ((copyEntries fd servers (offset + piece.1) piece.1 piece.2).map fun entry => entry.2.size).sum
        = piece.2 * (fd.part.replicationLevel + 1) := by
      rw [copyEntries, List.map_map]
      simp [Function.comp_def, Nat.mul_comm]
    rw [List.flatMap_cons, List.map_append, List.sum_append, own, ih, List.map_cons, List.sum_cons, Nat.add_mul]

/-- The matrix that entries fill. -/
def fill (io : IoMatrix) (entries : List (Int × NfiWorkerIo)) : IoMatrix :=
  entries.foldl (fun io entry => io.push entry.1.toNat entry.2) io

theorem readBlocks_fill (fd : XpnFiledesc) (servers : Servers) (rand : Nat → Nat) (size offset : Nat)
    (servClient : Int) :
    (xpnReadBlocksBlockByBlock fd servers rand size offset servClient).1
      = fill (fun _ => []) (readEntries fd servers rand size offset servClient) := by
  have loop (fuel count : Nat) (io : IoMatrix) (rand : Nat → Nat) :
      (readBlocksLoop fd servers size offset servClient fuel count io rand).1
        = fill io (readEntriesLoop fd servers size offset servClient fuel count rand) := by
    induction fuel generalizing count io rand with
    | zero => rfl
    | succ fuel ih =>
      rw [readBlocksLoop, readEntriesLoop]
      split
      · exact ih _ _ _
      · rfl
  exact loop size 0 _ rand

theorem writeBlocks_fill (fd : XpnFiledesc) (servers : Servers) (size offset : Nat) :
    xpnWriteBlocksBlockByBlock fd servers size offset = fill (fun _ => []) (writeEntries fd servers size offset) := by
  have loop (fuel count : Nat) (io : IoMatrix) :
      writeBlocksLoop fd servers size offset fuel count io
        = fill io (writeEntriesLoop fd servers size offset fuel count) := by
    induction fuel generalizing count io with
    | zero => rfl
    | succ fuel ih =>
      rw [writeBlocksLoop, writeEntriesLoop]
      split
      · rw [ih, fill, fill, List.foldl_append, copyEntries, List.foldl_map]
        rfl
      · rfl
  exact loop size 0 _

/-- The row of a server: its own entries, in order. -/
theorem fill_row (entries : List (Int × NfiWorkerIo)) (io : IoMatrix) (i : Nat) :
    fill io entries i = io i ++ (entries.filter fun entry => entry.1.toNat == i).map Prod.snd := by
  induction entries generalizing io with
  | nil => simp [fill]
  | cons entry entries ih =>
    have later := ih (io.push entry.1.toNat entry.2)
    rw [show fill io (entry :: entries) = fill (io.push entry.1.toNat entry.2) entries from rfl, later]
    by_cases same : i = entry.1.toNat
    · subst same
      rw [push_same, List.filter_cons_of_pos (by simp)]
      simp
    · rw [push_other io _ same, List.filter_cons_of_neg (by simpa using Ne.symm same)]

theorem sizeBefore_fill {n : Nat} (entries : List (Int × NfiWorkerIo)) (io : IoMatrix)
    (rows : ∀ entry ∈ entries, 0 ≤ entry.1 ∧ entry.1 < n) :
    sizeBefore (fill io entries) n = sizeBefore io n + (entries.map fun entry => entry.2.size).sum := by
  induction entries generalizing io with
  | nil => rfl
  | cons entry entries ih =>
    have inside := rows entry List.mem_cons_self
    have later := ih (io.push entry.1.toNat entry.2) fun other member => rows other (List.mem_cons_of_mem _ member)
    rw [show fill io (entry :: entries) = fill (io.push entry.1.toNat entry.2) entries from rfl, later,
      sizeBefore_push _ _ (by omega), List.map_cons, List.sum_cons]
    omega

/-- The entries lie in the matrix, every row has room for its own, the sizes add up, and where rows
are put together every copy stays inside the request and inside the other buffer. -/
structure Fits (entries : List (Int × NfiWorkerIo)) (io : IoMatrix) (n max size total : Nat) : Prop where
  rows : ∀ entry ∈ entries, 0 ≤ entry.1 ∧ entry.1 < n
  room : ∀ i, i < n → (io i).length ≤ max
  sizes : sizeBefore io n = total
  copies : ∀ i before op after, i < n → io i = before ++ op :: after →
    op.buffer + op.size ≤ size ∧ sizeBefore io i + rowSize before + op.size ≤ total

/-- Where all rows are in the matrix the rest follows. -/
theorem fits_of_rows {entries : List (Int × NfiWorkerIo)} {n max total : Nat}
    (rows : ∀ entry ∈ entries, 0 ≤ entry.1 ∧ entry.1 < n) (few : entries.length ≤ max)
    (sum : (entries.map fun entry => entry.2.size).sum = total)
    (inside : ∀ entry ∈ entries, entry.2.buffer + entry.2.size ≤ size) :
    Fits entries (fill (fun _ => []) entries) n max size total := by
  have sizes : sizeBefore (fill (fun _ => []) entries) n = total := by
    rw [sizeBefore_fill entries _ rows, sum]
    simp [sizeBefore, rowSize]
  refine ⟨rows, ?_, sizes, ?_⟩
  · intro i _
    rw [fill_row, List.nil_append, List.length_map]
    exact (List.length_filter_le _ _).trans few
  · intro i before op after below row
    constructor
    · have member : op ∈ fill (fun _ => []) entries i := by
        rw [row]
        exact List.mem_append_right _ List.mem_cons_self
      rw [fill_row, List.nil_append] at member
      obtain ⟨entry, stored, rfl⟩ := List.mem_map.mp member
      exact inside entry (List.mem_of_mem_filter stored)
    · have whole := congrArg rowSize row
      rw [rowSize_append] at whole
      have order := sizeBefore_le (fill (fun _ => []) entries) (Nat.succ_le_of_lt below)
      rw [sizes, sizeBefore_succ, whole] at order
      have piece : rowSize (op :: after) = op.size + rowSize after := rfl
      omega

/-- A copy of the byte at a position is not placed in front of the first server. -/
def RowInside (mdata : XpnMetadata) (position copy : Nat) : Prop :=
  let slot := (position : Int) / mdata.blockSize * (mdata.replicationLevel + 1) + copy + mdata.firstNode
  0 ≤ slot ∨ mdata.nserv 0 ∣ slot

theorem tmod_nonneg_iff (n slot : Int) : 0 ≤ slot.tmod n ↔ 0 ≤ slot ∨ n ∣ slot := by
  constructor
  · intro low
    by_cases negative : slot < 0
    · right
      have mirrored : (-slot).tmod n = -(slot.tmod n) := Int.neg_tmod slot n
      have other := Int.tmod_nonneg n (show 0 ≤ -slot by omega)
      exact Int.dvd_of_tmod_eq_zero (by omega)
    · exact .inl (not_lt.mp negative)
  · rintro (low | divides)
    · exact Int.tmod_nonneg n low
    · rw [Int.tmod_eq_zero_of_dvd divides]

theorem row_iff {mdata : XpnMetadata} {n : Nat} (positive : 0 < n) (servers : mdata.nserv 0 = n)
    (plain : mdata.nserv 1 = 0)
    (position copy : Nat) :
    0 ≤ (xpnCalculateBlockMdata mdata position copy).2 ∧ (xpnCalculateBlockMdata mdata position copy).2 < n
      ↔ RowInside mdata position copy := by
  have count : 0 < mdata.nserv 0 := by omega
  rw [xpnCalculateBlockMdata, if_pos plain, xpnCalculateBlock, RowInside,
    Int.tdiv_eq_ediv_of_nonneg (Int.natCast_nonneg position)]
  simp only
  rw [← tmod_nonneg_iff, ← servers]
  exact and_iff_left (Int.tmod_lt_of_pos _ count)

/-- The copies of every piece are placed inside the matrix. A piece starts at the offset of the
request or at a block of the descriptor. -/
def CopiesInside (fd : XpnFiledesc) (size offset : Nat) : Prop :=
  ∀ position copy, offset ≤ position → position < offset + size → position = offset ∨ fd.blockSize ∣ position →
    copy ≤ fd.part.replicationLevel → RowInside fd.mdata position copy

section
variable {n : Nat} (positive : 0 < n) (blocks : 0 < fd.blockSize) (rows : fd.mdata.nserv 0 = n)
  (plain : fd.mdata.nserv 1 = 0)
include positive blocks rows plain

/-- A piece that the loops handle starts at such a position. -/
theorem row_of_request_piece (inside : CopiesInside fd size offset) {piece : Nat × Nat}
    (member : piece ∈ requestPieces fd.blockSize size offset size 0) {copy : Nat}
    (known : copy ≤ fd.part.replicationLevel) :
    0 ≤ (xpnCalculateBlockMdata fd.mdata (offset + piece.1 : Nat) copy).2
      ∧ (xpnCalculateBlockMdata fd.mdata (offset + piece.1 : Nat) copy).2 < n := by
  obtain ⟨below, start⟩ := (piece_starts blocks (by omega) piece.1).mp ⟨piece, member, rfl⟩
  apply (row_iff positive rows plain (offset + piece.1) copy).mpr
  apply inside _ _ (by omega) (by omega) _ known
  rcases start with first | ⟨-, aligned⟩
  · exact .inl (by omega)
  · exact .inr aligned

theorem read_fits (inside : CopiesInside fd size offset) (servers : Servers) (rand : Nat → Nat) (servClient : Int) :
    Fits (readEntries fd servers rand size offset servClient)
      (xpnReadBlocksBlockByBlock fd servers rand size offset servClient).1 n (xpnPreadMax fd size) size size := by
  have cut : (readEntriesLoop fd servers size offset servClient size 0 rand).map
      (fun entry => (entry.2.buffer, entry.2.size)) = requestPieces fd.blockSize size offset size 0 :=
    readEntries_pieces size 0 rand
  rw [readBlocks_fill]
  apply fits_of_rows
  · intro entry member
    obtain ⟨rand, chosen⟩ := readEntries_choice size 0 rand entry member
    obtain ⟨copy, known, placed⟩ := xpnReadGetBlock_copy fd servers rand (offset + entry.2.buffer) servClient
    have piece : (entry.2.buffer, entry.2.size) ∈ requestPieces fd.blockSize size offset size 0 := by
      rw [← cut]
      exact List.mem_map_of_mem member
    rw [chosen, placed]
    exact row_of_request_piece positive blocks rows plain inside piece known
  · have count := congrArg List.length cut
    rw [List.length_map] at count
    rw [readEntries, count]
    exact length_pieces blocks size
  · have sum := congrArg (fun parts => (parts.map Prod.snd).sum) cut
    simp only [List.map_map, Function.comp_def] at sum
    rw [readEntries, sum, sum_pieces blocks (Nat.zero_le _) (by omega), Nat.sub_zero]
  · intro entry member
    have piece : (entry.2.buffer, entry.2.size) ∈ requestPieces fd.blockSize size offset size 0 := by
      rw [← cut]
      exact List.mem_map_of_mem member
    exact (piece_inside piece).2

theorem write_fits (inside : CopiesInside fd size offset) (servers : Servers) :
    Fits (writeEntries fd servers size offset) (xpnWriteBlocksBlockByBlock fd servers size offset) n
      (xpnPwriteMax fd size) size (size * (fd.part.replicationLevel + 1)) := by
  rw [writeBlocks_fill, writeEntries, writeEntries_pieces]
  apply fits_of_rows
  · intro entry member
    obtain ⟨piece, cut, copied⟩ := List.mem_flatMap.mp member
    obtain ⟨copy, known, rfl⟩ := List.mem_map.mp copied
    exact row_of_request_piece positive blocks rows plain inside cut (Nat.le_of_lt_succ (List.mem_range.mp known))
  · rw [length_copies]
    exact Nat.mul_le_mul_right _ (length_pieces blocks size)
  · rw [sum_copies, sum_pieces blocks (Nat.zero_le _) (by omega), Nat.sub_zero]
  · intro entry member
    obtain ⟨piece, cut, copied⟩ := List.mem_flatMap.mp member
    obtain ⟨copy, -, rfl⟩ := List.mem_map.mp copied
    exact (piece_inside cut).2

/-- The rows of a write are those of all copies. -/
theorem inside_of_write {io : IoMatrix} {max total : Nat}
    (fits : Fits (writeEntries fd servers size offset) io n max size total) : CopiesInside fd size offset := by
  intro position copy first last start known
  have below : position - offset < size := by omega
  obtain ⟨piece, cut, same⟩ : ∃ piece ∈ requestPieces fd.blockSize size offset size 0, piece.1 = position - offset := by
    apply (piece_starts blocks (by omega) _).mpr
    refine ⟨below, ?_⟩
    rcases start with rfl | aligned
    · exact .inl (Nat.sub_self _)
    · rcases Nat.eq_or_lt_of_le first with rfl | after
      · exact .inl (Nat.sub_self _)
      · rw [Nat.add_sub_cancel' first]
        exact .inr ⟨Nat.sub_pos_of_lt after, aligned⟩
  have place : offset + piece.1 = position := by omega
  have member : _ ∈ copyEntries fd servers (offset + piece.1) piece.1 piece.2 :=
    List.mem_map_of_mem (List.mem_range.mpr (Nat.lt_succ_of_le known))
  have row := fits.rows _ (by
    rw [writeEntries, writeEntries_pieces]
    exact List.mem_flatMap.mpr ⟨piece, cut, member⟩)
  rw [← place]
  exact (row_iff positive rows plain (offset + piece.1) copy).mp row

end

/-- Both matrices fit, whatever servers have failed and whichever copies are read, if and only if
no copy of a piece is placed in front of the first row. -/
theorem operation_matrix_fits_iff {n : Nat} (positive : 0 < n) (blocks : 0 < fd.blockSize)
    (rows : fd.mdata.nserv 0 = n) (plain : fd.mdata.nserv 1 = 0) (servers : Servers) (rand : Nat → Nat)
    (size offset : Nat) (servClient : Int) :
    Fits (readEntries fd servers rand size offset servClient)
        (xpnReadBlocksBlockByBlock fd servers rand size offset servClient).1 n (xpnPreadMax fd size) size size
      ∧ Fits (writeEntries fd servers size offset) (xpnWriteBlocksBlockByBlock fd servers size offset) n
        (xpnPwriteMax fd size) size (size * (fd.part.replicationLevel + 1))
      ↔ CopiesInside fd size offset := by
  constructor
  · exact fun both => inside_of_write positive blocks rows plain both.2
  · exact fun inside => ⟨read_fits positive blocks rows plain inside servers rand servClient,
      write_fits positive blocks rows plain inside servers⟩

/-- A first node that is a server is enough. -/
theorem copiesInside_of_nonneg (first : 0 ≤ fd.mdata.firstNode) (level : 0 ≤ fd.mdata.replicationLevel)
    (block : 0 ≤ fd.mdata.blockSize) : CopiesInside fd size offset := by
  intro position copy _ _ _ _
  left
  have line := Int.ediv_nonneg (Int.natCast_nonneg position) block
  have product := Int.mul_nonneg line (show 0 ≤ fd.mdata.replicationLevel + 1 by omega)
  omega

def namedBy (name : Byte) : XpnFiledesc where
  type := 0
  flags := 2
  part := { dataNserv := 2, blockSize := 4, replicationLevel := 0, localServ := -1 }
  mdata := xpnCreateMetadataExtern [name] 2 4 0
  offset := 0
  blockSize := 4

theorem operation_matrix_fits_iff_letter :
    Fits (readEntries (namedBy 97) (fun _ => ⟨[], 0⟩) id 6 3 (-1))
      (xpnReadBlocksBlockByBlock (namedBy 97) (fun _ => ⟨[], 0⟩) id 6 3 (-1)).1 2 (xpnPreadMax (namedBy 97) 6) 6 6 :=
  ((operation_matrix_fits_iff (by decide) (by decide) rfl rfl (fun _ => ⟨[], 0⟩) id 6 3 (-1)).mpr
    (copiesInside_of_nonneg (by decide) (by decide) (by decide))).1

/-- Byte 255 counts −1, and so does the first node of a file that is named by it. -/
theorem row_before_matrix : ¬ ∀ (fd : XpnFiledesc) (n : Nat) (servers : Servers) (size offset : Nat), 0 < n →
    0 < fd.blockSize → fd.mdata.nserv 0 = n → fd.mdata.nserv 1 = 0 → 0 < size →
    Fits (writeEntries fd servers size offset) (xpnWriteBlocksBlockByBlock fd servers size offset) n
      (xpnPwriteMax fd size) size (size * (fd.part.replicationLevel + 1)) := by
  intro claimed
  have fits := claimed (namedBy 255) 2 (fun _ => ⟨[], 0⟩) 1 0 (by decide) (by decide) rfl rfl (by decide)
  have inside := inside_of_write (by decide) (by decide) rfl rfl fits 0 0 le_rfl (by decide) (.inl rfl) le_rfl
  rcases inside with low | divides
  · exact absurd low (by decide)
  · exact absurd divides (by decide)

end Xpn.Proofs
