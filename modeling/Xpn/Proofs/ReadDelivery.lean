import Xpn.Proofs.ReadPath

/-! From the operations of a read to the caller's buffer: a parallel read in
place, a grouped read that is scattered afterwards, and a serial read all deliver
the bytes of the logical file and count them. -/

namespace Xpn.Proofs
open Lib.ByteFile

variable {g : Layout} {fd : XpnFiledesc} {servers : Servers} {size offset : Nat} {buffer reference : List Byte}

/-- The call returns the number of bytes there are and puts them in the buffer. -/
structure Delivers (reference : List Byte) (offset size : Nat) (result : ReadResult) : Prop where
  count : result.ret = (min size (reference.length - offset) : Nat)
  bytes : result.buffer.take (min size (reference.length - offset)) = pread reference offset size

/-- Every byte of the range that exists is in its place. -/
def Filled (reference : List Byte) (offset size : Nat) (buffer : List Byte) : Prop :=
  ∀ i value, i < size → reference[offset + i]? = some value → buffer[i]? = some value

theorem Filled.take_eq (filled : Filled reference offset size buffer) :
    buffer.take (min size (reference.length - offset)) = pread reference offset size := by
  apply List.ext_getElem?
  intro i
  rw [List.getElem?_take, getElem?_pread]
  by_cases inside : i < min size (reference.length - offset)
  · have present : offset + i < reference.length := by omega
    rw [if_pos inside, if_pos (by omega), List.getElem?_eq_getElem present]
    exact filled i _ (by omega) (List.getElem?_eq_getElem present)
  · rw [if_neg inside]
    split
    · rw [List.getElem?_eq_none (by omega)]
    · rfl

private def rowPatches (servers : Servers) (s : Nat) (row : List NfiWorkerIo) : List (Nat × List Byte) :=
  row.map fun op => (op.buffer, fetched servers s op)

private theorem nfiDoRead_eq {s : Nat} {row : List NfiWorkerIo} (live : ¬servers.Failed s)
    (places : ∀ op ∈ row, 0 ≤ op.offset) (ret : Int) (buffer : List Byte) :
    nfiDoRead (servers s) row ret buffer =
      (ret + (((row.map fun op => (fetched servers s op).length).sum : Nat) : Int),
        patched buffer (rowPatches servers s row)) := by
  induction row generalizing ret buffer with
  | nil => simp [nfiDoRead, rowPatches, patched]
  | cons op ops ih =>
    have place := places op List.mem_cons_self
    have allowed : ¬((servers s).error = -1 ∨ op.offset + (xpnHeaderSize : Int) < 0) := by
      unfold Servers.Failed at live
      omega
    have read : nfiRead (servers s) (op.offset + (xpnHeaderSize : Int)) op.size = some (fetched servers s op) := by
      rw [nfiRead, if_neg allowed]
      rfl
    rw [nfiDoRead, read]
    dsimp only
    rw [ih fun other member => places other (List.mem_cons_of_mem _ member)]
    simp only [List.map_cons, List.sum_cons, Nat.cast_add, Int.add_assoc]
    rfl

private theorem launchReads_eq {io : IoMatrix} (rows : ∀ s, ∀ op ∈ io s, ¬servers.Failed s ∧ 0 ≤ op.offset) (js : List Nat)
    (buffer : List Byte) : launchReads servers io js buffer =
      (js.map fun j => ((((io j).map fun op => (fetched servers j op).length).sum : Nat) : Int),
        patched buffer (js.flatMap fun j => rowPatches servers j (io j))) := by
  induction js generalizing buffer with
  | nil => rfl
  | cons j rest ih =>
    rw [launchReads]
    split
    next failed =>
      have empty : io j = [] := List.eq_nil_iff_forall_not_mem.mpr fun op member => (rows j op member).1 failed
      simp only [ih, List.map_cons, List.flatMap_cons, empty, rowPatches, List.map_nil, List.sum_nil, List.nil_append]
      rfl
    next live =>
      rw [nfiDoRead_eq live fun op member => (rows j op member).2]
      simp only [ih, List.map_cons, List.flatMap_cons, Int.zero_add]
      simp only [patched, List.foldl_append]

private theorem launched_total (io : IoMatrix) (n : Nat) (servers : Servers) :
    let results := (List.range n).map fun j => ((((io j).map fun op => (fetched servers j op).length).sum : Nat) : Int)
    (if results.any (· < 0) then -1 else xpnReadGetTotalBytes results) =
      (total (fun s op => (fetched servers s op).length) io n : Nat) := by
  intro results
  have none : results.any (· < 0) = false := by
    rw [List.any_eq_false]
    intro result member
    obtain ⟨j, -, rfl⟩ := List.mem_map.mp member
    simp only [decide_eq_true_eq, Int.not_lt]
    exact Int.natCast_nonneg _
  rw [none, if_neg (by decide), xpnReadGetTotalBytes, total, Nat.cast_list_sum, List.map_map]
  rfl

theorem Splits.filled {io : IoMatrix} (splits : Splits g servers reference offset size io) (room : size ≤ buffer.length) :
    Filled reference offset size
      (patched buffer ((List.range g.n).flatMap fun j => rowPatches servers j (io j))) := by
  intro i value inside present
  have exists_i : offset + i < reference.length := (List.getElem?_eq_some_iff.mp present).1
  have at_i : ∀ s, ∀ op ∈ io s, Covers i (op.buffer, fetched servers s op) →
      (fetched servers s op)[i - op.buffer]? = some value := by
    intro s op member covers
    have fetch := splits.fetches s op member
    unfold Covers at covers
    rw [fetch.bytes, length_pread] at covers
    rw [fetch.bytes, getElem?_pread, if_pos (by omega), ← present]
    congr 1
    omega
  apply getElem?_patched
  · intro patch member
    obtain ⟨s, -, member⟩ := List.mem_flatMap.mp member
    obtain ⟨op, inRow, rfl⟩ := List.mem_map.mp member
    have fetch := splits.fetches s op inRow
    have := fetch.bound
    rw [fetch.bytes, length_pread]
    omega
  · intro patch member covers
    obtain ⟨s, -, member⟩ := List.mem_flatMap.mp member
    obtain ⟨op, inRow, rfl⟩ := List.mem_map.mp member
    exact at_i s op inRow covers
  · obtain ⟨s, s_lt, op, member, above, below⟩ := splits.reaches i inside
    refine ⟨(op.buffer, fetched servers s op), ?_, above, ?_⟩
    · exact List.mem_flatMap.mpr ⟨s, List.mem_range.mpr s_lt, List.mem_map.mpr ⟨op, member, rfl⟩⟩
    · rw [(splits.fetches s op member).bytes, length_pread]
      omega

/-- A parallel read of a replicated file delivers. -/
theorem xpnPread_replicated {c : Client} (opened : Opened g c.fd) (served : ServedRange g c.servers c.fd.part.localServ reference offset size)
    (replicated : 0 < g.level) (room : size ≤ buffer.length) :
    Delivers reference offset size (xpnPread c buffer size offset) := by
  have plain : optimizeRead c.fd = false := by simp [optimizeRead, opened.level, replicated]
  have splits := readBlocks_splits opened served c.rand
  have rows : ∀ s, ∀ op ∈ (xpnReadBlocksBlockByBlock c.fd c.servers c.rand size offset c.fd.part.localServ).1 s,
      ¬c.servers.Failed s ∧ 0 ≤ op.offset :=
    fun s op member => ⟨(splits.fetches s op member).live, (splits.fetches s op member).place⟩
  have filled := splits.filled room
  have ret := launched_total (xpnReadBlocksBlockByBlock c.fd c.servers c.rand size offset c.fd.part.localServ).1 g.n c.servers
  rw [splits.bytes, length_pread] at ret
  unfold xpnPread xpnReadBlocks xpnReadBlocksFinish
  rw [if_neg (by rw [opened.servers]; exact g.n_pos.ne')]
  simp only [plain, Bool.false_eq_true, if_false, launchReads_eq rows, opened.servers]
  exact ⟨ret, filled.take_eq⟩

/-- Without replication a read is split as a write of the same range is. -/
theorem readBlocks_eq (opened : Opened g fd) (single : g.level = 0) (servers : Servers) (rand : Nat → Nat)
    (size offset : Nat) (servClient : Int) :
    xpnReadBlocksBlockByBlock fd servers rand size offset servClient =
      (xpnWriteBlocksBlockByBlock fd servers size offset, rand) := by
  have same : ∀ fuel count io, readBlocksLoop fd servers size offset servClient fuel count io rand =
      (writeBlocksLoop fd servers size offset fuel count io, rand) := by
    intro fuel
    induction fuel with
    | zero => exact fun _ _ => rfl
    | succ fuel ih =>
      intro count io
      obtain ⟨r, copy, found, -⟩ := xpnReadGetBlock_spec opened servers rand (offset + count) servClient
      have first : r = 0 := by omega
      subst first
      have pass : ∀ piece, pushReplicas fd servers (offset + count) count piece io =
          io.push (g.server (offset + count) 0) ⟨g.localOffset (offset + count) 0, piece, count⟩ := by
        intro piece
        funext s
        by_cases here : s = g.server (offset + count) 0
        · subst here
          rw [pushReplicas_present opened copy, push_same]
        · rw [push_other io _ here]
          refine pushReplicas_absent opened fun r copy same => here ?_
          rw [← same, show r = 0 by omega]
      rw [readBlocksLoop, writeBlocksLoop]
      split
      · simp only [xpnReadGetBlock_rand opened single, found, Int.toNat_natCast, ih, pass]
      · rfl
  exact same size 0 _

private def pieces (newBuffer : List Byte) : List NfiWorkerIo → Nat → List (Nat × List Byte)
  | [], _ => []
  | op :: ops, count => (op.buffer, pread newBuffer count op.size) :: pieces newBuffer ops (count + op.size)

private theorem scatter_eq (newBuffer : List Byte) (ops : List NfiWorkerIo) (count : Nat) (buffer : List Byte) :
    scatter newBuffer ops count buffer = patched buffer (pieces newBuffer ops count) := by
  induction ops generalizing count buffer with
  | nil => rfl
  | cons op ops ih =>
    rw [scatter, ih]
    rfl

private theorem mem_pieces {newBuffer : List Byte} {ops : List NfiWorkerIo} {count : Nat} {patch : Nat × List Byte} :
    patch ∈ pieces newBuffer ops count ↔ ∃ before op after, ops = before ++ op :: after ∧
      patch = (op.buffer, pread newBuffer (count + rowSize before) op.size) := by
  induction ops generalizing count with
  | nil => simp [pieces]
  | cons first rest ih =>
    rw [pieces, List.mem_cons, ih]
    constructor
    · rintro (rfl | ⟨before, op, after, rfl, rfl⟩)
      · exact ⟨[], first, rest, rfl, by simp [rowSize]⟩
      · refine ⟨first :: before, op, after, rfl, ?_⟩
        simp only [rowSize, List.map_cons, List.sum_cons, Nat.add_assoc]
    · rintro ⟨before, op, after, split, rfl⟩
      rcases before with - | ⟨head, before⟩
      · obtain ⟨rfl, rfl⟩ := List.cons.inj split
        exact Or.inl (by simp [rowSize])
      · obtain ⟨rfl, rfl⟩ := List.cons.inj split
        refine Or.inr ⟨before, op, after, rfl, ?_⟩
        simp only [rowSize, List.map_cons, List.sum_cons, Nat.add_assoc]

private theorem row_of_piece (io : IoMatrix) {n : Nat} {before after : List NfiWorkerIo} {op : NfiWorkerIo}
    (split : (List.range n).flatMap io = before ++ op :: after) :
    ∃ s inRow rest, s < n ∧ io s = inRow ++ op :: rest ∧ rowSize before = sizeBefore io s + rowSize inRow := by
  have size_eq : ∀ n, rowSize ((List.range n).flatMap io) = sizeBefore io n := by
    intro n
    induction n with
    | zero => rfl
    | succ n ih =>
      rw [List.range_succ, List.flatMap_append, rowSize_append, ih, sizeBefore_succ]
      simp
  induction n generalizing after with
  | zero => simp at split
  | succ n ih =>
    rw [List.range_succ, List.flatMap_append, List.flatMap_singleton] at split
    rcases List.append_eq_append_iff.mp split with ⟨inRow, rfl, last⟩ | ⟨tail, earlier, last⟩
    · exact ⟨n, inRow, after, Nat.lt_succ_self n, last, by rw [rowSize_append, size_eq]⟩
    · rcases tail with - | ⟨head, tail⟩
      · rw [List.append_nil] at earlier
        exact ⟨n, [], after, Nat.lt_succ_self n, last.symm, by rw [← earlier, size_eq]; simp [rowSize]⟩
      · obtain ⟨rfl, -⟩ := List.cons.inj last
        obtain ⟨s, inRow, rest, bound, row, sizes⟩ := ih earlier
        exact ⟨s, inRow, rest, by omega, row, sizes⟩

private theorem fetched_chained (servers : Servers) (s : Nat) {row : List NfiWorkerIo} {start stop : Nat} (chained : Chained start row stop) :
    pread (servers s).file (start + xpnHeaderSize) (rowSize row) = row.flatMap (fetched servers s) := by
  induction row generalizing start with
  | nil => simp [rowSize]
  | cons op ops ih =>
    have place : (op.offset + (xpnHeaderSize : Int)).toNat = start + xpnHeaderSize := by
      rw [chained.1]
      omega
    have rest := ih chained.2
    rw [rowSize, List.map_cons, List.sum_cons, pread_add, List.flatMap_cons, ← rest, fetched, place,
      Nat.add_right_comm start xpnHeaderSize]
    rfl

private theorem grouped_op (servers : Servers) (s : Nat) {position : Nat} {row : List NfiWorkerIo} {start stop : Nat} (chained : Chained start row stop)
    {op : NfiWorkerIo} (member : op ∈ groupRow row position) :
    op.buffer = position ∧ 0 ≤ op.offset ∧ row ≠ [] ∧ fetched servers s op = row.flatMap (fetched servers s) := by
  rcases row with - | ⟨first, rest⟩
  · cases member
  · rw [groupRow, List.mem_singleton] at member
    subst member
    have offset_eq := chained.1
    have place : (first.offset + (xpnHeaderSize : Int)).toNat = start + xpnHeaderSize := by omega
    refine ⟨rfl, by dsimp only; omega, List.cons_ne_nil _ _, ?_⟩
    rw [← fetched_chained servers s chained, fetched]
    dsimp only
    rw [place]

section
variable {io : IoMatrix} (chained : ∀ s, ∃ start stop, Chained start (io s) stop)
include chained

private theorem total_grouped (n : Nat) : total (fun s op => (fetched servers s op).length) (groupRows io) n =
    total (fun s op => (fetched servers s op).length) io n := by
  unfold total
  congr 1
  refine List.map_congr_left fun s _ => ?_
  obtain ⟨start, stop, chain⟩ := chained s
  have group : ∀ op ∈ groupRows io s, _ := fun op member => (grouped_op servers s chain member).2.2.2
  rw [groupRows] at group ⊢
  generalize io s = row at *
  rcases row with - | ⟨first, rest⟩
  · rfl
  · rw [groupRow, List.map_singleton, List.sum_singleton]
    dsimp only
    rw [group _ (List.mem_singleton_self _), List.length_flatMap]

private theorem grouped_bytes {s n k : Nat} (bound : s < n) {inRow rest : List NfiWorkerIo} {op : NfiWorkerIo}
    (row : io s = inRow ++ op :: rest) (newBuffer : List Byte) (room : sizeBefore io n ≤ newBuffer.length) {value : Byte}
    (present : (fetched servers s op)[k]? = some value) :
    (patched newBuffer ((List.range n).flatMap fun j => rowPatches servers j (groupRows io j)))[
      sizeBefore io s + rowSize inRow + k]? = some value := by
  -- The whole row as one read, and the byte in it.
  obtain ⟨start, stop, chain⟩ := chained s
  have whole := fetched_chained servers s chain
  have in_op : k < op.size := by
    have := (List.getElem?_eq_some_iff.mp present).1
    rw [fetched, length_pread] at this
    omega
  have row_size : rowSize (io s) = rowSize inRow + (op.size + rowSize rest) := by
    rw [row, rowSize_append]
    simp [rowSize]
  have in_row : ((io s).flatMap (fetched servers s))[rowSize inRow + k]? = some value := by
    have offset_eq := (row ▸ chain).offset_eq
    rw [fetched, getElem?_pread, if_pos in_op, offset_eq] at present
    rw [← whole, getElem?_pread, if_pos (by omega), ← present]
    congr 1
    omega
  have lengths : ∀ t, ((io t).flatMap (fetched servers t)).length ≤ rowSize (io t) := by
    intro t
    obtain ⟨start, stop, chain⟩ := chained t
    rw [← fetched_chained servers t chain, length_pread]
    omega
  have patch_of : ∀ patch ∈ (List.range n).flatMap fun j => rowPatches servers j (groupRows io j),
      ∃ t, t < n ∧ patch = (sizeBefore io t, (io t).flatMap (fetched servers t)) := by
    intro patch member
    obtain ⟨t, t_lt, member⟩ := List.mem_flatMap.mp member
    obtain ⟨grouped, inGroup, rfl⟩ := List.mem_map.mp member
    obtain ⟨start, stop, chain⟩ := chained t
    obtain ⟨position, -, -, bytes⟩ := grouped_op servers t chain inGroup
    exact ⟨t, List.mem_range.mp t_lt, by rw [position, bytes]⟩
  have size_s := sizeBefore_succ io s
  apply getElem?_patched
  · intro patch member
    obtain ⟨t, t_lt, rfl⟩ := patch_of patch member
    have upto := sizeBefore_le io (by omega : t + 1 ≤ n)
    have := sizeBefore_succ io t
    have := lengths t
    dsimp only
    omega
  · intro patch member covers
    obtain ⟨t, t_lt, rfl⟩ := patch_of patch member
    -- The parts of the rows do not overlap.
    have same : t = s := by
      have size_t := sizeBefore_succ io t
      have length_t := lengths t
      obtain ⟨above, below⟩ := covers
      dsimp only at above below
      rcases Nat.lt_trichotomy t s with before | same | after
      · have := sizeBefore_le io (by omega : t + 1 ≤ s)
        omega
      · exact same
      · have := sizeBefore_le io (by omega : s + 1 ≤ t)
        omega
    subst same
    dsimp only
    rw [← in_row]
    congr 1
    omega
  · refine ⟨(sizeBefore io s, (io s).flatMap (fetched servers s)), ?_, ?_⟩
    · obtain ⟨first, others, first_eq⟩ : ∃ first others, io s = first :: others := by
        rcases inRow with - | ⟨head, tail⟩
        · exact ⟨op, rest, row⟩
        · exact ⟨head, _, row⟩
      refine List.mem_flatMap.mpr ⟨s, List.mem_range.mpr bound, List.mem_map.mpr ?_⟩
      have member : { first with size := rowSize (io s), buffer := sizeBefore io s } ∈ groupRows io s := by
        rw [groupRows, first_eq]
        exact List.mem_singleton_self _
      refine ⟨_, member, ?_⟩
      rw [(grouped_op servers s chain member).2.2.2]
    · have := (List.getElem?_eq_some_iff.mp in_row).1
      exact ⟨by dsimp only; omega, by dsimp only; omega⟩

end

private theorem Splits.scattered {io : IoMatrix} (splits : Splits g servers reference offset size io)
    (chained : ∀ s, ∃ start stop, Chained start (io s) stop) (room : size ≤ buffer.length) {newBuffer : List Byte}
    (length : newBuffer.length = size) :
    Filled reference offset size (scatter
      (patched newBuffer ((List.range g.n).flatMap fun j => rowPatches servers j (groupRows io j)))
      ((List.range g.n).flatMap io) 0 buffer) := by
  generalize grouped_eq : patched newBuffer ((List.range g.n).flatMap fun j => rowPatches servers j (groupRows io j)) =
    grouped
  intro i value inside present
  have exists_i : offset + i < reference.length := (List.getElem?_eq_some_iff.mp present).1
  -- A piece that reaches position `i` has its byte.
  have piece_bytes : ∀ before op after, (List.range g.n).flatMap io = before ++ op :: after →
      op.buffer + op.size ≤ size ∧ (op.buffer ≤ i → i < op.buffer + op.size →
        (pread grouped (0 + rowSize before) op.size)[i - op.buffer]? = some value) := by
    intro before op after split
    obtain ⟨s, inRow, rest, bound, row, sizes⟩ := row_of_piece io split
    have fetch := splits.fetches s op (row ▸ List.mem_append_right _ List.mem_cons_self)
    refine ⟨fetch.bound, fun above below => ?_⟩
    have byte : (fetched servers s op)[i - op.buffer]? = some value := by
      rw [fetch.bytes, getElem?_pread, if_pos (by omega), ← present]
      congr 1
      omega
    have stored := grouped_bytes chained bound row newBuffer (by rw [splits.sizes, length]) byte
    rw [grouped_eq] at stored
    rw [getElem?_pread, if_pos (by omega), ← stored, Nat.zero_add, sizes]
  rw [scatter_eq]
  apply getElem?_patched
  · intro patch member
    obtain ⟨before, op, after, split, rfl⟩ := mem_pieces.mp member
    have := (piece_bytes before op after split).1
    rw [length_pread]
    omega
  · intro patch member covers
    obtain ⟨before, op, after, split, rfl⟩ := mem_pieces.mp member
    obtain ⟨above, below⟩ := covers
    rw [length_pread] at below
    exact (piece_bytes before op after split).2 above (by dsimp only at below; omega)
  · obtain ⟨s, s_lt, op, inRow, above, below⟩ := splits.reaches i inside
    have member : op ∈ (List.range g.n).flatMap io := List.mem_flatMap.mpr ⟨s, List.mem_range.mpr s_lt, inRow⟩
    obtain ⟨before, after, split⟩ := List.append_of_mem member
    refine ⟨_, mem_pieces.mpr ⟨before, op, after, split, rfl⟩, above, ?_⟩
    have byte := (piece_bytes before op after split).2 above below
    have := (List.getElem?_eq_some_iff.mp byte).1
    dsimp only
    omega

/-- A parallel read without replication, grouped and scattered, delivers. -/
theorem xpnPread_grouped {c : Client} (opened : Opened g c.fd) (served : ServedRange g c.servers c.fd.part.localServ reference offset size)
    (single : g.level = 0) (room : size ≤ buffer.length) :
    Delivers reference offset size (xpnPread c buffer size offset) := by
  have optimized : optimizeRead c.fd = true := by simp [optimizeRead, opened.level, single, opened.describes.plain]
  have splits := readBlocks_splits opened served c.rand
  have chained := writeBlocks_chained opened c.servers size offset
  have split_eq := fun rand =>
    readBlocks_eq opened single c.servers rand size offset c.fd.part.localServ
  rw [split_eq] at splits
  generalize io_eq : xpnWriteBlocksBlockByBlock c.fd c.servers size offset = io at *
  have rows : ∀ s, ∀ op ∈ groupRows io s, ¬c.servers.Failed s ∧ 0 ≤ op.offset := by
    intro s op member
    obtain ⟨start, stop, chain⟩ := chained s
    obtain ⟨-, place, nonempty, -⟩ := grouped_op c.servers s chain member
    obtain ⟨first, inRow⟩ := List.exists_mem_of_ne_nil _ nonempty
    exact ⟨(splits.fetches s first inRow).live, place⟩
  have ret := launched_total (groupRows io) g.n c.servers
  rw [total_grouped chained, splits.bytes, length_pread] at ret
  unfold xpnPread xpnReadBlocks xpnReadBlocksFinish xpnReadBlocksAllInOne
  rw [if_neg (by rw [opened.servers]; exact g.n_pos.ne')]
  simp only [optimized, if_true, split_eq, launchReads_eq rows, opened.servers]
  exact ⟨ret, (splits.scattered chained room (by rw [List.length_map, List.length_range])).take_eq⟩

private theorem sreadLoop_delivers {c : Client} (opened : Opened g c.fd) (served : ServedRange g c.servers c.fd.part.localServ reference offset size) :
    ∀ fuel count client buffer, count < size → size < count + fuel → size ≤ buffer.length →
      count = min count (reference.length - offset) → Filled reference offset count buffer →
      Delivers reference offset size (sreadLoop c size offset fuel count client buffer) := by
  intro fuel
  induction fuel with
  | zero => omega
  | succ fuel ih =>
    intro count client buffer more enough room present filled
    obtain ⟨-, fetch⟩ := fetches_block opened served client.rand more (by omega : count + (size - count) ≤ size)
    have moved := lSize_pos (p := offset + count) g.bs_pos (Nat.sub_pos_of_lt more)
    have within := lSize_le g.bs (offset + count) (size - count)
    rw [sreadLoop, opened.blockSize]
    generalize xpnReadGetBlock c.fd c.servers client.rand (offset + count) c.fd.part.localServ = found at *
    obtain ⟨⟨localOffset, serv⟩, rand⟩ := found
    generalize lSize g.bs (offset + count) (size - count) = piece at *
    have allowed : ¬((c.servers serv.toNat).error = -1 ∨ localOffset + (xpnHeaderSize : Int) < 0) := by
      have live := fetch.live
      have place := fetch.place
      unfold Servers.Failed at live
      dsimp only at live place
      omega
    have read : nfiRead (c.servers serv.toNat) (localOffset + (xpnHeaderSize : Int)) piece =
        some (pread reference (offset + count) piece) := by
      rw [nfiRead, if_neg allowed, ← fetch.bytes]
      rfl
    dsimp only
    rw [read]
    dsimp only
    -- The bytes before this piece were right and the piece brings its own.
    have filled' : ∀ i value, i < count + piece → reference[offset + i]? = some value →
        (overwrite buffer count (pread reference (offset + count) piece))[i]? = some value := by
      intro i value inside here
      have exists_i : offset + i < reference.length := (List.getElem?_eq_some_iff.mp here).1
      rw [getElem?_overwrite _ (by omega)]
      split
      next earlier => exact filled i value earlier here
      next =>
        rw [length_pread, if_pos (by omega), getElem?_pread, if_pos (by omega), ← here]
        congr 1
        omega
    split
    next continues =>
      rw [length_pread] at continues ⊢
      apply ih
      · omega
      · omega
      · rw [length_overwrite (by rw [length_pread]; omega)]
        exact room
      · omega
      · exact fun i value inside here => filled' i value (by omega) here
    next stops =>
      rw [length_pread] at stops ⊢
      have counted : count + min piece (reference.length - (offset + count)) = min size (reference.length - offset) := by
        omega
      refine ⟨congrArg Nat.cast counted, Filled.take_eq fun i value inside here => ?_⟩
      have exists_i : offset + i < reference.length := (List.getElem?_eq_some_iff.mp here).1
      exact filled' i value (by omega) here

/-- A serial read delivers. -/
theorem xpnSread_delivers {c : Client} (opened : Opened g c.fd) (served : ServedRange g c.servers c.fd.part.localServ reference offset size)
    (some : 0 < size) (room : size ≤ buffer.length) : Delivers reference offset size (xpnSread c buffer size offset) := by
  rw [xpnSread, if_neg (by rw [opened.servers]; exact g.n_pos.ne')]
  exact sreadLoop_delivers opened served (size + 1) 0 c buffer some (by omega) room (by omega)
    fun i _ inside => absurd inside (Nat.not_lt_zero i)

end Xpn.Proofs
