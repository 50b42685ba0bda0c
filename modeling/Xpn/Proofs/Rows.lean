import Xpn.Proofs.Storage

/-! How a request is split into rows of operations. Every pass of the splitting
loops handles one piece of a block; the rows it fills are chains, each operation
starting where the one before it ends, so they can be grouped. -/

namespace Xpn.Proofs
open Lib.ByteFile Lib.Striping

variable {g : Layout} {fd : XpnFiledesc} {servers : Servers} {size offset : Nat}

section
variable {bs : Nat}

theorem lSize_le (bs p left : Nat) : lSize bs p left ≤ left := by
  unfold lSize
  dsimp only
  split <;> omega

theorem lSize_pos {p left : Nat} (blocks : 0 < bs) (more : 0 < left) : 0 < lSize bs p left := by
  have := Nat.mod_lt p blocks
  unfold lSize
  dsimp only
  split <;> omega

theorem lSize_piece (blocks : 0 < bs) (p left : Nat) : p % bs + lSize bs p left ≤ bs := by
  have := Nat.mod_lt p blocks
  unfold lSize
  dsimp only
  split <;> omega

/-- A piece ends with its block or with the request. -/
theorem lSize_ends (blocks : 0 < bs) (p left : Nat) : lSize bs p left = left ∨ p % bs + lSize bs p left = bs := by
  have := Nat.mod_lt p blocks
  unfold lSize
  dsimp only
  split
  · exact Or.inl rfl
  · right
    omega

end

/-- What every pass of the write loop preserves holds of its result. -/
theorem writeBlocksLoop_rule (servers : Servers) (blocks : 0 < fd.blockSize) (property : Nat → IoMatrix → Prop)
    (pass : ∀ count io, count < size → property count io →
      property (count + lSize fd.blockSize (offset + count) (size - count))
        (pushReplicas fd servers (offset + count) count (lSize fd.blockSize (offset + count) (size - count)) io)) :
    ∀ fuel count io, count ≤ size → size ≤ count + fuel → property count io →
      property size (writeBlocksLoop fd servers size offset fuel count io) := by
  intro fuel
  induction fuel with
  | zero =>
    intro count io bound enough holds
    have done : count = size := by omega
    subst done
    exact holds
  | succ fuel ih =>
    intro count io bound enough holds
    rw [writeBlocksLoop]
    split
    next more =>
      have moved := lSize_pos (p := offset + count) blocks (Nat.sub_pos_of_lt more)
      have within := lSize_le fd.blockSize (offset + count) (size - count)
      exact ih _ _ (by omega) (by omega) (pass count io more holds)
    next done =>
      have finished : count = size := by omega
      subst finished
      exact holds

/-- The property may be one of the outcomes of `rand()` that are left as well. -/
theorem readBlocksLoop_rand_rule {servClient : Int} (blocks : 0 < fd.blockSize) (property : Nat → IoMatrix → (Nat → Nat) → Prop)
    (pass : ∀ count io rand, count < size → property count io rand →
      property (count + lSize fd.blockSize (offset + count) (size - count))
        (io.push (xpnReadGetBlock fd servers rand (offset + count) servClient).1.2.toNat
          ⟨(xpnReadGetBlock fd servers rand (offset + count) servClient).1.1,
            lSize fd.blockSize (offset + count) (size - count), count⟩)
        (xpnReadGetBlock fd servers rand (offset + count) servClient).2) :
    ∀ fuel count io rand, count ≤ size → size ≤ count + fuel → property count io rand →
      property size (readBlocksLoop fd servers size offset servClient fuel count io rand).1
        (readBlocksLoop fd servers size offset servClient fuel count io rand).2 := by
  intro fuel
  induction fuel with
  | zero =>
    intro count io rand bound enough holds
    have done : count = size := by omega
    subst done
    exact holds
  | succ fuel ih =>
    intro count io rand bound enough holds
    rw [readBlocksLoop]
    split
    next more =>
      have moved := lSize_pos (p := offset + count) blocks (Nat.sub_pos_of_lt more)
      have within := lSize_le fd.blockSize (offset + count) (size - count)
      exact ih _ _ _ (by omega) (by omega) (pass count io rand more holds)
    next done =>
      have finished : count = size := by omega
      subst finished
      exact holds

theorem readBlocksLoop_rule {servClient : Int} (blocks : 0 < fd.blockSize) (property : Nat → IoMatrix → Prop)
    (pass : ∀ count io rand, count < size → property count io →
      property (count + lSize fd.blockSize (offset + count) (size - count))
        (io.push (xpnReadGetBlock fd servers rand (offset + count) servClient).1.2.toNat
          ⟨(xpnReadGetBlock fd servers rand (offset + count) servClient).1.1,
            lSize fd.blockSize (offset + count) (size - count), count⟩))
    (fuel count : Nat) (io : IoMatrix) (rand : Nat → Nat) (bound : count ≤ size) (enough : size ≤ count + fuel)
    (holds : property count io) : property size (readBlocksLoop fd servers size offset servClient fuel count io rand).1 :=
  readBlocksLoop_rand_rule blocks (fun count io _ => property count io) pass fuel count io rand bound enough holds

theorem push_same (io : IoMatrix) (s : Nat) (op : NfiWorkerIo) : io.push s op s = io s ++ [op] := if_pos rfl

theorem push_other (io : IoMatrix) {s i : Nat} (op : NfiWorkerIo) (different : i ≠ s) : io.push s op i = io i :=
  if_neg different

private def pushFirst (g : Layout) (p count size : Nat) (io : IoMatrix) : Nat → IoMatrix
  | 0 => io
  | copies + 1 =>
    (pushFirst g p count size io copies).push (g.server p copies) ⟨g.localOffset p copies, size, count⟩

private theorem pushFirst_absent {p count size s copies : Nat} {io : IoMatrix}
    (absent : ∀ r, r < copies → g.server p r ≠ s) : pushFirst g p count size io copies s = io s := by
  induction copies with
  | zero => rfl
  | succ copies ih =>
    rw [pushFirst, push_other _ _ (absent copies (Nat.lt_succ_self _)).symm]
    exact ih fun r bound => absent r (by omega)

private theorem pushFirst_present {p count size r copies : Nat} {io : IoMatrix} (copy : r < copies)
    (bound : copies ≤ g.level + 1) : pushFirst g p count size io copies (g.server p r) =
      io (g.server p r) ++ [⟨g.localOffset p r, size, count⟩] := by
  induction copies with
  | zero => omega
  | succ copies ih =>
    have apart : ∀ other, other < copies + 1 → other ≠ r → g.server p other ≠ g.server p r :=
      fun other inside different same => different (Layout.copies_apart (by omega) (by omega) same)
    rw [pushFirst]
    by_cases last : copies = r
    · subst last
      rw [push_same, pushFirst_absent fun other inside => apart other (by omega) (by omega)]
    · rw [push_other _ _ (apart copies (Nat.lt_succ_self _) last).symm]
      exact ih (by omega) (by omega)

private theorem pushReplicas_eq (opened : Opened g fd) (p count size : Nat) (io : IoMatrix) :
    pushReplicas fd servers p count size io = pushFirst g p count size io (g.level + 1) := by
  unfold pushReplicas
  rw [opened.level]
  induction g.level + 1 with
  | zero => rfl
  | succ copies ih =>
    rw [List.range_succ, List.foldl_append, ih]
    simp only [List.foldl_cons, List.foldl_nil, xpnWriteGetBlock, opened.describes.calculate, pushFirst,
      Int.toNat_natCast]

/-- A server with a copy of the block gets one operation, at that copy. -/
theorem pushReplicas_present (opened : Opened g fd) {p count size r : Nat} {io : IoMatrix} (copy : r ≤ g.level) :
    pushReplicas fd servers p count size io (g.server p r) =
      io (g.server p r) ++ [⟨g.localOffset p r, size, count⟩] := by
  rw [pushReplicas_eq opened]
  exact pushFirst_present (Nat.lt_succ_of_le copy) le_rfl

theorem pushReplicas_absent (opened : Opened g fd) {p count size s : Nat} {io : IoMatrix}
    (absent : ∀ r, r ≤ g.level → g.server p r ≠ s) : pushReplicas fd servers p count size io s = io s := by
  rw [pushReplicas_eq opened]
  exact pushFirst_absent fun r bound => absent r (Nat.le_of_lt_succ bound)

/-- The two cases of a row. -/
theorem hosts_or_not (g : Layout) (p s : Nat) :
    (∃ r, r ≤ g.level ∧ g.server p r = s) ∨ ∀ r, r ≤ g.level → g.server p r ≠ s := by
  by_cases hosted : ∃ r, r ≤ g.level ∧ g.server p r = s
  · exact Or.inl hosted
  · exact Or.inr fun r copy same => hosted ⟨r, copy, same⟩

/-- The operations follow one another from `start` to `stop`. -/
def Chained (start : Nat) : List NfiWorkerIo → Nat → Prop
  | [], stop => start = stop
  | op :: ops, stop => op.offset = start ∧ Chained (start + op.size) ops stop

theorem Chained.append {row : List NfiWorkerIo} {start stop : Nat} {op : NfiWorkerIo} (chained : Chained start row stop)
    (next : op.offset = stop) : Chained start (row ++ [op]) (stop + op.size) := by
  induction row generalizing start with
  | nil => exact ⟨chained ▸ next, chained ▸ rfl⟩
  | cons first rest ih => exact ⟨chained.1, ih chained.2⟩

/-- The operations before one of them say where it starts. -/
theorem Chained.offset_eq {before after : List NfiWorkerIo} {start stop : Nat} {op : NfiWorkerIo}
    (chained : Chained start (before ++ op :: after) stop) : op.offset = (start + rowSize before : Nat) := by
  induction before generalizing start with
  | nil => simpa [rowSize] using chained.1
  | cons first rest ih =>
    have later := ih chained.2
    simp only [rowSize, List.map_cons, List.sum_cons] at later ⊢
    rw [later, Nat.add_assoc]

private def frontier (g : Layout) (s block : Nat) : Nat := filled g.n g.first s (slot (g.level + 1) block 0) * g.bs

private theorem frontier_absent {s p : Nat} (absent : ∀ r, r ≤ g.level → g.server p r ≠ s) :
    frontier g s (p / g.bs + 1) = frontier g s (p / g.bs) := by
  unfold frontier
  rw [filled_absent fun r bound => absent r (Nat.le_of_lt_succ bound)]

private theorem frontier_present {p r : Nat} (copy : r ≤ g.level) :
    g.localOffset p r = frontier g (g.server p r) (p / g.bs) + p % g.bs ∧
      frontier g (g.server p r) (p / g.bs + 1) = frontier g (g.server p r) (p / g.bs) + g.bs := by
  obtain ⟨row, next⟩ := filled_present g.first (p / g.bs) g.n_pos g.fits (Nat.lt_succ_of_le copy)
  unfold frontier Layout.server Layout.localOffset Layout.slotOf
  refine ⟨by rw [row], ?_⟩
  rw [next, Nat.add_mul, Nat.one_mul]

/-- The state of the rows between two passes: nothing yet, or every row reaches
the frontier of its server. -/
private structure RowsAt (g : Layout) (size offset count : Nat) (io : IoMatrix) : Prop where
  chained : ∀ s, ∃ start stop, Chained start (io s) stop
  open_end : count < size → (∀ s, io s = []) ∨ ((offset + count) % g.bs = 0 ∧
    ∀ s, io s = [] ∨ ∃ start, Chained start (io s) (frontier g s ((offset + count) / g.bs)))

private theorem next_block {bs p l : Nat} (blocks : 0 < bs) (ends : p % bs + l = bs) :
    (p + l) % bs = 0 ∧ (p + l) / bs = p / bs + 1 := by
  have split := Nat.div_add_mod p bs
  have whole : p + l = bs * (p / bs + 1) := by rw [Nat.mul_add]; omega
  rw [whole]
  exact ⟨Nat.mul_mod_right _ _, Nat.mul_div_cancel_left _ blocks⟩

private theorem rowsAt_pass (opened : Opened g fd) {count : Nat} {io : IoMatrix} (more : count < size)
    (rows : RowsAt g size offset count io) :
    RowsAt g size offset (count + lSize g.bs (offset + count) (size - count))
      (pushReplicas fd servers (offset + count) count (lSize g.bs (offset + count) (size - count)) io) := by
  generalize piece_eq : lSize g.bs (offset + count) (size - count) = piece
  have ends := lSize_ends g.bs_pos (offset + count) (size - count)
  rw [piece_eq] at ends
  -- A row that gets an operation was empty or reached the place of the operation.
  have grows : ∀ r, r ≤ g.level → ∃ start, Chained start
      (io (g.server (offset + count) r) ++ [⟨g.localOffset (offset + count) r, piece, count⟩])
      (g.localOffset (offset + count) r + piece) := by
    intro r copy
    have place := (frontier_present (p := offset + count) copy).1
    rcases rows.open_end more with empty | ⟨boundary, reached⟩
    · exact ⟨g.localOffset (offset + count) r, by rw [empty]; exact ⟨rfl, rfl⟩⟩
    · rcases reached (g.server (offset + count) r) with empty | ⟨start, chained⟩
      · exact ⟨g.localOffset (offset + count) r, by rw [empty]; exact ⟨rfl, rfl⟩⟩
      · rw [boundary, Nat.add_zero] at place
        rw [← place] at chained
        exact ⟨start, chained.append rfl⟩
  constructor
  · intro s
    rcases hosts_or_not g (offset + count) s with ⟨r, copy, rfl⟩ | absent
    · rw [pushReplicas_present opened copy]
      obtain ⟨start, chained⟩ := grows r copy
      exact ⟨start, _, chained⟩
    · rw [pushReplicas_absent opened absent]
      exact rows.chained s
  · intro moreAfter
    have ended : (offset + count) % g.bs + piece = g.bs := by omega
    obtain ⟨boundary, block⟩ := next_block g.bs_pos ended
    right
    rw [← Nat.add_assoc, boundary, block]
    refine ⟨rfl, fun s => ?_⟩
    rcases hosts_or_not g (offset + count) s with ⟨r, copy, rfl⟩ | absent
    · right
      obtain ⟨start, chained⟩ := grows r copy
      obtain ⟨place, next⟩ := frontier_present (p := offset + count) copy
      rw [pushReplicas_present opened copy, next]
      refine ⟨start, ?_⟩
      have reaches : g.localOffset (offset + count) r + piece =
          frontier g (g.server (offset + count) r) ((offset + count) / g.bs) + g.bs := by omega
      rwa [reaches] at chained
    · rw [pushReplicas_absent opened absent, frontier_absent absent]
      rcases rows.open_end more with empty | ⟨_, reached⟩
      · exact Or.inl (empty s)
      · exact reached s

/-- Every row of a split write is a chain. -/
theorem writeBlocks_chained (opened : Opened g fd) (servers : Servers) (size offset s : Nat) :
    ∃ start stop, Chained start (xpnWriteBlocksBlockByBlock fd servers size offset s) stop := by
  have blocks : 0 < fd.blockSize := opened.blockSize ▸ g.bs_pos
  have rows := writeBlocksLoop_rule servers blocks (RowsAt g size offset)
    (fun count io more rows => by rw [opened.blockSize]; exact rowsAt_pass opened more rows)
    size 0 (fun _ => []) (Nat.zero_le _) (by omega) ⟨fun _ => ⟨0, 0, rfl⟩, fun _ => Or.inl fun _ => rfl⟩
  exact rows.chained s

/-- The operations move data, and only inside the caller's buffer. -/
theorem writeBlocks_bounds (opened : Opened g fd) (s : Nat) :
    ∀ op ∈ xpnWriteBlocksBlockByBlock fd servers size offset s, 0 < op.size ∧ op.buffer + op.size ≤ size := by
  have blocks : 0 < fd.blockSize := opened.blockSize ▸ g.bs_pos
  refine writeBlocksLoop_rule servers blocks
    (fun count io => ∀ op ∈ io s, 0 < op.size ∧ op.buffer + op.size ≤ count) ?_
    size 0 (fun _ => []) (Nat.zero_le _) (by omega) (fun op member => absurd member List.not_mem_nil)
  intro count io more bounds op member
  have moved := lSize_pos (p := offset + count) blocks (Nat.sub_pos_of_lt more)
  rcases hosts_or_not g (offset + count) s with ⟨r, copy, rfl⟩ | absent
  · rw [pushReplicas_present opened copy, List.mem_append, List.mem_singleton] at member
    rcases member with earlier | rfl
    · have := bounds op earlier
      omega
    · exact ⟨moved, le_rfl⟩
  · rw [pushReplicas_absent opened absent] at member
    have := bounds op member
    omega

theorem localBlock_copy {position : Nat} {servClient : Int} {fuel start : Nat} {found : Int × Int}
    (hit : localBlock fd servers position servClient fuel start = some found) :
    ∃ copy, copy < start + fuel ∧ found = xpnCalculateBlockMdata fd.mdata position copy := by
  induction fuel generalizing start with
  | zero => cases hit
  | succ fuel ih =>
    rw [localBlock] at hit
    simp only at hit
    split at hit
    · cases hit
      exact ⟨start, by omega, rfl⟩
    · obtain ⟨copy, below, same⟩ := ih hit
      exact ⟨copy, by omega, same⟩

theorem retryBlock_copy {position : Nat} (fuel : Nat) {start : Nat} (known : start ≤ fd.part.replicationLevel) :
    ∃ copy, copy ≤ fd.part.replicationLevel
      ∧ retryBlock fd servers position fuel start = xpnCalculateBlockMdata fd.mdata position copy := by
  induction fuel generalizing start with
  | zero => exact ⟨start, known, rfl⟩
  | succ fuel ih =>
    rw [retryBlock]
    split
    · apply ih
      split
      · exact Nat.le_of_lt_succ (Nat.mod_lt _ (Nat.succ_pos _))
      · exact known
    · exact ⟨start, known, rfl⟩

/-- Whatever has failed, what a read asks is one of the copies. -/
theorem xpnReadGetBlock_copy (fd : XpnFiledesc) (servers : Servers) (rand : Nat → Nat) (position : Nat)
    (servClient : Int) : ∃ copy, copy ≤ fd.part.replicationLevel
      ∧ (xpnReadGetBlock fd servers rand position servClient).1 = xpnCalculateBlockMdata fd.mdata position copy := by
  unfold xpnReadGetBlock
  simp only
  split
  next found hit =>
    split at hit
    · obtain ⟨copy, below, same⟩ := localBlock_copy hit
      exact ⟨copy, by omega, same⟩
    · cases hit
  next =>
    split
    · exact retryBlock_copy _ (Nat.le_of_lt_succ (Nat.mod_lt _ (Nat.succ_pos _)))
    · exact retryBlock_copy _ (Nat.zero_le _)

theorem rowSize_append (before after : List NfiWorkerIo) : rowSize (before ++ after) = rowSize before + rowSize after := by
  simp [rowSize]

theorem sizeBefore_succ (io : IoMatrix) (i : Nat) : sizeBefore io (i + 1) = sizeBefore io i + rowSize (io i) := by
  simp [sizeBefore, List.range_succ]

theorem sizeBefore_le (io : IoMatrix) {i j : Nat} (order : i ≤ j) : sizeBefore io i ≤ sizeBefore io j := by
  induction j with
  | zero =>
    obtain rfl := Nat.le_zero.mp order
    exact le_rfl
  | succ j ih =>
    rw [sizeBefore_succ]
    rcases Nat.lt_or_eq_of_le order with earlier | rfl
    · have := ih (Nat.le_of_lt_succ earlier)
      omega
    · rw [sizeBefore_succ]

end Xpn.Proofs
