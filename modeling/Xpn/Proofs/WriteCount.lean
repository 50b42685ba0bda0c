import Xpn.Proofs.ReadPath
import Xpn.Proofs.WritePath

/-! How much a write moves while no server has failed: everything, whatever the number of
copies, so the descriptor goes on by the size of the request. -/

namespace Xpn.Proofs
open Lib.ByteFile

variable {g : Layout} {fd : XpnFiledesc} {servers : Servers} {size offset : Nat} {buffer : List Byte}

theorem sizeBefore_push (io : IoMatrix) {n s : Nat} (op : NfiWorkerIo) (inside : s < n) :
    sizeBefore (io.push s op) n = sizeBefore io n + op.size := by
  have grown := total_push (fun _ op => op.size) io op (n := n) (s := s)
  rw [if_pos inside] at grown
  exact grown

private theorem sizeBefore_replicas (opened : Opened g fd) (p count piece : Nat) (io : IoMatrix) :
    sizeBefore (pushReplicas fd servers p count piece io) g.n = sizeBefore io g.n + piece * (g.level + 1) := by
  unfold pushReplicas
  rw [opened.level]
  induction g.level + 1 with
  | zero => rfl
  | succ copies ih =>
    rw [List.range_succ, List.foldl_append, List.foldl_cons, List.foldl_nil]
    simp only [xpnWriteGetBlock, opened.describes.calculate, Int.toNat_natCast] at ih ⊢
    rw [sizeBefore_push _ _ (g.server_lt p copies), ih, Nat.mul_succ, Nat.add_assoc]

/-- Every byte of the request is sent to all of its copies. -/
theorem writeBlocks_sizes (opened : Opened g fd) (servers : Servers) (size offset : Nat) :
    sizeBefore (xpnWriteBlocksBlockByBlock fd servers size offset) g.n = size * (g.level + 1) := by
  have blocks : 0 < fd.blockSize := opened.blockSize ▸ g.bs_pos
  refine writeBlocksLoop_rule servers blocks (fun count io => sizeBefore io g.n = count * (g.level + 1)) ?_
    size 0 (fun _ => []) (Nat.zero_le _) (by omega) (by simp [sizeBefore, rowSize])
  intro count io _ sizes
  rw [sizeBefore_replicas opened, sizes, Nat.add_mul]

theorem rowSize_group (row : List NfiWorkerIo) (position : Nat) : rowSize (groupRow row position) = rowSize row := by
  cases row with
  | nil => rfl
  | cons op ops => exact Nat.add_zero _

theorem nfiDoWrite_count (ops : List NfiWorkerIo) (places : ∀ op ∈ ops, 0 ≤ op.offset) (ret : Int) (server : NfiServer)
    (live : server.error ≠ -1) : (nfiDoWrite buffer ops ret server).1 = ret + rowSize ops := by
  induction ops generalizing ret server with
  | nil => exact (Int.add_zero ret).symm
  | cons op ops ih =>
    have here := places op List.mem_cons_self
    have allowed : ¬(server.error = -1 ∨ op.offset + xpnHeaderSize < 0) := by omega
    have rest := ih (fun other member => places other (List.mem_cons_of_mem _ member))
    simp only [nfiDoWrite, nfiWrite, if_neg allowed]
    refine (rest _ _ ?_).trans ?_
    · exact live
    simp only [rowSize, List.map_cons, List.sum_cons, Nat.cast_add, Int.add_assoc]

private theorem launchWrites_counts {io : IoMatrix} (places : ∀ j, ∀ op ∈ io j, 0 ≤ op.offset) (js : List Nat) (servers : Servers)
    (live : ∀ j ∈ js, ¬servers.Failed j) :
    (launchWrites buffer io js servers).1 = js.map fun j => (rowSize (io j) : Int) := by
  induction js generalizing servers with
  | nil => rfl
  | cons j rest ih =>
    have here := live j List.mem_cons_self
    have remain : ∀ i ∈ rest, ¬Servers.Failed (fun i => if i = j then (nfiDoWrite buffer (io j) 0 (servers j)).2 else servers i) i := by
      intro i member
      unfold Servers.Failed
      dsimp only
      split
      · rw [nfiDoWrite_error]
        exact here
      · exact live i (List.mem_cons_of_mem _ member)
    rw [launchWrites, if_neg here]
    simp only [List.map_cons, nfiDoWrite_count _ (places j) _ _ here, ih _ remain, Int.zero_add]

theorem grouped_places (opened : Opened g fd) (servers : Servers) (size offset : Nat) (j : Nat) :
    ∀ op ∈ groupRows (xpnWriteBlocksBlockByBlock fd servers size offset) j, 0 ≤ op.offset := by
  obtain ⟨start, stop, chained⟩ := writeBlocks_chained opened servers size offset j
  unfold groupRows
  cases rows : xpnWriteBlocksBlockByBlock fd servers size offset j with
  | nil => exact fun op member => absurd member List.not_mem_nil
  | cons first rest =>
    rw [rows] at chained
    intro op member
    obtain rfl := List.mem_singleton.mp member
    change 0 ≤ first.offset
    rw [chained.1]
    exact Int.natCast_nonneg _

/-- All servers up: the total is the size of the request once for every copy, also where
the sums do not fit an `int`. -/
private theorem total_written {io : IoMatrix} {n : Nat} (live : ∀ j, j < n → ¬servers.Failed j) :
    xpnWriteGetTotalBytes ((List.range n).map fun j => (rowSize (io j) : Int)) io servers n = sizeBefore io n := by
  have sent : ((List.range n).map fun i => if servers.Failed i then 0 else (rowSize (io i) : Int)) =
      (List.range n).map fun i => (rowSize (io i) : Int) :=
    List.map_congr_left fun i member => if_neg (live i (List.mem_range.mp member))
  have sum : ((List.range n).map fun i => (rowSize (io i) : Int)).sum = (sizeBefore io n : Int) := by
    unfold sizeBefore
    induction n with
    | zero => rfl
    | succ n ih =>
      have before := ih (fun j bound => live j (by omega))
        (List.map_congr_left fun i member => if_neg (live i (by have := List.mem_range.mp member; omega)))
      simp only [List.range_succ, List.map_append, List.map_cons, List.map_nil, List.sum_append, List.sum_cons, List.sum_nil,
        Nat.cast_add, Nat.cast_zero] at before ⊢
      rw [before]
  unfold xpnWriteGetTotalBytes
  dsimp only
  rw [sent, sum]
  split
  next same => exact same.symm
  next => rfl

/-- Where a descriptor goes on does not depend on what the servers store. -/
theorem advanceWrite_fd (c : Client) (servers : Servers) (count : Int) :
    ({ c with servers }.advanceWrite count).fd = (c.advanceWrite count).fd := by
  unfold Client.advanceWrite Client.advance
  dsimp only
  split
  · rfl
  · rfl

theorem xpnPwrite_whole {c : Client} (opened : Opened g c.fd) (live : ∀ s, s < g.n → ¬c.servers.Failed s) (some : 0 < size) :
    (xpnPwrite c buffer size offset).ret = size ∧
      (xpnPwrite c buffer size offset).client.fd = (c.advanceWrite size).fd := by
  have up : c.fd.part.dataNserv ≠ 0 := by rw [opened.servers]; exact g.n_pos.ne'
  unfold xpnPwrite
  rw [if_neg up]
  simp only [xpnWriteBlocks, xpnWriteBlocksAllInOne, opened.servers, opened.level]
  rw [launchWrites_counts (grouped_places opened c.servers size offset) _ _ fun j member => live j (List.mem_range.mp member),
    total_written live]
  have sizes : sizeBefore (groupRows (xpnWriteBlocksBlockByBlock c.fd c.servers size offset)) g.n = size * (g.level + 1) := by
    rw [← writeBlocks_sizes opened c.servers size offset]
    unfold sizeBefore groupRows
    simp only [rowSize_group]
  have whole : ((size * (g.level + 1) : Nat) : Int).tdiv ((g.level : Int) + 1) = size := by
    rw [Nat.cast_mul, Nat.cast_add, Nat.cast_one]
    exact Int.mul_tdiv_cancel _ (by omega)
  rw [if_neg, sizes, whole, if_pos (by omega)]
  · exact ⟨rfl, advanceWrite_fd c _ size⟩
  · rw [List.any_eq_true]
    rintro ⟨result, member, negative⟩
    obtain ⟨j, -, rfl⟩ := List.mem_map.mp member
    exact absurd (of_decide_eq_true negative) (by omega)

private theorem swriteLoop_count (offset : Nat) (opened : Opened g fd) (single : g.level = 0) (inside : size ≤ buffer.length) :
    ∀ fuel count res servers, count < size → size < count + fuel → (∀ s, s < g.n → ¬servers.Failed s) →
      (swriteLoop fd buffer size offset fuel count res servers).1 = size := by
  intro fuel
  induction fuel with
  | zero => omega
  | succ fuel ih =>
    intro count res servers more enough live
    have moved := lSize_pos (p := offset + count) g.bs_pos (Nat.sub_pos_of_lt more)
    have within := lSize_le g.bs (offset + count) (size - count)
    rw [swriteLoop, opened.blockSize]
    generalize lSize g.bs (offset + count) (size - count) = piece at *
    have length : (pread buffer count piece).length = piece := by
      rw [length_pread]
      omega
    have here := live _ (g.server_lt (offset + count) 0)
    rw [swriteReplicas_single opened single here, length]
    dsimp only
    rw [if_neg (by decide)]
    split
    next continues =>
      rw [Int.toNat_natCast]
      apply ih _ _ _ (by omega) (by omega)
      intro s bound
      unfold Servers.Failed stored
      split
      · exact here
      · exact live s bound
    next done =>
      dsimp only
      omega

theorem xpnSwrite_whole {c : Client} (opened : Opened g c.fd) (single : g.level = 0) (inside : size ≤ buffer.length)
    (live : ∀ s, s < g.n → ¬c.servers.Failed s) (some : 0 < size) :
    (xpnSwrite c buffer size offset).ret = size ∧ (xpnSwrite c buffer size offset).client.fd = (c.advanceWrite size).fd := by
  have up : c.fd.part.dataNserv ≠ 0 := by rw [opened.servers]; exact g.n_pos.ne'
  have count := swriteLoop_count offset opened single inside (size + 1) 0 (-1) c.servers some (by omega) live
  unfold xpnSwrite
  rw [if_neg up]
  dsimp only
  rw [count, if_pos (by omega)]
  exact ⟨rfl, advanceWrite_fd c _ size⟩

theorem simpleWrite_whole {c : Client} (opened : Opened g c.fd) (writable : c.fd.flags ≠ oRdonly) (regular : c.fd.type ≠ xpnDir)
    (inside : size ≤ buffer.length) (live : ∀ s, s < g.n → ¬c.servers.Failed s) (some : 0 < size) :
    (xpnSimpleWrite c buffer size).ret = size ∧ (xpnSimpleWrite c buffer size).client.fd = (c.advanceWrite size).fd := by
  unfold xpnSimpleWrite
  rw [if_neg some.ne', if_neg writable, if_neg regular]
  split
  · exact xpnPwrite_whole opened live some
  next serial =>
    have single : g.level = 0 := by
      rw [opened.level] at serial
      omega
    exact xpnSwrite_whole opened single inside live some

end Xpn.Proofs
