import Xpn.Proofs.ReadAfterWrite
import Xpn.Proofs.WriteCount

/-! The ways to write a request agree. To send a row of the operation matrix as one operation is
to perform its operations in turn, and the parallel write of a file that is not replicated does
what the serial one does. -/

namespace Xpn.Proofs
open Lib.ByteFile

variable {g : Layout} {fd : XpnFiledesc} {servers : Servers} {size offset : Nat} {buffer : List Byte}

theorem nfiDoWrite_chained {row : List NfiWorkerIo} {start stop : Nat} (chained : Chained start row stop) (ret : Int)
    (server : NfiServer) (live : server.error ≠ -1) :
    nfiDoWrite buffer row ret server = (ret + rowSize row, { server with file := execRow buffer row server.file }) := by
  induction row generalizing start ret server with
  | nil => simp [nfiDoWrite, execRow, rowSize]
  | cons op ops ih =>
    have allowed : ¬(server.error = -1 ∨ op.offset + xpnHeaderSize < 0) := by
      rw [chained.1]
      omega
    have written : nfiWrite server (pread buffer op.buffer op.size) (op.offset + xpnHeaderSize) = some { server with
        file := pwrite server.file (op.offset + (xpnHeaderSize : Int)).toNat (pread buffer op.buffer op.size) } := by
      rw [nfiWrite, if_neg allowed]
    rw [nfiDoWrite, written]
    refine (ih chained.2 (ret + op.size) { server with
      file := pwrite server.file (op.offset + (xpnHeaderSize : Int)).toNat (pread buffer op.buffer op.size) } live).trans ?_
    simp only [rowSize, List.map_cons, List.sum_cons, Nat.cast_add, Int.add_assoc]
    rfl

theorem chained_groupRow {row : List NfiWorkerIo} {start stop : Nat} (chained : Chained start row stop) (position : Nat) :
    ∃ stop', Chained start (groupRow row position) stop' := by
  cases row with
  | nil => exact ⟨stop, chained⟩
  | cons op ops => exact ⟨start + rowSize (op :: ops), chained.1, rfl⟩

/-- The one operation of a grouped row writes what the row would. -/
theorem execRow_groupRow {row : List NfiWorkerIo} {start stop position : Nat} {sendBuffer : List Byte}
    (chained : Chained start row stop) (inside : ∀ op ∈ row, 0 < op.size ∧ op.buffer + op.size ≤ buffer.length)
    (sent : pread sendBuffer position (rowSize row) = gathered buffer row) (file : List Byte) :
    execRow sendBuffer (groupRow row position) file = execRow buffer row file := by
  rw [execRow_chained chained inside]
  cases row with
  | nil => simp [groupRow, execRow]
  | cons op ops =>
    have place : (op.offset + (xpnHeaderSize : Int)).toNat = start + xpnHeaderSize := by
      rw [chained.1]
      omega
    simp only [groupRow, execRow, List.foldl_cons, List.foldl_nil, sent, place]

theorem rowSize_groupRow (row : List NfiWorkerIo) (position : Nat) : rowSize (groupRow row position) = rowSize row := by
  cases row with
  | nil => rfl
  | cons op ops => simp [groupRow, rowSize]

section
variable (opened : Opened g fd) (inside : size ≤ buffer.length)
include opened inside

/-- A live server answers its grouped operation as it would its row. -/
theorem grouped_answer (servers : Servers) {s : Nat} (bound : s < g.n) {server : NfiServer} (live : server.error ≠ -1) :
    nfiDoWrite (xpnWriteBlocksAllInOne fd servers buffer size offset g.n).2
        ((xpnWriteBlocksAllInOne fd servers buffer size offset g.n).1 s) 0 server =
      nfiDoWrite buffer (xpnWriteBlocksBlockByBlock fd servers size offset s) 0 server := by
  obtain ⟨start, stop, chained⟩ := writeBlocks_chained opened servers size offset s
  obtain ⟨stop', single⟩ := chained_groupRow chained (sizeBefore (xpnWriteBlocksBlockByBlock fd servers size offset) s)
  have bounds : ∀ i, ∀ op ∈ xpnWriteBlocksBlockByBlock fd servers size offset i, 0 < op.size ∧
    op.buffer + op.size ≤ buffer.length := by
    intro i op member
    obtain ⟨some, below⟩ := writeBlocks_bounds opened i op member
    exact ⟨some, below.trans inside⟩
  have sent := pread_gathered (fun i => gathered buffer (xpnWriteBlocksBlockByBlock fd servers size offset i))
    (fun i => length_gathered (bounds i)) bound
  have file := execRow_groupRow chained (bounds s) sent server.file
  rw [nfiDoWrite_chained chained 0 server live]
  simp only [xpnWriteBlocksAllInOne, groupRows]
  rw [nfiDoWrite_chained single 0 server live, rowSize_groupRow]
  simp only [gathered] at file
  rw [file]

end

/-- The servers once each has performed its row. -/
def performed (buffer : List Byte) (io : IoMatrix) (servers : Servers) : Servers := fun s =>
  { servers s with file := execRow buffer (io s) (servers s).file }

theorem writeBlocksLoop_done (servers : Servers) (fuel : Nat) (io : IoMatrix) :
    writeBlocksLoop fd servers size offset fuel size io = io := by
  cases fuel with
  | zero => rfl
  | succ fuel => rw [writeBlocksLoop, if_neg (lt_irrefl size)]

section
variable (opened : Opened g fd)
include opened

/-- The next piece of a request goes to the end of its row. -/
theorem stored_performed (single : g.level = 0) (servers : Servers) (p count piece : Nat) (io : IoMatrix) :
    stored (performed buffer io servers) (g.server p 0) (xpnHeaderSize + g.localOffset p 0) (pread buffer count piece) =
      performed buffer (pushReplicas fd servers p count piece io) servers := by
  funext s
  by_cases here : s = g.server p 0
  · subst here
    have place : ((g.localOffset p 0 : Int) + xpnHeaderSize).toNat = xpnHeaderSize + g.localOffset p 0 := by omega
    simp only [stored, performed, if_true]
    rw [pushReplicas_present opened (Nat.zero_le _)]
    simp only [execRow, List.foldl_append, List.foldl_cons, List.foldl_nil, place]
  · have absent : ∀ r, r ≤ g.level → g.server p r ≠ s := by
      intro r copy same
      obtain rfl : r = 0 := by omega
      exact here same.symm
    simp only [stored, if_neg here, performed]
    rw [pushReplicas_absent opened absent]

theorem row_outside (servers : Servers) {s : Nat} (outside : ¬s < g.n) :
    xpnWriteBlocksBlockByBlock fd servers size offset s = [] := by
  have blocks : 0 < fd.blockSize := opened.blockSize ▸ g.bs_pos
  apply writeBlocksLoop_rule servers blocks (fun _ io => io s = []) _ size 0 (fun _ => []) (Nat.zero_le _) (by omega) rfl
  intro count io more empty
  rw [pushReplicas_absent opened, empty]
  intro r copy same
  exact outside (same ▸ g.server_lt _ r)

/-- The serial write performs the rows piece by piece. -/
theorem swriteLoop_performed (single : g.level = 0) (inside : size ≤ buffer.length) (live : ∀ s, s < g.n → ¬servers.Failed s)
    (fuel fuel' count : Nat) (res : Int) (io : IoMatrix) (more : count < size) (enough : size < count + fuel)
    (enough' : size ≤ count + fuel') :
    swriteLoop fd buffer size offset fuel count res (performed buffer io servers) =
      ((size : Int), performed buffer (writeBlocksLoop fd servers size offset fuel' count io) servers) := by
  induction fuel generalizing fuel' count res io with
  | zero => omega
  | succ fuel ih =>
    obtain ⟨fuel', rfl⟩ : ∃ k, fuel' = k + 1 := ⟨fuel' - 1, by omega⟩
    have moved := lSize_pos (p := offset + count) g.bs_pos (Nat.sub_pos_of_lt more)
    have within := lSize_le g.bs (offset + count) (size - count)
    rw [swriteLoop, writeBlocksLoop, if_pos more, opened.blockSize]
    generalize lSize g.bs (offset + count) (size - count) = piece at *
    have length : (pread buffer count piece).length = piece := by
      rw [length_pread]
      omega
    have here : ¬(performed buffer io servers).Failed (g.server (offset + count) 0) :=
      live _ (g.server_lt (offset + count) 0)
    rw [swriteReplicas_single opened single here, length, stored_performed opened single]
    dsimp only
    rw [if_neg (by decide)]
    split
    next continues =>
      rw [Int.toNat_natCast]
      exact ih fuel' (count + piece) piece _ (by omega) (by omega) (by omega)
    next done =>
      obtain rfl : size = count + piece := by omega
      rw [writeBlocksLoop_done]
      rfl

/-- The parallel write performs them row by row. -/
theorem launchWrites_performed (inside : size ≤ buffer.length) (live : ∀ s, s < g.n → ¬servers.Failed s) :
    (launchWrites (xpnWriteBlocksAllInOne fd servers buffer size offset g.n).2
      (xpnWriteBlocksAllInOne fd servers buffer size offset g.n).1 (List.range g.n) servers).2 =
      performed buffer (xpnWriteBlocksBlockByBlock fd servers size offset) servers := by
  funext s
  rw [launchWrites_row List.nodup_range]
  by_cases bound : s < g.n
  · obtain ⟨start, stop, chained⟩ := writeBlocks_chained opened servers size offset s
    rw [if_pos ⟨List.mem_range.mpr bound, live s bound⟩, grouped_answer opened inside servers bound (live s bound),
      nfiDoWrite_chained chained 0 (servers s) (live s bound)]
    rfl
  · rw [if_neg fun here => bound (List.mem_range.mp here.1), performed, row_outside opened servers bound]
    rfl

end

/-- A write of a file that is not replicated does the same in parallel and block by block: what it
returns, the servers and the descriptor. -/
theorem writes_agree {c : Client} (opened : Opened g c.fd) (single : g.level = 0) (live : ∀ s, s < g.n → ¬c.servers.Failed s)
    (some : 0 < size) (inside : size ≤ buffer.length) :
    xpnPwrite c buffer size offset = xpnSwrite c buffer size offset := by
  have up : c.fd.part.dataNserv ≠ 0 := by
    rw [opened.servers]
    exact g.n_pos.ne'
  have whole : (xpnPwrite c buffer size offset).ret = size := (xpnPwrite_whole opened live some).1
  obtain ⟨total, parallel⟩ : ∃ total : Int, xpnPwrite c buffer size offset = ⟨total,
      let c := { c with servers := (launchWrites (xpnWriteBlocks c buffer size offset c.fd.part.dataNserv).2
        (xpnWriteBlocks c buffer size offset c.fd.part.dataNserv).1 (List.range c.fd.part.dataNserv) c.servers).2 }
      if 0 < total then c.advanceWrite total else c⟩ := by
    rw [xpnPwrite, if_neg up]
    exact ⟨_, rfl⟩
  rw [parallel] at whole
  obtain rfl : total = size := whole
  have serial : swriteLoop c.fd buffer size offset (size + 1) 0 (-1) (performed buffer (fun _ => []) c.servers) =
      ((size : Int), performed buffer (xpnWriteBlocksBlockByBlock c.fd c.servers size offset) c.servers) :=
    swriteLoop_performed opened single inside live (size + 1) size 0 (-1) (fun _ => []) some (by omega) (by omega)
  have stores : (launchWrites (xpnWriteBlocksAllInOne c.fd c.servers buffer size offset g.n).2
      (xpnWriteBlocksAllInOne c.fd c.servers buffer size offset g.n).1 (List.range g.n) c.servers).2 = _ :=
    launchWrites_performed opened inside live
  rw [parallel, xpnSwrite, if_neg up]
  simp only [xpnWriteBlocks, opened.servers, stores]
  rw [show c.servers = performed buffer (fun _ => []) c.servers from rfl, serial]
  rfl

theorem writes_agree_new : xpnPwrite newFile [7, 8, 9] 3 0 = xpnSwrite newFile [7, 8, 9] 3 0 :=
  writes_agree newFile_opened rfl (fun s _ => by simp [newFile, Servers.Failed]) (by decide) (by decide)

end Xpn.Proofs
