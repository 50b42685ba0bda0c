import Xpn.Proofs.Rows

/-! Writes keep the storage invariant of every live server. A parallel write
gathers the data of each row and sends it as one operation; because the row is a
chain, that is the same as performing its operations one after the other. -/

namespace Xpn.Proofs
open Lib.ByteFile

variable {g : Layout} {fd : XpnFiledesc} {servers : Servers} {size offset : Nat} {buffer reference : List Byte}

theorem Layout.length_pwrite {file data : List Byte} {position : Nat} (dense : position ≤ file.length) :
    (pwrite file position data).length = max file.length (position + data.length) := by
  rw [pwrite_eq_overwrite data dense]
  simp only [overwrite, List.length_append, List.length_take, List.length_drop]
  omega

/-- Writing the next piece of a request that was written up to `count`. -/
theorem pwrite_next (reference buffer : List Byte) (offset count piece : Nat) (inside : count ≤ buffer.length) :
    pwrite reference offset (pread buffer 0 (count + piece)) =
      pwrite (pwrite reference offset (pread buffer 0 count)) (offset + count) (pread buffer count piece) := by
  rw [pread_add, Nat.zero_add]
  by_cases first : count = 0
  · subst first
    simp
  · have length : (pread buffer 0 count).length = count := by
      rw [length_pread]
      omega
    rw [← pwrite_append _ _ (List.ne_nil_of_length_pos (by omega)), length]

/-- The invariant of a server while a request is being written. -/
theorem Layout.Holds.next_piece {s count piece : Nat} {file : List Byte} {r : Nat}
    (holds : g.Holds s file (pwrite reference offset (pread buffer 0 count))) (dense : offset ≤ reference.length)
    (inside : count + piece ≤ buffer.length) (more : 0 < piece) (fits : (offset + count) % g.bs + piece ≤ g.bs)
    (copy : r ≤ g.level) (hosted : g.server (offset + count) r = s) :
    g.Holds s (pwrite file (xpnHeaderSize + g.localOffset (offset + count) r) (pread buffer count piece))
      (pwrite reference offset (pread buffer 0 (count + piece))) := by
  have length : (pread buffer count piece).length = piece := by
    rw [length_pread]
    omega
  rw [pwrite_next _ _ _ _ _ (by omega)]
  apply holds.write _ (List.ne_nil_of_length_pos (by omega)) (by omega) copy hosted
  rw [Layout.length_pwrite dense, length_pread]
  omega

theorem Layout.Holds.other_piece {s count piece : Nat} {file : List Byte}
    (holds : g.Holds s file (pwrite reference offset (pread buffer 0 count))) (dense : offset ≤ reference.length)
    (inside : count + piece ≤ buffer.length) (more : 0 < piece) (fits : (offset + count) % g.bs + piece ≤ g.bs)
    (elsewhere : ∀ r, r ≤ g.level → g.server (offset + count) r ≠ s) :
    g.Holds s file (pwrite reference offset (pread buffer 0 (count + piece))) := by
  have length : (pread buffer count piece).length = piece := by
    rw [length_pread]
    omega
  rw [pwrite_next _ _ _ _ _ (by omega)]
  apply holds.skip _ (List.ne_nil_of_length_pos (by omega)) (by omega) elsewhere
  rw [Layout.length_pwrite dense, length_pread]
  omega

def execRow (buffer : List Byte) (row : List NfiWorkerIo) (file : List Byte) : List Byte :=
  row.foldl (fun file (op : NfiWorkerIo) =>
    pwrite file (op.offset + (xpnHeaderSize : Int)).toNat (pread buffer op.buffer op.size)) file

theorem execRow_holds (opened : Opened g fd) (dense : offset ≤ reference.length) (inside : size ≤ buffer.length)
    {s : Nat} {file : List Byte} (holds : g.Holds s file reference) :
    g.Holds s (execRow buffer (xpnWriteBlocksBlockByBlock fd servers size offset s) file)
      (pwrite reference offset (pread buffer 0 size)) := by
  have blocks : 0 < fd.blockSize := opened.blockSize ▸ g.bs_pos
  refine writeBlocksLoop_rule servers blocks
    (fun count io => g.Holds s (execRow buffer (io s) file) (pwrite reference offset (pread buffer 0 count))) ?_
    size 0 (fun _ => []) (Nat.zero_le _) (by omega) (by simpa [execRow] using holds)
  intro count io more holds
  rw [opened.blockSize]
  have moved := lSize_pos (p := offset + count) g.bs_pos (Nat.sub_pos_of_lt more)
  have within := lSize_le g.bs (offset + count) (size - count)
  have fits := lSize_piece g.bs_pos (offset + count) (size - count)
  rcases hosts_or_not g (offset + count) s with ⟨r, copy, hosted⟩ | absent
  · have row : pushReplicas fd servers (offset + count) count (lSize g.bs (offset + count) (size - count)) io s =
        io s ++ [⟨g.localOffset (offset + count) r, lSize g.bs (offset + count) (size - count), count⟩] := by
      rw [← hosted]
      exact pushReplicas_present opened copy
    rw [row, execRow, List.foldl_append]
    have place : ((g.localOffset (offset + count) r : Int) + xpnHeaderSize).toNat =
        xpnHeaderSize + g.localOffset (offset + count) r := by omega
    simp only [List.foldl_cons, List.foldl_nil, place]
    exact holds.next_piece dense (by omega) moved fits copy hosted
  · rw [pushReplicas_absent opened absent]
    exact holds.other_piece dense (by omega) moved fits absent

def gathered (buffer : List Byte) (row : List NfiWorkerIo) : List Byte :=
  row.flatMap fun op => pread buffer op.buffer op.size

@[simp] theorem gathered_nil (buffer : List Byte) : gathered buffer [] = [] := rfl

@[simp] theorem gathered_cons (buffer : List Byte) (op : NfiWorkerIo) (ops : List NfiWorkerIo) :
    gathered buffer (op :: ops) = pread buffer op.buffer op.size ++ gathered buffer ops := List.flatMap_cons

theorem length_gathered {row : List NfiWorkerIo} (inside : ∀ op ∈ row, 0 < op.size ∧ op.buffer + op.size ≤ buffer.length) :
    (gathered buffer row).length = rowSize row := by
  induction row with
  | nil => rfl
  | cons op ops ih =>
    have here := (inside op List.mem_cons_self).2
    have rest := ih fun other member => inside other (List.mem_cons_of_mem _ member)
    simp only [gathered_cons, List.length_append, length_pread, rowSize, List.map_cons, List.sum_cons] at rest ⊢
    omega

/-- Performing a chain in turn is writing its data at once. -/
theorem execRow_chained {row : List NfiWorkerIo} {start stop : Nat} (chained : Chained start row stop)
    (inside : ∀ op ∈ row, 0 < op.size ∧ op.buffer + op.size ≤ buffer.length) (file : List Byte) :
    execRow buffer row file = pwrite file (start + xpnHeaderSize) (gathered buffer row) := by
  induction row generalizing start file with
  | nil => simp [execRow]
  | cons op ops ih =>
    have here := inside op List.mem_cons_self
    have length : (pread buffer op.buffer op.size).length = op.size := by
      rw [length_pread]
      omega
    have place : (op.offset + xpnHeaderSize).toNat = start + xpnHeaderSize := by
      rw [chained.1]
      omega
    have rest := ih chained.2 (fun other member => inside other (List.mem_cons_of_mem _ member))
      (pwrite file (start + xpnHeaderSize) (pread buffer op.buffer op.size))
    calc execRow buffer (op :: ops) file
        = execRow buffer ops (pwrite file (start + xpnHeaderSize) (pread buffer op.buffer op.size)) := by
          rw [execRow, List.foldl_cons, place]
          rfl
      _ = pwrite file (start + xpnHeaderSize) (gathered buffer (op :: ops)) := by
          rw [rest, Nat.add_right_comm, gathered_cons, ← pwrite_append _ _ (List.ne_nil_of_length_pos (by omega)),
            length]

/-- The part of the send buffer that belongs to server `s`. -/
theorem pread_gathered {io : IoMatrix} (pieces : Nat → List Byte) (lengths : ∀ i, (pieces i).length = rowSize (io i))
    {n s : Nat} (bound : s < n) :
    pread ((List.range n).flatMap pieces) (sizeBefore io s) (rowSize (io s)) = pieces s := by
  have prefix_length : ∀ i, ((List.range i).flatMap pieces).length = sizeBefore io i := by
    intro i
    induction i with
    | zero => rfl
    | succ i ih => rw [List.range_succ, List.flatMap_append, List.length_append, ih, sizeBefore_succ]; simp [lengths]
  have split : List.range n = List.range s ++ s :: (List.range (n - (s + 1))).map (· + (s + 1)) := by
    have whole : n = (s + 1) + (n - (s + 1)) := by omega
    conv_lhs => rw [whole, List.range_add, List.range_succ]
    simp [Nat.add_comm]
  rw [split, List.flatMap_append, List.flatMap_cons, pread, ← prefix_length s, List.drop_left, ← lengths s, List.take_left]

private theorem nfiDoWrite_grouped {row : List NfiWorkerIo} {start stop position : Nat} {sendBuffer : List Byte}
    {server : NfiServer} (chained : Chained start row stop)
    (inside : ∀ op ∈ row, 0 < op.size ∧ op.buffer + op.size ≤ buffer.length)
    (sent : pread sendBuffer position (rowSize row) = gathered buffer row) (live : server.error ≠ -1) :
    (nfiDoWrite sendBuffer (groupRow row position) 0 server).2 =
      { server with file := execRow buffer row server.file } := by
  rw [execRow_chained chained inside]
  cases row with
  | nil => simp [groupRow, nfiDoWrite]
  | cons op ops =>
    have place : (op.offset + xpnHeaderSize).toNat = start + xpnHeaderSize := by
      rw [chained.1]
      omega
    have allowed : ¬(server.error = -1 ∨ op.offset + xpnHeaderSize < 0) := by
      rw [chained.1]
      omega
    simp only [groupRow, nfiDoWrite, nfiWrite, if_neg allowed, sent, place]

private theorem nfiWrite_error {server written : NfiServer} {data : List Byte} {position : Int}
    (done : nfiWrite server data position = some written) : written.error = server.error := by
  unfold nfiWrite at done
  split at done
  · cases done
  · cases done
    rfl

theorem nfiDoWrite_error (sendBuffer : List Byte) (ops : List NfiWorkerIo) (ret : Int) (server : NfiServer) :
    (nfiDoWrite sendBuffer ops ret server).2.error = server.error := by
  induction ops generalizing ret server with
  | nil => rfl
  | cons op ops ih =>
    rw [nfiDoWrite]
    split
    · rfl
    next written =>
      rw [ih]
      exact nfiWrite_error written

theorem launchWrites_row {io : IoMatrix} {js : List Nat} (distinct : js.Nodup) (servers : Servers) (s : Nat) :
    (launchWrites buffer io js servers).2 s =
      if s ∈ js ∧ ¬servers.Failed s then (nfiDoWrite buffer (io s) 0 (servers s)).2 else servers s := by
  induction js generalizing servers with
  | nil => simp [launchWrites]
  | cons j rest ih =>
    obtain ⟨absent, distinct⟩ := List.nodup_cons.mp distinct
    rw [launchWrites]
    split
    next failed =>
      rw [ih distinct]
      by_cases same : s = j
      · subst same
        rw [if_neg (by tauto), if_neg (by tauto)]
      · simp only [List.mem_cons, same, false_or]
    next live =>
      rw [ih distinct]
      by_cases same : s = j
      · subst same
        simp [absent, live]
      · simp only [List.mem_cons, same, false_or, Servers.Failed, if_false]

@[simp] theorem advance_servers (c : Client) (count : Int) : (c.advance count).servers = c.servers := rfl

@[simp] theorem advanceWrite_servers (c : Client) (count : Int) : (c.advanceWrite count).servers = c.servers := by
  unfold Client.advanceWrite
  dsimp only
  split <;> rfl

theorem advanceWrite_offset (c : Client) (count : Int) : (c.advanceWrite count).fd.offset = c.fd.offset + count.toNat := by
  unfold Client.advanceWrite
  dsimp only
  split
  · rfl
  · rfl

private theorem xpnPwrite_servers {c : Client} (some : c.fd.part.dataNserv ≠ 0) :
    (xpnPwrite c buffer size offset).client.servers =
      (launchWrites (xpnWriteBlocks c buffer size offset c.fd.part.dataNserv).2
        (xpnWriteBlocks c buffer size offset c.fd.part.dataNserv).1 (List.range c.fd.part.dataNserv) c.servers).2 := by
  unfold xpnPwrite
  rw [if_neg some]
  simp only [apply_ite Client.servers, advanceWrite_servers, ite_self]

private theorem xpnPwrite_server {c : Client} (opened : Opened g c.fd) (inside : size ≤ buffer.length) {s : Nat}
    (bound : s < g.n) (live : ¬c.servers.Failed s) :
    (xpnPwrite c buffer size offset).client.servers s = { c.servers s with
      file := execRow buffer (xpnWriteBlocksBlockByBlock c.fd c.servers size offset s) (c.servers s).file } := by
  have bounds : ∀ i, ∀ op ∈ xpnWriteBlocksBlockByBlock c.fd c.servers size offset i,
      0 < op.size ∧ op.buffer + op.size ≤ buffer.length := by
    intro i op member
    have := writeBlocks_bounds opened i op member
    omega
  rw [xpnPwrite_servers (by rw [opened.servers]; exact g.n_pos.ne'), launchWrites_row List.nodup_range,
    if_pos ⟨List.mem_range.mpr (opened.servers ▸ bound), live⟩]
  obtain ⟨start, stop, chained⟩ := writeBlocks_chained opened c.servers size offset s
  apply nfiDoWrite_grouped chained (bounds s) _ live
  exact pread_gathered (fun i => gathered buffer (xpnWriteBlocksBlockByBlock c.fd c.servers size offset i))
    (fun i => length_gathered (bounds i)) (opened.servers ▸ bound)

/-- A parallel write keeps the invariant of every live server. -/
theorem xpnPwrite_holds {c : Client} (opened : Opened g c.fd) (dense : offset ≤ reference.length)
    (inside : size ≤ buffer.length) {s : Nat} (bound : s < g.n) (live : ¬c.servers.Failed s)
    (holds : g.Holds s (c.servers s).file reference) :
    g.Holds s ((xpnPwrite c buffer size offset).client.servers s).file (pwrite reference offset (pread buffer 0 size)) := by
  rw [xpnPwrite_server opened inside bound live]
  exact execRow_holds opened dense inside holds

/-- Failed servers stay failed and no server fails by being written to. -/
theorem xpnPwrite_error (c : Client) (s : Nat) :
    ((xpnPwrite c buffer size offset).client.servers s).error = (c.servers s).error := by
  by_cases none : c.fd.part.dataNserv = 0
  · rw [xpnPwrite, if_pos none]
  · rw [xpnPwrite_servers none, launchWrites_row List.nodup_range]
    split
    · exact nfiDoWrite_error _ _ _ _
    · rfl

def stored (servers : Servers) (s position : Nat) (data : List Byte) : Servers := fun j =>
  if j = s then { servers s with file := pwrite (servers s).file position data } else servers j

theorem swriteReplicas_single (opened : Opened g fd) (single : g.level = 0) {p : Nat} {data : List Byte} {res : Int}
    (live : ¬servers.Failed (g.server p 0)) :
    swriteReplicas fd data p (List.range (fd.part.replicationLevel + 1)) res servers =
      (false, (data.length : Int), stored servers (g.server p 0) (xpnHeaderSize + g.localOffset p 0) data) := by
  have one : List.range (fd.part.replicationLevel + 1) = [0] := by rw [opened.level, single]; rfl
  have place := opened.describes.calculate p 0
  have allowed : ¬((servers (g.server p 0)).error = -1 ∨ (g.localOffset p 0 : Int) + xpnHeaderSize < 0) := by
    unfold Servers.Failed at live
    omega
  have position : ((g.localOffset p 0 : Int) + xpnHeaderSize).toNat = xpnHeaderSize + g.localOffset p 0 := by omega
  have found : xpnWriteGetBlock fd servers p 0 =
      (((g.localOffset p 0 : Int), (g.server p 0 : Int)), (servers (g.server p 0)).error) := by
    rw [xpnWriteGetBlock, place, Int.toNat_natCast]
  have written : nfiWrite (servers (g.server p 0)) data ((g.localOffset p 0 : Int) + xpnHeaderSize) =
      some { servers (g.server p 0) with
        file := pwrite (servers (g.server p 0)).file (xpnHeaderSize + g.localOffset p 0) data } := by
    rw [nfiWrite, if_neg allowed, position]
  rw [one, swriteReplicas, found]
  dsimp only
  rw [if_pos (show (servers (g.server p 0)).error ≠ -1 from live), Int.toNat_natCast, written]
  rfl

private theorem swriteLoop_holds (opened : Opened g fd) (single : g.level = 0) (dense : offset ≤ reference.length)
    (inside : size ≤ buffer.length) : ∀ fuel count res servers, count < size → size < count + fuel →
      (∀ s, s < g.n → ¬servers.Failed s) →
      (∀ s, s < g.n → g.Holds s (servers s).file (pwrite reference offset (pread buffer 0 count))) →
      ∀ s, s < g.n → g.Holds s ((swriteLoop fd buffer size offset fuel count res servers).2 s).file
        (pwrite reference offset (pread buffer 0 size)) := by
  intro fuel
  induction fuel with
  | zero => omega
  | succ fuel ih =>
    intro count res servers more enough live holds s bound
    have moved := lSize_pos (p := offset + count) g.bs_pos (Nat.sub_pos_of_lt more)
    have within := lSize_le g.bs (offset + count) (size - count)
    have fits := lSize_piece g.bs_pos (offset + count) (size - count)
    rw [swriteLoop, opened.blockSize]
    generalize lSize g.bs (offset + count) (size - count) = piece at *
    have length : (pread buffer count piece).length = piece := by
      rw [length_pread]
      omega
    have here := g.server_lt (offset + count) 0
    rw [swriteReplicas_single opened single (live _ here), length]
    generalize after_eq : stored servers (g.server (offset + count) 0)
      (xpnHeaderSize + g.localOffset (offset + count) 0) (pread buffer count piece) = after
    have live' : ∀ s, s < g.n → ¬after.Failed s := by
      intro s bound
      subst after_eq
      unfold Servers.Failed stored
      split
      · exact live _ here
      · exact live s bound
    have holds' : ∀ s, s < g.n → g.Holds s (after s).file (pwrite reference offset (pread buffer 0 (count + piece))) := by
      intro s bound
      subst after_eq
      unfold stored
      split
      next same =>
        subst same
        exact (holds _ bound).next_piece dense (by omega) moved fits (Nat.zero_le _) rfl
      next different =>
        apply (holds s bound).other_piece dense (by omega) moved fits
        intro r copy same
        have first : r = 0 := by omega
        subst first
        exact different same.symm
    dsimp only
    rw [if_neg (by decide)]
    split
    next continues =>
      rw [Int.toNat_natCast]
      exact ih (count + piece) piece after (by omega) (by omega) live' holds' s bound
    next done =>
      have finished : size = count + piece := by omega
      rw [finished]
      exact holds' s bound

/-- A write without replication keeps the invariant. -/
theorem xpnSwrite_holds {c : Client} (opened : Opened g c.fd) (single : g.level = 0) (dense : offset ≤ reference.length)
    (some : 0 < size) (inside : size ≤ buffer.length) (live : ∀ s, s < g.n → ¬c.servers.Failed s)
    (holds : ∀ s, s < g.n → g.Holds s (c.servers s).file reference) {s : Nat} (bound : s < g.n) :
    g.Holds s ((xpnSwrite c buffer size offset).client.servers s).file (pwrite reference offset (pread buffer 0 size)) := by
  unfold xpnSwrite
  rw [if_neg (by rw [opened.servers]; exact g.n_pos.ne')]
  simp only [apply_ite Client.servers, advanceWrite_servers, ite_self]
  exact swriteLoop_holds opened single dense inside (size + 1) 0 (-1) c.servers some (by omega) live
    (by simpa using holds) s bound

private theorem swriteReplicas_error (fd : XpnFiledesc) (data : List Byte) (p : Nat) (copies : List Nat) (res : Int) (servers : Servers) (s : Nat) :
    ((swriteReplicas fd data p copies res servers).2.2 s).error = (servers s).error := by
  induction copies generalizing res servers with
  | nil => rfl
  | cons i rest ih =>
    rw [swriteReplicas]
    dsimp only
    split
    · split
      · rfl
      next written =>
        rw [ih]
        split
        next same => rw [nfiWrite_error written, same]
        next => rfl
    · exact ih _ _

private theorem swriteLoop_error (fuel count : Nat) (res : Int) (servers : Servers) (s : Nat) :
    ((swriteLoop fd buffer size offset fuel count res servers).2 s).error = (servers s).error := by
  induction fuel generalizing count res servers with
  | zero => rfl
  | succ fuel ih =>
    have piece := swriteReplicas_error fd (pread buffer count (lSize fd.blockSize (offset + count) (size - count)))
      (offset + count) (List.range (fd.part.replicationLevel + 1)) res servers s
    rw [swriteLoop]
    dsimp only
    split
    · exact piece
    · split
      · rw [ih]
        exact piece
      · exact piece

theorem xpnSwrite_error (c : Client) (s : Nat) :
    ((xpnSwrite c buffer size offset).client.servers s).error = (c.servers s).error := by
  unfold xpnSwrite
  split
  · rfl
  · simp only [apply_ite Client.servers, advanceWrite_servers, ite_self]
    exact swriteLoop_error _ _ _ _ _

end Xpn.Proofs
