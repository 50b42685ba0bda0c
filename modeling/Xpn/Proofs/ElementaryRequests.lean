import Mathlib.Tactic.IntervalCases
import Xpn.Proofs.Continuity
import Xpn.Proofs.OperationMatrix
import Xpn.Shrink

/-! What one elementary request touches. A request is cut at the blocks of the partition
and sent to the place of its first byte; the other bytes are in the same place only if the
metadata does not move to another block in between. -/

namespace Xpn.Proofs.ElementaryRequests
open Lib.ByteFile Continuity

/-! ### The requests of the sequential loops -/

/-- The requests that `sreadLoop` sends, in order. -/
def sreadRequests (c : Client) (size offset : Nat) : Nat → Nat → (Nat → Nat) → List (Int × NfiWorkerIo)
  | 0, _, _ => []
  | fuel + 1, count, rand =>
    let ((localOffset, serv), rand) := xpnReadGetBlock c.fd c.servers rand (offset + count) c.fd.part.localServ
    let op : NfiWorkerIo := ⟨localOffset, lSize c.fd.blockSize (offset + count) (size - count), count⟩
    (serv, op) ::
      match nfiRead (c.servers serv.toNat) (op.offset + xpnHeaderSize) op.size with
      | none => []
      | some data =>
        if count + data.length < size ∧ 0 < data.length then sreadRequests c size offset fuel (count + data.length) rand
        else []

def replicaRequests (fd : XpnFiledesc) (data : List Byte) (newOffset count size : Nat) : List Nat → Servers → List (Int × NfiWorkerIo)
  | [], _ => []
  | i :: rest, servers =>
    let ((localOffset, serv), error) := xpnWriteGetBlock fd servers newOffset i
    if error ≠ -1 then
      (serv, ⟨localOffset, size, count⟩) ::
        match nfiWrite (servers serv.toNat) data (localOffset + xpnHeaderSize) with
        | none => []
        | some server => replicaRequests fd data newOffset count size rest fun j => if j = serv.toNat then server else servers j
    else replicaRequests fd data newOffset count size rest servers

def swriteRequests (fd : XpnFiledesc) (buffer : List Byte) (size offset : Nat) : Nat → Nat → Int → Servers → List (Int × NfiWorkerIo)
  | 0, _, _, _ => []
  | fuel + 1, count, res, servers =>
    let l := lSize fd.blockSize (offset + count) (size - count)
    let copies := List.range (fd.part.replicationLevel + 1)
    let (failed, res, servers') := swriteReplicas fd (pread buffer count l) (offset + count) copies res servers
    replicaRequests fd (pread buffer count l) (offset + count) count l copies servers ++
      if failed then []
      else if (count : Int) + res < size ∧ 0 < res then swriteRequests fd buffer size offset fuel (count + res.toNat) res servers'
      else []

def applyRead (servers : Servers) (buffer : List Byte) : Int × NfiWorkerIo → List Byte
  | (serv, op) => ((nfiRead (servers serv.toNat) (op.offset + xpnHeaderSize) op.size).map (overwrite buffer op.buffer)).getD buffer

def applyWrite (buffer : List Byte) (servers : Servers) : Int × NfiWorkerIo → Servers
  | (serv, op) => match nfiWrite (servers serv.toNat) (pread buffer op.buffer op.size) (op.offset + xpnHeaderSize) with
    | none => servers
    | some server => fun j => if j = serv.toNat then server else servers j

/-- The loop reads nothing but these requests. -/
theorem sreadLoop_buffer (c : Client) (size offset : Nat) : ∀ fuel count (client : Client) buffer,
    (sreadLoop c size offset fuel count client buffer).buffer =
      (sreadRequests c size offset fuel count client.rand).foldl (applyRead c.servers) buffer
  | 0, _, _, _ => rfl
  | fuel + 1, count, client, buffer => by
    rw [sreadLoop, sreadRequests]
    dsimp only
    rw [List.foldl_cons]
    generalize xpnReadGetBlock c.fd c.servers client.rand (offset + count) c.fd.part.localServ = block
    simp only [applyRead]
    cases nfiRead (c.servers block.1.2.toNat) (block.1.1 + xpnHeaderSize) (lSize c.fd.blockSize (offset + count) (size - count)) with
    | none => rfl
    | some data =>
      dsimp only [Option.map_some, Option.getD_some]
      split
      · exact sreadLoop_buffer c size offset fuel (count + data.length) _ _
      · rfl

private theorem swriteReplicas_servers (fd : XpnFiledesc) (buffer : List Byte) (newOffset count size : Nat) : ∀ copies res servers,
    (swriteReplicas fd (pread buffer count size) newOffset copies res servers).2.2 =
      (replicaRequests fd (pread buffer count size) newOffset count size copies servers).foldl (applyWrite buffer) servers
  | [], _, _ => rfl
  | i :: rest, res, servers => by
    rw [swriteReplicas, replicaRequests]
    generalize xpnWriteGetBlock fd servers newOffset i = block
    obtain ⟨⟨localOffset, serv⟩, error⟩ := block
    dsimp only
    split
    · rw [List.foldl_cons, applyWrite]
      cases nfiWrite (servers serv.toNat) (pread buffer count size) (localOffset + xpnHeaderSize) with
      | none => rfl
      | some server => exact swriteReplicas_servers fd buffer newOffset count size rest _ _
    · exact swriteReplicas_servers fd buffer newOffset count size rest res servers

theorem swriteLoop_servers (fd : XpnFiledesc) (buffer : List Byte) (size offset : Nat) : ∀ fuel count res servers,
    (swriteLoop fd buffer size offset fuel count res servers).2 =
      (swriteRequests fd buffer size offset fuel count res servers).foldl (applyWrite buffer) servers
  | 0, _, _, _ => rfl
  | fuel + 1, count, res, servers => by
    rw [swriteLoop, swriteRequests]
    have copied := swriteReplicas_servers fd buffer (offset + count) count (lSize fd.blockSize (offset + count) (size - count))
      (List.range (fd.part.replicationLevel + 1)) res servers
    dsimp only
    rw [List.foldl_append, ← copied]
    generalize swriteReplicas fd (pread buffer count (lSize fd.blockSize (offset + count) (size - count))) (offset + count)
      (List.range (fd.part.replicationLevel + 1)) res servers = replicas
    obtain ⟨failed, res', servers'⟩ := replicas
    dsimp only
    split
    · rfl
    · split
      · exact swriteLoop_servers fd buffer size offset fuel _ _ _
      · rfl

/-! ### Places -/

/-- The copy `r` of the byte at `p` is at `local_` on server `serv`. -/
def PlacedAt (mdata : XpnMetadata) (serv local_ : Int) (p r : Nat) : Prop := xpnCalculateBlockMdata mdata p r = (local_, serv)

/-- The copy `r` of the byte at `p` is right behind the one of the byte before. -/
def Follows (mdata : XpnMetadata) (p r : Nat) : Prop :=
  PlacedAt mdata (xpnCalculateBlockMdata mdata (p - 1 : Nat) r).2 ((xpnCalculateBlockMdata mdata (p - 1 : Nat) r).1 + 1) p r

/-- The operations that the reads and writes of a descriptor emit, whatever the servers
answer and whichever of them have failed. -/
inductive Emitted (fd : XpnFiledesc) (size offset : Nat) : Int → NfiWorkerIo → Prop where
  | readRow (servers : Servers) (rand : Nat → Nat) (servClient : Int) {serv : Int} {op : NfiWorkerIo}
      (member : (serv, op) ∈ readEntries fd servers rand size offset servClient) : Emitted fd size offset serv op
  | writeRow (servers : Servers) {serv : Int} {op : NfiWorkerIo}
      (member : (serv, op) ∈ writeEntries fd servers size offset) : Emitted fd size offset serv op
  | sread (c : Client) (descriptor : c.fd = fd) {serv : Int} {op : NfiWorkerIo}
      (member : (serv, op) ∈ sreadRequests c size offset (size + 1) 0 c.rand) : Emitted fd size offset serv op
  | swrite (servers : Servers) (buffer : List Byte) (inside : size ≤ buffer.length) {serv : Int} {op : NfiWorkerIo}
      (member : (serv, op) ∈ swriteRequests fd buffer size offset (size + 1) 0 (-1) servers) : Emitted fd size offset serv op

/-- Every byte of the operation is where the placement puts it: its first byte is a copy
there, and behind such a copy are those of the other bytes. -/
def InBlock (fd : XpnFiledesc) (offset : Nat) (serv : Int) (op : NfiWorkerIo) : Prop :=
  InTable fd.part.dataNserv serv ∧ (∃ r, r ≤ fd.part.replicationLevel ∧ PlacedAt fd.mdata serv op.offset (offset + op.buffer) r) ∧
    ∀ r, r ≤ fd.part.replicationLevel → PlacedAt fd.mdata serv op.offset (offset + op.buffer) r →
      ∀ k, k < op.size → PlacedAt fd.mdata serv (op.offset + k) (offset + op.buffer + k) r

/-- A part of the request that does not reach over a block of the descriptor, sent to a
copy of its first byte. -/
structure Piece (fd : XpnFiledesc) (size offset : Nat) (serv : Int) (op : NfiWorkerIo) : Prop where
  inside : op.buffer < size
  length : op.size = lSize fd.blockSize (offset + op.buffer) (size - op.buffer)
  place : ∃ r, r ≤ fd.part.replicationLevel ∧ PlacedAt fd.mdata serv op.offset (offset + op.buffer) r

variable {fd : XpnFiledesc} {size offset : Nat}

/-! ### Every operation is a piece -/

private theorem piece_length {bs : Nat} : ∀ fuel count, ∀ piece ∈ requestPieces bs size offset fuel count,
    piece.2 = lSize bs (offset + piece.1) (size - piece.1)
  | 0, _, _, member => absurd member List.not_mem_nil
  | fuel + 1, count, piece, member => by
    rw [requestPieces] at member
    split at member
    · rcases List.mem_cons.mp member with rfl | later
      · rfl
      · exact piece_length fuel _ piece later
    · cases member

private theorem mem_copyEntries {servers : Servers} {p count l : Nat} {serv : Int} {op : NfiWorkerIo} :
    (serv, op) ∈ copyEntries fd servers p count l ↔ ∃ r, r ≤ fd.part.replicationLevel ∧
      PlacedAt fd.mdata serv op.offset p r ∧ op = ⟨op.offset, l, count⟩ := by
  simp only [copyEntries, List.mem_map, List.mem_range, Nat.lt_succ_iff, xpnWriteGetBlock, Prod.mk.injEq, PlacedAt]
  constructor
  · rintro ⟨r, copy, rfl, rfl⟩
    exact ⟨r, copy, rfl, rfl⟩
  · rintro ⟨r, copy, placed, shape⟩
    refine ⟨r, copy, congrArg Prod.snd placed, ?_⟩
    rw [shape, congrArg Prod.fst placed]

private theorem mem_writeEntries {servers : Servers} {serv : Int} {op : NfiWorkerIo} :
    (serv, op) ∈ writeEntries fd servers size offset ↔
      ∃ piece ∈ requestPieces fd.blockSize size offset size 0, ∃ r, r ≤ fd.part.replicationLevel ∧
        PlacedAt fd.mdata serv op.offset (offset + piece.1) r ∧ op = ⟨op.offset, piece.2, piece.1⟩ := by
  rw [writeEntries, writeEntries_pieces, List.mem_flatMap]
  exact exists_congr fun piece => and_congr_right fun _ => mem_copyEntries

private theorem writeRow_piece (servers : Servers) {serv : Int} {op : NfiWorkerIo}
    (member : (serv, op) ∈ writeEntries fd servers size offset) : Piece fd size offset serv op := by
  obtain ⟨piece, part, r, copy, placed, shape⟩ := mem_writeEntries.mp member
  have length := piece_length _ _ piece part
  have inside := (piece_inside part).1
  rw [shape] at placed ⊢
  exact ⟨inside, length, r, copy, placed⟩

private theorem readRow_piece {servers : Servers} {servClient : Int} : ∀ fuel count rand serv op,
    (serv, op) ∈ readEntriesLoop fd servers size offset servClient fuel count rand → Piece fd size offset serv op
  | 0, _, _, _, _, member => absurd member List.not_mem_nil
  | fuel + 1, count, rand, serv, op, member => by
    rw [readEntriesLoop] at member
    split at member
    next more =>
      obtain ⟨r, copy, found⟩ := xpnReadGetBlock_copy fd servers rand (offset + count) servClient
      rcases List.mem_cons.mp member with same | later
      · cases same
        exact ⟨more, rfl, r, copy, found.symm⟩
      · exact readRow_piece fuel _ _ serv op later
    next => cases member

private theorem sread_piece {c : Client} (descriptor : c.fd = fd) : ∀ fuel count rand, count < size → ∀ serv op,
    (serv, op) ∈ sreadRequests c size offset fuel count rand → Piece fd size offset serv op
  | 0, _, _, _, _, _, member => absurd member List.not_mem_nil
  | fuel + 1, count, rand, more, serv, op, member => by
    rw [sreadRequests] at member
    obtain ⟨r, copy, found⟩ := xpnReadGetBlock_copy c.fd c.servers rand (offset + count) c.fd.part.localServ
    dsimp only at member
    rcases List.mem_cons.mp member with same | later
    · cases same
      subst descriptor
      exact ⟨more, rfl, r, copy, found.symm⟩
    · split at later
      · cases later
      · split at later
        next continues => exact sread_piece descriptor fuel _ _ continues.1 serv op later
        next => cases later

private theorem replica_piece {data : List Byte} {newOffset count l : Nat} (op : NfiWorkerIo) (serv : Int) : ∀ copies servers,
    (∀ j ∈ copies, j ≤ fd.part.replicationLevel) → (serv, op) ∈ replicaRequests fd data newOffset count l copies servers →
      ∃ r, r ≤ fd.part.replicationLevel ∧ PlacedAt fd.mdata serv op.offset newOffset r ∧ op = ⟨op.offset, l, count⟩
  | [], _, _, member => absurd member List.not_mem_nil
  | j :: rest, servers, copies, member => by
    have others : ∀ k ∈ rest, k ≤ fd.part.replicationLevel := fun k inside => copies k (List.mem_cons_of_mem _ inside)
    rw [replicaRequests, xpnWriteGetBlock] at member
    dsimp only at member
    split at member
    · rcases List.mem_cons.mp member with same | later
      · cases same
        exact ⟨j, copies j List.mem_cons_self, rfl, rfl⟩
      · split at later
        · cases later
        · exact replica_piece op serv rest _ others later
    · exact replica_piece op serv rest servers others member

private theorem swrite_piece {buffer : List Byte} : ∀ fuel count res servers, count < size → ∀ serv op,
    (serv, op) ∈ swriteRequests fd buffer size offset fuel count res servers → Piece fd size offset serv op
  | 0, _, _, _, _, _, _, member => absurd member List.not_mem_nil
  | fuel + 1, count, res, servers, more, serv, op, member => by
    rw [swriteRequests] at member
    dsimp only at member
    rcases List.mem_append.mp member with here | later
    · have copies : ∀ j ∈ List.range (fd.part.replicationLevel + 1), j ≤ fd.part.replicationLevel :=
        fun j inside => Nat.le_of_lt_succ (List.mem_range.mp inside)
      obtain ⟨r, copy, placed, shape⟩ := replica_piece op serv _ _ copies here
      rw [shape] at placed ⊢
      exact ⟨more, rfl, r, copy, placed⟩
    · split at later
      · cases later
      · split at later
        next continues => exact swrite_piece fuel _ _ _ (by omega) serv op later
        next => cases later

/-- All four sources emit nothing but pieces of the request. -/
theorem emitted_piece (some : 0 < size) {serv : Int} {op : NfiWorkerIo}
    (emitted : Emitted fd size offset serv op) : Piece fd size offset serv op := by
  cases emitted with
  | readRow servers rand servClient member => exact readRow_piece size 0 rand serv op member
  | writeRow servers member => exact writeRow_piece servers member
  | sread c descriptor member => exact sread_piece descriptor _ _ _ some serv op member
  | swrite servers buffer inside member => exact swrite_piece _ _ _ _ some serv op member

private theorem lSize_spread {bs p left k : Nat} (blocks : 0 < bs) (later : 0 < k) (inside : k < lSize bs p left) : ¬bs ∣ p + k := by
  intro divides
  have fits := lSize_piece blocks p left
  have shape : (p + k) % bs = p % bs + k := by
    rw [Nat.add_mod, Nat.mod_eq_of_lt (by omega : k < bs), Nat.mod_eq_of_lt (by omega)]
  rw [Nat.dvd_iff_mod_eq_zero, shape] at divides
  omega

private theorem pieces_cover {bs : Nat} (blocks : 0 < bs) (offset : Nat) {q : Nat} (inside : q < size) : ∀ fuel count, size ≤ count + fuel → count ≤ q →
    ∃ piece ∈ requestPieces bs size offset fuel count, piece.1 ≤ q ∧ q < piece.1 + piece.2
  | 0, _, enough, before => by omega
  | fuel + 1, count, enough, before => by
    have moved := lSize_pos (p := offset + count) blocks (by omega : 0 < size - count)
    rw [requestPieces, if_pos (by omega)]
    rcases Nat.lt_or_ge q (count + lSize bs (offset + count) (size - count)) with here | later
    · exact ⟨_, List.mem_cons_self, before, here⟩
    · obtain ⟨piece, member, covers⟩ := pieces_cover blocks offset inside fuel _ (by omega) later
      exact ⟨piece, List.mem_cons_of_mem _ member, covers⟩

/-- A write has an operation for each copy of each byte. It starts with the request or with a block
of the descriptor. -/
private theorem writeRow_covers (blocks : 0 < fd.blockSize) (servers : Servers) (offset : Nat) {q : Nat} (inside : q < size) {r : Nat}
    (copy : r ≤ fd.part.replicationLevel) :
    ∃ serv op, (serv, op) ∈ writeEntries fd servers size offset ∧ PlacedAt fd.mdata serv op.offset (offset + op.buffer) r ∧
      op.buffer ≤ q ∧ q < op.buffer + op.size ∧ (op.buffer = 0 ∨ fd.blockSize ∣ offset + op.buffer) := by
  obtain ⟨piece, part, low, high⟩ := pieces_cover blocks offset inside size 0 (Nat.le_add_left _ _) (Nat.zero_le q)
  have start := (piece_starts blocks (Nat.le_add_left _ _) piece.1).mp ⟨piece, part, rfl⟩
  refine ⟨_, ⟨(xpnCalculateBlockMdata fd.mdata (offset + piece.1 : Nat) r).1, piece.2, piece.1⟩,
    mem_writeEntries.mpr ⟨piece, part, r, copy, rfl, rfl⟩, rfl, low, high, ?_⟩
  exact start.2.imp_right And.right

/-- The operations stay in place exactly where the copies of the bytes that they join
follow one another on servers of the partition. -/
private theorem emitted_iff (blocks : 0 < fd.blockSize) (some : 0 < size) :
    (∀ serv op, Emitted fd size offset serv op → InBlock fd offset serv op) ↔
      (∀ p, offset ≤ p → p < offset + size → ∀ r, r ≤ fd.part.replicationLevel →
        InTable fd.part.dataNserv (xpnCalculateBlockMdata fd.mdata p r).2) ∧
      ∀ p, offset < p → p < offset + size → ¬fd.blockSize ∣ p → ∀ r, r ≤ fd.part.replicationLevel → Follows fd.mdata p r := by
  constructor
  · intro inBlock
    constructor
    · intro p after before r copy
      obtain ⟨serv, op, member, placed, above, below, -⟩ :=
        writeRow_covers blocks (fun _ => ⟨[], 0⟩) offset (by omega : p - offset < size) copy
      obtain ⟨known, -, bytes⟩ := inBlock serv op (.writeRow _ member)
      have here := bytes r copy placed (p - offset - op.buffer) (by omega)
      rw [show offset + op.buffer + (p - offset - op.buffer) = p by omega] at here
      rwa [here]
    · intro p after before inner r copy
      obtain ⟨serv, op, member, placed, above, below, start⟩ :=
        writeRow_covers blocks (fun _ => ⟨[], 0⟩) offset (by omega : p - offset < size) copy
      have strictly : op.buffer < p - offset := by
        rcases Nat.lt_or_eq_of_le above with less | same
        · exact less
        · rcases start with first | boundary
          · omega
          · rw [same, Nat.add_sub_of_le after.le] at boundary
            exact absurd boundary inner
      have bytes := (inBlock serv op (.writeRow _ member)).2.2 r copy placed
      have previous := bytes (p - 1 - offset - op.buffer) (by omega)
      have here := bytes (p - offset - op.buffer) (by omega)
      rw [show offset + op.buffer + (p - 1 - offset - op.buffer) = p - 1 by omega, PlacedAt] at previous
      rw [show offset + op.buffer + (p - offset - op.buffer) = p by omega, PlacedAt] at here
      rw [Follows, previous, PlacedAt, here]
      exact Prod.ext (by dsimp only; omega) rfl
  · rintro ⟨known, follows⟩ serv op emitted
    have piece := emitted_piece some emitted
    have inside := piece.inside
    refine ⟨?_, piece.place, fun r copy placed => ?_⟩
    · obtain ⟨r, copy, placed⟩ := piece.place
      have server := known (offset + op.buffer) (by omega) (by omega) r copy
      rwa [placed] at server
    · intro k
      induction k with
      | zero =>
        intro _
        rw [Nat.add_zero, Nat.cast_zero, Int.add_zero]
        exact placed
      | succ k ih =>
        intro below
        have previous := ih (by omega)
        have within := lSize_le fd.blockSize (offset + op.buffer) (size - op.buffer)
        have length := piece.length
        have inner : ¬fd.blockSize ∣ offset + op.buffer + (k + 1) :=
          lSize_spread blocks (Nat.succ_pos k) (length ▸ below)
        have next := follows (offset + op.buffer + (k + 1)) (by omega) (by omega) inner r copy
        rw [PlacedAt] at previous
        rw [Follows, show offset + op.buffer + (k + 1) - 1 = offset + op.buffer + k by omega, previous, PlacedAt] at next
        rw [PlacedAt, next]
        exact Prod.ext (by dsimp only; push_cast; omega) rfl

/-! ### The metadata of a descriptor -/

/-- Metadata as the servers store it: created, with any size, expanded, and after the
removal of a server that is not the last. -/
inductive Stored : XpnMetadata → Prop where
  | created (path : Path) {n bs : Int} (level : Int) (servers : 0 < n) (blocks : 0 < bs) :
      Stored (xpnCreateMetadataExtern path n bs level)
  | resized {mdata : XpnMetadata} (stored : Stored mdata) (fileSize : Int) : Stored { mdata with fileSize }
  | expanded {mdata after : XpnMetadata} {size : Int} (stored : Stored mdata) (servers : 0 < size)
      (done : XpnExpand.copy mdata size = some after) : Stored after
  | shrunk {mdata after : XpnMetadata} {i : Nat} {actualLastBlock server last : Int} (stored : Stored mdata)
      (free : mdata.nserv i = 0) (first : 0 < i ∧ mdata.nserv (i - 1) ≠ 0) (room : i + 1 < maxReconstructions) (ranked : 0 ≤ server)
      (stays : 1 < if mdata.nserv (i - 1) < 0 then mdata.nserv (i - 2) else mdata.nserv (i - 1))
      (done : XpnShrink.removeServer toCInt mdata i actualLastBlock server = (after, last)) : Stored after

variable {mdata after : XpnMetadata} {i : Nat}

private theorem history_append (history : History mdata) (stop : Nat) (some : 0 < i) (free : mdata.nserv i = 0) (first : mdata.nserv (i - 1) ≠ 0)
    (blockSize : after.blockSize = mdata.blockSize) (kept : ∀ j, j < i → after.nserv j = mdata.nserv j ∧ after.offs j = mdata.offs j)
    (used : ∀ j, i ≤ j → j < stop → after.nserv j ≠ 0) (unused : ∀ j, stop ≤ j → after.nserv j = 0 ∧ after.offs j = 0)
    (shrinks : ∀ j, i ≤ j → after.nserv j < 0 → 0 < after.nserv (j + 1)) : History after := by
  have full : ∀ j, j < i → after.nserv j ≠ 0 := by
    intro j below
    rw [(kept j below).1]
    intro zero
    exact first (history.servers_end j (i - 1) (by omega) zero)
  have past : ∀ j, after.nserv j = 0 → stop ≤ j := by
    intro j zero
    by_contra before
    rcases Nat.lt_or_ge j i with below | above
    · exact full j below zero
    · exact used j above (by omega) zero
  refine ⟨?_, ?_, ?_, ?_, ?_, ?_⟩
  · rw [blockSize]
    exact history.blockSize
  · rw [(kept 0 some).1]
    exact history.servers
  · rw [(kept 0 some).2]
    exact history.start
  · intro j negative
    rcases Nat.lt_or_ge j i with below | above
    · rw [(kept j below).1] at negative
      have next := history.shrinks j negative
      have inside : j + 1 < i := by
        by_contra outside
        rw [show j + 1 = i by omega] at next
        omega
      rw [(kept (j + 1) inside).1]
      exact next
    · exact shrinks j above negative
  · intro j k order zero
    exact (unused k (le_trans (past j zero) order)).1
  · intro j zero
    exact (unused j (past j zero)).2

theorem get_set (entries : Vector Int maxReconstructions) {i : Nat} (inside : i < maxReconstructions) (value : Int) (j : Nat) :
    (entries.setIfInBounds i value)[j]?.getD 0 = if j = i then value else entries[j]?.getD 0 := by
  rw [Vector.getElem?_setIfInBounds]
  by_cases same : i = j
  · rw [if_pos same, if_pos same.symm, if_pos (same ▸ inside)]
    rfl
  · rw [if_neg same, if_neg (fun equal => same equal.symm)]

private theorem get_zero (j : Nat) : (Vector.replicate maxReconstructions (0 : Int))[j]?.getD 0 = 0 := by
  rw [Vector.getElem?_replicate]
  split
  · rfl
  · rfl

private theorem freeEntry_first (history : History mdata) (found : XpnExpand.freeEntry mdata = some i) :
    0 < i ∧ i < maxReconstructions ∧ mdata.nserv i = 0 ∧ mdata.nserv (i - 1) ≠ 0 := by
  obtain ⟨fits, member, earlier⟩ := List.find?_range_eq_some.mp found
  rw [Bool.and_eq_true, decide_eq_true_eq, beq_iff_eq] at fits
  refine ⟨fits.1, List.mem_range.mp member, fits.2, ?_⟩
  rcases Nat.eq_zero_or_pos (i - 1) with start | later
  · rw [start]
    exact history.servers.ne'
  · have taken := earlier (i - 1) (by omega)
    intro zero
    rw [zero, decide_eq_true (show 1 ≤ i - 1 from later)] at taken
    cases taken

theorem Stored.history (stored : Stored mdata) : History mdata := by
  induction stored with
  | @created path n bs level servers blocks =>
    have entry : ∀ j, (xpnCreateMetadataExtern path n bs level).nserv j = if j = 0 then n else 0 := by
      intro j
      rw [← get_zero j]
      exact get_set _ (by decide) n j
    have limit : ∀ j, (xpnCreateMetadataExtern path n bs level).offs j = 0 := get_zero
    refine ⟨blocks, ?_, limit 0, fun j negative => ?_, fun j k order zero => ?_, fun j _ => limit j⟩
    · rw [entry, if_pos rfl]
      exact servers
    · rw [entry] at negative
      split at negative
      · omega
      · cases negative
    · rw [entry] at zero ⊢
      split at zero
      · omega
      · rw [if_neg (by omega)]
  | resized _ fileSize history =>
    exact ⟨history.blockSize, history.servers, history.start, history.shrinks, history.servers_end, history.limits_end⟩
  | @expanded mdata after size _ servers done history =>
    rw [XpnExpand.copy] at done
    split at done
    · split at done
      · cases done
        exact history
      next i found =>
        obtain ⟨some, inside, free, first⟩ := freeEntry_first history found
        cases done
        generalize XpnExpand.limitActualBlocks mdata.fileSize mdata.blockSize (mdata.nserv (i - 1)) = limit
        have entry := get_set mdata.dataNserv inside size
        have limits := get_set mdata.offsets inside limit
        refine history_append history (i + 1) some free first ?_ ?_ ?_ ?_ ?_
        · rfl
        · intro j below
          exact ⟨(entry j).trans (if_neg (by omega)), (limits j).trans (if_neg (by omega))⟩
        · intro j above below
          exact ne_of_eq_of_ne ((entry j).trans (if_pos (by omega))) servers.ne'
        · intro j past
          have last := history.servers_end i j (by omega) free
          exact ⟨((entry j).trans (if_neg (by omega))).trans last,
            ((limits j).trans (if_neg (by omega))).trans (history.limits_end j last)⟩
        · intro j above negative
          have value := entry j
          by_cases here : j = i
          · rw [if_pos here] at value
            exact absurd (lt_of_eq_of_lt value.symm negative) (not_lt.mpr servers.le)
          · rw [if_neg here] at value
            exact absurd (lt_of_eq_of_lt (value.trans (history.servers_end i j above free)).symm negative) (lt_irrefl _)
    · cases done
  | @shrunk mdata after i actualLastBlock server last _ free first room ranked stays done history =>
    simp only [XpnShrink.removeServer] at done
    generalize (if mdata.nserv (i - 1) < 0 then mdata.nserv (i - 2) else mdata.nserv (i - 1)) = prevNserv at stays done
    cases done
    have entry : ∀ j, ((mdata.dataNserv.setIfInBounds i ((server + 1) * -1)).setIfInBounds (i + 1) (prevNserv - 1))[j]?.getD 0 =
        if j = i + 1 then prevNserv - 1 else if j = i then (server + 1) * -1 else mdata.nserv j := by
      intro j
      rw [get_set _ room, get_set _ (Nat.lt_of_succ_lt room)]
      rfl
    have limits := fun value value' j => (get_set (mdata.offsets.setIfInBounds i value) room value' j).trans
      (congrArg (fun other => if j = i + 1 then value' else other) (get_set mdata.offsets (Nat.lt_of_succ_lt room) value j))
    have behind : ∀ j, i ≤ j → mdata.nserv j = 0 := fun j above => history.servers_end i j above free
    refine history_append history (i + 2) first.1 free first.2 ?_ ?_ ?_ ?_ ?_
    · rfl
    · intro j below
      refine ⟨(entry j).trans ?_, (limits _ _ j).trans ?_⟩
      · rw [if_neg (by omega), if_neg (by omega)]
      · rw [if_neg (by omega), if_neg (by omega)]
        rfl
    · intro j above below
      apply ne_of_eq_of_ne (entry j)
      by_cases last : j = i + 1
      · rw [if_pos last]
        omega
      · rw [if_neg last, if_pos (by omega)]
        omega
    · intro j past
      refine ⟨(entry j).trans ?_, (limits _ _ j).trans ?_⟩
      · rw [if_neg (by omega), if_neg (by omega)]
        exact behind j (by omega)
      · rw [if_neg (by omega), if_neg (by omega)]
        exact history.limits_end j (behind j (by omega))
    · intro j above negative
      have value := entry j
      have next := entry (j + 1)
      by_cases here : j = i
      · rw [if_pos (by omega)] at next
        exact lt_of_lt_of_eq (by omega) next.symm
      · have nonneg : 0 ≤ (if j = i + 1 then prevNserv - 1 else if j = i then (server + 1) * -1 else mdata.nserv j) := by
          rw [if_neg here, behind j above]
          split
          · omega
          · exact le_rfl
        exact absurd (lt_of_eq_of_lt value.symm negative) (not_lt.mpr nonneg)

/-! ### Main result -/

/-- All bytes of every operation are where the placement puts them, on a server of the partition,
exactly when the copies of all bytes of the request are on such servers and it is so at the edges
of the blocks of the metadata: behind or before such an edge that is inside a block of the
descriptor, the copies of neighbours follow one another. -/
theorem requests_in_block_iff {fd : XpnFiledesc} {size offset : Nat} (stored : Stored fd.mdata) (blocks : 0 < fd.blockSize)
    (some : 0 < size) : (∀ serv op, Emitted fd size offset serv op → InBlock fd offset serv op) ↔
      (∀ p : Nat, offset ≤ p → p < offset + size → ∀ r : Nat, r ≤ fd.part.replicationLevel →
        InTable fd.part.dataNserv (xpnCalculateBlockMdata fd.mdata p r).2) ∧
      ∀ p : Nat, offset < p → p < offset + size → ¬fd.blockSize ∣ p → fd.mdata.blockSize ∣ p ∨ fd.mdata.blockSize ∣ (p : Int) - 1 →
        ∀ r, r ≤ fd.part.replicationLevel → Follows fd.mdata p r := by
  rw [emitted_iff blocks some]
  refine and_congr_right fun _ => ⟨fun follows p after before inner _ => follows p after before inner, ?_⟩
  intro edges p after before inner r copy
  by_cases edge : fd.mdata.blockSize ∣ p ∨ fd.mdata.blockSize ∣ (p : Int) - 1
  · exact edges p after before inner edge r copy
  · rw [not_or] at edge
    have previous : ((p - 1 : Nat) : Int) = (p : Int) - 1 := by omega
    have next := calculate_next stored.history (o := (p : Int) - 1) (by omega) r edge.2 (by rw [Int.sub_add_cancel]; exact edge.1)
    rw [Int.sub_add_cancel, ← previous] at next
    rw [Follows, PlacedAt, next]

private def descriptor (partitionBlock metadataBlock level : Nat) : XpnFiledesc :=
  ⟨0, 0, ⟨2, partitionBlock, level, -1⟩, xpnCreateMetadataExtern [] 2 metadataBlock level, 0, partitionBlock⟩

/-- The partition has larger blocks than the file: the write of four bytes goes to one
server as a whole, and the third byte belongs on the other. -/
theorem request_leaves_block : Stored (descriptor 4 2 0).mdata ∧
    ¬∀ serv op, Emitted (descriptor 4 2 0) 4 0 serv op → InBlock (descriptor 4 2 0) 0 serv op := by
  refine ⟨.created [] 0 (by decide) (by decide), fun inBlock => ?_⟩
  have member : (0, (⟨0, 4, 0⟩ : NfiWorkerIo)) ∈ writeEntries (descriptor 4 2 0) (fun _ => ⟨[], 0⟩) 4 0 := by decide
  have third := (inBlock 0 ⟨0, 4, 0⟩ (.writeRow _ member)).2.2 0 (Nat.le_refl 0) rfl 2 (by decide)
  exact absurd (congrArg Prod.snd third) (by decide)

/-- The partition has the smaller blocks: two copies of nine bytes from the middle of a block on. -/
theorem smaller_blocks_request : Emitted (descriptor 2 4 1) 9 1 1 ⟨8, 2, 7⟩ ∧
    ∀ serv op, Emitted (descriptor 2 4 1) 9 1 serv op → InBlock (descriptor 2 4 1) 1 serv op := by
  refine ⟨.writeRow (fun _ => ⟨[], 0⟩) (by decide),
    (requests_in_block_iff (.created [] 1 (by decide) (by decide)) (by decide) (by decide)).mpr ⟨?_, ?_⟩⟩
  · intro p after before r copy
    have copy : r ≤ 1 := copy
    interval_cases p <;> interval_cases r <;> exact ⟨by decide, by decide⟩
  · intro p after before inner _ r copy
    have copy : r ≤ 1 := copy
    interval_cases p <;> interval_cases r <;> first | exact absurd inner (by decide) | exact rfl

end Xpn.Proofs.ElementaryRequests
