import Xpn.Proofs.WritePath

/-! Reads deliver the bytes of the logical file. Every operation fetches from a
live copy, so it brings the bytes of the logical file at its position; together
the operations cover the request. A grouped read fetches whole rows into one
buffer and hands the pieces out afterwards. -/

namespace Xpn.Proofs
open Lib.ByteFile

variable {g : Layout} {fd : XpnFiledesc} {servers : Servers} {size offset : Nat} {buffer reference : List Byte}

private theorem retryBlock_spec (opened : Opened g fd) (servers : Servers) (p : Nat) : ∀ fuel replication, replication ≤ g.level →
    ∃ r, r ≤ g.level ∧ retryBlock fd servers p (fuel + 1) replication = ((g.localOffset p r : Int), (g.server p r : Int)) ∧
      (servers.Failed (g.server p r) →
        ∀ k, k ≤ fuel → servers.Failed (g.server p ((replication + k) % (g.level + 1)))) := by
  intro fuel
  induction fuel with
  | zero =>
    intro replication copy
    refine ⟨replication, copy, ?_, ?_⟩
    · rw [retryBlock, opened.describes.calculate]
      dsimp only
      rw [if_neg (by simp)]
    · intro failed k bound
      rwa [Nat.le_zero.mp bound, Nat.add_zero, Nat.mod_eq_of_lt (by omega)]
  | succ fuel ih =>
    intro replication copy
    rw [retryBlock, opened.describes.calculate, Int.toNat_natCast, opened.level]
    split
    next failed =>
      have next : (if g.level ≠ 0 then (replication + 1) % (g.level + 1) else replication) =
          (replication + 1) % (g.level + 1) := by
        split
        · rfl
        · rw [show g.level = 0 by omega] at copy ⊢
          omega
      rw [next]
      obtain ⟨r, copy', found, all⟩ := ih ((replication + 1) % (g.level + 1))
        (Nat.le_of_lt_succ (Nat.mod_lt _ (Nat.succ_pos _)))
      refine ⟨r, copy', found, fun failed' k bound => ?_⟩
      rcases k with - | k
      · rw [Nat.add_zero, Nat.mod_eq_of_lt (by omega)]
        exact failed.1
      · have later := all failed' k (by omega)
        rwa [Nat.mod_add_mod, Nat.add_assoc, Nat.add_comm 1 k] at later
    next stops =>
      refine ⟨replication, copy, rfl, fun failed => ?_⟩
      exact absurd ⟨failed, Nat.succ_ne_zero fuel⟩ stops

/-- A copy on the client's own server, as a read finds it. -/
def Own (g : Layout) (servers : Servers) (own : Int) (p r : Nat) : Prop := (g.server p r : Int) = own ∧ ¬servers.Failed (g.server p r)

theorem localBlock_spec (opened : Opened g fd) (servers : Servers) (p : Nat) (servClient : Int) :
    ∀ fuel replication, replication + fuel = g.level + 1 →
      match localBlock fd servers p servClient fuel replication with
      | some found => ∃ r, r ≤ g.level ∧ found = ((g.localOffset p r : Int), (g.server p r : Int)) ∧ Own g servers servClient p r
      | none => ∀ r, replication ≤ r → r ≤ g.level → ¬Own g servers servClient p r := by
  intro fuel
  induction fuel with
  | zero => exact fun replication bound r above below => by omega
  | succ fuel ih =>
    intro replication bound
    rw [localBlock, opened.describes.calculate]
    dsimp only
    by_cases own : Own g servers servClient p replication
    · rw [if_pos (by simpa [Own] using own)]
      exact ⟨replication, by omega, rfl, own⟩
    · rw [if_neg (by simpa [Own] using own)]
      have later := ih (replication + 1) (by omega)
      split
      next found hit =>
        rw [hit] at later
        exact later
      next missed =>
        rw [missed] at later
        intro r above below
        rcases Nat.eq_or_lt_of_le above with rfl | after
        · exact own
        · exact later r after below

/-- The copies of a byte that a read may go to: the one on the client's own server, or any when there is
none. -/
def Readable (g : Layout) (servers : Servers) (own : Int) (p r : Nat) : Prop :=
  r ≤ g.level ∧ ∀ r', r' ≤ g.level → Own g servers own p r' → r' = r

/-- A read goes to such a copy, and to a failed server only when every copy is on one. -/
theorem xpnReadGetBlock_readable (opened : Opened g fd) (servers : Servers) (rand : Nat → Nat) (p : Nat) (servClient : Int) :
    ∃ r, Readable g servers servClient p r ∧ (xpnReadGetBlock fd servers rand p servClient).1 =
        ((g.localOffset p r : Int), (g.server p r : Int)) ∧
      (servers.Failed (g.server p r) → ∀ r', r' ≤ g.level → servers.Failed (g.server p r')) := by
  have tried : ∀ start, start ≤ g.level → ∃ r, r ≤ g.level ∧
      retryBlock fd servers p (g.level + 1) start = ((g.localOffset p r : Int), (g.server p r : Int)) ∧
      (servers.Failed (g.server p r) → ∀ r', r' ≤ g.level → servers.Failed (g.server p r')) := by
    intro start copy
    obtain ⟨r, copy', found, all⟩ := retryBlock_spec opened servers p g.level start copy
    refine ⟨r, copy', found, fun failed r' bound => ?_⟩
    -- `r'` is tried after `r' - start` steps around the copies.
    rcases Nat.lt_or_ge r' start with before | after
    · have hit := all failed (r' + (g.level + 1) - start) (by omega)
      rwa [show start + (r' + (g.level + 1) - start) = r' + (g.level + 1) by omega, Nat.add_mod_right,
        Nat.mod_eq_of_lt (by omega)] at hit
    · have hit := all failed (r' - start) (by omega)
      rwa [show start + (r' - start) = r' by omega, Nat.mod_eq_of_lt (by omega)] at hit
  have nowhere : servClient = -1 → ∀ r, ¬Own g servers servClient p r := by
    rintro rfl r ⟨here, -⟩
    omega
  have found := localBlock_spec opened servers p servClient (g.level + 1) 0 (by omega)
  unfold xpnReadGetBlock
  rw [opened.level]
  dsimp only
  split
  next block own =>
    split at own
    · rw [own] at found
      obtain ⟨r, copy, same, here⟩ := found
      refine ⟨r, ⟨copy, fun r' copy' here' => ?_⟩, same, fun failed => absurd failed here.2⟩
      exact g.copies_apart copy' copy (Int.ofNat_inj.mp (here'.1.trans here.1.symm))
    · cases own
  next none =>
    have elsewhere : ∀ r, r ≤ g.level → ¬Own g servers servClient p r := by
      split at none
      next =>
        rw [none] at found
        exact fun r copy => found r (Nat.zero_le r) copy
      next nobody => exact fun r _ => nowhere (not_not.mp nobody) r
    have readable : ∀ r, r ≤ g.level → Readable g servers servClient p r :=
      fun r copy => ⟨copy, fun r' copy' here => absurd here (elsewhere r' copy')⟩
    split
    · exact (tried _ (Nat.le_of_lt_succ (Nat.mod_lt _ (Nat.succ_pos _)))).imp fun r spec => ⟨readable r spec.1, spec.2⟩
    · exact (tried 0 (Nat.zero_le _)).imp fun r spec => ⟨readable r spec.1, spec.2⟩

theorem xpnReadGetBlock_spec (opened : Opened g fd) (servers : Servers) (rand : Nat → Nat) (p : Nat) (servClient : Int) :
    ∃ r, r ≤ g.level ∧ (xpnReadGetBlock fd servers rand p servClient).1 =
        ((g.localOffset p r : Int), (g.server p r : Int)) ∧
      (servers.Failed (g.server p r) → ∀ r', r' ≤ g.level → servers.Failed (g.server p r')) :=
  (xpnReadGetBlock_readable opened servers rand p servClient).imp fun _ spec => ⟨spec.1.1, spec.2⟩

theorem xpnReadGetBlock_rand (opened : Opened g fd) (single : g.level = 0) (rand : Nat → Nat) (p : Nat)
    (servClient : Int) : (xpnReadGetBlock fd servers rand p servClient).2 = rand := by
  unfold xpnReadGetBlock
  rw [opened.level, single]
  dsimp only
  split
  · rfl
  · rw [if_neg (by simp)]

/-- Every block has a copy on a live server, and the live servers hold the file. -/
structure Served (g : Layout) (servers : Servers) (reference : List Byte) : Prop where
  covered : ∀ p, ∃ r, r ≤ g.level ∧ ¬servers.Failed (g.server p r)
  holds : ∀ s, s < g.n → ¬servers.Failed s → g.Holds s (servers s).file reference

/-- The same of a request: every byte of it has a live copy, and the live copies that a read may go to
are those of the file, none where the file has ended. -/
structure ServedRange (g : Layout) (servers : Servers) (own : Int) (reference : List Byte) (offset size : Nat) : Prop where
  covered : ∀ k, k < size → ∃ r, r ≤ g.level ∧ ¬servers.Failed (g.server (offset + k) r)
  holds : ∀ k r, k < size → Readable g servers own (offset + k) r → ¬servers.Failed (g.server (offset + k) r) →
    (servers (g.server (offset + k) r)).file[xpnHeaderSize + g.localOffset (offset + k) r]? = reference[offset + k]?

theorem Served.range (served : Served g servers reference) (own : Int) (offset size : Nat) :
    ServedRange g servers own reference offset size where
  covered k _ := served.covered (offset + k)
  holds _ r _ readable live := served.holds _ (g.server_lt _ _) live _ r readable.1 rfl

theorem Readable.add {own : Int} {p r i : Nat} (readable : Readable g servers own p r) (inBlock : p % g.bs + i < g.bs) :
    Readable g servers own (p + i) r :=
  ⟨readable.1, fun r' copy own => readable.2 r' copy (by rwa [Own, Layout.server_add inBlock] at own)⟩

def fetched (servers : Servers) (s : Nat) (op : NfiWorkerIo) : List Byte :=
  pread (servers s).file (op.offset + (xpnHeaderSize : Int)).toNat op.size

/-- An operation that brings the bytes its place in the request asks for. -/
structure Fetches (servers : Servers) (reference : List Byte) (offset count s : Nat) (op : NfiWorkerIo) : Prop where
  live : ¬servers.Failed s
  place : 0 ≤ op.offset
  bound : op.buffer + op.size ≤ count
  bytes : fetched servers s op = pread reference (offset + op.buffer) op.size

theorem fetches_block (opened : Opened g fd) {servClient : Int} (served : ServedRange g servers servClient reference offset size)
    (rand : Nat → Nat) {count left : Nat} (more : count < size) (rest : count + left ≤ size) :
    (xpnReadGetBlock fd servers rand (offset + count) servClient).1.2.toNat < g.n ∧
      Fetches servers reference offset (count + lSize g.bs (offset + count) left)
        (xpnReadGetBlock fd servers rand (offset + count) servClient).1.2.toNat
        ⟨(xpnReadGetBlock fd servers rand (offset + count) servClient).1.1, lSize g.bs (offset + count) left, count⟩ := by
  obtain ⟨r, copy, found, all⟩ := xpnReadGetBlock_readable opened servers rand (offset + count) servClient
  have live : ¬servers.Failed (g.server (offset + count) r) := by
    intro failed
    obtain ⟨r', copy', live'⟩ := served.covered count more
    exact live' (all failed r' copy')
  rw [found, Int.toNat_natCast]
  refine ⟨g.server_lt _ _, live, Int.natCast_nonneg _, le_rfl, ?_⟩
  have position : ((g.localOffset (offset + count) r : Int) + (xpnHeaderSize : Int)).toNat =
      xpnHeaderSize + g.localOffset (offset + count) r := by omega
  unfold fetched
  dsimp only
  rw [position]
  apply pread_congr
  intro i bound
  have fits := lSize_piece g.bs_pos (offset + count) left
  have within := lSize_le g.bs (offset + count) left
  have inBlock : (offset + count) % g.bs + i < g.bs := by omega
  have server := Layout.server_add inBlock r
  have readable : Readable g servers servClient (offset + (count + i)) r := by
    rw [← Nat.add_assoc]
    exact copy.add inBlock
  have here := served.holds (count + i) r (by omega) readable (by rwa [← Nat.add_assoc, server])
  rw [← Nat.add_assoc, server, Layout.localOffset_add inBlock, ← Nat.add_assoc] at here
  exact here

def total (weight : Nat → NfiWorkerIo → Nat) (io : IoMatrix) (n : Nat) : Nat :=
  ((List.range n).map fun s => ((io s).map (weight s)).sum).sum

theorem total_succ (weight : Nat → NfiWorkerIo → Nat) (io : IoMatrix) (n : Nat) :
    total weight io (n + 1) = total weight io n + ((io n).map (weight n)).sum := by
  simp [total, List.range_succ]

theorem total_push (weight : Nat → NfiWorkerIo → Nat) (io : IoMatrix) {n s : Nat} (op : NfiWorkerIo) :
    total weight (io.push s op) n = total weight io n + if s < n then weight s op else 0 := by
  induction n with
  | zero => simp [total]
  | succ n ih =>
    rw [total_succ, total_succ, ih]
    by_cases last : n = s
    · subst last
      simp only [push_same, List.map_append, List.map_cons, List.map_nil, List.sum_append, List.sum_cons, List.sum_nil]
      rw [if_neg (Nat.lt_irrefl _), if_pos (Nat.lt_succ_self _)]
      omega
    · rw [push_other io op last]
      have same : s < n ↔ s < n + 1 := by omega
      simp only [same]
      omega

/-- The split of a read: operations that fetch, reach every position of the
request, and together move as many bytes as the request can. -/
structure Splits (g : Layout) (servers : Servers) (reference : List Byte) (offset count : Nat) (io : IoMatrix) : Prop where
  fetches : ∀ s, ∀ op ∈ io s, Fetches servers reference offset count s op
  reaches : ∀ i, i < count → ∃ s, s < g.n ∧ ∃ op ∈ io s, op.buffer ≤ i ∧ i < op.buffer + op.size
  sizes : sizeBefore io g.n = count
  bytes : total (fun s op => (fetched servers s op).length) io g.n = (pread reference offset count).length

private theorem splits_pass (opened : Opened g fd) {servClient : Int} (served : ServedRange g servers servClient reference offset size)
    {rand : Nat → Nat} {count left : Nat} {io : IoMatrix} (more : count < size) (rest : count + left ≤ size) (splits : Splits g servers reference offset count io) :
    Splits g servers reference offset (count + lSize g.bs (offset + count) left)
      (io.push (xpnReadGetBlock fd servers rand (offset + count) servClient).1.2.toNat
        ⟨(xpnReadGetBlock fd servers rand (offset + count) servClient).1.1, lSize g.bs (offset + count) left, count⟩) := by
  obtain ⟨inside, fetch⟩ := fetches_block opened served rand more rest
  generalize (xpnReadGetBlock fd servers rand (offset + count) servClient).1 = found at *
  generalize lSize g.bs (offset + count) left = piece at *
  constructor
  · intro s op member
    by_cases same : s = found.2.toNat
    · subst same
      rw [push_same, List.mem_append, List.mem_singleton] at member
      rcases member with earlier | rfl
      · have old := splits.fetches _ op earlier
        exact ⟨old.live, old.place, Nat.le_add_right_of_le old.bound, old.bytes⟩
      · exact fetch
    · rw [push_other io _ same] at member
      have old := splits.fetches _ op member
      exact ⟨old.live, old.place, Nat.le_add_right_of_le old.bound, old.bytes⟩
  · intro i bound
    by_cases earlier : i < count
    · obtain ⟨s, s_lt, op, member, reached⟩ := splits.reaches i earlier
      refine ⟨s, s_lt, op, ?_, reached⟩
      by_cases same : s = found.2.toNat
      · subst same
        rw [push_same]
        exact List.mem_append_left _ member
      · rwa [push_other io _ same]
    · refine ⟨found.2.toNat, inside, ⟨found.1, piece, count⟩, ?_, Nat.le_of_not_lt earlier, bound⟩
      rw [push_same]
      exact List.mem_append_right _ (List.mem_singleton_self _)
  · have grown := total_push (fun _ op => op.size) io (n := g.n) (s := found.2.toNat) ⟨found.1, piece, count⟩
    rw [if_pos inside] at grown
    have before := splits.sizes
    unfold sizeBefore rowSize at before ⊢
    unfold total at grown
    rw [grown, before]
  · rw [total_push, if_pos inside, splits.bytes, pread_add, List.length_append, fetch.bytes]

theorem readBlocks_splits (opened : Opened g fd) {servClient : Int} (served : ServedRange g servers servClient reference offset size)
    (rand : Nat → Nat) :
    Splits g servers reference offset size (xpnReadBlocksBlockByBlock fd servers rand size offset servClient).1 := by
  have blocks : 0 < fd.blockSize := opened.blockSize ▸ g.bs_pos
  refine readBlocksLoop_rule blocks (Splits g servers reference offset) ?_
    size 0 (fun _ => []) rand (Nat.zero_le _) (by omega) ?_
  · intro count io rand more splits
    rw [opened.blockSize]
    exact splits_pass opened served more (by omega) splits
  · refine ⟨fun s op member => absurd member List.not_mem_nil, by omega, ?_, ?_⟩
    · simp [sizeBefore, rowSize]
    · simp [total]

end Xpn.Proofs
