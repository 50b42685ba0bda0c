import Mathlib.Data.Finset.Card
import Xpn.Proofs.ReadDelivery

/-! Runs of one descriptor: seeks, dense writes and reads, while servers fail.
The storage invariant of the servers that are still live survives every step, so
a read delivers the flat file that the writes add up to. -/

namespace Xpn.Proofs
open Lib.ByteFile

structure Usable (g : Layout) (fd : XpnFiledesc) : Prop extends Opened g fd where
  readable : fd.flags ≠ oWronly
  writable : fd.flags ≠ oRdonly
  regular : fd.type ≠ xpnDir

def failedAmong (servers : Servers) (n : Nat) : Nat := {s ∈ Finset.range n | servers.Failed s}.card

/-- A server is marked with `error = -1` and stays so. -/
def Client.fail (c : Client) (s : Nat) : Client :=
  { c with servers := fun i => if i = s then { c.servers s with error := -1 } else c.servers i }

/-- A new file: the local files have at most their header. -/
structure Fresh (g : Layout) (limit : Nat) (c : Client) : Prop where
  usable : Usable g c.fd
  empty : ∀ s, s < g.n → (c.servers s).file.length ≤ xpnHeaderSize
  failures : failedAmong c.servers g.n ≤ limit

/-- The states of a descriptor and the flat file its writes add up to, while no
more than `limit` servers fail. A write starts inside the file or at its end. -/
inductive Reaches (g : Layout) (limit : Nat) (start : Client) : Client → List Byte → Prop where
  | start : Reaches g limit start start []
  | seek {c reference} (run : Reaches g limit start c reference) (offset : Nat) :
      Reaches g limit start (c.seek offset) reference
  | write {c reference} (run : Reaches g limit start c reference) (buffer : List Byte) (size : Nat)
      (inside : size ≤ buffer.length) (dense : c.fd.offset ≤ reference.length) :
      Reaches g limit start (xpnSimpleWrite c buffer size).client
        (pwrite reference c.fd.offset (pread buffer 0 size))
  | read {c reference} (run : Reaches g limit start c reference) (buffer : List Byte) (size : Nat) :
      Reaches g limit start (xpnSimpleRead c buffer size).client reference
  | fail {c reference} (run : Reaches g limit start c reference) (s : Nat)
      (tolerated : failedAmong (Client.fail c s).servers g.n ≤ limit) :
      Reaches g limit start (Client.fail c s) reference

/-- What every state of a run satisfies. -/
structure Valid (g : Layout) (limit : Nat) (c : Client) (reference : List Byte) : Prop where
  usable : Usable g c.fd
  failures : failedAmong c.servers g.n ≤ limit
  holds : ∀ s, s < g.n → ¬c.servers.Failed s → g.Holds s (c.servers s).file reference

variable {g : Layout} {limit : Nat} {c start client : Client} {reference : List Byte}

private theorem Usable.moved {fd : XpnFiledesc} (usable : Usable g fd) (offset : Nat) : Usable g { fd with offset } :=
  ⟨⟨usable.servers, usable.level, usable.blockSize, usable.describes⟩, usable.readable, usable.writable, usable.regular⟩

private theorem Usable.resized {fd : XpnFiledesc} (usable : Usable g fd) (fileSize : Int) :
    Usable g { fd with mdata := { fd.mdata with fileSize } } :=
  ⟨⟨usable.servers, usable.level, usable.blockSize, ⟨usable.describes.blockSize, usable.describes.replicationLevel,
    usable.describes.firstNode, usable.describes.servers, usable.describes.plain⟩⟩,
    usable.readable, usable.writable, usable.regular⟩

private theorem Usable.advanced (usable : Usable g c.fd) (count : Int) :
    Usable g (if 0 < count then c.advanceWrite count else c).fd := by
  split
  · unfold Client.advanceWrite
    dsimp only
    split
    · exact (usable.moved _).resized _
    · exact usable.moved _
  · exact usable

private theorem Usable.advancedRead (usable : Usable g c.fd) (some : Prop) [Decidable some] (count : Int) :
    Usable g (if some then c.advance count else c).fd := by
  split
  · exact usable.moved _
  · exact usable

theorem Usable.simpleWrite (usable : Usable g c.fd) (buffer : List Byte) (size : Nat) :
    Usable g (xpnSimpleWrite c buffer size).client.fd := by
  have parallel : Usable g (xpnPwrite c buffer size c.fd.offset).client.fd := by
    by_cases none : c.fd.part.dataNserv = 0
    · rw [xpnPwrite, if_pos none]
      exact usable
    · unfold xpnPwrite
      rw [if_neg none]
      dsimp only
      apply Usable.advanced
      exact usable
  have serial : Usable g (xpnSwrite c buffer size c.fd.offset).client.fd := by
    by_cases none : c.fd.part.dataNserv = 0
    · rw [xpnSwrite, if_pos none]
      exact usable
    · unfold xpnSwrite
      rw [if_neg none]
      dsimp only
      apply Usable.advanced
      exact usable
  unfold xpnSimpleWrite
  repeat' split
  all_goals first | exact usable | exact parallel | exact serial

private theorem sreadLoop_frame {size offset : Nat} (base : Client) : ∀ fuel count client buffer,
    Usable g client.fd → Usable g (sreadLoop base size offset fuel count client buffer).client.fd ∧
      (sreadLoop base size offset fuel count client buffer).client.servers = client.servers := by
  intro fuel
  induction fuel with
  | zero => exact fun _ _ _ usable => ⟨usable, rfl⟩
  | succ fuel ih =>
    intro count client buffer usable
    rw [sreadLoop]
    dsimp only
    split
    · exact ⟨usable, rfl⟩
    · split
      · exact ih _ { client with rand := _ } _ usable
      · simp only [apply_ite Client.servers, advance_servers, ite_self]
        refine ⟨?_, trivial⟩
        apply Usable.advancedRead
        exact usable

theorem simpleRead_frame (usable : Usable g c.fd) (buffer : List Byte) (size : Nat) :
    Usable g (xpnSimpleRead c buffer size).client.fd ∧ (xpnSimpleRead c buffer size).client.servers = c.servers := by
  have parallel : Usable g (xpnPread c buffer size c.fd.offset).client.fd ∧
      (xpnPread c buffer size c.fd.offset).client.servers = c.servers := by
    by_cases none : c.fd.part.dataNserv = 0
    · rw [xpnPread, if_pos none]
      exact ⟨usable, rfl⟩
    · unfold xpnPread
      rw [if_neg none]
      simp only [apply_ite Client.servers, advance_servers, ite_self]
      refine ⟨?_, trivial⟩
      apply Usable.advancedRead
      exact usable
  have serial : Usable g (xpnSread c buffer size c.fd.offset).client.fd ∧
      (xpnSread c buffer size c.fd.offset).client.servers = c.servers := by
    unfold xpnSread
    split
    · exact ⟨usable, rfl⟩
    · exact sreadLoop_frame c _ _ _ _ usable
  unfold xpnSimpleRead
  repeat' split
  all_goals first | exact ⟨usable, rfl⟩ | exact parallel | exact serial

theorem simpleWrite_error (c : Client) (buffer : List Byte) (size s : Nat) :
    ((xpnSimpleWrite c buffer size).client.servers s).error = (c.servers s).error := by
  unfold xpnSimpleWrite
  repeat' split
  all_goals first | rfl | exact xpnPwrite_error c s | exact xpnSwrite_error c s

/-- With at most `level` failures one of the copies of every block is live. -/
theorem Valid.served (valid : Valid g limit c reference) (tolerable : limit ≤ g.level) : Served g c.servers reference := by
  refine ⟨fun p => ?_, valid.holds⟩
  by_contra none
  push Not at none
  have copies : (Finset.range (g.level + 1)).card ≤ {s ∈ Finset.range g.n | c.servers.Failed s}.card := by
    apply Finset.card_le_card_of_injOn (g.server p)
    · intro r member
      have copy : r ≤ g.level := Nat.le_of_lt_succ (Finset.mem_range.mp member)
      exact Finset.mem_filter.mpr ⟨Finset.mem_range.mpr (g.server_lt p r), none r copy⟩
    · intro r member r' member' same
      exact Layout.copies_apart (Nat.le_of_lt_succ (Finset.mem_range.mp member))
        (Nat.le_of_lt_succ (Finset.mem_range.mp member')) same
  have bound := valid.failures
  unfold failedAmong at bound
  rw [Finset.card_range] at copies
  omega

private theorem failedAmong_congr {servers other : Servers} (same : ∀ s, (other s).error = (servers s).error) (n : Nat) :
    failedAmong other n = failedAmong servers n := by
  refine congrArg Finset.card (Finset.filter_congr fun s _ => ?_)
  unfold Servers.Failed
  rw [same]

private theorem Valid.healthy (valid : Valid g limit c reference) (tolerable : limit ≤ g.level) (single : g.level = 0)
    {s : Nat} (bound : s < g.n) : ¬c.servers.Failed s := by
  intro failed
  have none := valid.failures
  have empty : {s ∈ Finset.range g.n | c.servers.Failed s} = ∅ := Finset.card_eq_zero.mp (by unfold failedAmong at none; omega)
  have member : s ∈ {s ∈ Finset.range g.n | c.servers.Failed s} := Finset.mem_filter.mpr ⟨Finset.mem_range.mpr bound, failed⟩
  rw [empty] at member
  exact absurd member (Finset.notMem_empty s)

theorem Valid.write (valid : Valid g limit c reference) (tolerable : limit ≤ g.level) (buffer : List Byte) (size : Nat)
    (inside : size ≤ buffer.length) (dense : c.fd.offset ≤ reference.length) :
    Valid g limit (xpnSimpleWrite c buffer size).client (pwrite reference c.fd.offset (pread buffer 0 size)) := by
  have opened := valid.usable.toOpened
  have errors := simpleWrite_error c buffer size
  refine ⟨valid.usable.simpleWrite buffer size, by rw [failedAmong_congr errors]; exact valid.failures, ?_⟩
  intro s bound live'
  have live : ¬c.servers.Failed s := by
    unfold Servers.Failed at live' ⊢
    rwa [errors s] at live'
  unfold xpnSimpleWrite
  split
  next none =>
    subst none
    simpa using valid.holds s bound live
  next some =>
    rw [if_neg valid.usable.writable, if_neg valid.usable.regular]
    split
    · exact xpnPwrite_holds opened dense inside bound live (valid.holds s bound live)
    next serial =>
      have single : g.level = 0 := by
        rw [opened.level] at serial
        omega
      exact xpnSwrite_holds opened single dense (Nat.pos_of_ne_zero some) inside
        (fun s bound => valid.healthy tolerable single bound)
        (fun s bound => valid.holds s bound (valid.healthy tolerable single bound)) bound

theorem Reaches.valid (run : Reaches g limit start client reference) (fresh : Fresh g limit start)
    (tolerable : limit ≤ g.level) : Valid g limit client reference := by
  induction run with
  | start => exact ⟨fresh.usable, fresh.failures, fun s bound _ => Layout.Holds.empty (fresh.empty s bound)⟩
  | seek _ offset valid => exact ⟨valid.usable.moved offset, valid.failures, valid.holds⟩
  | write _ buffer size inside dense valid => exact valid.write tolerable buffer size inside dense
  | read _ buffer size valid =>
    obtain ⟨usable, same⟩ := simpleRead_frame valid.usable buffer size
    exact ⟨usable, same ▸ valid.failures, same ▸ valid.holds⟩
  | fail _ s tolerated valid =>
    refine ⟨valid.usable, tolerated, fun t bound live => ?_⟩
    unfold Servers.Failed Client.fail at live
    unfold Client.fail
    dsimp only at live ⊢
    split at live
    · exact absurd rfl live
    next different =>
      rw [if_neg different]
      exact valid.holds t bound live

/-- A read of a valid state delivers the flat file. -/
theorem Valid.delivers (valid : Valid g limit c reference) (tolerable : limit ≤ g.level) (offset size : Nat)
    (buffer : List Byte) (room : size ≤ buffer.length) :
    Delivers reference offset size (xpnSimpleRead (c.seek offset) buffer size) := by
  have opened : Opened g (c.seek offset).fd := (valid.usable.moved offset).toOpened
  have served : Served g (c.seek offset).servers reference := valid.served tolerable
  unfold xpnSimpleRead
  split
  next none =>
    subst none
    exact ⟨by simp, by simp⟩
  next some =>
    rw [if_neg (show (c.seek offset).fd.flags ≠ oWronly from valid.usable.readable),
      if_neg (show (c.seek offset).fd.type ≠ xpnDir from valid.usable.regular)]
    split
    · rcases Nat.eq_zero_or_pos g.level with single | replicated
      · exact xpnPread_grouped opened (served.range _ offset size) single room
      · exact xpnPread_replicated opened (served.range _ offset size) replicated room
    · exact xpnSread_delivers opened (served.range _ offset size) (Nat.pos_of_ne_zero some) room

/-- Without failures every read returns the bytes the writes left, and counts them. -/
theorem read_after_write (fresh : Fresh g 0 start) (run : Reaches g 0 start client reference) (offset size : Nat)
    (buffer : List Byte) (room : size ≤ buffer.length) :
    let result := xpnSimpleRead (client.seek offset) buffer size
    result.ret = (min size (reference.length - offset) : Nat) ∧
      result.buffer.take (min size (reference.length - offset)) = pread reference offset size := by
  have delivered := (run.valid fresh (Nat.zero_le _)).delivers (Nat.zero_le _) offset size buffer room
  exact ⟨delivered.count, delivered.bytes⟩

def twoServers : Layout := ⟨2, 2, 0, 1, by decide, by decide, by decide⟩

def newFile : Client where
  fd := {
    type := 0
    flags := 2
    part := ⟨2, 2, 0, -1⟩
    mdata := xpnCreateMetadataExtern [slash, 97] 2 2 0
    offset := 0
    blockSize := 2 }
  servers := fun _ => ⟨[], 0⟩
  rand := fun _ => 0
  fresh := fun _ => 0
  errno := 0

theorem newFile_opened : Opened twoServers newFile.fd :=
  ⟨rfl, rfl, rfl, ⟨rfl, rfl, by decide, by decide, by decide⟩⟩

theorem newFile_fresh : Fresh twoServers 0 newFile := by
  refine ⟨⟨newFile_opened, by decide, by decide, by decide⟩, ?_, by decide⟩
  intro s _
  exact Nat.zero_le _

theorem read_after_write_three_bytes :
    let client := (xpnSimpleWrite newFile [7, 8, 9] 3).client
    let result := xpnSimpleRead (client.seek 1) [0, 0, 0, 0] 4
    result.ret = 2 ∧ result.buffer.take 2 = [8, 9] :=
  read_after_write newFile_fresh (.write .start [7, 8, 9] 3 (by decide) (by decide)) 1 4 [0, 0, 0, 0] (by decide)

/-- With at most `level` failures, whenever they happen: every read delivers the
flat file; a read ends on a failed server only when no copy is live; and every
live server still has every byte of its copies. -/
theorem replicated_read_after_write (fresh : Fresh g g.level start) (run : Reaches g g.level start client reference) :
    (∀ offset size (buffer : List Byte), size ≤ buffer.length →
      let result := xpnSimpleRead (client.seek offset) buffer size
      result.ret = (min size (reference.length - offset) : Nat) ∧
        result.buffer.take (min size (reference.length - offset)) = pread reference offset size) ∧
    (∀ (servers : Servers) rand (p : Nat) servClient,
      (∃ r : Nat, r ≤ g.level ∧ ¬servers.Failed (xpnCalculateBlockMdata client.fd.mdata p r).2.toNat) →
      ¬servers.Failed (xpnReadGetBlock client.fd servers rand p servClient).1.2.toNat) ∧
    (∀ p r : Nat, r ≤ g.level →
      let found := xpnCalculateBlockMdata client.fd.mdata p r
      ¬client.servers.Failed found.2.toNat →
      nfiRead (client.servers found.2.toNat) (found.1 + xpnHeaderSize) 1 = some (pread reference p 1)) := by
  have valid := run.valid fresh le_rfl
  have opened := valid.usable.toOpened
  refine ⟨fun offset size buffer room => ?_, ?_, ?_⟩
  · have delivered := valid.delivers le_rfl offset size buffer room
    exact ⟨delivered.count, delivered.bytes⟩
  · rintro servers rand p servClient ⟨r, copy, live⟩ failed
    obtain ⟨r', -, found, all⟩ := xpnReadGetBlock_spec opened servers rand p servClient
    rw [found, Int.toNat_natCast] at failed
    rw [opened.describes.calculate, Int.toNat_natCast] at live
    exact live (all failed r copy)
  · intro p r copy
    rw [opened.describes.calculate]
    dsimp only
    rw [Int.toNat_natCast]
    intro live
    have allowed : ¬((client.servers (g.server p r)).error = -1 ∨ (g.localOffset p r : Int) + xpnHeaderSize < 0) := by
      unfold Servers.Failed at live
      omega
    have position : ((g.localOffset p r : Int) + xpnHeaderSize).toNat = xpnHeaderSize + g.localOffset p r := by omega
    rw [nfiRead, if_neg allowed, position]
    exact congrArg some ((valid.holds _ (g.server_lt p r) live).read (by have := Nat.mod_lt p g.bs_pos; omega) copy rfl)

def threeServers : Layout := ⟨2, 3, 1, 1, by decide, by decide, by decide⟩

def newReplicatedFile : Client where
  fd := {
    type := 0
    flags := 2
    part := ⟨3, 2, 1, 0⟩
    mdata := xpnCreateMetadataExtern [slash, 97] 3 2 1
    offset := 0
    blockSize := 2 }
  servers := fun _ => ⟨[], 0⟩
  rand := fun call => call
  fresh := fun _ => 0
  errno := 0

theorem newReplicatedFile_fresh : Fresh threeServers threeServers.level newReplicatedFile := by
  refine ⟨⟨⟨rfl, rfl, rfl, ⟨rfl, rfl, by decide, by decide, by decide⟩⟩, by decide, by decide, by decide⟩, ?_, by decide⟩
  intro s _
  exact Nat.zero_le _

theorem replicated_read_after_write_one_failure :
    let client := (xpnSimpleWrite (Client.fail newReplicatedFile 1) [7, 8, 9] 3).client
    let result := xpnSimpleRead (client.seek 1) [0, 0, 0, 0] 4
    result.ret = 2 ∧ result.buffer.take 2 = [8, 9] :=
  (replicated_read_after_write newReplicatedFile_fresh
    (.write (.fail .start 1 (by decide)) [7, 8, 9] 3 (by decide) (by decide))).1 1 4 [0, 0, 0, 0] (by decide)

end Xpn.Proofs
