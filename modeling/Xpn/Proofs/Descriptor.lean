import Mathlib.Algebra.Order.BigOperators.Group.List
import Xpn.Lib.Refinement
import Xpn.Positions
import Xpn.Proofs.Messages
import Xpn.Proofs.ReadAfterWrite
import Xpn.Proofs.WriteCount

/-! A descriptor of a file that is spread over servers, and a plain file that is open. Whatever
is done with the descriptor, and while no more servers fail than there are copies to spare, each
call returns what it would return on the plain file. -/

namespace Xpn.Proofs.Descriptor
open Lib.ByteFile Lib.Refinement Proofs.Messages

variable {g : Layout} {c : Client}

/-- A plain file that is open: its bytes and where the next transfer starts. -/
structure PlainFile where
  content : List Byte
  position : Nat

/-- What happens to a descriptor. A seek comes with the size that `fstat` finds. -/
inductive Event where
  | read (buffer : List Byte) (size : Nat)
  | write (buffer : List Byte) (size : Nat)
  | lseek (size : Option Int) (offset flag : Int)
  | fails (serv : Nat)

abbrev Answer := Int × List Byte

def perform (c : Client) : Event → Answer × Client
  | .read buffer size =>
    let result := xpnSimpleRead c buffer size
    ((result.ret, result.buffer.take result.ret.toNat), result.client)
  | .write buffer size =>
    let result := xpnSimpleWrite c buffer size
    ((result.ret, []), result.client)
  | .lseek size offset flag =>
    let result := xpnSimpleLseek c size offset flag
    ((result.1, []), result.2)
  | .fails serv => ((0, []), Client.fail c serv)

namespace PlainFile

/-- Where a seek counts from, `none` for a flag that is not known. -/
def origin (file : PlainFile) (flag : Int) : Option Nat :=
  if flag = seekSet then some 0
  else if flag = seekCur then some file.position
  else if flag = seekEnd then some file.content.length
  else none

def seek (file : PlainFile) (offset flag : Int) : Answer × PlainFile :=
  match file.origin flag with
  | none => ((-1, []), file)
  | some origin =>
    if origin + offset < 0 then ((-1, []), file)
    else ((origin + offset, []), { file with position := (origin + offset).toNat })

/-- On a plain file a failing server is nothing that can be seen. -/
def meaning (file : PlainFile) : Event → Answer × PlainFile
  | .read _ size =>
    let data := pread file.content file.position size
    ((data.length, data), { file with position := file.position + data.length })
  | .write buffer size =>
    ((size, []), ⟨pwrite file.content file.position (pread buffer 0 size), file.position + size⟩)
  | .lseek _ offset flag => file.seek offset flag
  | .fails _ => ((0, []), file)

end PlainFile

/-- The buffers have the size that is given with them, a write leaves no hole and the total of its
copies is an `int`, as is a position that is sought; `fstat` finds the size; and no more servers
fail than there are further copies. -/
def Allowed (g : Layout) (c : Client) (file : PlainFile) : Event → Prop
  | .read buffer size => size ≤ buffer.length
  | .write buffer size => size ≤ buffer.length ∧ file.position ≤ file.content.length ∧ size * (g.level + 1) < 2 ^ 31
  | .lseek size offset flag =>
    -2 ^ 63 ≤ offset ∧ (∀ origin, file.origin flag = some origin → origin + offset < 2 ^ 31) ∧
      (flag = seekEnd → size = some (file.content.length : Int))
  | .fails serv => failedAmong (Client.fail c serv).servers g.n ≤ g.level

/-- The live copies hold the plain file, and both are at the same position. -/
structure Follows (g : Layout) (c : Client) (file : PlainFile) : Prop where
  valid : Valid g g.level c file.content
  position : c.fd.offset = file.position

private theorem sreadLoop_goes_on (opened : Opened g c.fd) {reference : List Byte} (served : Served g c.servers reference)
    {size offset : Nat} : ∀ fuel count client buffer, count < size → size < count + fuel →
      (sreadLoop c size offset fuel count client buffer).client.fd.offset =
        client.fd.offset + (sreadLoop c size offset fuel count client buffer).ret.toNat := by
  intro fuel
  induction fuel with
  | zero => omega
  | succ fuel ih =>
    intro count client buffer more enough
    obtain ⟨r, copy, found, all⟩ := xpnReadGetBlock_spec opened c.servers client.rand (offset + count) c.fd.part.localServ
    have live : ¬c.servers.Failed (g.server (offset + count) r) := by
      intro failed
      obtain ⟨r', copy', up⟩ := served.covered (offset + count)
      exact up (all failed r' copy')
    have allowed : ¬((c.servers (g.server (offset + count) r : Int).toNat).error = -1 ∨
        (g.localOffset (offset + count) r : Int) + (xpnHeaderSize : Int) < 0) := by
      unfold Servers.Failed at live
      rw [Int.toNat_natCast]
      omega
    rw [sreadLoop]
    generalize xpnReadGetBlock c.fd c.servers client.rand (offset + count) c.fd.part.localServ = block at *
    obtain ⟨_, rand⟩ := block
    obtain rfl := found
    dsimp only
    rw [nfiRead, if_neg allowed]
    dsimp only
    split
    next continues =>
      apply ih
      · exact continues.1
      · omega
    next =>
      split
      next => rfl
      next none =>
        dsimp only
        omega

private theorem advance_goes_on (c : Client) (total : Int) :
    (if 0 < total then c.advance total else c).fd.offset = c.fd.offset + total.toNat := by
  split
  next => rfl
  next none => rw [Int.toNat_of_nonpos (not_lt.mp none), Nat.add_zero]

theorem read_goes_on (usable : Usable g c.fd) {reference : List Byte} (served : Served g c.servers reference)
    (buffer : List Byte) (size : Nat) :
    (xpnSimpleRead c buffer size).client.fd.offset = c.fd.offset + (xpnSimpleRead c buffer size).ret.toNat := by
  have up : c.fd.part.dataNserv ≠ 0 := by
    rw [usable.servers]
    exact g.n_pos.ne'
  unfold xpnSimpleRead
  split
  next => rfl
  next some =>
    rw [if_neg usable.readable, if_neg usable.regular]
    split
    next =>
      unfold xpnPread
      rw [if_neg up]
      dsimp only
      exact advance_goes_on _ _
    next =>
      rw [xpnSread, if_neg up]
      exact sreadLoop_goes_on usable.toOpened served _ _ _ _ (Nat.pos_of_ne_zero some) (by omega)

theorem Follows.read {file : PlainFile} (follows : Follows g c file) {buffer : List Byte} {size : Nat}
    (room : size ≤ buffer.length) :
    (perform c (.read buffer size)).1 = (file.meaning (.read buffer size)).1 ∧
      Follows g (perform c (.read buffer size)).2 (file.meaning (.read buffer size)).2 := by
  have valid := follows.valid
  have delivers : Delivers file.content c.fd.offset size (xpnSimpleRead c buffer size) :=
    valid.delivers le_rfl c.fd.offset size buffer room
  obtain ⟨usable, same⟩ := simpleRead_frame valid.usable buffer size
  have moved := read_goes_on valid.usable (valid.served le_rfl) buffer size
  have length : (pread file.content file.position size).length = min size (file.content.length - file.position) :=
    length_pread _ _ _
  have count := delivers.count
  have bytes := delivers.bytes
  rw [follows.position] at count bytes moved
  have natural : (xpnSimpleRead c buffer size).ret.toNat = min size (file.content.length - file.position) := by
    rw [count, Int.toNat_natCast]
  constructor
  · apply Prod.ext
    · exact count.trans (congrArg Nat.cast length.symm)
    · change (xpnSimpleRead c buffer size).buffer.take (xpnSimpleRead c buffer size).ret.toNat = _
      rw [natural]
      exact bytes
  · refine ⟨⟨usable, ?_, ?_⟩, ?_⟩
    · rw [perform, same]
      exact valid.failures
    · rw [perform, same]
      exact valid.holds
    · rw [perform, moved, natural, PlainFile.meaning, length]

private theorem launchWrites_tolerant {io : IoMatrix} (places : ∀ j, ∀ op ∈ io j, 0 ≤ op.offset)
    {buffer : List Byte} (js : List Nat)
    (apart : js.Nodup) (servers : Servers) :
    (launchWrites buffer io js servers).1 = js.map fun j => if servers.Failed j then 0 else (rowSize (io j) : Int) := by
  induction js generalizing servers with
  | nil => rfl
  | cons j rest ih =>
    obtain ⟨fresh, apart⟩ := List.nodup_cons.mp apart
    rw [launchWrites, List.map_cons]
    split
    next failed =>
      dsimp only
      rw [ih apart]
    next here =>
      dsimp only
      rw [ih apart, nfiDoWrite_count _ (places j) _ _ here, Int.zero_add]
      congr 1
      apply List.map_congr_left
      intro i member
      have other : i ≠ j := fun same => fresh (same ▸ member)
      have same : Servers.Failed (fun i => if i = j then (nfiDoWrite buffer (io j) 0 (servers j)).2 else servers i) i ↔
          servers.Failed i := by
        unfold Servers.Failed
        dsimp only
        rw [if_neg other]
      simp only [same]

/-- As long as the totals fit an `int`, what went to failed servers counts as written. -/
private theorem total_tolerant {io : IoMatrix} {servers : Servers} {n : Nat} (small : sizeBefore io n < 2 ^ 31) :
    xpnWriteGetTotalBytes ((List.range n).map fun j => if servers.Failed j then 0 else (rowSize (io j) : Int)) io servers n =
      sizeBefore io n := by
  have all : ((List.range n).map fun i => (rowSize (io i) : Int)).sum = (sizeBefore io n : Int) := by
    unfold sizeBefore
    rw [Nat.cast_list_sum, List.map_map]
    rfl
  have some : 0 ≤ ((List.range n).map fun i => if servers.Failed i then 0 else (rowSize (io i) : Int)).sum := by
    apply List.sum_nonneg
    intro count member
    obtain ⟨i, -, rfl⟩ := List.mem_map.mp member
    split <;> omega
  have most : ((List.range n).map fun i => if servers.Failed i then 0 else (rowSize (io i) : Int)).sum ≤
    (sizeBefore io n : Int) := by
    rw [← all]
    apply List.sum_le_sum
    intro i _
    split <;> omega
  unfold xpnWriteGetTotalBytes
  dsimp only
  rw [toCInt_of_small (by omega) (by omega), if_pos rfl, all, toCInt_of_small (by omega) (by omega)]

theorem xpnPwrite_tolerant (opened : Opened g c.fd) {buffer : List Byte} {size offset : Nat} (some : 0 < size)
    (small : size * (g.level + 1) < 2 ^ 31) :
    (xpnPwrite c buffer size offset).ret = size ∧ (xpnPwrite c buffer size offset).client.fd = (c.advanceWrite size).fd := by
  have up : c.fd.part.dataNserv ≠ 0 := by
    rw [opened.servers]
    exact g.n_pos.ne'
  have sizes : sizeBefore (groupRows (xpnWriteBlocksBlockByBlock c.fd c.servers size offset)) g.n =
    size * (g.level + 1) := by
    rw [← writeBlocks_sizes opened c.servers size offset]
    unfold sizeBefore groupRows
    simp only [rowSize_group]
  have whole : ((size * (g.level + 1) : Nat) : Int).tdiv ((g.level : Int) + 1) = size := by
    rw [Nat.cast_mul, Nat.cast_add, Nat.cast_one]
    exact Int.mul_tdiv_cancel _ (by omega)
  unfold xpnPwrite
  rw [if_neg up]
  simp only [xpnWriteBlocks, xpnWriteBlocksAllInOne, opened.servers, opened.level]
  rw [launchWrites_tolerant (grouped_places opened c.servers size offset) _ List.nodup_range,
    total_tolerant (by rw [sizes]; exact small), sizes, whole, if_neg, if_pos (by omega)]
  · exact ⟨rfl, advanceWrite_fd c _ size⟩
  · rw [List.any_eq_true]
    rintro ⟨result, member, negative⟩
    obtain ⟨j, -, rfl⟩ := List.mem_map.mp member
    have below := of_decide_eq_true negative
    split at below <;> omega

private theorem live_of_none {servers : Servers} {n s : Nat} (none : failedAmong servers n ≤ 0) (bound : s < n) :
    ¬servers.Failed s := by
  intro failed
  have empty := Finset.card_eq_zero.mp (Nat.le_zero.mp none)
  have member := Finset.mem_filter.mpr ⟨Finset.mem_range.mpr bound, failed⟩
  rw [empty] at member
  exact Finset.notMem_empty s member

/-- A write goes through as a whole, whichever servers have failed. -/
theorem Follows.write {file : PlainFile} (follows : Follows g c file) {buffer : List Byte} {size : Nat}
    (inside : size ≤ buffer.length)
    (dense : file.position ≤ file.content.length) (small : size * (g.level + 1) < 2 ^ 31) :
    (perform c (.write buffer size)).1 = (file.meaning (.write buffer size)).1 ∧
      Follows g (perform c (.write buffer size)).2 (file.meaning (.write buffer size)).2 := by
  have valid := follows.valid
  have usable := valid.usable
  have position := follows.position
  have written := valid.write le_rfl buffer size inside (by rw [position]; exact dense)
  rw [position] at written
  have whole : (xpnSimpleWrite c buffer size).ret = size ∧
      (xpnSimpleWrite c buffer size).client.fd.offset = file.position + size := by
    rcases Nat.eq_zero_or_pos size with rfl | some
    · exact ⟨rfl, position⟩
    · have moved : (c.advanceWrite size).fd.offset = file.position + size := by
        rw [advanceWrite_offset, Int.toNat_natCast, position]
      unfold xpnSimpleWrite
      rw [if_neg some.ne', if_neg usable.writable, if_neg usable.regular]
      split
      · have done : (xpnPwrite c buffer size c.fd.offset).ret = size ∧
            (xpnPwrite c buffer size c.fd.offset).client.fd = (c.advanceWrite size).fd :=
          xpnPwrite_tolerant usable.toOpened some small
        obtain ⟨count, fd⟩ := done
        exact ⟨count, by rw [fd, moved]⟩
      next serial =>
        have single : g.level = 0 := by
          have level := usable.level
          omega
        have failures := valid.failures
        rw [single] at failures
        have done : (xpnSwrite c buffer size c.fd.offset).ret = size ∧
            (xpnSwrite c buffer size c.fd.offset).client.fd = (c.advanceWrite size).fd :=
          xpnSwrite_whole usable.toOpened single inside (fun s bound => live_of_none failures bound) some
        obtain ⟨count, fd⟩ := done
        exact ⟨count, by rw [fd, moved]⟩
  refine ⟨?_, written, whole.2⟩
  exact congrArg (·, []) whole.1

theorem Follows.moved {file : PlainFile} (follows : Follows g c file) (position : Nat) :
    Follows g (c.seek position) { file with position } := by
  have usable := follows.valid.usable
  have opened := usable.toOpened
  refine ⟨⟨⟨⟨opened.servers, opened.level, opened.blockSize, opened.describes⟩, usable.readable, usable.writable,
    usable.regular⟩, follows.valid.failures, follows.valid.holds⟩, rfl⟩

theorem Follows.refused {file : PlainFile} (follows : Follows g c file) (errno : Int) : Follows g (c.refuse errno).2 file :=
  ⟨⟨follows.valid.usable, follows.valid.failures, follows.valid.holds⟩, follows.position⟩

private theorem Follows.lands {file : PlainFile} (follows : Follows g c file) {target : Int} (small : target < 2 ^ 31) :
    let result := if target < 0 then c.refuse einval else c.seekTo target
    let meant : Answer × PlainFile :=
      if target < 0 then ((-1, []), file) else ((target, []), { file with position := target.toNat })
    (result.1, []) = meant.1 ∧ Follows g result.2 meant.2 := by
  dsimp only
  split
  next => exact ⟨rfl, follows.refused einval⟩
  next inside =>
    refine ⟨?_, follows.moved target.toNat⟩
    rw [Client.seekTo, toCInt_of_small (by omega) small]

theorem Follows.lseek {file : PlainFile} (follows : Follows g c file) {size : Option Int} {offset flag : Int}
    (low : -2 ^ 63 ≤ offset) (small : ∀ origin, file.origin flag = some origin → origin + offset < 2 ^ 31)
    (found : flag = seekEnd → size = some (file.content.length : Int)) :
    (perform c (.lseek size offset flag)).1 = (file.meaning (.lseek size offset flag)).1 ∧
      Follows g (perform c (.lseek size offset flag)).2 (file.meaning (.lseek size offset flag)).2 := by
  have position := follows.position
  simp only [perform, PlainFile.meaning, PlainFile.seek, xpnSimpleLseek]
  by_cases set : flag = seekSet
  · have origin : file.origin flag = some 0 := if_pos set
    have bound := small 0 origin
    rw [origin, if_pos set]
    simp only [Int.natCast_zero, Int.zero_add] at bound ⊢
    exact follows.lands bound
  by_cases cur : flag = seekCur
  · have origin : file.origin flag = some file.position := by rw [PlainFile.origin, if_neg set, if_pos cur]
    have bound := small _ origin
    rw [origin, if_neg set, if_pos cur, position, toCLong_of_small (by omega) (by omega)]
    exact follows.lands bound
  by_cases last : flag = seekEnd
  · have origin : file.origin flag = some file.content.length := by
      rw [PlainFile.origin, if_neg set, if_neg cur, if_pos last]
    have bound := small _ origin
    rw [origin, if_neg set, if_neg cur, if_pos last, found last]
    simp only [toCLong_of_small (by omega : -2 ^ 63 ≤ (file.content.length : Int) + offset) (by omega)]
    exact follows.lands bound
  · have origin : file.origin flag = none := by rw [PlainFile.origin, if_neg set, if_neg cur, if_neg last]
    rw [origin, if_neg set, if_neg cur, if_neg last]
    exact ⟨rfl, follows.refused einval⟩

theorem Follows.fails {file : PlainFile} (follows : Follows g c file) (serv : Nat)
    (tolerated : failedAmong (Client.fail c serv).servers g.n ≤ g.level) : Follows g (Client.fail c serv) file := by
  refine ⟨⟨follows.valid.usable, tolerated, ?_⟩, follows.position⟩
  intro s bound live
  unfold Servers.Failed Client.fail at live
  unfold Client.fail
  dsimp only at live ⊢
  split at live
  · exact absurd rfl live
  next other =>
    rw [if_neg other]
    exact follows.valid.holds s bound live

end Xpn.Proofs.Descriptor
