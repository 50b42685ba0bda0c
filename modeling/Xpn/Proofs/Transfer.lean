import Xpn.Proofs.Messages

/-! Data on the way between a client and the server's file. Both sides cut it into parts of
their own accord; the parts are the same. -/

namespace Xpn.Proofs.Transfer
open Lib.Conversation Lib.ByteFile Xpn.Messages XpnServer NfiXpnServer Proofs.Messages PathTransport
open Transport (xpnPathMax msgSize PathMember intBytes bytesInt fillPath pathTail opRead opWrite)

/-! ### Parts -/

def parts (data : List Byte) : List (List Byte) :=
  if data.length ≤ maxBufferSize then message data else data.take maxBufferSize :: parts (data.drop maxBufferSize)
termination_by data.length
decreasing_by
  simp only [List.length_drop, maxBufferSize] at *
  omega

theorem flatten_parts (data : List Byte) : (parts data).flatten = data := by
  fun_induction parts data with
  | case1 data short => exact flatten_message data
  | case2 data long ih => simp [ih]

theorem toCInt_sub_of_int {size s c : Nat} (int : toCInt size = s) (inside : c ≤ s) :
    toCInt (size - c : Int) = (s - c : Nat) := by
  have range := Int.bmod_lt (x := size) (m := 2 ^ 32) (by decide)
  rw [toCInt] at int
  have same : toCInt (size - c : Int) = toCInt (s - c : Int) := by
    rw [toCInt, toCInt, ← int, Int.bmod_sub_bmod]
  rw [same, toCInt_of_small (by omega) (by omega)]
  omega

theorem le_of_int {size s : Nat} (int : toCInt size = s) : s ≤ size := by
  rw [toCInt, Int.bmod_def] at int
  split at int <;> omega

theorem small_of_int {size s : Nat} (int : toCInt size = s) : s < 2 ^ 31 := by
  have range := Int.bmod_lt (x := size) (m := 2 ^ 32) (by decide)
  rw [toCInt] at int
  omega

theorem round_eq {s c : Nat} (inside : c < s) :
    (if (if (maxBufferSize : Int) < s then (maxBufferSize : Int) else s) < (s - c : Nat) then
      (if (maxBufferSize : Int) < s then (maxBufferSize : Int) else s) else (s - c : Nat)) =
      ((min maxBufferSize (s - c) : Nat) : Int) := by
  split <;> split <;> omega

theorem parts_of_long {data : List Byte} (long : maxBufferSize < data.length) :
    parts data = message (data.take maxBufferSize) ++ parts (data.drop maxBufferSize) := by
  have some : data.take maxBufferSize ≠ [] := by
    apply List.ne_nil_of_length_pos
    rw [List.length_take]
    simp only [maxBufferSize] at *
    omega
  rw [parts, if_neg (by omega), message, if_neg some]
  rfl

theorem parts_of_short {data : List Byte} (short : data.length ≤ maxBufferSize) : parts data = message data := by
  rw [parts, if_pos short]

/-! ### The client's parts -/

section
variable {α : Type} {buffer : List Byte} {size s : Nat}

theorem opening_writeParts (int : toCInt size = s) (long : s ≤ buffer.length) (next : Option Int → ClientM α) (fuel c : Nat)
    (inside : c < s) (enough : s - c ≤ fuel) :
    (writeParts buffer size (if (maxBufferSize : Int) < s then (maxBufferSize : Int) else s) fuel c
      (s - c : Nat) >>= next).opening =
      (parts ((buffer.take s).drop c) ++ (next (some s)).opening.1, (next (some s)).opening.2) := by
  have small := small_of_int int
  induction fuel generalizing c with
  | zero => omega
  | succ fuel ih =>
    have rest_length : ((buffer.take s).drop c).length = s - c := by
      rw [List.length_drop, List.length_take]
      omega
    have positive : 0 < min maxBufferSize (s - c) := by
      simp only [maxBufferSize]
      omega
    have now : (buffer.drop c).take (min maxBufferSize (s - c)) = ((buffer.take s).drop c).take
      (min maxBufferSize (s - c)) := by
      rw [List.drop_take, List.take_take, Nat.min_eq_left (Nat.min_le_right _ _)]
    have counted : toCInt (c + (min maxBufferSize (s - c) : Nat)) = (c + min maxBufferSize (s - c) : Nat) :=
      toCInt_of_small (by omega) (by omega)
    rw [writeParts, round_eq inside, bind_assoc, Int.toNat_natCast, opening_write (by rw [List.length_drop]; omega)
      (by omega), now]
    simp only [counted, toCInt_sub_of_int int (by omega : c + min maxBufferSize (s - c) ≤ s)]
    by_cases last : s - c ≤ maxBufferSize
    · -- Nothing is left after this part.
      have all : c + min maxBufferSize (s - c) = s := by omega
      rw [if_neg (by omega), pure_bind, parts_of_short (by omega), all, Nat.min_eq_right last,
        List.take_of_length_le rest_length.le]
    · have part : min maxBufferSize (s - c) = maxBufferSize := by omega
      have cut := parts_of_long (show maxBufferSize < ((buffer.take s).drop c).length by omega)
      rw [if_pos (by omega), ih _ (by omega) (by omega), cut, List.append_assoc, List.drop_drop, part]

end

/-! ### Replies -/

structure Reply (reply : List Byte) (size ret : Int) : Prop where
  whole : reply.length = rwReqSize
  size : longAt reply 0 = size
  ret : intAt reply rwReqStatus = ret

theorem reply_rwReq {req : List Byte} (whole : req.length = rwReqSize) (size ret errno : Int) :
    Reply (rwReq req size ret errno) (toCLong size) (toCInt ret) := by
  have wide : rwReqSize = 24 := rfl
  have at12 : rwReqStatus = 12 := rfl
  have first : (store req 0 8 size).length = rwReqSize := by rw [length_store (by omega), whole]
  have second : (store (store req 0 8 size) rwReqStatus 4 ret).length = rwReqSize := by rw [length_store (by omega), first]
  rw [rwReq, setStatus]
  refine ⟨by rw [length_store (by omega), second], ?_, ?_⟩
  · rw [longAt, pread_store_apart (by omega) (by omega), pread_store_apart (by omega) (by omega), ← longAt,
      longAt_store (by omega)]
  · rw [intAt, pread_store_apart (by omega) (by omega), ← intAt, intAt_store (by omega)]

theorem reply_count {req : List Byte} (whole : req.length = rwReqSize) {n : Nat} (small : n < 2 ^ 31) (errno : Int) :
    Reply (rwReq req n 0 errno) n 0 := by
  have reply := reply_rwReq whole n 0 errno
  rwa [toCLong_of_small (by omega) (by omega)] at reply

/-! ### A file that does not fail -/

section
variable {α : Type} (file : XpnServer.LocalFile) (fd : Int) (inbox : List Byte)

theorem perform_malloc (size : Int) (next : Answer → ServerM α) :
    perform XpnServer.LocalFile.answer (ask (.malloc size) >>= next) file inbox = perform XpnServer.LocalFile.answer
      (next ⟨1, 0, []⟩) file inbox := rfl

theorem perform_lseek (offset : Int) (next : Answer → ServerM α) :
    perform XpnServer.LocalFile.answer (ask (.filesystemLseek fd offset) >>= next) file inbox =
      perform XpnServer.LocalFile.answer (next ⟨offset, 0, []⟩) { file with position := offset.toNat } inbox := rfl

private theorem perform_ask_write (data : List Byte) (next : Answer → ServerM α) :
    perform XpnServer.LocalFile.answer (ask (.filesystemWrite fd data) >>= next) file inbox =
      perform XpnServer.LocalFile.answer (next ⟨data.length, 0, []⟩)
        ⟨pwrite file.content file.position data, file.position + data.length⟩ inbox := rfl

private theorem perform_ask_read (count : Nat) (next : Answer → ServerM α) :
    perform XpnServer.LocalFile.answer (ask (.filesystemRead fd count) >>= next) file inbox =
      perform XpnServer.LocalFile.answer (next ⟨(pread file.content file.position count).length, 0,
        pread file.content file.position count⟩)
        { file with position := file.position + (pread file.content file.position count).length } inbox := rfl

theorem perform_filesystemWrite (buffer : List Byte) {count : Nat} (positive : 0 < count) (errno : Int)
    (next : Answer → ServerM α) :
    perform XpnServer.LocalFile.answer (filesystemWrite fd buffer count errno >>= next) file inbox =
      perform XpnServer.LocalFile.answer (next ⟨count, 0, []⟩)
        ⟨pwrite file.content file.position (buffer.take count), file.position + (buffer.take count).length⟩ inbox := by
  have some : ¬(count : Int) ≤ 0 := by omega
  have whole : ¬((buffer.take count).length : Int) < 0 := by omega
  rw [filesystemWrite, if_neg some, bind_assoc, Int.toNat_natCast, perform_ask_write]
  simp only [if_neg whole, pure_bind]

theorem perform_filesystemRead {count : Nat} (positive : 0 < count) (errno : Int) (next : Answer → ServerM α) :
    perform XpnServer.LocalFile.answer (filesystemRead fd count errno >>= next) file inbox =
      perform XpnServer.LocalFile.answer (next ⟨(pread file.content file.position count).length, 0,
        pread file.content file.position count⟩)
        { file with position := file.position + (pread file.content file.position count).length } inbox := by
  have some : ¬(count : Int) ≤ 0 := by omega
  have whole : ¬((pread file.content file.position count).length : Int) < 0 := by omega
  have cut : (pread file.content file.position count).take count = pread file.content file.position count :=
    List.take_of_length_le (by rw [length_pread]; omega)
  rw [filesystemRead, if_neg some, bind_assoc, Int.toNat_natCast, perform_ask_read]
  simp only [if_neg whole, pure_bind, cut]

end

/-! ### The server's parts -/

section
variable {α : Type} {opSize s : Nat} {data : List Byte}

theorem perform_writeLoop (int : toCInt opSize = s) (whole : data.length = s) (fd : Int) (offset : Nat) (after : List Byte)
    (fuel c : Nat) (inside : c < s) (enough : s - c ≤ fuel) (buffer req : List Byte) (room : 8 ≤ req.length) (errno : Int)
    (file : XpnServer.LocalFile) (next : List Byte × Int → ServerM α) :
    ∃ (last : List Byte) (position : Nat), last.length = req.length ∧
      perform XpnServer.LocalFile.answer (writeLoop fd offset opSize
        (if (maxBufferSize : Int) < s then (maxBufferSize : Int) else s) fuel c
        (s - c : Nat) buffer req errno >>= next) file (data.drop c ++ after) =
      (perform XpnServer.LocalFile.answer (next (store (store last 0 8 s) rwReqStatus 4 0, 0))
        ⟨pwrite file.content (offset + c) (data.drop c), position⟩ after).map
          fun run => { run with received := parts (data.drop c) ++ run.received } := by
  have small := small_of_int int
  induction fuel generalizing c buffer req errno file with
  | zero => omega
  | succ fuel ih =>
    have rest_length : (data.drop c).length = s - c := by
      rw [List.length_drop, whole]
    obtain ⟨n, n_eq⟩ : ∃ n, n = min maxBufferSize (s - c) := ⟨_, rfl⟩
    have positive : 0 < n := by
      simp only [maxBufferSize] at n_eq
      omega
    have now_length : ((data.drop c).take n).length = n := by
      rw [List.length_take]
      omega
    have split : data.drop c = (data.drop c).take n ++ data.drop (c + n) := by
      rw [← List.drop_drop, List.take_append_drop]
    have some : ¬(n : Int) < 0 := by omega
    have moved : ¬(n : Int) ≤ 0 := by omega
    have sought : ¬((offset : Int) + c < 0) := by omega
    have below : n < 2 ^ 31 := by omega
    have left := toCInt_sub_of_int int (show c + n ≤ s by omega)
    have held : (overwrite buffer 0 ((data.drop c).take n)).take n = (data.drop c).take n := by
      rw [overwrite_front, List.take_append_of_le_length now_length.ge, List.take_take, Nat.min_self]
    -- One round: the part is received, sought and written.
    have round : ∀ rest : List Byte, perform XpnServer.LocalFile.answer (writeLoop fd offset opSize
        (if (maxBufferSize : Int) < s then (maxBufferSize : Int) else s)
          (fuel + 1) c (s - c : Nat) buffer req errno >>= next) file
          ((data.drop c).take n ++ rest) =
        (perform XpnServer.LocalFile.answer ((if 0 < ((s - (c + n) : Nat) : Int) ∧ (n : Int) ≠ 0 then
            writeLoop fd offset opSize (if (maxBufferSize : Int) < s then (maxBufferSize : Int) else s) fuel (c + n : Nat)
              (s - (c + n) : Nat) (overwrite buffer 0 ((data.drop c).take n)) (store req 0 8 n) 0
          else pure (store (store (store req 0 8 n) 0 8 (c + n : Nat)) rwReqStatus 4 0, 0)) >>= next)
          ⟨pwrite file.content (offset + c) ((data.drop c).take n), offset + c + n⟩ rest).map
            fun run => { run with received := message ((data.drop c).take n) ++ run.received } := by
      intro rest
      have counted : toCInt (c + n : Int) = (c + n : Nat) := toCInt_of_small (by omega) (by omega)
      rw [writeLoop, round_eq inside, ← n_eq, bind_assoc, perform_read now_length below]
      simp only [if_neg some, bind_assoc]
      rw [perform_lseek]
      simp only [if_neg sought, bind_assoc]
      rw [perform_filesystemWrite _ _ _ _ positive]
      simp only [if_neg some]
      rw [counted, left, held, now_length, ← Nat.cast_add offset c, Int.toNat_natCast]
    by_cases last : s - c ≤ maxBufferSize
    · -- Nothing is left after this part.
      have all : c + n = s := by omega
      have none : data.drop (c + n) = [] := List.drop_eq_nil_of_le (by omega)
      have stop : ¬(0 < ((s - (c + n) : Nat) : Int) ∧ (n : Int) ≠ 0) := by omega
      refine ⟨store req 0 8 n, offset + c + n, length_store (by omega) _, ?_⟩
      rw [split, none, List.append_nil, round after, if_neg stop, pure_bind, all, parts_of_short (by omega)]
    · have further : 0 < ((s - (c + n) : Nat) : Int) ∧ (n : Int) ≠ 0 := by omega
      have part : n = maxBufferSize := by omega
      obtain ⟨final, position, same, performed⟩ := ih (c + n) (by omega) (by omega)
        (overwrite buffer 0 ((data.drop c).take n))
        (store req 0 8 n) (by rwa [length_store (by omega)]) 0 ⟨pwrite file.content (offset + c)
          ((data.drop c).take n), offset + c + n⟩
      have cut := parts_of_long (show maxBufferSize < (data.drop c).length by omega)
      have joined : pwrite (pwrite file.content (offset + c) ((data.drop c).take n)) (offset + (c + n)) (data.drop (c + n)) =
          pwrite file.content (offset + c) (data.drop c) := by
        have first : (data.drop c).take n ≠ [] := List.ne_nil_of_length_pos (by omega)
        have both : pwrite (pwrite file.content (offset + c) ((data.drop c).take n))
            (offset + c + ((data.drop c).take n).length) (data.drop (c + n)) = _ := pwrite_append _ _ first
        rwa [now_length, ← split, Nat.add_assoc] at both
      refine ⟨final, position, by rw [same, length_store (by omega)], ?_⟩
      nth_rewrite 1 [split]
      rw [List.append_assoc, round, if_pos further, performed, joined, cut, ← part, List.drop_drop, Option.map_map]
      simp only [Function.comp_def, List.append_assoc]

end

/-! ### The message of a read or a write -/

structure RwHead (head : List Byte) (fd offset : Int) (size : Nat) (session : Int) : Prop where
  fd : intAt head rwFd = toCInt fd
  offset : longAt head rwOffset = toCLong offset
  size : sizeAt head rwSize = size
  session : charAt head rwSession = toCChar session

section
variable {msg : List Byte} (whole : msg.length = msgSize)
include whole

theorem length_rwMsg (fd offset : Int) (size : Nat) (session : Int) :
    (rwMsg msg fd offset size session).length = msgSize := by
  have wide : 32 ≤ msgSize := by decide
  have first : (store msg rwOffset 8 offset).length = msgSize := by
    rw [length_store (by simp only [rwOffset]; omega), whole]
  have second : (store (store msg rwOffset 8 offset) rwSize 8 size).length = msgSize := by
    rw [length_store (by simp only [rwSize]; omega), first]
  have third : (store (store (store msg rwOffset 8 offset) rwSize 8 size) rwFd 4 fd).length = msgSize := by
    rw [length_store (by simp only [rwFd]; omega), second]
  rw [rwMsg, length_store (by simp only [rwSession]; omega), third]

/-- The four fields do not overlap. -/
theorem rwMsg_fields (fd offset : Int) {size : Nat} (small : size < 2 ^ 64) (session : Int) :
    RwHead (rwMsg msg fd offset size session) fd offset size session := by
  have wide : 32 ≤ msgSize := by decide
  have first : (store msg rwOffset 8 offset).length = msgSize := by
    rw [length_store (by simp only [rwOffset]; omega), whole]
  have second : (store (store msg rwOffset 8 offset) rwSize 8 size).length = msgSize := by
    rw [length_store (by simp only [rwSize]; omega), first]
  have third : (store (store (store msg rwOffset 8 offset) rwSize 8 size) rwFd 4 fd).length = msgSize := by
    rw [length_store (by simp only [rwFd]; omega), second]
  simp only [rwOffset, rwSize, rwFd] at first second third
  refine ⟨?_, ?_, ?_, ?_⟩
  · rw [intAt, rwMsg, pread_store_apart (by simp only [rwSession, rwFd, rwSize, rwOffset]; omega)
      (by simp only [rwSession, rwFd]; omega), ← intAt, intAt_store (by simp only [rwFd, rwSize, rwOffset]; omega)]
  · rw [longAt, rwMsg, pread_store_apart (by simp only [rwSession, rwFd, rwSize, rwOffset]; omega)
      (by simp only [rwSession, rwOffset]; omega), pread_store_apart (by simp only [rwFd, rwSize, rwOffset]; omega)
      (by simp only [rwFd, rwOffset]; omega), pread_store_apart (by simp only [rwSize, rwOffset]; omega)
      (by simp only [rwSize, rwOffset]; omega), ← longAt, longAt_store (by simp only [rwOffset]; omega)]
  · rw [sizeAt, rwMsg, pread_store_apart (by simp only [rwSession, rwFd, rwSize, rwOffset]; omega)
      (by simp only [rwSession, rwSize]; omega), pread_store_apart (by simp only [rwFd, rwSize, rwOffset]; omega)
      (by simp only [rwFd, rwSize]; omega), ← sizeAt, sizeAt_store (by simp only [rwSize, rwOffset]; omega) small]
  · rw [rwMsg, charAt_store (by simp only [rwSession, rwFd, rwSize, rwOffset]; omega)]

end

theorem RwHead.of_same {head msg : List Byte} {fd offset : Int} {size : Nat} {session : Int}
    (same : ∀ offset count, offset + count ≤ 4 ∨ 8 ≤ offset ∧ offset + count ≤ 28 → pread head offset count =
      pread msg offset count)
    (fields : RwHead msg fd offset size session) : RwHead head fd offset size session := by
  refine ⟨?_, ?_, ?_, ?_⟩
  · rw [intAt, same _ _ (by decide), ← intAt, fields.fd]
  · rw [longAt, same _ _ (by decide), ← longAt, fields.offset]
  · rw [sizeAt, same _ _ (by decide), ← sizeAt, fields.size]
  · rw [charAt, same _ _ (by decide), ← charAt, fields.session]

theorem perform_rwOpen {α : Type} {head : List Byte} {fd offset : Int} {size : Nat} {session : Int}
    (fields : RwHead head fd offset size session) (opened : toCChar session = 1 → 0 ≤ toCInt fd) (path : Path)
      (flags : Int) (file : XpnServer.LocalFile)
    (inbox : List Byte) (next : Answer → ServerM α) :
    ∃ (fd' : Nat) (position : Nat), perform XpnServer.LocalFile.answer (rwOpen head path flags >>= next) file inbox =
      perform XpnServer.LocalFile.answer (next ⟨fd', 0, []⟩) ⟨file.content, position⟩ inbox := by
  rw [rwOpen, fields.session]
  split
  next inSession =>
    refine ⟨(toCInt fd).toNat, file.position, ?_⟩
    rw [pure_bind, fields.fd, Int.toNat_of_nonneg (opened inSession)]
  next => exact ⟨3, 0, rfl⟩

section
variable {head : List Byte} {fd : Int} {offset size s : Nat} {session : Int}

/-- The whole of a write that does not fail, from the opened file to the reply. -/
theorem perform_writeBody {α : Type} (fields : RwHead head fd offset size session) (small : offset < 2 ^ 63)
    (int : toCInt size = s) (positive : 0 < s) {data : List Byte} (whole : data.length = s) (memory : Nat → Byte)
    (fd' : Nat) (file : XpnServer.LocalFile) (after : List Byte) (next : List Byte × Int → ServerM α) :
    ∃ (last : List Byte) (position : Nat), last.length = rwReqSize ∧
      perform XpnServer.LocalFile.answer (writeBody memory head ⟨fd', 0, []⟩ >>= next) file (data ++ after) =
        (perform XpnServer.LocalFile.answer (next (store (store last 0 8 s) rwReqStatus 4 0, 0))
          ⟨pwrite file.content offset data, position⟩ after).map fun run =>
            { run with received := parts data ++ run.received } := by
  have place : toCLong offset = offset := toCLong_of_small (by omega) (by omega)
  have valid : ¬((fd' : Nat) : Int) < 0 := by omega
  have one : ¬(1 : Int) = 0 := by decide
  have enough := le_of_int int
  have loop := perform_writeLoop int whole fd' offset after (size + 1) 0 positive (by omega)
    (contents memory (if (maxBufferSize : Int) < s then (maxBufferSize : Int) else s).toNat) (contents memory rwReqSize)
    (by simp [rwReqSize]) 0 file next
  simp only [Nat.sub_zero, List.drop_zero, Nat.add_zero, length_contents, Nat.cast_zero] at loop
  simp only [writeBody, if_neg valid, fields.size, fields.offset, int, place, bind_assoc, perform_malloc, if_neg one]
  exact loop

theorem perform_opWrite (fields : RwHead head fd offset size session) (opened : toCChar session = 1 → 0 ≤ toCInt fd)
    (plain : intAt head rwFileType ≠ 1)
    (small : offset < 2 ^ 63) (int : toCInt size = s) (positive : 0 < s) {data : List Byte} (whole : data.length = s)
    {path : Path} {tail : List Byte} (memory : Nat → Byte) (file : XpnServer.LocalFile)
    (located : ∀ (next : Path → ServerM Unit) (file : XpnServer.LocalFile) (rest : List Byte),
      perform XpnServer.LocalFile.answer (readMemberPath opWrite head >>= next) file (tail ++ rest) =
        (perform XpnServer.LocalFile.answer (next path) file rest).map fun run =>
          { run with received := message tail ++ run.received }) :
    ∃ (reply : List Byte) (position : Nat), Reply reply s 0 ∧
      perform XpnServer.LocalFile.answer (xpnServerOpWrite memory head) file (tail ++ data) =
        some ⟨(), ⟨pwrite file.content offset data, position⟩, [], [reply], message tail ++ parts data⟩ := by
  rw [xpnServerOpWrite, if_neg plain, writeFile, withPath, located]
  obtain ⟨fd', position, opens⟩ := perform_rwOpen fields opened path XpnServer.oWronly file data _
  rw [opens]
  obtain ⟨last, position, sized, wrote⟩ := perform_writeBody fields small int positive whole memory fd'
    ⟨file.content, position⟩ [] _
  rw [List.append_nil] at wrote
  rw [wrote]
  have reply : Reply (store (store (store last 0 8 s) rwReqStatus 4 0) (rwReqStatus + 4) 4 0) s 0 :=
    reply_count sized (small_of_int int) 0
  refine ⟨_, position, reply, ?_⟩
  rw [perform_sendRwReq reply.whole, perform_ask]
  split <;> simp [XpnServer.LocalFile.answer, perform]

end

/-! ### Replies to a read -/

theorem overwrite_overwrite {buffer first second : List Byte} {position : Nat}
    (inside : position + first.length ≤ buffer.length) :
    overwrite (overwrite buffer position first) (position + first.length) second = overwrite buffer position
      (first ++ second) := by
  have length : (overwrite buffer position first).length = buffer.length := length_overwrite inside
  apply List.ext_getElem?
  intro i
  rw [getElem?_overwrite _ (by omega), getElem?_overwrite _ (by omega), getElem?_overwrite _ (by omega), List.length_append]
  by_cases before : i < position
  · rw [if_pos (by omega), if_pos before, if_pos before]
  · by_cases inFirst : i < position + first.length
    · rw [if_pos inFirst, if_neg before, if_pos inFirst, if_neg before, if_pos (by omega),
        List.getElem?_append_left (by omega)]
    · rw [if_neg inFirst, if_neg before, if_neg inFirst, if_neg before, ← Nat.add_assoc]
      split
      · rw [List.getElem?_append_right (by omega)]
        congr 1
        omega
      · rfl

section
variable {content : List Byte} {offset size : Nat}

/-- One round of the server: a header, and the data if there is any. -/
theorem perform_readLoop_round (fd : Int) (small : size < 2 ^ 31) {c : Nat} (fuel : Nat) (inside : c < size)
    {req : List Byte}
    (whole : req.length = rwReqSize) (unset : intAt req rwReqStatus ≠ -1) (position : Nat) (inbox : List Byte)
      {data : List Byte}
    (got : pread content (offset + c) (min maxBufferSize (size - c)) = data) :
    perform XpnServer.LocalFile.answer (readLoop fd offset size
      (if (maxBufferSize : Int) < size then (maxBufferSize : Int) else size)
        (fuel + 1) c (size - c : Nat) req) ⟨content, position⟩ inbox =
      (perform XpnServer.LocalFile.answer (if 0 < ((size - (c + data.length) : Nat) : Int) ∧ (data.length : Int) ≠ 0 then
          readLoop fd offset size (if (maxBufferSize : Int) < size then (maxBufferSize : Int) else size) fuel
            (c + data.length : Nat) (size - (c + data.length) : Nat) (rwReq req data.length 0 0)
        else pure ()) ⟨content, offset + c + data.length⟩ inbox).map
          fun run => { run with sent := rwReq req data.length 0 0 :: (message data ++ run.sent) } := by
  have bound : data.length ≤ size - c := by
    rw [← got, length_pread]
    omega
  have positive : 0 < min maxBufferSize (size - c) := by
    simp only [maxBufferSize]
    omega
  have sought : ¬((offset : Int) + c = -1) := by omega
  have good : ¬((data.length : Int) < 0 ∨ intAt req rwReqStatus = -1) := by
    rintro (negative | failed)
    · omega
    · exact unset failed
  have counted : toCLong (c + data.length : Int) = (c + data.length : Nat) := toCLong_of_small (by omega) (by omega)
  have left : toCLong (size - (c + data.length : Nat) : Int) = (size - (c + data.length) : Nat) := by
    rw [toCLong_of_small (by omega) (by omega)]
    omega
  rw [readLoop, round_eq inside, perform_lseek]
  simp only [if_neg sought]
  rw [← Nat.cast_add offset c, Int.toNat_natCast, perform_filesystemRead _ _ _ positive]
  simp only [got, if_neg good]
  rw [perform_sendRwReq (reply_count whole (by omega) 0).whole, perform_sendData (by omega)]
  simp only [counted, left, Option.map_map, Function.comp_def]

theorem perform_receiveData {reply data : List Byte} {ret : Int} (told : Reply reply data.length ret)
    (small : data.length < 2 ^ 31)
    (buffer : List Byte) (cont : Int) (rest : List Byte) {α : Type} (next : List Byte → ClientM α) :
    perform silent (receiveData reply buffer cont >>= next) () (data ++ rest) =
      (perform silent (next (overwrite buffer cont.toNat data)) () rest).map
        fun run => { run with received := message data ++ run.received } := by
  rw [receiveData, told.size]
  split
  next => rw [bind_assoc, perform_read rfl small, pure_bind]
  next none =>
    have empty : data = [] := List.length_eq_zero_iff.mp (by omega)
    simp [empty, message, overwrite]

/-- One round of the client on what one round of the server sends, whatever its count has come to. -/
theorem perform_readReplies_next (size fuel : Nat) {cont : Int} {req reply data : List Byte} (buffer : List Byte)
    (sized : req.length = rwReqSize) (told : Reply reply data.length 0) (short : data.length < 2 ^ 31) (rest : List Byte) :
    perform silent (readReplies size (fuel + 1) cont req buffer) () (reply ++ (data ++ rest)) =
      (perform silent (if 0 < toCInt (size - toCInt (cont + data.length)) ∧ (data.length : Int) ≠ 0 then
          readReplies size fuel (toCInt (cont + data.length)) reply (overwrite buffer cont.toNat data)
        else pure (some ⟨toCInt (cont + data.length), overwrite buffer cont.toNat data⟩)) () rest).map
          fun run => { run with received := reply :: (message data ++ run.received) } := by
  have stored : overwrite req 0 reply = reply := by
    rw [overwrite_front, List.drop_eq_nil_of_le (by rw [sized, told.whole]), List.append_nil]
  have some : message reply = [reply] := by
    rw [message, if_neg]
    intro empty
    have := told.whole
    simp [empty, rwReqSize] at this
  have fine : ¬(0 : Int) < 0 := by decide
  have arrived : ¬((rwReqSize : Nat) : Int) < 0 := by omega
  have positive : ¬((data.length : Nat) : Int) < 0 := by omega
  rw [readReplies, perform_read told.whole (by simp only [rwReqSize]; omega)]
  simp only [stored, told.ret, if_neg arrived, if_neg fine]
  rw [perform_receiveData told short]
  simp only [told.size, if_neg positive, some, Option.map_map, Function.comp_def, List.singleton_append]

theorem perform_readReplies_round (small : size < 2 ^ 31) {c : Nat} (fuel : Nat) {req reply data : List Byte}
    (buffer : List Byte)
    (sized : req.length = rwReqSize) (told : Reply reply data.length 0) (inside : c + data.length ≤ size)
      (rest : List Byte) :
    perform silent (readReplies size (fuel + 1) c req buffer) () (reply ++ (data ++ rest)) =
      (perform silent (if 0 < ((size - (c + data.length) : Nat) : Int) ∧ (data.length : Int) ≠ 0 then
          readReplies size fuel (c + data.length : Nat) reply (overwrite buffer c data)
        else pure (some ⟨(c + data.length : Nat), overwrite buffer c data⟩)) () rest).map
          fun run => { run with received := reply :: (message data ++ run.received) } := by
  have counted : toCInt (c + data.length : Int) = (c + data.length : Nat) := toCInt_of_small (by omega) (by omega)
  have left : toCInt (size - (c + data.length : Nat) : Int) = (size - (c + data.length) : Nat) :=
    toCInt_sub_of_int (toCInt_of_small (by omega) (by omega)) inside
  rw [perform_readReplies_next size fuel buffer sized told (by omega) rest, counted, left, Int.toNat_natCast]

/-- The replies are heard one to one, and both sides stop after the same one. -/
theorem read_rounds (content : List Byte) (offset : Nat) (fd : Int) (small : size < 2 ^ 31) (fuel fuel' c : Nat)
    (inside : c < size) (enough : size - c < fuel)
    (enough' : size - c < fuel') {req req' : List Byte} (buffer : List Byte) (whole : req.length = rwReqSize)
    (unset : intAt req rwReqStatus ≠ -1) (whole' : req'.length = rwReqSize) (room : size ≤ buffer.length) (position : Nat) :
    ∃ (sent : List (List Byte)) (position' : Nat),
      (∀ inbox, perform XpnServer.LocalFile.answer (readLoop fd offset size
        (if (maxBufferSize : Int) < size then (maxBufferSize : Int) else size)
        fuel c (size - c : Nat) req) ⟨content, position⟩ inbox = some ⟨(), ⟨content, position'⟩, inbox, sent, []⟩) ∧
      ∀ more, perform silent (readReplies size fuel' c req' buffer) () (sent.flatten ++ more) =
        some ⟨some ⟨(c + (pread content (offset + c) (size - c)).length : Nat),
          overwrite buffer c (pread content (offset + c) (size - c))⟩,
          (), more, [], sent⟩ := by
  induction fuel generalizing fuel' c req req' buffer position with
  | zero => omega
  | succ fuel ih =>
    obtain ⟨fuel', rfl⟩ : ∃ k, fuel' = k + 1 := ⟨fuel' - 1, by omega⟩
    obtain ⟨data, got⟩ : ∃ data, pread content (offset + c) (min maxBufferSize (size - c)) = data := ⟨_, rfl⟩
    have bound : data.length ≤ min maxBufferSize (size - c) := by
      rw [← got, length_pread]
      omega
    have told := reply_count whole (show data.length < 2 ^ 31 by omega) 0
    have round := fun inbox => perform_readLoop_round fd small fuel inside whole unset position inbox got
    have heard := fun rest =>
      perform_readReplies_round small fuel' buffer whole' told (by omega : c + data.length ≤ size) rest
    have whole_rest : pread content (offset + c) (size - c) =
        data ++ pread content (offset + (c + data.length)) (size - (c + data.length)) := by
      have front : pread content (offset + c) data.length = data := by
        rw [← got]
        exact pread_length _ _ _
      have both := pread_add content (offset + c) data.length (size - (c + data.length))
      rwa [front, Nat.add_assoc, show data.length + (size - (c + data.length)) = size - c by omega] at both
    by_cases further : 0 < ((size - (c + data.length) : Nat) : Int) ∧ (data.length : Int) ≠ 0
    · obtain ⟨sent, position', served, replies⟩ := ih fuel' (c + data.length) (by omega) (by omega) (by omega)
        (overwrite buffer c data) told.whole (by rw [told.ret]; decide) told.whole
        (by rw [length_overwrite (by omega)]; exact room) (offset + c + data.length)
      refine ⟨rwReq req data.length 0 0 :: (message data ++ sent), position', ?_, ?_⟩
      · intro inbox
        rw [round, if_pos further, served, Option.map_some]
      · intro more
        have received := heard (sent.flatten ++ more)
        rw [if_pos further, replies, Option.map_some, overwrite_overwrite (by omega), ← whole_rest] at received
        rw [List.flatten_cons, List.flatten_append, flatten_message, List.append_assoc, List.append_assoc, received,
          whole_rest,
          List.length_append, Nat.add_assoc]
    · have all : pread content (offset + c) (size - c) = data := by
        rcases Nat.eq_zero_or_pos (size - (c + data.length)) with served | left
        · rw [whole_rest, served, pread_zero, List.append_nil]
        · -- An empty read before the end of the request has met the end of the file.
          have empty : data = [] := List.length_eq_zero_iff.mp (by omega)
          have ended : content.length ≤ offset + c := by
            have short := pread_short (show (pread content (offset + c) (min maxBufferSize (size - c))).length < _ by
              rw [got, empty]
              simp only [maxBufferSize, List.length_nil]
              omega)
            rwa [got, empty, List.length_nil, Nat.add_zero] at short
          rw [empty]
          apply List.length_eq_zero_iff.mp
          rw [length_pread]
          omega
      refine ⟨rwReq req data.length 0 0 :: message data, offset + c + data.length, ?_, ?_⟩
      · intro inbox
        rw [round, if_neg further]
        simp [perform]
      · intro more
        have received := heard more
        rw [if_neg further] at received
        rw [List.flatten_cons, flatten_message, List.append_assoc, received, all]
        simp [perform]

end

section
variable {head : List Byte} {fd : Int} {offset size : Nat} {session : Int}

/-- The server's side of a read that does not fail, with what the client makes of it. -/
theorem perform_opRead (fields : RwHead head fd offset size session) (opened : toCChar session = 1 → 0 ≤ toCInt fd)
    (place : offset < 2 ^ 63)
    (positive : 0 < size) (small : size < 2 ^ 31) {path : Path} {tail : List Byte} (memory : Nat → Byte)
    (unset : intAt (contents memory rwReqSize) rwReqStatus ≠ -1) (file : XpnServer.LocalFile)
    (located : ∀ (next : Path → ServerM Unit) (file : XpnServer.LocalFile) (rest : List Byte),
      perform XpnServer.LocalFile.answer (readMemberPath opRead head >>= next) file (tail ++ rest) =
        (perform XpnServer.LocalFile.answer (next path) file rest).map fun run =>
          { run with received := message tail ++ run.received })
    {fuel : Nat} (enough : size < fuel) {req : List Byte} (whole : req.length = rwReqSize) (buffer : List Byte)
    (room : size ≤ buffer.length) :
    ∃ (sent : List (List Byte)) (position : Nat),
      perform XpnServer.LocalFile.answer (xpnServerOpRead memory head) file tail =
        some ⟨(), ⟨file.content, position⟩, [], sent, message tail⟩ ∧
      perform silent (readReplies size fuel 0 req buffer) () sent.flatten =
        some ⟨some ⟨(pread file.content offset size).length, overwrite buffer 0 (pread file.content offset size)⟩,
          (), [], [], sent⟩ := by
  have int : toCLong size = size := toCLong_of_small (by omega) (by omega)
  have start : toCLong offset = offset := toCLong_of_small (by omega) (by omega)
  have one : ¬(1 : Int) = 0 := by decide
  obtain ⟨fd', first, opens⟩ := perform_rwOpen fields opened path XpnServer.oRdonly file [] fun opened => do
    readBody memory head opened
    if charAt head rwSession = 0 then do
      let _ ← ask (.filesystemClose opened.ret)
  have valid : ¬((fd' : Nat) : Int) < 0 := by omega
  obtain ⟨sent, position, served, heard⟩ := read_rounds file.content offset fd' small (size + 1) fuel 0
    positive (by omega) (by omega) buffer (length_contents memory rwReqSize) unset whole room first
  have body : perform XpnServer.LocalFile.answer (readBody memory head ⟨fd', 0, []⟩) ⟨file.content, first⟩ [] =
      some ⟨(), ⟨file.content, position⟩, [], sent, []⟩ := by
    simp only [readBody, if_neg valid, fields.size, fields.offset, int, start, perform_malloc, if_neg one]
    exact served []
  refine ⟨sent, position, ?_, by simpa using heard []⟩
  rw [xpnServerOpRead, withPath, ← List.append_nil tail, located, opens, perform_bind, body]
  split <;> simp [perform, perform_ask, XpnServer.LocalFile.answer]

end

/-! ### Both sides -/

/-- However the two sides take turns, they end in one state: the client has returned, all that
was sent was received, message by message and in both directions, and the server's file
is `content`. -/
def Transfers (client : ClientM (Option Returned)) (server : ServerM Turn) (file : XpnServer.LocalFile)
    (returned : Returned → Prop)
    (content : List Byte) : Prop :=
  ∃ last : Party Byte Empty Empty (Option Returned) Unit × Party Byte Call Answer Turn XpnServer.LocalFile,
    (∀ meeting, Lib.Conversation.Reaches silent XpnServer.LocalFile.answer (fresh client (), fresh server file) meeting →
      Lib.Conversation.Reaches silent XpnServer.LocalFile.answer meeting last) ∧
    (∃ result, last.1.dialogue = .done (some result) ∧ returned result) ∧ (∃ turn, last.2.dialogue = .done turn) ∧
    last.1.sent = last.2.received ∧ last.2.sent = last.1.received ∧ last.1.inbox = [] ∧ last.2.inbox = [] ∧
    last.2.world.content = content

theorem fits_opRead : PathMember.Fits opRead := ⟨by decide, by decide⟩

theorem fits_opWrite : PathMember.Fits opWrite := ⟨by decide, by decide⟩

section
variable {msg : List Byte} (whole : msg.length = msgSize) {dir : Path} (nulFree : 0 ∉ dir)
include whole nulFree

/-- The handler of a read finds the fields of the client. -/
theorem read_head (fd offset : Int) {size : Nat} (small : size < 2 ^ 64) (session : Int) (memory : Nat → Byte) :
    RwHead (inHead memory (body opRead (rwMsg msg fd offset size session) dir)) fd offset size session := by
  apply RwHead.of_same _ (rwMsg_fields whole fd offset small session)
  intro offset' count inside
  exact pread_body_apart fits_opRead (length_rwMsg whole fd offset size session) nulFree memory
    (show offset' + count ≤ 28 by omega)

omit nulFree in
theorem length_writeMsg (fd offset : Int) (size : Nat) (session : Int) :
    (store (rwMsg msg fd offset size session) rwFileType 4 0).length = msgSize := by
  have length := length_rwMsg whole fd offset size session
  rw [length_store (by rw [length]; decide), length]

theorem write_head (fd offset : Int) {size : Nat} (small : size < 2 ^ 64) (session : Int) (memory : Nat → Byte) :
    RwHead (inHead memory (body opWrite (store (rwMsg msg fd offset size session) rwFileType 4 0) dir)) fd offset
      size session ∧
      intAt (inHead memory (body opWrite (store (rwMsg msg fd offset size session) rwFileType 4 0) dir)) rwFileType = 0 := by
  have length := length_rwMsg whole fd offset size session
  have room : rwFileType + 4 ≤ (rwMsg msg fd offset size session).length := by
    rw [length]
    decide
  have carried := fun {offset' count : Nat} (inside : offset' + count ≤ 28) => pread_body_apart fits_opWrite
    (length_writeMsg whole fd offset size session) nulFree memory inside
  constructor
  · apply RwHead.of_same _ (rwMsg_fields whole fd offset small session)
    intro offset' count inside
    rw [carried (by omega), pread_store_apart room]
    simp only [rwFileType]
    omega
  · rw [intAt, carried (by decide), ← intAt, intAt_store room]
    rfl

end

theorem overwrite_whole {record data : List Byte} (same : record.length = data.length) : overwrite record 0 data = data := by
  rw [overwrite_front, List.drop_eq_nil_of_le same.le, List.append_nil]

theorem message_reply {reply : List Byte} {size ret : Int} (told : Reply reply size ret) : message reply = [reply] := by
  rw [message, if_neg]
  intro empty
  have := told.whole
  simp [empty, rwReqSize] at this

theorem perform_writeReply {req reply : List Byte} {n ret : Int} (whole : req.length = rwReqSize) (told : Reply reply n ret)
    (cont : Int) (rest : List Byte) :
    perform silent (writeReply req (some cont)) () (reply ++ rest) =
      some ⟨some ⟨if n < 0 then -1 else cont, reply⟩, (), rest, [], [reply]⟩ := by
  have arrived : ¬((rwReqSize : Nat) : Int) < 0 := by omega
  have stored : overwrite req 0 reply = reply := overwrite_whole (by rw [whole, told.whole])
  rw [writeReply, perform_read told.whole (by simp only [rwReqSize]; omega)]
  simp only [stored, told.size, false_or, arrived, message_reply told]
  rfl

theorem opening_writeReply (req : List Byte) (cont : Int) :
    (writeReply req (some cont)).opening = ([], writeReply req (some cont)) := rfl

/-- The client of a write sends the message and all the parts, and then waits for the reply. -/
theorem write_asks {msg : List Byte} (whole : msg.length = msgSize) (dir : CPath) (stack : Nat → Byte)
    (fd session published : Int)
    (buffer : List Byte) (offset : Int) {size s fuel : Nat} (int : toCInt size = s) (positive : 0 < s)
      (long : s ≤ buffer.length)
    (enough : s ≤ fuel) :
    (nfiXpnServerWrite msg stack fuel dir.text fd session false published buffer offset size).opening =
      (message (intBytes opWrite.opcode) ++ (message (body opWrite
        (store (rwMsg msg fd offset size session) rwFileType 4 0) dir.text) ++
        (message (pathTail dir.text) ++ parts (buffer.take s))), writeReply (contents stack rwReqSize) (some s)) := by
  have filled := length_writeMsg whole fd offset size session
  have nonzero : ¬size = 0 := by
    rintro rfl
    have : (0 : Int) = s := int
    omega
  rw [nfiXpnServerWrite]
  simp only [Bool.false_eq_true, if_false, if_neg nonzero, int]
  obtain ⟨ret, opens⟩ := opening_rwRequest fits_opWrite filled dir.nulFree dir.short fun ret =>
    if ret < 0 then pure (some ⟨-1, contents stack rwReqSize⟩) else do
      let sent ← writeParts buffer size (if (maxBufferSize : Int) < s then (maxBufferSize : Int) else s) fuel 0 s
      writeReply (contents stack rwReqSize) sent
  have sent : ¬((ret : Nat) : Int) < 0 := by omega
  rw [opens, if_neg sent]
  have parted := opening_writeParts int long (writeReply (contents stack rwReqSize)) fuel 0 positive (by omega)
  simp only [Nat.sub_zero, List.drop_zero, Nat.cast_zero, opening_writeReply, List.append_nil] at parted
  rw [parted]

theorem opening_readReplies (size fuel : Nat) (cont : Int) (req buffer : List Byte) :
    (readReplies size (fuel + 1) cont req buffer).opening = ([], readReplies size (fuel + 1) cont req buffer) := rfl

/-- The client of a read sends the message and then waits for replies. -/
theorem read_asks {msg : List Byte} (whole : msg.length = msgSize) (dir : CPath) (stack : Nat → Byte) (fd session : Int)
    (buffer : List Byte) (offset : Int) (size fuel : Nat) :
    (nfiXpnServerRead msg stack (fuel + 1) dir.text fd session buffer offset size).opening =
      (message (intBytes opRead.opcode) ++ (message (body opRead (rwMsg msg fd offset size session) dir.text) ++
        message (pathTail dir.text)), readReplies size (fuel + 1) 0 (contents stack rwReqSize) buffer) := by
  have filled := length_rwMsg whole fd offset size session
  obtain ⟨ret, opens⟩ := opening_rwRequest fits_opRead filled dir.nulFree dir.short fun ret =>
    if ret < 0 then pure (some ⟨-1, buffer⟩) else readReplies size (fuel + 1) 0 (contents stack rwReqSize) buffer
  have sent : ¬((ret : Nat) : Int) < 0 := by omega
  rw [nfiXpnServerRead, opens, if_neg sent, opening_readReplies, List.append_nil]

section
variable (dir : CPath) (heap stack memory : Nat → Byte) (typeOp : List Byte) (fd session : Int) (buffer : Nat → Byte)
    {offset : Nat} {size : UInt64} (content : List Byte) (position : Nat) {fuel : Nat}

theorem write_transfers (published : Int) (positive : 0 < size.toNat) (small : size.toNat < 2 ^ 31) (place : offset < 2 ^ 63)
    (opened : toCChar session = 1 → 0 ≤ toCInt fd) (enough : size.toNat ≤ fuel) :
    Transfers (ClientOp.run fuel heap stack (.write dir fd session false published buffer offset size))
      (xpnServerDispatcher memory typeOp) ⟨content, position⟩ (fun returned => returned.ret = size.toNat)
      (pwrite content offset (contents buffer size.toNat)) := by
  have whole : (contents heap msgSize).length = msgSize := length_contents heap msgSize
  have int : toCInt size.toNat = size.toNat := toCInt_of_small (by omega) (by omega)
  have data_length : (contents buffer size.toNat).length = size.toNat := length_contents _ _
  have filled := length_writeMsg whole fd offset size.toNat session
  obtain ⟨fields, plain⟩ := write_head whole dir.nulFree fd offset size.toNat_lt session memory
  have asks := write_asks whole dir stack fd session published
    (contents buffer size.toNat) offset int positive data_length.ge enough
  rw [List.take_of_length_le data_length.le] at asks
  obtain ⟨reply, position', told, wrote⟩ := perform_opWrite fields opened
    (by rw [plain]; decide) place int positive data_length memory
    ⟨content, position⟩ fun next file rest => perform_memberPath fits_opWrite filled dir.nulFree memory dir.short
      next file rest
  have known : XpnServer.operation opWrite.opcode = some ((body opWrite
    (store (rwMsg (contents heap msgSize) fd offset size.toNat
      session) rwFileType 4 0) dir.text).length, xpnServerOpWrite) := by
    rw [length_body fits_opWrite filled dir.nulFree]
    rfl
  have serves := perform_dispatcher XpnServer.LocalFile.answer memory typeOp known (by decide)
    (short_body fits_opWrite filled dir.nulFree)
    ⟨content, position⟩ (pathTail dir.text ++ contents buffer size.toNat)
  rw [wrote, Option.map_some] at serves
  have hears := perform_writeReply (length_contents stack rwReqSize) told size.toNat []
  rw [if_neg (by omega)] at hears
  let exchange : Exchange silent XpnServer.LocalFile.answer
      (ClientOp.run fuel heap stack (.write dir fd session false published buffer offset size)) ()
      (xpnServerDispatcher memory typeOp) ⟨content, position⟩ :=
    ⟨_, _, _, _, asks, by simpa [flatten_parts] using serves, by simpa using hears⟩
  refine ⟨exchange.last, fun _ run => exchange.inevitable run, ⟨_, rfl, rfl⟩, ⟨_, rfl⟩, ?_, rfl, rfl, rfl, rfl⟩
  simp [exchange, Exchange.last]

theorem read_transfers (positive : 0 < size.toNat) (small : size.toNat < 2 ^ 31) (place : offset < 2 ^ 63)
    (opened : toCChar session = 1 → 0 ≤ toCInt fd) (unset : intAt (contents memory rwReqSize) rwReqStatus ≠ -1)
      (enough : size.toNat < fuel) :
    Transfers (ClientOp.run fuel heap stack (.read dir fd session buffer offset size)) (xpnServerDispatcher memory typeOp)
      ⟨content, position⟩ (fun returned => returned.ret = (min size.toNat (content.length - offset) : Nat) ∧
        returned.record = overwrite (contents buffer size.toNat) 0 (pread content offset size.toNat)) content := by
  have whole : (contents heap msgSize).length = msgSize := length_contents heap msgSize
  have data_length : (contents buffer size.toNat).length = size.toNat := length_contents _ _
  have filled := length_rwMsg whole fd offset size.toNat session
  have fields := read_head whole dir.nulFree fd offset size.toNat_lt session memory
  obtain ⟨fuel, rfl⟩ : ∃ k, fuel = k + 1 := ⟨fuel - 1, by omega⟩
  have asks := read_asks whole dir stack fd session (contents buffer size.toNat) offset size.toNat fuel
  obtain ⟨sent, position', served, hears⟩ := perform_opRead fields opened place positive small memory unset
    ⟨content, position⟩
    (fun next file rest => perform_memberPath fits_opRead filled dir.nulFree memory dir.short next file rest) enough
    (length_contents stack rwReqSize) (contents buffer size.toNat) data_length.ge
  have known : XpnServer.operation opRead.opcode = some ((body opRead (rwMsg (contents heap msgSize) fd offset size.toNat
      session) dir.text).length, xpnServerOpRead) := by
    rw [length_body fits_opRead filled dir.nulFree]
    rfl
  have serves := perform_dispatcher XpnServer.LocalFile.answer memory typeOp known (by decide)
    (short_body fits_opRead filled dir.nulFree)
    ⟨content, position⟩ (pathTail dir.text)
  rw [served, Option.map_some] at serves
  let exchange : Exchange silent XpnServer.LocalFile.answer (ClientOp.run (fuel + 1) heap stack
    (.read dir fd session buffer offset size)) ()
      (xpnServerDispatcher memory typeOp) ⟨content, position⟩ := ⟨_, _, _, _, asks, by simpa using serves, hears⟩
  refine ⟨exchange.last, fun _ run => exchange.inevitable run, ⟨_, rfl, ?_, rfl⟩, ⟨_, rfl⟩, ?_, rfl, rfl, rfl, rfl⟩
  · rw [length_pread]
  · simp [exchange, Exchange.last]

/-- A write and a read of any size an `int` can count, at any offset of any file. -/
theorem data_transferred (published : Int) (positive : 0 < size.toNat) (small : size.toNat < 2 ^ 31)
    (place : offset < 2 ^ 63)
    (opened : toCChar session = 1 → 0 ≤ toCInt fd) (zeroed : intAt (contents memory rwReqSize) rwReqStatus = 0)
      (enough : size.toNat < fuel) :
    Transfers (ClientOp.run fuel heap stack (.write dir fd session false published buffer offset size))
      (xpnServerDispatcher memory typeOp) ⟨content, position⟩ (fun returned => returned.ret = size.toNat)
      (pwrite content offset (contents buffer size.toNat)) ∧
    Transfers (ClientOp.run fuel heap stack (.read dir fd session buffer offset size)) (xpnServerDispatcher memory typeOp)
      ⟨content, position⟩ (fun returned => returned.ret = (min size.toNat (content.length - offset) : Nat) ∧
        returned.record = overwrite (contents buffer size.toNat) 0 (pread content offset size.toNat)) content :=
  ⟨write_transfers dir heap stack memory typeOp fd session buffer content position published positive small place
    opened enough.le,
    read_transfers dir heap stack memory typeOp fd session buffer content position positive small place opened
      (by rw [zeroed]; decide) enough⟩

end

def aPath : CPath := ⟨[47, 97], by decide, by decide⟩

/-- Three bytes behind the end of a file of two, and back. -/
theorem data_transferred_behind_end :
    Transfers (ClientOp.run 8 (fun _ => 0) (fun _ => 0) (.write aPath 0 0 false 0 (fun _ => 7) 4 3))
      (xpnServerDispatcher (fun _ => 0) [0, 0, 0, 0]) ⟨[1, 2], 0⟩ (fun returned => returned.ret = 3) [1, 2, 0, 0, 7, 7, 7] ∧
    Transfers (ClientOp.run 8 (fun _ => 0) (fun _ => 0) (.read aPath 0 0 (fun _ => 7) 1 3))
      (xpnServerDispatcher (fun _ => 0) [0, 0, 0, 0]) ⟨[1, 2], 0⟩
      (fun returned => returned.ret = 1 ∧ returned.record = [2, 7, 7]) [1, 2] := by
  have zeroed : intAt (contents (fun _ => 0) rwReqSize) rwReqStatus = 0 := by decide
  exact ⟨(data_transferred aPath _ _ (fun _ => 0) _ 0 0 _ [1, 2] 0 0 (by decide) (by decide) (by decide) (by decide) zeroed
      (by decide)).1,
    (data_transferred aPath _ _ (fun _ => 0) _ 0 0 _ [1, 2] 0 0 (by decide) (by decide) (by decide) (by decide) zeroed
      (by decide)).2⟩

end Xpn.Proofs.Transfer
