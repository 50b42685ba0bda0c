import Xpn.XpnServerOps
import Xpn.NfiXpnServer
import Xpn.Proofs.PathTransport

/-! What the parts of a conversation have in common: a field reads back as it was stored, a
message is received as it was sent, and the front of every request takes the dispatcher to
the handler with the path it was given. -/

namespace Xpn.Proofs.Messages
open Lib.Conversation Lib.ByteFile Xpn.Messages XpnServer NfiXpnServer PathTransport
open Transport (xpnPathMax msgSize PathMember intBytes bytesInt fillPath pathTail)

theorem toCInt_of_small {value : Int} (low : -2 ^ 31 ≤ value) (high : value < 2 ^ 31) : toCInt value = value :=
  Int.bmod_eq_of_le (by omega) (by omega)

theorem toCLong_of_small {value : Int} (low : -2 ^ 63 ≤ value) (high : value < 2 ^ 63) : toCLong value = value :=
  Int.bmod_eq_of_le (by omega) (by omega)

private theorem unsigned_digits (width n : Nat) :
    unsigned ((List.range width).map fun i => UInt8.ofNat (n / 256 ^ i)) = n % 256 ^ width := by
  induction width generalizing n with
  | zero => simp [unsigned, Nat.mod_one]
  | succ width ih =>
    have shifted : ((List.range width).map fun i => UInt8.ofNat (n / 256 ^ (i + 1))) =
        (List.range width).map fun i => UInt8.ofNat (n / 256 / 256 ^ i) := by
      apply List.map_congr_left
      intro i _
      rw [Nat.div_div_eq_div_mul, Nat.pow_succ']
    have tail := ih (n / 256)
    rw [← shifted] at tail
    rw [List.range_succ_eq_map, List.map_cons, List.map_map, Nat.pow_succ', Nat.mod_mul]
    simp only [unsigned, List.foldr_cons, Function.comp_def, Nat.succ_eq_add_one] at tail ⊢
    rw [tail]
    simp

@[simp] theorem length_field (width : Nat) (value : Int) : (field width value).length = width := by simp [field]

theorem unsigned_field (width : Nat) (value : Int) : (unsigned (field width value) : Int) = value % 256 ^ width := by
  have positive : (0 : Int) < 256 ^ width := Int.pow_pos (by decide)
  have below := Int.emod_lt_of_pos value positive
  have nonneg := Int.emod_nonneg value positive.ne'
  rw [field, unsigned_digits, Nat.mod_eq_of_lt]
  · exact Int.toNat_of_nonneg nonneg
  · apply Int.ofNat_lt.mp
    rw [Int.toNat_of_nonneg nonneg]
    exact_mod_cast below

theorem unsigned_intBytes {n : Nat} (small : n < 2 ^ 32) : unsigned (intBytes n) = n := by
  rw [intBytes, unsigned_digits]
  exact Nat.mod_eq_of_lt small

@[simp] theorem length_contents (memory : Nat → Byte) (size : Nat) : (contents memory size).length = size := by
  simp [contents]

section
variable {record : List Byte} {offset width : Nat}

theorem length_store (inside : offset + width ≤ record.length) (value : Int) :
    (store record offset width value).length = record.length :=
  length_overwrite (by simpa using inside)

theorem pread_store (inside : offset + width ≤ record.length) (value : Int) :
    pread (store record offset width value) offset width = field width value := by
  rw [store, pread_overwrite (by omega) (by simp), overwrite_front, List.drop_eq_nil_of_le, List.append_nil]
  simp

theorem pread_store_apart {other count : Nat} (inside : offset + width ≤ record.length)
    (apart : other + count ≤ offset ∨ offset + width ≤ other) (value : Int) :
    pread (store record offset width value) other count = pread record other count :=
  pread_overwrite_apart (by omega) (by simpa using apart)

theorem intAt_store (inside : offset + 4 ≤ record.length) (value : Int) :
    intAt (store record offset 4 value) offset = toCInt value := by
  rw [intAt, pread_store inside, unsigned_field, toCInt, toCInt]
  exact Int.emod_bmod _ _

theorem longAt_store (inside : offset + 8 ≤ record.length) (value : Int) :
    longAt (store record offset 8 value) offset = toCLong value := by
  rw [longAt, pread_store inside, unsigned_field, toCLong, toCLong]
  exact Int.emod_bmod _ _

theorem charAt_store (inside : offset + 1 ≤ record.length) (value : Int) :
    charAt (store record offset 1 value) offset = toCChar value := by
  rw [charAt, pread_store inside, unsigned_field, toCChar, toCChar]
  exact Int.emod_bmod _ _

theorem sizeAt_store (inside : offset + 8 ≤ record.length) {size : Nat} (small : size < 2 ^ 64) :
    sizeAt (store record offset 8 size) offset = size := by
  have stored : (unsigned (field 8 size) : Int) = size := by
    rw [unsigned_field]
    exact Int.emod_eq_of_lt (by omega) (by omega)
  rw [sizeAt, pread_store inside]
  omega

end

def message (data : List Byte) : List (List Byte) := if data = [] then [] else [data]

@[simp] theorem flatten_message (data : List Byte) : (message data).flatten = data := by
  rw [message]
  split
  next empty => exact empty.symm
  next => simp

section
variable {κ ρ α S : Type} {answer : S → κ → ρ × S}

theorem commWriteData_eq (data : List Byte) {size : Nat} (inside : size ≤ data.length) (small : size < 2 ^ 31) :
    (commWriteData data size : Dialogue Byte κ ρ Int) =
      if data.take size = [] then .done size else .send (data.take size) .done := by
  rw [commWriteData, toCInt_of_small (by omega) (by omega)]
  cases size with
  | zero => rfl
  | succ size =>
    have some : data.take (size + 1) ≠ [] := by
      apply List.ne_nil_of_length_pos
      rw [List.length_take]
      omega
    have positive : (0 : Int) < (size + 1 : Nat) := by omega
    simp only [if_neg positive.ne', if_neg (Int.not_lt.mpr positive.le), Int.toNat_natCast, if_neg some]
    rfl

section
variable {data : List Byte} {size : Nat} (inside : size ≤ data.length) (small : size < 2 ^ 31)
include inside small

theorem perform_write (next : Int → Dialogue Byte κ ρ α) (world : S) (inbox : List Byte) :
    perform answer (commWriteData data size >>= next) world inbox =
      (perform answer (next size) world inbox).map
        fun run => { run with sent := message (data.take size) ++ run.sent } := by
  rw [commWriteData_eq data inside small, message]
  split
  next => simp
  next => simp [perform, Nat.min_eq_left inside]

theorem opening_write (next : Int → Dialogue Byte κ ρ α) :
    (commWriteData data size >>= next).opening =
      (message (data.take size) ++ (next size).opening.1, (next size).opening.2) := by
  rw [commWriteData_eq data inside small, message]
  split
  next => simp
  next => simp [Dialogue.opening, Nat.min_eq_left inside]

end

theorem perform_read {data : List Byte} {size : Nat} (exact : data.length = size) (small : size < 2 ^ 31) (next : Int × List Byte → Dialogue Byte κ ρ α)
    (world : S) (rest : List Byte) :
    perform answer (commReadData size >>= next) world (data ++ rest) =
      (perform answer (next (size, data)) world rest).map
        fun run => { run with received := message data ++ run.received } := by
  subst exact
  rw [commReadData, toCInt_of_small (by omega) (by omega), message]
  cases data with
  | nil => simp
  | cons first others =>
    have positive : ¬(((first :: others).length : Int) = 0) := by
      simp only [List.length_cons]
      omega
    have notNegative : ¬(((first :: others).length : Int) < 0) := by omega
    simp only [positive, notNegative, if_false, Int.toNat_natCast, Dialogue.receive_bind, Dialogue.pure_eq,
      Dialogue.done_bind, perform, List.length_append, Nat.le_add_right, if_true, List.take_left, List.drop_left,
      reduceCtorEq]
    rfl

end

section
variable {S α : Type} {answer : S → Call → Answer × S} {path : Path}

theorem perform_ask (request : Call) (next : Answer → ServerM α) (world : S) (inbox : List Byte) :
    perform answer (ask request >>= next) world inbox =
      perform answer (next (answer world request).1) (answer world request).2 inbox := rfl

theorem perform_sendRwReq {req : List Byte} (whole : req.length = rwReqSize) (next : Unit → ServerM α) (world : S)
    (inbox : List Byte) :
    perform answer (sendRwReq req >>= next) world inbox =
      (perform answer (next ()) world inbox).map fun run => { run with sent := req :: run.sent } := by
  have some : req ≠ [] := by
    intro empty
    simp [empty, rwReqSize] at whole
  rw [sendRwReq, bind_assoc, perform_write whole.ge (by simp only [rwReqSize]; omega), ← whole, List.take_length, message,
    if_neg some]
  rfl

theorem perform_sendData {data : List Byte} (small : data.length < 2 ^ 31) (errno : Int) (next : Unit → ServerM α) (world : S)
    (inbox : List Byte) :
    perform answer (sendData ⟨data.length, errno, data⟩ >>= next) world inbox =
      (perform answer (next ()) world inbox).map fun run => { run with sent := message data ++ run.sent } := by
  rw [sendData]
  split
  next => rw [bind_assoc, perform_write le_rfl small, List.take_length, pure_bind]
  next none =>
    have empty : data = [] := List.length_eq_zero_iff.mp (by simp only at none; omega)
    simp [empty, message]

/-- The handler gets the path, and reads only its tail. -/
theorem perform_readPath (nulFree : 0 ∉ path) (short : path.length < pathMax) (next : Path → ServerM α) (world : S)
    (rest : List Byte) :
    perform answer (xpnServerReadPath (pathField path) path.length >>= next) world (pathTail path ++ rest) =
      (perform answer (next path) world rest).map fun run => { run with received := message (pathTail path) ++ run.received } := by
  have string := readPath_pathTail nulFree short rest
  have fits : ¬((path.length : Int) < 0 ∨ (pathMax : Int) ≤ path.length) := by omega
  rw [Transport.xpnServerReadPath, if_neg fits] at string
  rw [xpnServerReadPath]
  by_cases long : xpnPathMax < path.length
  · have long' : (xpnPathMax : Int) < path.length := by exact_mod_cast long
    have tailed : ((path.length : Int) - xpnPathMax) = (pathTail path).length := by
      rw [pathTail_eq, List.length_drop]
      omega
    have small : (pathTail path).length < 2 ^ 31 := by
      have := length_small short
      rw [pathTail_eq, List.length_drop]
      omega
    simp only [Int.toNat_natCast, if_pos long, commReadData_append (show (pathTail path).length = path.length - xpnPathMax
      by rw [pathTail_eq, List.length_drop]), Option.map_some, Option.some.injEq, Prod.mk.injEq, and_true] at string
    have whole : ¬((pathTail path).length : Int) < 0 := by omega
    simp only [if_pos long', tailed, bind_assoc, perform_read rfl small, pure_bind, if_neg whole, Int.toNat_natCast, string]
  · have long' : ¬(xpnPathMax : Int) < path.length := by exact_mod_cast long
    have none : pathTail path = [] := by
      rw [pathTail_eq]
      exact List.drop_eq_nil_of_le (by omega)
    simp only [Int.toNat_natCast, if_neg long, Option.map_some, Option.some.injEq, Prod.mk.injEq] at string
    simp only [if_neg long', pure_bind, Int.toNat_natCast, string.1, none, message, if_true, List.nil_append]
    simp

theorem pread_inHead (memory : Nat → Byte) {body : List Byte} {offset count : Nat} (inside : offset + count ≤ body.length) :
    pread (inHead memory body) offset count = pread body offset count := by
  rw [inHead, overwrite_front]
  apply pread_congr
  intro i below
  rw [List.getElem?_append_left (by omega)]

theorem perform_doOperation {typeOp : Int} {body : List Byte} {handler : XpnServer.Handler} (memory : Nat → Byte)
    (known : XpnServer.operation typeOp = some (body.length, handler)) (short : body.length < 2 ^ 31)
    (next : Unit → ServerM α) (world : S) (rest : List Byte) :
    perform answer (xpnServerDoOperation memory typeOp >>= next) world (body ++ rest) =
      (perform answer (handler memory (inHead memory body) >>= next) world rest).map fun run =>
        { run with received := message body ++ run.received } := by
  have whole : (body.length : Int) ≠ -1 := by omega
  simp only [xpnServerDoOperation, known, bind_assoc, perform_read rfl short, if_pos whole]

variable (answer) in
/-- An opcode and a message of the size the server expects for it take the dispatcher to the
handler. -/
theorem perform_dispatcher {opcode : Nat} {body : List Byte} {handler : XpnServer.Handler} (memory : Nat → Byte) (typeOp : List Byte)
    (known : XpnServer.operation opcode = some (body.length, handler)) (small : opcode < 80)
    (short : body.length < 2 ^ 31) (world : S) (rest : List Byte) :
    perform answer (xpnServerDispatcher memory typeOp) world (intBytes opcode ++ (body ++ rest)) =
      (perform answer (handler memory (inHead memory body)) world rest).map fun run =>
        ⟨.goesOn (overwrite typeOp 0 (intBytes opcode)), run.world, run.inbox, run.sent,
          message (intBytes opcode) ++ (message body ++ run.received)⟩ := by
  have four : (intBytes opcode).length = 4 := length_intBytes opcode
  have code : intAt (overwrite typeOp 0 (intBytes opcode)) 0 = opcode := by
    rw [intAt, overwrite_front, pread, List.drop_zero, List.take_append_of_le_length (by omega),
      List.take_of_length_le (by omega), unsigned_intBytes (by omega)]
    exact toCInt_of_small (by omega) (by omega)
  have opened : ¬((opcode : Int) = disconnect ∨ (opcode : Int) = finalize) := by
    simp only [disconnect, finalize]
    omega
  have arrived : ¬((intBytes opcode).length : Int) < 0 := by omega
  rw [xpnServerDispatcher, show (4 : Int) = (intBytes opcode).length by omega, perform_read rfl (by omega)]
  simp only [if_neg arrived, code, if_neg opened]
  rw [perform_doOperation memory known short, perform_bind]
  simp only [Option.map_map, Function.comp_def]
  cases perform answer (handler memory (inHead memory body)) world rest with
  | none => rfl
  | some run => simp [perform]

def body (member : PathMember) (msg : List Byte) (path : Path) : List Byte :=
  (fillPath msg member.pathLen member.path path).take member.size

section
variable {member : PathMember} {msg : List Byte} (fits : PathMember.Fits member) (whole : msg.length = msgSize)
    (nulFree : 0 ∉ path)
include fits whole nulFree

theorem length_filled : (fillPath msg member.pathLen member.path path).length = msgSize := by
  have := fits.path
  have := fits.size
  rw [length_fillPath nulFree (show member.pathLen + 4 ≤ member.path from le_rfl) (by omega), whole]

theorem length_body : (body member msg path).length = member.size := by
  have := fits.size
  rw [body, List.length_take, length_filled fits whole nulFree]
  omega

theorem short_body : (body member msg path).length < 2 ^ 31 := by
  have := fits.size
  rw [length_body fits whole nulFree]
  simp only [msgSize] at this
  omega

/-- The other fields of the member are those the function has set. -/
theorem pread_body_apart (memory : Nat → Byte) {offset count : Nat} (inside : offset + count ≤ member.pathLen) :
    pread (inHead memory (body member msg path)) offset count = pread msg offset count := by
  have := fits.path
  have := fits.size
  have : member.path = member.pathLen + 4 := rfl
  have length := length_body fits whole nulFree
  rw [pread_inHead memory (by omega), body, pread_take (by omega), pread_fillPath_apart nulFree (show member.pathLen + 4 ≤ member.path from le_rfl)]
  all_goals omega

theorem perform_memberPath (memory : Nat → Byte) (short : path.length < pathMax) (next : Path → ServerM α) (world : S)
    (rest : List Byte) :
    perform answer (readMemberPath member (inHead memory (body member msg path)) >>= next) world (pathTail path ++ rest) =
      (perform answer (next path) world rest).map fun run => { run with received := message (pathTail path) ++ run.received } := by
  have := fits.path
  have := fits.size
  have : member.path = member.pathLen + 4 := rfl
  have length := length_body fits whole nulFree
  have small := length_small short
  have order : member.pathLen + 4 ≤ member.path := le_rfl
  have inside : member.path + xpnPathMax ≤ msg.length := by omega
  have text : pread (inHead memory (body member msg path)) member.path xpnPathMax = pathField path := by
    rw [pread_inHead memory (by omega), body, pread_take (by omega), pread_fillPath_text nulFree order inside]
  have len : intAt (inHead memory (body member msg path)) member.pathLen = path.length := by
    rw [intAt, pread_inHead memory (by omega), body, pread_take (by omega), pread_fillPath_length nulFree order inside,
      unsigned_intBytes (by omega)]
    exact toCInt_of_small (by omega) (by omega)
  rw [readMemberPath, text, len]
  exact perform_readPath nulFree short next world rest

end

end

section
variable {α : Type}

theorem opening_writeOperation (opcode : Nat) {size : Nat} {msg : List Byte} (inside : size ≤ msg.length) (small : size < 2 ^ 31)
    (next : Int → ClientM α) :
    (nfiWriteOperation opcode size msg >>= next).opening =
      (message (intBytes opcode) ++ (message (msg.take size) ++ (next size).opening.1), (next size).opening.2) := by
  have four : (intBytes opcode).length = 4 := length_intBytes opcode
  have sent : ¬((intBytes opcode).length : Int) < 0 := by omega
  rw [nfiWriteOperation, show (4 : Int) = (intBytes opcode).length by omega, bind_assoc, opening_write le_rfl (by omega)]
  simp only [if_neg sent, opening_write inside small, List.take_length]

theorem opening_tail {path : Path} (short : path.length < pathMax) (next : Int → ClientM α) :
    (commWriteData (path.drop xpnPathMax) (path.length - xpnPathMax : Nat) >>= next).opening =
      (message (pathTail path) ++ (next (path.length - xpnPathMax : Nat)).opening.1,
        (next (path.length - xpnPathMax : Nat)).opening.2) := by
  have small := length_small short
  have length : (path.drop xpnPathMax).length = path.length - xpnPathMax := List.length_drop
  rw [opening_write length.ge (by omega), pathTail_eq, ← length, List.take_length]

/-- The message of a read or a write, whatever code its last part gives. -/
theorem opening_rwRequest {member : PathMember} {msg : List Byte} {dir : Path} (fits : PathMember.Fits member)
    (whole : msg.length = msgSize) (nulFree : 0 ∉ dir) (short : dir.length < pathMax) (next : Int → ClientM α) :
    ∃ ret : Nat, (rwRequest msg member dir >>= next).opening =
      (message (intBytes member.opcode) ++ (message (body member msg dir) ++ (message (pathTail dir) ++ (next ret).opening.1)),
        (next ret).opening.2) := by
  have filled := length_filled fits whole nulFree
  have := fits.size
  have small : member.size < 2 ^ 31 := by
    simp only [msgSize] at this
    omega
  have sent : ¬(member.size : Int) < 0 := by omega
  rw [rwRequest, bind_assoc, opening_writeOperation _ (by omega) small]
  simp only [if_neg sent, body]
  split
  next =>
    refine ⟨dir.length - xpnPathMax, ?_⟩
    rw [opening_tail short]
  next fit =>
    refine ⟨member.size, ?_⟩
    have none : pathTail dir = [] := by
      rw [pathTail_eq]
      exact List.drop_eq_nil_of_le (by omega)
    rw [pure_bind, none]
    simp [message]

end

end Xpn.Proofs.Messages
