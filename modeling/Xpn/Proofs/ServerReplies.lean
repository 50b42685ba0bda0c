import Xpn.Lib.Surroundings
import Xpn.Proofs.Transfer

/-! What the replies of the server's reads and writes say about the calls behind them, for
every record that the stack may hold. A read takes a status left over from before for a
failure; a write that fails between two calls leaves the size that was there. -/

namespace Xpn.Proofs.ServerReplies
open Lib.Conversation Lib.ByteFile Transport Xpn.Messages Messages Transfer XpnServer

abbrev ServerEvent := Event Byte Call Answer

section
variable {S : Type} (around : Surroundings Byte Call Answer S)

theorem observe_ask {α : Type} (request : Call) (next : Answer → ServerM α) (world : S) :
    (observe around (ask request >>= next) world).events =
      .called request (around.call world request).1 ::
        (observe around (next (around.call world request).1) (around.call world request).2).events := rfl

theorem result_ask {α : Type} (request : Call) (next : Answer → ServerM α) (world : S) :
    (observe around (ask request >>= next) world).result =
      (observe around (next (around.call world request).1) (around.call world request).2).result := rfl

theorem sendRwReq_eq {req : List Byte} (whole : req.length = rwReqSize) : sendRwReq req = .send req fun _ => .done () := by
  have some : req ≠ [] := List.ne_nil_of_length_pos (by rw [whole]; decide)
  rw [sendRwReq, commWriteData_eq req whole.ge (by decide), ← whole, List.take_length, if_neg some]
  rfl

/-- A call that the reply should tell of. -/
def readCallFails : ServerEvent → Prop
  | .called (.malloc _) answer => answer.ret = 0
  | .called (.filesystemLseek _ _) answer => answer.ret = -1
  | .called (.filesystemRead _ _) answer => answer.ret < 0
  | _ => False

/-- Opening, allocating, seeking or reading fails before the first reply. No read succeeds for a
size that is negative as a `long`. -/
def ReadFails (opened : Answer) (head : List Byte) (events : List ServerEvent) : Prop :=
  opened.ret < 0 ∨ toCLong (sizeAt head rwSize) < 0 ∨ ∃ event ∈ beforeSent events, readCallFails event

/-- The first reply says -1 for a failure and nothing else. -/
def FirstReplyTells (failed : Prop) (events : List ServerEvent) : Prop :=
  ∃ record, firstSent events = some record ∧ (intAt record rwReqStatus = -1 ↔ failed)

theorem tells_append {quiet rest : List ServerEvent} {record : List Byte} {code : Int} {failed : Prop}
    (silent : ∀ event ∈ quiet, event.message = none) :
    FirstReplyTells failed (quiet ++ .sent record code :: rest) ↔ (intAt record rwReqStatus = -1 ↔ failed) := by
  simp only [FirstReplyTells, firstSent_append silent, Option.some.injEq, exists_eq_left']

theorem tells_sent {rest : List ServerEvent} {record : List Byte} {code : Int} {failed : Prop} :
    FirstReplyTells failed (.sent record code :: rest) ↔ (intAt record rwReqStatus = -1 ↔ failed) := by
  rw [← List.nil_append (Event.sent record code :: rest)]
  exact tells_append (by simp)

theorem status_rwReq {req : List Byte} (whole : req.length = rwReqSize) (size ret errno : Int) :
    intAt (rwReq req size ret errno) rwReqStatus = toCInt ret := (reply_rwReq whole size ret errno).ret

theorem toCInt_minus_one : toCInt (-1) = -1 := by decide

theorem observe_filesystemRead {α : Type} (fd count errno : Int) (next : Answer → ServerM α) (world : S) :
    ∃ quiet got after, (observe around (filesystemRead fd count errno >>= next) world).events =
      quiet ++ (observe around (next got) after).events ∧
      (∀ event ∈ quiet, event.message = none) ∧ (got.ret < 0 ↔ count < 0 ∨ ∃ event ∈ quiet, readCallFails event) := by
  rw [filesystemRead]
  split
  next nothing =>
    refine ⟨[], ⟨count, errno, []⟩, world, by rw [pure_bind]; rfl, by simp, ?_⟩
    simp
  next some =>
    rw [bind_assoc, observe_ask]
    have asked : ¬count < 0 := by omega
    generalize around.call world (.filesystemRead fd count.toNat) = answered
    by_cases failed : answered.1.ret < 0
    · refine ⟨[.called _ answered.1], ⟨-1, answered.1.errno, []⟩, answered.2, by rw [if_pos failed, pure_bind]; rfl, ?_, ?_⟩
      · simp [Event.message]
      · simp [readCallFails, failed]
    · refine ⟨[.called _ answered.1], _, answered.2, by rw [if_neg failed, pure_bind]; rfl, ?_, ?_⟩
      · simp [Event.message]
      · simp [readCallFails, failed, asked]

section
variable {req : List Byte} (whole : req.length = rwReqSize)
include whole

theorem observe_sendRwReq {α : Type} (next : Unit → ServerM α) (world : S) :
    ∃ code rest, (observe around (sendRwReq req >>= next) world).events = .sent req code :: rest := by
  rw [sendRwReq_eq whole]
  exact ⟨_, _, rfl⟩

theorem failure_reply (size errno : Int) (world : S) : ∃ record code rest,
    (observe around (sendRwReq (rwReq req size (-1) errno)) world).events = .sent record code :: rest ∧
      intAt record rwReqStatus = -1 := by
  obtain ⟨code, rest, sent⟩ := observe_sendRwReq around (reply_rwReq whole size (-1) errno).whole pure world
  refine ⟨_, code, rest, ?_, (status_rwReq whole size (-1) errno).trans toCInt_minus_one⟩
  rwa [bind_pure] at sent

theorem reply_after_read (got : Answer) (next : ServerM Unit) (world : S) : ∃ record code rest,
    (observe around (if got.ret < 0 ∨ intAt req rwReqStatus = -1 then sendRwReq (rwReq req (-1) (-1) got.errno)
      else sendRwReq (rwReq req got.ret 0 got.errno) >>= fun _ => next) world).events = .sent record code :: rest ∧
      (intAt record rwReqStatus = -1 ↔ got.ret < 0 ∨ intAt req rwReqStatus = -1) := by
  split
  next bad =>
    obtain ⟨record, code, rest, sent, status⟩ := failure_reply around whole (-1) got.errno world
    exact ⟨record, code, rest, sent, iff_of_true status bad⟩
  next good =>
    obtain ⟨code, rest, sent⟩ := observe_sendRwReq around (reply_rwReq whole got.ret 0 got.errno).whole (fun _ => next) world
    refine ⟨_, code, rest, sent, iff_of_false ?_ good⟩
    rw [status_rwReq whole]
    decide

/-- The first round tells, unless it takes what the memory held for a failure. -/
theorem readLoop_tells {opSize : Nat} {size s : Int} (sign : size < 0 ↔ s < 0) (round : (if size < s then size else s) = size)
    (fd offset : Int) (fuel : Nat) (world : S) :
    ∃ quiet record code rest, (observe around (readLoop fd offset opSize size (fuel + 1) 0 s req) world).events =
      quiet ++ .sent record code :: rest ∧
      (∀ event ∈ quiet, event.message = none) ∧
      (intAt record rwReqStatus = -1 ↔ s < 0 ∨ (∃ event ∈ quiet, readCallFails event) ∨ intAt req rwReqStatus = -1) := by
  rw [readLoop]
  dsimp only
  rw [round, observe_ask]
  by_cases lost : (around.call world (.filesystemLseek fd (offset + 0))).1.ret = -1
  · rw [if_pos lost]
    obtain ⟨record, code, rest, sent, status⟩ := failure_reply around whole (-1)
      (around.call world (.filesystemLseek fd (offset + 0))).1.errno (around.call world (.filesystemLseek fd (offset + 0))).2
    refine ⟨[.called _ _], record, code, rest, congrArg _ sent, by simp [Event.message], iff_of_true status ?_⟩
    exact Or.inr (Or.inl ⟨_, List.mem_cons_self, lost⟩)
  · rw [if_neg lost]
    obtain ⟨quiet, got, after, read, silent, fails⟩ := observe_filesystemRead around fd size
      (around.call world (.filesystemLseek fd (offset + 0))).1.errno _ (around.call world (.filesystemLseek fd (offset + 0))).2
    obtain ⟨record, code, rest, sent, status⟩ := reply_after_read around whole got _ after
    refine ⟨.called _ _ :: quiet, record, code, rest, congrArg _ (read.trans (congrArg (quiet ++ ·) sent)), ?_, ?_⟩
    · simpa [Event.message] using silent
    · have sought : ¬readCallFails
          (.called (.filesystemLseek fd (offset + 0)) (around.call world (.filesystemLseek fd (offset + 0))).1) := lost
      rw [status, fails, sign, or_assoc]
      simp only [List.mem_cons, exists_eq_or_imp, sought, false_or]

end

theorem capped_round (s : Int) : (if (if (maxBufferSize : Int) < s then (maxBufferSize : Int) else s) < s
    then (if (maxBufferSize : Int) < s then (maxBufferSize : Int) else s) else s) =
      if (maxBufferSize : Int) < s then (maxBufferSize : Int) else s := by
  by_cases large : (maxBufferSize : Int) < s
  · simp only [if_pos large]
  · simp only [if_neg large, lt_self_iff_false, if_false]

theorem capped_neg (s : Int) : (if (maxBufferSize : Int) < s then (maxBufferSize : Int) else s) < 0 ↔ s < 0 := by
  have max : (maxBufferSize : Int) = 1048576 := rfl
  split <;> omega

private theorem leftover_iff {opened negative failed leftover : Prop} (up : ¬opened) :
    ((negative ∨ failed ∨ leftover) ↔ (opened ∨ negative ∨ failed)) ↔ (leftover → opened ∨ negative ∨ failed) := by
  tauto

/-- A descriptor that is negative is -1, and no status of -1 is left over unless there is a failure
to tell of. -/
def ReadClear (memory : Nat → Byte) (opened : Answer) (failed : Prop) : Prop :=
  (opened.ret < 0 → toCInt opened.ret = -1) ∧ (intAt (contents memory rwReqSize) rwReqStatus = -1 → failed)

theorem read_tells_iff (memory : Nat → Byte) (head : List Byte) (opened : Answer) (world : S) {events : List ServerEvent}
    (observed : (observe around (readBody memory head opened) world).events = events) :
    FirstReplyTells (ReadFails opened head events) events ↔ ReadClear memory opened (ReadFails opened head events) := by
  have whole := length_contents memory rwReqSize
  have fresh : ∀ size ret errno, (rwReq (contents memory rwReqSize) size ret errno).length = rwReqSize := fun size ret errno =>
    (reply_rwReq whole size ret errno).whole
  rw [readBody] at observed
  by_cases closed : opened.ret < 0
  · obtain ⟨code, rest, sent⟩ := observe_sendRwReq around (fresh (-1) opened.ret opened.errno) pure world
    rw [if_pos closed, ← bind_pure (sendRwReq _), sent] at observed
    subst observed
    rw [tells_sent, status_rwReq whole]
    simp [ReadClear, ReadFails, closed]
  · rw [if_neg closed, observe_ask] at observed
    have clear : ReadClear memory opened (ReadFails opened head events) ↔
        (intAt (contents memory rwReqSize) rwReqStatus = -1 → ReadFails opened head events) := by simp [ReadClear, closed]
    rw [clear]
    have conclude : ∀ quiet record code rest, events = quiet ++ .sent record code :: rest →
      (∀ event ∈ quiet, event.message = none) →
        (intAt record rwReqStatus = -1 ↔ toCLong (sizeAt head rwSize) < 0 ∨ (∃ event ∈ quiet, readCallFails event) ∨
          intAt (contents memory rwReqSize) rwReqStatus = -1) →
        (FirstReplyTells (ReadFails opened head events) events ↔
          (intAt (contents memory rwReqSize) rwReqStatus = -1 → ReadFails opened head events)) := by
      rintro quiet record code rest rfl silent status
      rw [tells_append silent, status, ReadFails, beforeSent_append silent]
      exact leftover_iff closed
    generalize capped : (if (maxBufferSize : Int) < toCLong (sizeAt head rwSize) then (maxBufferSize : Int)
      else toCLong (sizeAt head rwSize)) = size
      at observed
    by_cases refused : (around.call world (.malloc size)).1.ret = 0
    · obtain ⟨record, code, rest, sent, status⟩ := failure_reply around whole (-1) (around.call world (.malloc size)).1.errno
        (around.call world (.malloc size)).2
      rw [if_pos refused, sent] at observed
      exact conclude [.called _ _] record code rest observed.symm (by simp [Event.message])
        (iff_of_true status (Or.inr (Or.inl ⟨_, List.mem_cons_self, refused⟩)))
    · have sign : size < 0 ↔ toCLong (sizeAt head rwSize) < 0 := by rw [← capped, capped_neg]
      have round : (if size < toCLong (sizeAt head rwSize) then size else toCLong (sizeAt head rwSize)) = size := by
        rw [← capped, capped_round]
      obtain ⟨quiet, record, code, rest, sent, silent, status⟩ :=
        readLoop_tells around whole sign round opened.ret (longAt head rwOffset)
        (sizeAt head rwSize) (around.call world (.malloc size)).2
      have granted : ¬readCallFails (.called (.malloc size) (around.call world (.malloc size)).1) := refused
      rw [if_neg refused, sent] at observed
      refine conclude (.called _ _ :: quiet) record code rest observed.symm ?_ ?_
      · simpa [Event.message] using silent
      · rw [status]
        simp only [List.mem_cons, exists_eq_or_imp, granted, false_or]

/-- An allocation or a write that reports a failure. -/
def writeCallFails : ServerEvent → Prop
  | .called (.malloc _) answer => answer.ret = 0
  | .called (.filesystemWrite _ _) answer => answer.ret < 0
  | _ => False

def transferFails : ServerEvent → Prop
  | .received _ code _ => code < 0
  | .called (.filesystemLseek _ _) answer => answer.ret < 0
  | _ => False

/-- A receipt that ends early without a failure, as at the end of the connection. -/
def cutShort : ServerEvent → Prop
  | .received count code data => 0 ≤ code ∧ data.length < count
  | _ => False

def writtenBy : ServerEvent → Nat
  | .called (.filesystemWrite _ data) answer => if answer.ret < 0 then 0 else data.length
  | _ => 0

def written (events : List ServerEvent) : Nat := (events.map writtenBy).sum

/-- How the rounds of a write can leave the reply, which held `req` before. -/
inductive WriteEnd (before : Nat) (req : List Byte) (events : List ServerEvent) (reply : List Byte) : Prop
  | complete (quiet : ∀ event ∈ events, ¬writeCallFails event ∧ ¬transferFails event)
      (size : longAt reply 0 = before + written events) (status : intAt reply rwReqStatus = 0)
  | writeFailed (fails : ∃ event ∈ events, writeCallFails event) (quiet : ∀ event ∈ events, ¬transferFails event)
      (size : longAt reply 0 = -1) (status : intAt reply rwReqStatus = -1)
  | transferFailed (fails : ∃ event ∈ events, transferFails event)
      (size : if written events = 0 then longAt reply 0 = longAt req 0 else 0 ≤ longAt reply 0)
      (status : intAt reply rwReqStatus = -1)

theorem written_append (first rest : List ServerEvent) : written (first ++ rest) = written first + written rest := by
  rw [written, List.map_append, List.sum_append]
  rfl

/-- Events that concern the transfer of a part only. -/
structure Transfers (quiet : List ServerEvent) : Prop where
  unwritten : written quiet = 0
  writes : ∀ event ∈ quiet, ¬writeCallFails event

theorem observe_commReadData {α : Type} {count : Nat} (small : count < 2 ^ 31) (next : Int × List Byte → ServerM α) (world : S) :
    ∃ quiet got after, (observe around (Messages.commReadData count >>= next) world).events =
      quiet ++ (observe around (next got) after).events ∧
      (observe around (Messages.commReadData count >>= next) world).result = (observe around (next got) after).result ∧
      Transfers quiet ∧ (got.1 < 0 ↔ ∃ event ∈ quiet, transferFails event) := by
  rw [Messages.commReadData, toCInt_of_small (by omega) (by omega)]
  split
  next nothing => exact ⟨[], (0, []), world, rfl, rfl, ⟨rfl, by simp⟩, by simp⟩
  next some =>
    rw [if_neg (by omega), Int.toNat_natCast, Dialogue.receive_bind]
    refine ⟨[.received count (around.receive world count).1.1 (around.receive world count).1.2], (around.receive world count).1,
      (around.receive world count).2, rfl, rfl, ⟨rfl, ?_⟩, ?_⟩
    · simp [writeCallFails]
    · simp [transferFails]

theorem observe_filesystemWrite {α : Type} {buffer : List Byte} {count : Nat} (room : count ≤ buffer.length) (fd errno : Int)
    (next : Answer → ServerM α) (world : S) :
    ∃ quiet got after, (observe around (filesystemWrite fd buffer count errno >>= next) world).events =
      quiet ++ (observe around (next got) after).events ∧
      (observe around (filesystemWrite fd buffer count errno >>= next) world).result = (observe around (next got) after).result ∧
      (∀ event ∈ quiet, ¬transferFails event) ∧
      ((got.ret = -1 ∧ ∃ event ∈ quiet, writeCallFails event) ∨
        got.ret = count ∧ written quiet = count ∧ ∀ event ∈ quiet, ¬writeCallFails event) := by
  rw [filesystemWrite]
  split
  next nothing =>
    have zero : count = 0 := by omega
    exact ⟨[], ⟨count, errno, []⟩, world, by rw [pure_bind]; rfl, by rw [pure_bind], by simp, Or.inr ⟨rfl, zero.symm, by simp⟩⟩
  next some =>
    rw [bind_assoc, Int.toNat_natCast]
    rw [observe_ask, result_ask]
    generalize around.call world (.filesystemWrite fd (buffer.take count)) = answered
    by_cases failed : answered.1.ret < 0
    · refine ⟨[.called (.filesystemWrite fd (buffer.take count)) answered.1], ⟨-1, answered.1.errno, []⟩,
        answered.2, by rw [if_pos failed, pure_bind]; rfl, by rw [if_pos failed, pure_bind], ?_, ?_⟩
      · simp [transferFails]
      · exact Or.inl ⟨rfl, _, List.mem_singleton_self _, failed⟩
    · refine ⟨[.called (.filesystemWrite fd (buffer.take count)) answered.1], ⟨count, answered.1.errno, []⟩,
        answered.2, by rw [if_neg failed, pure_bind]; rfl, by rw [if_neg failed, pure_bind], ?_, ?_⟩
      · simp [transferFails]
      · refine Or.inr ⟨rfl, ?_, ?_⟩
        · simp [written, writtenBy, failed, room]
        · simp [writeCallFails, failed]

/-- A failure to report leaves the size that was there. -/
theorem status_stored {req : List Byte} (whole : req.length = rwReqSize) (status : Int) :
    longAt (store req rwReqStatus 4 status) 0 = longAt req 0 ∧
      intAt (store req rwReqStatus 4 status) rwReqStatus = toCInt status := by
  have wide : rwReqSize = 24 := rfl
  have at12 : rwReqStatus = 12 := rfl
  constructor
  · rw [longAt, pread_store_apart (by omega) (by omega), ← longAt]
  · exact intAt_store (by omega) status

theorem size_stored {req : List Byte} (whole : req.length = rwReqSize) {size : Int} (low : -2 ^ 63 ≤ size) (high : size < 2 ^ 63) :
    (store req 0 8 size).length = rwReqSize ∧ longAt (store req 0 8 size) 0 = size := by
  have wide : rwReqSize = 24 := rfl
  constructor
  · rw [length_store (by omega), whole]
  · rw [longAt_store (by omega), toCLong_of_small low high]

theorem WriteEnd.prepend {before part : Nat} {req req' : List Byte} {front rest : List ServerEvent} {reply : List Byte}
    (ends : WriteEnd (before + part) req' rest reply) (quiet : ∀ event ∈ front, ¬writeCallFails event ∧ ¬transferFails event)
    (wrote : written front = part) (some : 0 < part) (stored : longAt req' 0 = part) :
      WriteEnd before req (front ++ rest) reply := by
  cases ends with
  | complete calm size status =>
    refine .complete (fun event member => ?_) ?_ status
    · rcases List.mem_append.mp member with early | late
      · exact quiet event early
      · exact calm event late
    · rw [size, written_append, wrote]
      push_cast
      exact Int.add_assoc _ _ _
  | writeFailed fails calm size status =>
    obtain ⟨event, late, failed⟩ := fails
    refine .writeFailed ⟨event, List.mem_append_right _ late, failed⟩ (fun event member => ?_) size status
    rcases List.mem_append.mp member with early | late
    · exact (quiet event early).2
    · exact calm event late
  | transferFailed fails size status =>
    obtain ⟨event, late, failed⟩ := fails
    refine .transferFailed ⟨event, List.mem_append_right _ late, failed⟩ ?_ status
    rw [written_append, wrote, if_neg (by omega)]
    split at size
    · rw [size, stored]
      exact Int.natCast_nonneg part
    · exact size

theorem count_stored {req : List Byte} (whole : req.length = rwReqSize) {n : Nat} (small : n < 2 ^ 31) :
    (store req 0 8 n).length = rwReqSize ∧ longAt (store req 0 8 n) 0 = n :=
  size_stored whole (by omega) (by omega)

theorem writeLoop_ends {opSize d : Nat} (int : toCInt opSize = d) {size : Int}
    (capped : size = if (maxBufferSize : Int) < d then (maxBufferSize : Int) else d)
    (fd offset : Int) : ∀ (fuel cont diff : Nat) (buffer req : List Byte) (errno : Int) (world : S), diff < fuel → cont + diff = d →
      req.length = rwReqSize → size ≤ buffer.length →
      WriteEnd cont req (observe around (writeLoop fd offset opSize size fuel cont diff buffer req errno) world).events
        (observe around (writeLoop fd offset opSize size fuel cont diff buffer req errno) world).result.1 := by
  have limit := small_of_int int
  have max : (maxBufferSize : Int) = 1048576 := rfl
  intro fuel
  induction fuel with
  | zero =>
    intro cont diff buffer req errno world enough
    exact absurd enough (Nat.not_lt_zero diff)
  | succ fuel ih =>
    intro cont diff buffer req errno world enough total whole room
    obtain ⟨part, part_eq⟩ : ∃ part : Nat, (if size < diff then size else diff) = part := by
      refine ⟨(if size < diff then size else diff).toNat, ?_⟩
      split at capped <;> split <;> omega
    have fits : part ≤ diff ∧ (part : Int) ≤ size := by
      split at capped <;> split at part_eq <;> omega
    have moves : 0 < diff → 0 < part := by
      split at capped <;> split at part_eq <;> omega
    have small : part < 2 ^ 31 := by omega
    have inside : cont + part ≤ d := by omega
    have counted : cont + part < 2 ^ 31 := by omega
    have advanced : toCInt ((cont : Int) + part) = (cont + part : Nat) := toCInt_of_small (by omega) (by omega)
    have left : toCInt (opSize - (cont + part : Nat)) = (d - (cont + part) : Nat) := toCInt_sub_of_int int inside
    have rest_total : cont + part + (d - (cont + part)) = d := by omega
    have decreases : 0 < part → d - (cont + part) < fuel := by omega
    have grown : ∀ data : List Byte, buffer.length ≤ (overwrite buffer 0 data).length := fun data => by
      rw [overwrite_front, List.length_append, List.length_drop]
      omega
    have partFits : part ≤ buffer.length := by omega
    rw [writeLoop]
    dsimp only
    rw [part_eq]
    obtain ⟨receipt, ⟨code, data⟩, after, events_eq, result_eq, quiet, fails⟩ := observe_commReadData around small _ world
    rw [events_eq, result_eq]
    dsimp only at fails ⊢
    by_cases lost : code < 0
    · rw [if_pos lost, observe_pure, List.append_nil]
      refine .transferFailed (fails.mp lost) ?_ ((status_stored whole _).2.trans toCInt_minus_one)
      rw [quiet.unwritten, if_pos rfl]
      exact (status_stored whole _).1
    have calm : ∀ event ∈ receipt, ¬transferFails event := fun event member failed => lost (fails.mpr ⟨event, member, failed⟩)
    rw [if_neg lost, observe_ask, result_ask]
    generalize around.call after (.filesystemLseek fd (offset + cont)) = sought
    by_cases missed : sought.1.ret < 0
    · rw [if_pos missed, observe_pure]
      refine .transferFailed ⟨_, List.mem_append_right _ List.mem_cons_self, missed⟩ ?_
        ((status_stored whole _).2.trans toCInt_minus_one)
      rw [written_append, quiet.unwritten, if_pos (by simp [written, writtenBy])]
      exact (status_stored whole _).1
    rw [if_neg missed]
    have seeks : ∀ answer : Answer, ¬answer.ret < 0 → ¬writeCallFails (.called (.filesystemLseek fd (offset + cont)) answer) ∧
        ¬transferFails (.called (.filesystemLseek fd (offset + cont)) answer) := fun answer found => ⟨id, found⟩
    obtain ⟨call, wrote, final, events_eq, result_eq, still, outcome⟩ :=
      observe_filesystemWrite around (partFits.trans (grown data)) fd sought.1.errno _ sought.2
    rw [events_eq, result_eq]
    rcases outcome with ⟨minus, event, member, failed⟩ | ⟨all, count, fine⟩
    · have stored := size_stored whole (show -2 ^ 63 ≤ (-1 : Int) by decide) (by decide)
      rw [minus, if_pos (by decide), observe_pure]
      refine .writeFailed ⟨event, by simp [member], failed⟩ ?_ ((status_stored stored.1 _).1.trans stored.2)
        ((status_stored stored.1 _).2.trans toCInt_minus_one)
      intro event member
      simp only [List.append_nil, List.mem_append, List.mem_cons] at member
      rcases member with early | rfl | late
      · exact calm event early
      · exact missed
      · exact still event late
    · have stored := count_stored whole small
      have front : written (receipt ++ .called (.filesystemLseek fd (offset + cont)) sought.1 :: call) = part := by
        rw [written_append, quiet.unwritten, Nat.zero_add, ← count]
        exact Nat.zero_add _
      have clear : ∀ event ∈ receipt ++ .called (.filesystemLseek fd (offset + cont)) sought.1 :: call,
          ¬writeCallFails event ∧ ¬transferFails event := by
        intro event member
        simp only [List.mem_append, List.mem_cons] at member
        rcases member with early | rfl | late
        · exact ⟨quiet.writes event early, calm event early⟩
        · exact seeks _ missed
        · exact ⟨fine event late, still event late⟩
      rw [all, if_neg (Int.natCast_nonneg part).not_gt, advanced, left]
      by_cases goes : (0 : Int) < (d - (cont + part) : Nat) ∧ (part : Int) ≠ 0
      · have some : 0 < part := Nat.pos_of_ne_zero fun zero => goes.2 (congrArg Nat.cast zero)
        rw [if_pos goes]
        have rest := ih (cont + part) (d - (cont + part)) (overwrite buffer 0 data)
          (store req 0 8 part) wrote.errno final (decreases some) rest_total
          stored.1 (room.trans (Int.ofNat_le.mpr (grown data)))
        have joined : WriteEnd cont req _ _ := rest.prepend clear front some stored.2
        rwa [List.append_assoc] at joined
      · rw [if_neg goes, observe_pure, List.append_nil]
        have last := count_stored stored.1 counted
        refine .complete clear ?_ ((status_stored last.1 _).2.trans (by decide))
        rw [(status_stored last.1 _).1.trans last.2, front]
        push_cast
        rfl

/-- A receipt or a seek reports a failure. A receipt of a size that is negative as an `int` does. -/
def TransferFails (opened : Answer) (head : List Byte) (events : List ServerEvent) : Prop :=
  (∃ event ∈ events, transferFails event) ∨
    toCInt (sizeAt head rwSize) < 0 ∧ ¬opened.ret < 0 ∧ ∀ event ∈ events, ¬writeCallFails event

/-- A call reports a failure. -/
def WriteReported (opened : Answer) (head : List Byte) (events : List ServerEvent) : Prop :=
  opened.ret < 0 ∨ (∃ event ∈ events, writeCallFails event) ∨ TransferFails opened head events

/-- A failure shows in size and status, a success in the number of bytes. -/
def ReplyTells (failed : Prop) (events : List ServerEvent) (reply : List Byte) : Prop :=
  (failed → longAt reply 0 < 0 ∧ intAt reply rwReqStatus = -1) ∧
    (¬failed → longAt reply 0 = written events ∧ intAt reply rwReqStatus = 0)

/-- A receipt or a seek fails only before anything is written and with a negative size left over,
and a receipt is cut short only where another failure is reported. -/
def WriteClear (memory : Nat → Byte) (opened : Answer) (head : List Byte) (events : List ServerEvent) : Prop :=
  (TransferFails opened head events → written events = 0 ∧ longAt (contents memory rwReqSize) 0 < 0) ∧
    ((∃ event ∈ events, cutShort event) → WriteReported opened head events)

/-- A negative size is refused by the receipt. -/
theorem writeLoop_negative {size d : Int} (part : (if size < d then size else d) = size) (low : -2 ^ 31 ≤ size) (below : size < 0)
    (fd offset : Int) (opSize fuel : Nat) (buffer req : List Byte) (errno : Int) (world : S) :
    observe around (writeLoop fd offset opSize size (fuel + 1) 0 d buffer req errno) world =
      ⟨(store req rwReqStatus 4 (-1), errno), world, []⟩ := by
  have refusal : (Messages.commReadData size : ServerM (Int × List Byte)) = pure (-1, []) := by
    rw [Messages.commReadData, toCInt_of_small low (below.trans (by decide)), if_neg below.ne, if_pos below]
  rw [writeLoop]
  dsimp only
  rw [part, refusal, pure_bind, if_pos (by decide), observe_pure]

/-- What the rounds leave behind an allocation that was granted. -/
theorem ends_tells_iff {memory : Nat → Byte} {head : List Byte} {opened : Answer} {allocation : ServerEvent}
    {events : List ServerEvent}
    {reply : List Byte} (ends : WriteEnd 0 (contents memory rwReqSize) events reply) (up : ¬opened.ret < 0)
    (nonneg : ¬toCInt (sizeAt head rwSize) < 0) (granted : ¬writeCallFails allocation) (quiet : ¬transferFails allocation)
    (whole : ¬cutShort allocation) (unwritten : writtenBy allocation = 0) :
    ReplyTells (WriteReported opened head (allocation :: events) ∨ ∃ event ∈ allocation :: events, cutShort event)
      (allocation :: events) reply ↔
      WriteClear memory opened head (allocation :: events) := by
  have count : written (allocation :: events) = written events := by simp [written, unwritten]
  simp only [WriteClear, ReplyTells, WriteReported, TransferFails, up, nonneg, count, List.mem_cons,
    exists_eq_or_imp, granted, quiet, whole,
    false_or, false_and, or_false]
  cases ends with
  | complete calm size status =>
    have noWrite : ¬∃ event ∈ events, writeCallFails event := fun ⟨event, member, failed⟩ => (calm event member).1 failed
    have noTransfer : ¬∃ event ∈ events, transferFails event := fun ⟨event, member, failed⟩ => (calm event member).2 failed
    have nonneg : ¬longAt reply 0 < 0 := by omega
    simp only [noWrite, noTransfer, false_or, size, status]
    by_cases cut : ∃ event ∈ events, cutShort event
    · simp [cut]
    · simp [cut]
  | writeFailed fails calm size status =>
    have noTransfer : ¬∃ event ∈ events, transferFails event := fun ⟨event, member, failed⟩ => calm event member failed
    simp [fails, noTransfer, size, status]
  | transferFailed fails size status =>
    simp only [fails, status, or_true, true_or, true_imp_iff, not_true_eq_false, false_imp_iff, and_true, imp_true_iff]
    split at size
    next nothing => simp [size, nothing]
    next some => simp [some, size]

theorem write_tells_iff (memory : Nat → Byte) (head : List Byte) (opened : Answer) (world : S) {events : List ServerEvent}
    {reply : List Byte} (did : (observe around (writeBody memory head opened) world).events = events)
    (left : (observe around (writeBody memory head opened) world).result.1 = reply) :
    ReplyTells (WriteReported opened head events ∨ ∃ event ∈ events, cutShort event) events reply ↔
      WriteClear memory opened head events := by
  have whole := length_contents memory rwReqSize
  have failure := size_stored whole (show -2 ^ 63 ≤ (-1 : Int) by decide) (by decide)
  have told : longAt (store (store (contents memory rwReqSize) 0 8 (-1)) rwReqStatus 4 (-1)) 0 = -1 ∧
      intAt (store (store (contents memory rwReqSize) 0 8 (-1)) rwReqStatus 4 (-1)) rwReqStatus = -1 :=
    ⟨(status_stored failure.1 _).1.trans failure.2, (status_stored failure.1 _).2.trans toCInt_minus_one⟩
  rw [writeBody] at did left
  by_cases closed : opened.ret < 0
  · rw [if_pos closed, observe_pure] at did left
    subst did left
    simp [ReplyTells, WriteReported, WriteClear, TransferFails, closed, told]
  rw [if_neg closed, observe_ask] at did
  rw [if_neg closed, result_ask] at left
  generalize capped : (if (maxBufferSize : Int) < toCInt (sizeAt head rwSize) then (maxBufferSize : Int)
    else toCInt (sizeAt head rwSize)) = size
    at did left
  generalize around.call world (.malloc size) = buffer at did left
  by_cases refused : buffer.1.ret = 0
  · rw [if_pos refused, observe_pure] at did left
    subst did left
    simp [ReplyTells, WriteReported, WriteClear, TransferFails, writeCallFails, transferFails, cutShort, refused, closed, told]
  rw [if_neg refused] at did left
  by_cases negative : toCInt (sizeAt head rwSize) < 0
  · have part : (if size < toCInt (sizeAt head rwSize) then size else toCInt (sizeAt head rwSize)) = size := by
      rw [← capped, capped_round]
    have below : size < 0 := by rwa [← capped, capped_neg]
    have low : -2 ^ 31 ≤ size := by
      have range : -(2 ^ 32 / 2 : Int) ≤ toCInt (sizeAt head rwSize) := Int.le_bmod (by decide)
      rw [← capped, if_neg (by have max : (maxBufferSize : Int) = 1048576 := rfl; omega)]
      exact range
    rw [writeLoop_negative around part low below] at did left
    rw [← did, ← left]
    have stored := status_stored whole (-1)
    simp [ReplyTells, WriteReported, WriteClear, TransferFails, writeCallFails, transferFails, cutShort,
      refused, closed, negative, stored,
      toCInt_minus_one, written, writtenBy]
  · obtain ⟨d, int⟩ := Int.eq_ofNat_of_zero_le (not_lt.mp negative)
    rw [int] at capped did left
    have ends := writeLoop_ends around int capped.symm opened.ret (longAt head rwOffset)
      (sizeAt head rwSize + 1) 0 d (contents memory size.toNat)
      (contents memory rwReqSize) buffer.1.errno buffer.2 (Nat.lt_succ_of_le (le_of_int int)) (Nat.zero_add d) whole (by
        rw [length_contents]
        exact Int.self_le_toNat size)
    rw [← did]
    rw [← left]
    exact ends_tells_iff ends closed negative refused id id rfl

theorem length_writeLoop (fd offset size : Int) (opSize : Nat) : ∀ (fuel : Nat) (cont diff : Int)
    (buffer req : List Byte) (errno : Int) (world : S),
    req.length = rwReqSize →
      (observe around (writeLoop fd offset opSize size fuel cont diff buffer req errno) world).result.1.length = rwReqSize := by
  have kept : ∀ {req : List Byte} (status : Int), req.length = rwReqSize → (store req rwReqStatus 4 status).length = rwReqSize :=
    fun {req} status whole => by rw [length_store (by rw [whole]; decide), whole]
  have sized : ∀ {req : List Byte} (size : Int), req.length = rwReqSize → (store req 0 8 size).length = rwReqSize :=
    fun {req} size whole => by rw [length_store (by rw [whole]; decide), whole]
  intro fuel
  induction fuel with
  | zero => exact fun _ _ _ _ _ _ whole => whole
  | succ fuel ih =>
    intro cont diff buffer req errno world whole
    rw [writeLoop]
    dsimp only
    generalize (if size < diff then size else diff) = part
    rw [observe_bind]
    dsimp only
    split
    · exact kept (-1) whole
    · rw [result_ask]
      split
      · exact kept (-1) whole
      · rw [observe_bind]
        dsimp only
        split
        · exact kept (-1) (sized _ whole)
        · split
          · exact ih _ _ _ _ _ _ (sized _ whole)
          · exact kept 0 (sized _ (sized _ whole))

def writeReply (memory : Nat → Byte) (head : List Byte) (opened : Answer) (world : S) : List Byte :=
  let left := (observe around (writeBody memory head opened) world).result
  store left.1 (rwReqStatus + 4) 4 left.2

theorem writeReply_fields (memory : Nat → Byte) (head : List Byte) (opened : Answer) (world : S) :
    longAt (writeReply around memory head opened world) 0 =
      longAt (observe around (writeBody memory head opened) world).result.1 0 ∧
      intAt (writeReply around memory head opened world) rwReqStatus =
        intAt (observe around (writeBody memory head opened) world).result.1 rwReqStatus := by
  have fresh : (store (store (contents memory rwReqSize) 0 8 (-1)) rwReqStatus 4 (-1)).length = rwReqSize := by
    rw [length_store, length_store, length_contents]
    all_goals simp [length_store, rwReqSize, rwReqStatus]
  have whole : (observe around (writeBody memory head opened) world).result.1.length = rwReqSize := by
    rw [writeBody]
    split
    · exact fresh
    · generalize (if (maxBufferSize : Int) < toCInt (sizeAt head rwSize) then (maxBufferSize : Int)
        else toCInt (sizeAt head rwSize)) = size
      rw [result_ask]
      split
      · exact fresh
      · exact length_writeLoop around _ _ _ _ _ _ _ _ _ _ _ (length_contents memory rwReqSize)
  have wide : rwReqSize = 24 := rfl
  have at12 : rwReqStatus = 12 := rfl
  constructor
  · rw [writeReply, longAt, pread_store_apart (by omega) (by omega), ← longAt]
  · rw [writeReply, intAt, pread_store_apart (by omega) (by omega), ← intAt]

def readEvents (memory : Nat → Byte) (head : List Byte) (opened : Answer) (world : S) : List ServerEvent :=
  (observe around (readBody memory head opened) world).events

def writeEvents (memory : Nat → Byte) (head : List Byte) (opened : Answer) (world : S) : List ServerEvent :=
  (observe around (writeBody memory head opened) world).events

/-- The first reply to a read says -1 for failures only, and the reply to a write tells every
failure from a success. -/
def RepliesTell (memory : Nat → Byte) (head : List Byte) (opened : Answer) (world : S) : Prop :=
  FirstReplyTells (ReadFails opened head (readEvents around memory head opened world))
    (readEvents around memory head opened world) ∧
    ReplyTells (WriteReported opened head (writeEvents around memory head opened world) ∨
        ∃ event ∈ writeEvents around memory head opened world, cutShort event)
      (writeEvents around memory head opened world) (writeReply around memory head opened world)

theorem replies_tell_iff (memory : Nat → Byte) (head : List Byte) (opened : Answer) (world : S) :
    RepliesTell around memory head opened world ↔
      ReadClear memory opened (ReadFails opened head (readEvents around memory head opened world)) ∧
        WriteClear memory opened head (writeEvents around memory head opened world) := by
  have read := read_tells_iff around memory head opened world rfl
  have write := write_tells_iff around memory head opened world rfl rfl
  obtain ⟨size, status⟩ := writeReply_fields around memory head opened world
  rw [RepliesTell, readEvents, read, ReplyTells, size, status]
  exact and_congr_right fun _ => write

end

/-- The record starts with a status of -1, and a read of nothing succeeds. -/
theorem stale_status_told : ¬∀ (around : Surroundings Byte Call Answer Unit) (memory : Nat → Byte)
    (head : List Byte) (opened : Answer),
    RepliesTell around memory head opened () := by
  intro always
  have tells := (always ⟨fun _ _ => (0, ()), fun _ _ => ((0, []), ()), fun _ _ => (⟨1, 0, []⟩, ())⟩ (fun _ => 255) [] ⟨3, 0, []⟩).1
  have clear := (read_tells_iff _ (fun _ => 255) [] ⟨3, 0, []⟩ () rfl).mp tells
  have quiet : beforeSent (readEvents (S := Unit) ⟨fun _ _ => (0, ()), fun _ _ => ((0, []), ()), fun _ _ =>
    (⟨1, 0, []⟩, ())⟩ (fun _ => 255) []
      ⟨3, 0, []⟩ ()) = [.called (.malloc 0) ⟨1, 0, []⟩, .called (.filesystemLseek 3 0) ⟨1, 0, []⟩] := rfl
  rcases clear.2 (by decide) with down | negative | ⟨event, member, failed⟩
  · exact absurd down (by decide)
  · exact absurd negative (by decide)
  · rw [readEvents] at quiet
    rw [quiet] at member
    rcases List.mem_cons.mp member with rfl | later
    · exact absurd failed (by simp [readCallFails])
    · rw [List.mem_singleton.mp later] at failed
      exact absurd failed (by simp [readCallFails])

end Xpn.Proofs.ServerReplies
