import Xpn.Lib.Surroundings
import Xpn.NfiXpnServer
import Xpn.Proofs.Messages

/-! What the client makes of a request that fails. A short path sends its request through
`nfi_xpn_server_do_request`, whose code nobody looks at, so all that is left of a failure is the
record: what arrived of it, over what the stack held. -/

namespace Xpn.Proofs.ClientFailures
open Lib.Conversation Lib.ByteFile Transport Xpn.Messages Messages NfiXpnServer

abbrev ClientEvent := Event Byte Empty Empty

def Negative : ClientEvent → Prop
  | .sent _ code => code < 0
  | .received _ code _ => code < 0
  | .called _ _ => False

def IsSent : ClientEvent → Prop
  | .sent _ _ => True
  | _ => False

/-- The record after what was received in these events. -/
def arrived (record : List Byte) (events : List ClientEvent) : List Byte :=
  events.foldl (fun record event => match event with
    | .received _ _ data => overwrite record 0 data
    | _ => record) record

theorem arrived_append (record : List Byte) (first rest : List ClientEvent) :
    arrived record (first ++ rest) = arrived (arrived record first) rest := List.foldl_append

theorem arrived_sent (record : List Byte) {events : List ClientEvent} (sent : ∀ event ∈ events, IsSent event) :
    arrived record events = record := by
  induction events with
  | nil => rfl
  | cons event events ih =>
    have rest := ih fun other member => sent other (List.mem_cons_of_mem _ member)
    cases event with
    | sent message code => exact rest
    | received count code data => exact (sent _ List.mem_cons_self).elim
    | called request answer => exact request.elim

/-! ### One call on the connection -/

theorem minus_one_neg : (-1 : Int) < 0 := by decide

/-- Sends, and a code that is negative if and only if one of theirs is. -/
structure Sends (ret : Int) (events : List ClientEvent) : Prop where
  sent : ∀ event ∈ events, IsSent event
  told : ret < 0 ↔ ∃ event ∈ events, Negative event

theorem Sends.nothing {ret : Int} (nonneg : 0 ≤ ret) : Sends ret [] where
  sent event member := by cases member
  told := by
    refine iff_of_false (not_lt.mpr nonneg) ?_
    rintro ⟨event, member, -⟩
    cases member

theorem sends_commWriteData (data : List Byte) {size : Int} (low : 0 ≤ size) (high : size < 2 ^ 31) :
    Always (commWriteData data size : ClientM Int) Sends := by
  rw [commWriteData, toCInt_of_small (by omega) high]
  by_cases empty : size = 0
  · rw [if_pos empty, Dialogue.pure_eq, always_done]
    exact .nothing le_rfl
  · rw [if_neg empty, if_neg (by omega), always_send]
    intro code
    rw [Dialogue.pure_eq, always_done]
    refine ⟨?_, ?_⟩
    · intro event member
      rw [List.mem_singleton.mp member]
      trivial
    · simp [Negative]

def Receives (size : Nat) (got : Int × List Byte) (events : List ClientEvent) : Prop :=
  events = [.received size got.1 got.2]

theorem receives_commReadData {size : Nat} (some_bytes : 0 < size) (small : size < 2 ^ 31) :
    Always (Messages.commReadData size : ClientM (Int × List Byte)) (Receives size) := by
  rw [Messages.commReadData, toCInt_of_small (by omega) (by omega), if_neg (by omega), if_neg (by omega),
    always_receive]
  intro code data
  rw [Dialogue.pure_eq, always_done]
  rfl

theorem Sends.append {first second : Int} {events more : List ClientEvent} (before : Sends first events)
    (after : Sends second more) (fine : ¬first < 0) : Sends second (events ++ more) where
  sent event member := by
    rcases List.mem_append.mp member with early | late
    · exact before.sent event early
    · exact after.sent event late
  told := by
    rw [after.told]
    constructor
    · rintro ⟨event, member, negative⟩
      exact ⟨event, List.mem_append_right _ member, negative⟩
    · rintro ⟨event, member, negative⟩
      rcases List.mem_append.mp member with early | late
      · exact absurd (before.told.mpr ⟨event, early, negative⟩) fine
      · exact ⟨event, late, negative⟩

theorem Sends.failed {ret : Int} {events : List ClientEvent} (sends : Sends ret events) (negative : ret < 0) :
    Sends (-1) events := ⟨sends.sent, iff_of_true minus_one_neg (sends.told.mp negative)⟩

theorem sends_writeOperation (opcode : Nat) {size : Nat} (small : size < 2 ^ 31) (msg : List Byte) :
    Always (nfiWriteOperation opcode size msg) Sends := by
  unfold nfiWriteOperation
  apply Always.bind
  refine (sends_commWriteData (intBytes opcode) (by decide) (by decide)).mono ?_
  intro ret events sends
  by_cases failed : ret < 0
  · rw [if_pos failed, Dialogue.pure_eq, always_done, List.append_nil]
    exact sends.failed failed
  · rw [if_neg failed]
    refine (sends_commWriteData msg (Int.natCast_nonneg size) (by omega)).mono ?_
    intro code more later
    exact sends.append later failed

theorem sends_tail {path : Path} (short : path.length < pathMax) :
    Always (commWriteData (path.drop xpnPathMax) (path.length - xpnPathMax : Nat) : ClientM Int) Sends := by
  have bound : pathMax = 4096 := rfl
  exact sends_commWriteData _ (Int.natCast_nonneg _) (by omega)

/-! ### Requests with one path -/

theorem negative_received {first : Int} {events : List ClientEvent} (before : Sends first events) (fine : ¬first < 0)
    (count : Nat) (code : Int) (data : List Byte) :
    (∃ event ∈ events ++ [.received count code data], Negative event) ↔ code < 0 := by
  constructor
  · rintro ⟨event, member, negative⟩
    rcases List.mem_append.mp member with early | late
    · exact absurd (before.told.mpr ⟨event, early, negative⟩) fine
    · rw [List.mem_singleton.mp late] at negative
      exact negative
  · intro negative
    exact ⟨_, List.mem_append_right _ List.mem_cons_self, negative⟩

theorem arrived_received (record : List Byte) {first : Int} {events : List ClientEvent} (before : Sends first events)
    (count : Nat) (code : Int) (data : List Byte) :
    arrived record (events ++ [.received count code data]) = overwrite record 0 data := by
  rw [arrived_append, arrived_sent record before.sent]
  rfl

/-- A function with one path tells of a failure where it looks at a code, and else as far as its
record does. -/
theorem tells_requestThen {member : PathMember} (small : member.size < 2 ^ 31) (msg : List Byte) {dir : Path}
    (short : dir.length < pathMax) {record : List Byte} (some_bytes : 0 < record.length)
    (fits : record.length < 2 ^ 31)
    {finish : Int → List Byte → Int} {noted : List Byte → Prop}
    (agrees : ∀ ret reply, 0 ≤ ret → (finish ret reply < 0 ↔ noted reply)) :
    Always (requestThen member msg dir record 0 finish) fun result events =>
      (result.ret < 0 ↔
        (xpnPathMax ≤ dir.length ∧ ∃ event ∈ events, Negative event) ∨ noted (arrived record events)) := by
  unfold requestThen request
  by_cases long : xpnPathMax ≤ dir.length
  · simp only [if_pos long, bind_assoc]
    apply Always.bind
    refine (sends_writeOperation _ small _).mono ?_
    intro ret events sends
    by_cases failed : ret < 0
    · rw [if_pos failed]
      simp only [Dialogue.pure_eq, Dialogue.done_bind, always_done, List.append_nil]
      exact iff_of_true minus_one_neg (Or.inl ⟨long, sends.told.mp failed⟩)
    · rw [if_neg failed, bind_assoc]
      apply Always.bind
      refine (sends_tail short).mono ?_
      intro ret2 more tail
      have both := sends.append tail failed
      by_cases failed2 : ret2 < 0
      · rw [if_pos failed2]
        simp only [Dialogue.pure_eq, Dialogue.done_bind, always_done, List.append_nil]
        exact iff_of_true minus_one_neg (Or.inl ⟨long, both.told.mp failed2⟩)
      · rw [if_neg failed2, bind_assoc]
        apply Always.bind
        refine (receives_commReadData some_bytes fits).mono ?_
        rintro ⟨code, data⟩ _ rfl
        have negative := negative_received both failed2 record.length code data
        have reply := arrived_received record both record.length code data
        by_cases refused : code < 0
        · simp only [if_pos refused, Dialogue.pure_eq, Dialogue.done_bind, always_done, List.append_nil]
          rw [← List.append_assoc]
          exact iff_of_true minus_one_neg (Or.inl ⟨long, negative.mpr refused⟩)
        · simp only [if_neg refused, Dialogue.pure_eq, Dialogue.done_bind, always_done, List.append_nil]
          rw [← List.append_assoc, reply, agrees _ _ (not_lt.mp refused)]
          exact (or_iff_right fun other => refused (negative.mp other.2)).symm
  · -- The code of `nfi_xpn_server_do_request` is dropped.
    simp only [if_neg long, bind_assoc]
    have quiet {events : List ClientEvent} : ¬(xpnPathMax ≤ dir.length ∧ ∃ event ∈ events, Negative event) :=
      fun both => long both.1
    simp only [quiet, false_or]
    unfold nfiXpnServerDoRequest
    rw [bind_assoc]
    apply Always.bind
    refine (sends_writeOperation _ small _).mono ?_
    intro ret events sends
    by_cases failed : ret < 0
    · rw [if_pos failed]
      simp only [Dialogue.pure_eq, Dialogue.done_bind, always_done, List.append_nil]
      rw [arrived_sent record sends.sent, agrees _ _ le_rfl]
      simp [overwrite]
    · rw [if_neg failed, bind_assoc]
      apply Always.bind
      refine (receives_commReadData some_bytes fits).mono ?_
      rintro ⟨code, data⟩ _ rfl
      have reply := arrived_received record sends record.length code data
      simp only [Dialogue.pure_eq, Dialogue.done_bind, always_done, List.append_nil]
      rw [reply, agrees _ _ le_rfl]

theorem tells_rename (msg : List Byte) (stack : Nat → Byte) {oldPath newPath : Path}
    (short : oldPath.length < pathMax)
    (short' : newPath.length < pathMax) :
    Always (NfiXpnServer.nfiXpnServerRename msg stack oldPath newPath) fun result events =>
      (result.ret < 0 ↔ (xpnPathMax ≤ oldPath.length ∨ xpnPathMax ≤ newPath.length)
        ∧ ∃ event ∈ events, Negative event) := by
  have tail {path : Path} (short : path.length < pathMax) : Always (sendTail path) Sends := by
    unfold sendTail
    split
    · exact sends_tail short
    · rw [Dialogue.pure_eq, always_done]
      exact .nothing le_rfl
  unfold NfiXpnServer.nfiXpnServerRename
  simp only
  by_cases long : xpnPathMax ≤ oldPath.length ∨ xpnPathMax ≤ newPath.length
  · rw [if_pos long]
    simp only [long, true_and]
    apply Always.bind
    refine (sends_writeOperation _ (by decide) _).mono ?_
    intro ret events sends
    by_cases failed : ret < 0
    · rw [if_pos failed, Dialogue.pure_eq, always_done, List.append_nil]
      exact iff_of_true minus_one_neg (sends.told.mp failed)
    rw [if_neg failed]
    apply Always.bind
    refine (tail short).mono ?_
    intro ret2 more later
    have both := sends.append later failed
    by_cases failed2 : ret2 < 0
    · rw [if_pos failed2, Dialogue.pure_eq, always_done, List.append_nil]
      exact iff_of_true minus_one_neg (both.told.mp failed2)
    rw [if_neg failed2]
    apply Always.bind
    refine (tail short').mono ?_
    intro ret3 last latest
    have all := both.append latest failed2
    by_cases failed3 : ret3 < 0
    · rw [if_pos failed3, Dialogue.pure_eq, always_done, List.append_nil, ← List.append_assoc]
      exact iff_of_true minus_one_neg (all.told.mp failed3)
    rw [if_neg failed3]
    apply Always.bind
    refine (receives_commReadData (by decide) (by decide)).mono ?_
    rintro ⟨code, data⟩ _ rfl
    rw [Dialogue.pure_eq, always_done, List.append_nil, ← List.append_assoc, ← List.append_assoc,
      negative_received all failed3]
    split
    next refused => exact iff_of_true minus_one_neg refused
    next => rfl
  · -- Nothing of the exchange reaches the result.
    rw [if_neg long]
    simp only [long, false_and, iff_false]
    unfold nfiXpnServerDoRequest
    rw [bind_assoc]
    apply Always.bind
    refine (sends_writeOperation _ (by decide) _).mono ?_
    intro ret events sends
    by_cases failed : ret < 0
    · rw [if_pos failed]
      simp
    · rw [if_neg failed, bind_assoc]
      apply Always.bind
      refine (receives_commReadData (by decide) (by decide)).mono ?_
      rintro ⟨code, data⟩ _ rfl
      simp

/-! ### Reads -/

/-- What a read has been told so far: the last code that counts, the record, the count and
whether data comes next. -/
structure Replies where
  code : Int
  record : List Byte
  count : Int
  dataNext : Bool

def Replies.step (replies : Replies) : ClientEvent → Replies
  | .received _ code data =>
    if replies.dataNext then { replies with dataNext := false }
    else
      let record := overwrite replies.record 0 data
      { code
        record
        count := toCInt (replies.count + longAt record 0)
        dataNext := 0 < longAt record 0 ∧ 0 < toCInt (longAt record 0) }
  | .sent _ code => if code < 0 then { replies with code } else replies
  | .called _ _ => replies

/-- The last header is refused, or what the sizes come to is negative. -/
def Replies.Told (replies : Replies) : Prop :=
  replies.code < 0 ∨ intAt replies.record rwReqStatus < 0 ∨ longAt replies.record 0 < 0 ∨ replies.count < 0

def heard (replies : Replies) (events : List ClientEvent) : Replies := events.foldl Replies.step replies

theorem heard_append (replies : Replies) (first rest : List ClientEvent) :
    heard replies (first ++ rest) = heard (heard replies first) rest := List.foldl_append

theorem hears_receiveData (req buffer : List Byte) (cont code count : Int) :
    Always (receiveData req buffer cont) fun _ events =>
      heard ⟨code, req, count, decide (0 < longAt req 0 ∧ 0 < toCInt (longAt req 0))⟩ events
        = ⟨code, req, count, false⟩ := by
  unfold receiveData
  by_cases announced : 0 < longAt req 0
  · rw [if_pos announced]
    refine Always.bind ?_
    unfold Messages.commReadData
    by_cases positive : 0 < toCInt (longAt req 0)
    · rw [if_neg (by omega), if_neg (by omega), always_receive]
      intro got data
      simp [heard, Replies.step, announced, positive]
    · by_cases zero : toCInt (longAt req 0) = 0
      · rw [if_pos zero]
        simp [heard, positive]
      · rw [if_neg zero, if_pos (by omega)]
        simp [heard, positive]
  · rw [if_neg announced]
    simp [heard, announced]

theorem tells_readReplies (size : Nat) : ∀ (fuel : Nat) (code cont : Int) (req buffer : List Byte),
    Always (readReplies size fuel cont req buffer) fun result events =>
      ∀ returned, result = some returned → (returned.ret < 0 ↔ (heard ⟨code, req, cont, false⟩ events).Told) := by
  intro fuel
  induction fuel with
  | zero =>
    intro code cont req buffer
    rw [readReplies, Dialogue.pure_eq, always_done]
    intro returned never
    cases never
  | succ fuel ih =>
    intro code cont req buffer
    rw [readReplies]
    apply Always.bind
    refine (receives_commReadData (by decide) (by decide)).mono ?_
    rintro ⟨ret, data⟩ _ rfl
    simp only
    by_cases refused : ret < 0
    · rw [if_pos refused, Dialogue.pure_eq, always_done]
      rintro _ ⟨⟩
      exact iff_of_true minus_one_neg (Or.inl refused)
    rw [if_neg refused]
    by_cases status : intAt (overwrite req 0 data) rwReqStatus < 0
    · rw [if_pos status, Dialogue.pure_eq, always_done]
      rintro _ ⟨⟩
      exact iff_of_true minus_one_neg (Or.inr (Or.inl status))
    rw [if_neg status]
    refine Always.bind ?_
    refine (hears_receiveData (overwrite req 0 data) buffer cont ret
      (toCInt (cont + longAt (overwrite req 0 data) 0))).mono ?_
    intro buffer' events skipped
    by_cases more : 0 < toCInt (size - toCInt (cont + longAt (overwrite req 0 data) 0))
        ∧ longAt (overwrite req 0 data) 0 ≠ 0
    · rw [if_pos more]
      refine (ih ret _ _ buffer').mono ?_
      intro result later told returned same
      rw [told returned same, heard_append, heard_append, ← skipped]
      rfl
    · rw [if_neg more, Dialogue.pure_eq, always_done]
      intro returned same
      rw [← Option.some.inj same, List.append_nil, heard_append]
      have ended : heard (heard ⟨code, req, cont, false⟩ [.received rwReqSize ret data]) events
          = ⟨ret, overwrite req 0 data, toCInt (cont + longAt (overwrite req 0 data) 0), false⟩ := skipped
      rw [ended]
      unfold Replies.Told
      split
      next negative => exact iff_of_true minus_one_neg (Or.inr (Or.inr (Or.inl negative)))
      next nonneg =>
        simp only [refused, status, nonneg, false_or]

/-! ### Requests of reads and writes -/

theorem sends_rwRequest (msg : List Byte) {member : PathMember} (small : member.size < 2 ^ 31) {dir : Path}
    (short : dir.length < pathMax) : Always (rwRequest msg member dir) Sends := by
  unfold rwRequest
  apply Always.bind
  refine (sends_writeOperation _ small _).mono ?_
  intro ret events sends
  by_cases failed : ret < 0
  · rw [if_pos failed, Dialogue.pure_eq, always_done, List.append_nil]
    exact sends.failed failed
  · rw [if_neg failed]
    split
    · refine (sends_tail short).mono ?_
      intro code more later
      exact sends.append later failed
    · rw [Dialogue.pure_eq, always_done, List.append_nil]
      exact sends

theorem heard_refused {replies : Replies} (refused : replies.code < 0) {events : List ClientEvent}
    (sent : ∀ event ∈ events, IsSent event) : (heard replies events).code < 0 := by
  induction events generalizing replies with
  | nil => exact refused
  | cons event events ih =>
    have rest := fun other member => sent other (List.mem_cons_of_mem _ member)
    cases event with
    | sent message code =>
      apply ih _ rest
      rw [Replies.step]
      split
      next negative => exact negative
      next => exact refused
    | received count code data => exact (sent _ List.mem_cons_self).elim
    | called request answer => exact request.elim

/-- What sends leave of the state: a failure among them is kept. -/
theorem heard_sends (replies : Replies) {events : List ClientEvent} (sent : ∀ event ∈ events, IsSent event) :
    ((∃ event ∈ events, Negative event) → (heard replies events).code < 0)
      ∧ ((¬∃ event ∈ events, Negative event) → heard replies events = replies) := by
  induction events generalizing replies with
  | nil => simp [heard]
  | cons event events ih =>
    have rest := fun other member => sent other (List.mem_cons_of_mem _ member)
    cases event with
    | sent message code =>
      by_cases negative : code < 0
      · have refused : (replies.step (.sent message code)).code < 0 := by
          rw [Replies.step, if_pos negative]
          exact negative
        exact ⟨fun _ => heard_refused refused rest, fun fine => absurd ⟨_, List.mem_cons_self, negative⟩ fine⟩
      · have same : replies.step (.sent message code) = replies := by rw [Replies.step, if_neg negative]
        have moved : heard replies (Event.sent message code :: events) = heard replies events :=
          congrArg (fun start => heard start events) same
        have later : (∃ event ∈ Event.sent message code :: events, Negative event)
            ↔ ∃ event ∈ events, Negative event := by
          simp [Negative, negative]
        rw [moved, later]
        exact ih replies rest
    | received count code data => exact (sent _ List.mem_cons_self).elim
    | called request answer => exact request.elim

theorem tells_read (msg : List Byte) (stack : Nat → Byte) (fuel : Nat) {dir : Path} (short : dir.length < pathMax)
    (fd session : Int) (buffer : List Byte) (offset : Int) (size : Nat) :
    Always (NfiXpnServer.nfiXpnServerRead msg stack fuel dir fd session buffer offset size) fun result events =>
      ∀ returned, result = some returned →
        (returned.ret < 0 ↔ (heard ⟨0, contents stack rwReqSize, 0, false⟩ events).Told) := by
  unfold NfiXpnServer.nfiXpnServerRead
  apply Always.bind
  refine (sends_rwRequest _ (by decide) short).mono ?_
  intro ret events sends
  obtain ⟨kept, unmoved⟩ := heard_sends ⟨0, contents stack rwReqSize, 0, false⟩ sends.sent
  by_cases failed : ret < 0
  · rw [if_pos failed, Dialogue.pure_eq, always_done, List.append_nil]
    intro returned same
    rw [← Option.some.inj same]
    exact iff_of_true minus_one_neg (Or.inl (kept (sends.told.mp failed)))
  · rw [if_neg failed]
    refine (tells_readReplies size fuel 0 0 _ buffer).mono ?_
    intro result later told returned same
    rw [told returned same, heard_append, unmoved fun negative => failed (sends.told.mpr negative)]

/-! ### Writes -/

/-- What a write has been told so far, with the messages of the request that are still to be sent. -/
structure Spoken where
  requests : Nat
  code : Int
  record : List Byte
  count : Int

def Spoken.step (spoken : Spoken) : ClientEvent → Spoken
  | .sent _ code =>
    if spoken.requests = 0 then { spoken with count := toCInt (spoken.count + code) }
    else { spoken with requests := spoken.requests - 1, code := if code < 0 then code else spoken.code }
  | .received _ code data => { spoken with code, record := overwrite spoken.record 0 data }
  | .called _ _ => spoken

def said (spoken : Spoken) (events : List ClientEvent) : Spoken := events.foldl Spoken.step spoken

theorem said_append (spoken : Spoken) (first rest : List ClientEvent) :
    said spoken (first ++ rest) = said (said spoken first) rest := List.foldl_append

/-- The request or the reply failed, the reply has a negative size, or the parts that failed outweigh
the others. -/
def Spoken.Told (spoken : Spoken) : Prop := spoken.code < 0 ∨ longAt spoken.record 0 < 0 ∨ spoken.count < 0

/-- The messages of a request: the opcode, the member and what does not fit of the path. -/
def requestMessages (dir : Path) : Nat := if xpnPathMax < dir.length then 3 else 2

theorem sends_one (data : List Byte) {size : Int} (positive : 0 < size) (small : size < 2 ^ 31) :
    Always (commWriteData data size : ClientM Int) fun ret events => ∃ message, events = [.sent message ret] := by
  rw [commWriteData, toCInt_of_small (by omega) small, if_neg (by omega), if_neg (by omega), always_send]
  intro code
  rw [Dialogue.pure_eq, always_done]
  exact ⟨_, rfl⟩

/-- The request of a write, message by message. -/
theorem said_rwRequest (msg : List Byte) {dir : Path} (short : dir.length < pathMax) (record : List Byte)
    (count : Int) :
    Always (rwRequest msg opWrite dir) fun ret events =>
      (ret < 0 → (said ⟨requestMessages dir, 0, record, count⟩ events).code < 0)
        ∧ (¬ret < 0 → said ⟨requestMessages dir, 0, record, count⟩ events = ⟨0, 0, record, count⟩) := by
  have bound : pathMax = 4096 := rfl
  unfold rwRequest nfiWriteOperation
  rw [bind_assoc]
  apply Always.bind
  refine (sends_one (intBytes opWrite.opcode) (by decide) (by decide)).mono ?_
  rintro ret _ ⟨message, rfl⟩
  have some_request : requestMessages dir ≠ 0 := by
    unfold requestMessages
    split <;> decide
  by_cases failed : ret < 0
  · rw [if_pos failed, Dialogue.pure_eq, Dialogue.done_bind, if_pos minus_one_neg, always_done]
    refine ⟨fun _ => ?_, fun fine => absurd minus_one_neg fine⟩
    simp [said, Spoken.step, some_request, failed]
  rw [if_neg failed]
  apply Always.bind
  refine (sends_one _ (by decide) (by decide)).mono ?_
  rintro ret2 _ ⟨message2, rfl⟩
  have another : requestMessages dir - 1 ≠ 0 := by
    unfold requestMessages
    split <;> decide
  by_cases failed2 : ret2 < 0
  · rw [if_pos failed2, Dialogue.pure_eq, always_done]
    refine ⟨fun _ => ?_, fun fine => absurd minus_one_neg fine⟩
    simp [said, Spoken.step, some_request, another, failed2]
  rw [if_neg failed2]
  by_cases long : xpnPathMax < dir.length
  · have three : requestMessages dir = 3 := if_pos long
    rw [if_pos long.le]
    refine (sends_one _ (by omega) (by omega)).mono ?_
    rintro ret3 _ ⟨message3, rfl⟩
    rw [three]
    constructor
    · intro failed3
      simp [said, Spoken.step, failed3]
    · intro fine
      simp [said, Spoken.step, failed, failed2, fine]
  · have two : requestMessages dir = 2 := if_neg long
    have quiet : Always (if xpnPathMax ≤ dir.length then commWriteData (dir.drop xpnPathMax) (dir.length - xpnPathMax : Nat)
        else pure ret2 : ClientM Int) fun ret events => ¬ret < 0 ∧ events = [] := by
      split
      · have zero : dir.length - xpnPathMax = 0 := by omega
        rw [zero]
        exact (always_done 0).mpr ⟨by decide, rfl⟩
      · rw [Dialogue.pure_eq, always_done]
        exact ⟨failed2, rfl⟩
    refine quiet.mono ?_
    rintro ret3 _ ⟨fine, rfl⟩
    rw [two]
    refine ⟨fun failed3 => absurd failed3 fine, fun _ => ?_⟩
    simp [said, Spoken.step, failed, failed2]

/-- The parts of a write count with their codes. -/
theorem said_writeParts (buffer record : List Byte) (size : Nat) {bufferSize : Int} (part : 0 < bufferSize)
    (whole : bufferSize < 2 ^ 31) : ∀ (fuel : Nat) (cont diff : Int), 0 < diff → diff < 2 ^ 31 →
    Always (writeParts buffer size bufferSize fuel cont diff) fun result events =>
      ∀ sent, result = some sent → said ⟨0, 0, record, cont⟩ events = ⟨0, 0, record, sent⟩ := by
  intro fuel
  induction fuel with
  | zero =>
    intro cont diff _ _
    rw [writeParts, Dialogue.pure_eq, always_done]
    intro sent never
    cases never
  | succ fuel ih =>
    intro cont diff positive small
    rw [writeParts]
    have length : 0 < (if bufferSize < diff then bufferSize else diff)
        ∧ (if bufferSize < diff then bufferSize else diff) < 2 ^ 31 := by
      split <;> omega
    apply Always.bind
    refine (sends_one _ length.1 length.2).mono ?_
    rintro ret _ ⟨message, rfl⟩
    simp only
    by_cases more : 0 < toCInt (size - toCInt (cont + ret)) ∧ ret ≠ 0
    · rw [if_pos more]
      refine (ih _ _ more.1 (Int.bmod_lt (by decide))).mono ?_
      intro result later counted sent same
      exact counted sent same
    · rw [if_neg more, Dialogue.pure_eq, always_done]
      intro sent same
      rw [← Option.some.inj same]
      rfl

theorem said_nothing (buffer record : List Byte) {size : Nat} (none : toCInt size ≤ 0) (fuel : Nat) :
    Always (writeParts buffer size (toCInt size) fuel 0 (toCInt size)) fun result events =>
      ∀ sent, result = some sent →
        said ⟨0, 0, record, if toCInt size < 0 then -1 else 0⟩ events = ⟨0, 0, record, sent⟩ := by
  cases fuel with
  | zero =>
    rw [writeParts, Dialogue.pure_eq, always_done]
    intro sent never
    cases never
  | succ fuel =>
    have low : -2 ^ 31 ≤ toCInt size := Int.le_bmod (by decide)
    rw [writeParts, if_neg (lt_irrefl _), commWriteData, toCInt_of_small low (by omega)]
    by_cases zero : toCInt size = 0
    · rw [if_pos zero, Dialogue.pure_eq, Dialogue.done_bind]
      simp only
      rw [if_neg (fun more => more.2 rfl), Dialogue.pure_eq, always_done]
      intro sent same
      rw [← Option.some.inj same, zero]
      rfl
    · have next : toCInt (size - toCInt (0 + -1)) = toCInt size + 1 := by
        have one : toCInt (0 + -1) = -1 := by decide
        have moved : toCInt ((size : Int) + 1) = toCInt (toCInt size + 1) := Int.bmod_add_bmod.symm
        rw [one, Int.sub_neg, moved]
        exact toCInt_of_small (by omega) (by omega)
      rw [if_neg zero, if_pos (by omega), Dialogue.pure_eq, Dialogue.done_bind]
      simp only
      rw [if_neg (fun more => by rw [next] at more; omega), Dialogue.pure_eq, always_done]
      intro sent same
      rw [← Option.some.inj same, if_pos (by omega)]
      rfl

/-- What a write starts with. Of a size that is negative as an `int` no part is sent, with code −1. -/
def firstSpoken (stack : Nat → Byte) (dir : Path) (size : Nat) : Spoken :=
  ⟨requestMessages dir, 0, contents stack rwReqSize, if toCInt size < 0 then -1 else 0⟩

theorem tells_write (msg : List Byte) (stack : Nat → Byte) (fuel : Nat) {dir : Path} (short : dir.length < pathMax)
    (fd session : Int) (buffer : List Byte) (offset : Int) {size : Nat} (asked : size ≠ 0) (published : Int) :
    Always (NfiXpnServer.nfiXpnServerWrite msg stack fuel dir fd session false published buffer offset size)
      fun result events => ∀ returned, result = some returned →
        (returned.ret < 0 ↔ (said (firstSpoken stack dir size) events).Told) := by
  unfold NfiXpnServer.nfiXpnServerWrite
  rw [if_neg (by decide), if_neg asked]
  simp only
  apply Always.bind
  refine (said_rwRequest _ short (contents stack rwReqSize) (if toCInt size < 0 then -1 else 0)).mono ?_
  rintro ret events ⟨kept, unmoved⟩
  by_cases failed : ret < 0
  · rw [if_pos failed, Dialogue.pure_eq, always_done, List.append_nil]
    intro returned same
    rw [← Option.some.inj same]
    exact iff_of_true minus_one_neg (Or.inl (kept failed))
  rw [if_neg failed]
  have start := unmoved failed
  apply Always.bind
  have parts : Always (writeParts buffer size
      (if (maxBufferSize : Int) < toCInt size then (maxBufferSize : Int) else toCInt size) fuel 0 (toCInt size))
      fun result events => ∀ sent, result = some sent →
        said ⟨0, 0, contents stack rwReqSize, if toCInt size < 0 then -1 else 0⟩ events
          = ⟨0, 0, contents stack rwReqSize, sent⟩ := by
    have int : toCInt size < 2 ^ 31 := Int.bmod_lt (by decide)
    by_cases positive : 0 < toCInt size
    · have initial : (if toCInt size < 0 then (-1 : Int) else 0) = 0 := if_neg (by omega)
      rw [initial]
      have bound : (maxBufferSize : Int) = 1048576 := rfl
      refine said_writeParts buffer _ size ?_ ?_ fuel 0 _ positive int
      · split <;> omega
      · split <;> omega
    · have part : (if (maxBufferSize : Int) < toCInt size then (maxBufferSize : Int) else toCInt size) = toCInt size :=
        if_neg (by omega)
      rw [part]
      exact said_nothing buffer (contents stack rwReqSize) (not_lt.mp positive) fuel
  refine parts.mono ?_
  intro result more counted
  cases result with
  | none =>
    rw [writeReply, Dialogue.pure_eq, always_done]
    intro returned never
    cases never
  | some cont =>
    rw [writeReply]
    apply Always.bind
    refine (receives_commReadData (by decide) (by decide)).mono ?_
    rintro ⟨code, data⟩ _ rfl
    simp only
    rw [Dialogue.pure_eq, always_done, List.append_nil]
    intro returned same
    have ended : said (firstSpoken stack dir size) (events ++ (more ++ [.received rwReqSize code data]))
        = ⟨0, code, overwrite (contents stack rwReqSize) 0 data, cont⟩ := by
      rw [said_append, said_append, firstSpoken, start, counted cont rfl]
      rfl
    rw [← Option.some.inj same, ended]
    unfold Spoken.Told
    simp only
    split
    next refused =>
      refine iff_of_true minus_one_neg ?_
      rcases refused with reply | negative
      · exact Or.inl reply
      · exact Or.inr (Or.inl negative)
    next fine =>
      rw [not_or] at fine
      simp only [fine.1, fine.2, false_or]

/-! ### Every operation -/

/-- The operations whose failures are to reach the caller. -/
def Covered : ClientOp → Prop
  | .create .. | .setattr | .mkdir .. | .readdir .. | .closedir .. | .statfs => False
  | _ => True

/-- A path that goes out in two messages, with checks of its own. -/
def LongPath : ClientOp → Prop
  | .open dir .. | .close dir .. | .remove dir | .getattr dir | .opendir dir _ | .rmdir dir | .readMdata dir
  | .writeMdata dir .. => xpnPathMax ≤ dir.text.length
  | .rename oldPath newPath => xpnPathMax ≤ oldPath.text.length ∨ xpnPathMax ≤ newPath.text.length
  | _ => False

/-- Where `status.ret` stands in the reply. -/
def statusAt : ClientOp → Nat
  | .read .. | .write .. => rwReqStatus
  | .getattr _ => attrReqStatusReq
  | .opendir .. => opendirReqStatus
  | .readMdata _ => metadataSize
  | _ => 0

def recordSize : ClientOp → Nat
  | .getattr _ => attrReqSize
  | .opendir .. => opendirReqSize
  | .readMdata _ => readMdataReqSize
  | _ => statusSize

/-- The record makes the function return a negative value. `remove` and `rename` never look at it. -/
def Noted : ClientOp → List Byte → Prop
  | .open .., record | .close .., record | .rmdir _, record | .writeMdata .., record => intAt record 0 < 0
  | .getattr _, record => charAt record attrReqStatus < 0
  | .opendir .., record => intAt record opendirReqStatus < 0
  | .readMdata _, record => intAt record metadataSize < 0
  | _, _ => False

/-- What a failure has to meet to be noticed. -/
def Told (stack : Nat → Byte) (op : ClientOp) (events : List ClientEvent) : Prop :=
  match op with
  | .read .. => (heard ⟨0, contents stack rwReqSize, 0, false⟩ events).Told
  | .write dir _ _ _ _ _ _ size => (said (firstSpoken stack dir.text size.toNat) events).Told
  | op => (LongPath op ∧ ∃ event ∈ events, Negative event) ∨ Noted op (arrived (contents stack (recordSize op)) events)

/-- A message that was not sent, or one that was not received as a whole: 0 is the end of file. -/
def Broken : ClientEvent → Prop
  | .sent _ code => code < 0
  | .received count code data => code ≤ 0 ∨ data.length < count
  | .called _ _ => False

/-- The headers of a read, without the data between them. -/
def headers : Replies → List ClientEvent → List (Nat × List Byte)
  | _, [] => []
  | replies, .received count code data :: events =>
    let later := headers (replies.step (.received count code data)) events
    if replies.dataNext then later else (count, data) :: later
  | replies, event :: events => headers (replies.step event) events

/-- The replies that carry a status. -/
def answers (stack : Nat → Byte) (op : ClientOp) (events : List ClientEvent) : List (Nat × List Byte) :=
  match op with
  | .read .. => headers ⟨0, contents stack rwReqSize, 0, false⟩ events
  | _ => events.filterMap fun event => match event with
    | .received count _ data => some (count, data)
    | _ => none

/-- The exchange broke, or a whole reply carries a negative status. -/
def Fails (stack : Nat → Byte) (op : ClientOp) (events : List ClientEvent) : Prop :=
  (∃ event ∈ events, Broken event) ∨
    ∃ reply ∈ answers stack op events, reply.1 ≤ reply.2.length ∧ intAt reply.2 (statusAt op) < 0

theorem not_fails_nil (stack : Nat → Byte) (op : ClientOp) : ¬Fails stack op [] := by
  rintro (⟨event, member, -⟩ | ⟨reply, member, -⟩)
  · cases member
  · cases op <;> cases member

theorem always_returns {function : ClientM Returned} {post : Returned → List ClientEvent → Prop}
    (always : Always function post) : Always (returns function) fun result events =>
      ∃ returned, result = some returned ∧ post returned events := by
  unfold returns
  apply Always.bind
  refine always.mono ?_
  intro returned events holds
  rw [Dialogue.pure_eq, always_done, List.append_nil]
  exact ⟨returned, rfl, holds⟩

section
variable {stack : Nat → Byte}

/-- A result agrees with what has been told. -/
def Agrees (stack : Nat → Byte) (op : ClientOp) (result : Option Returned) (events : List ClientEvent) : Prop :=
  ∀ returned, result = some returned → (returned.ret < 0 ↔ Told stack op events)

theorem recordSize_bounds (op : ClientOp) : 0 < recordSize op ∧ recordSize op < 2 ^ 31 := by
  unfold recordSize
  split <;> decide

theorem agrees_path (op : ClientOp) {member : PathMember} (small : member.size < 2 ^ 31) (msg : List Byte)
    {dir : CPath}
    {finish : Int → List Byte → Int} (agrees : ∀ ret reply, 0 ≤ ret → (finish ret reply < 0 ↔ Noted op reply))
    (told : ∀ events, Told stack op events ↔ (xpnPathMax ≤ dir.text.length ∧ ∃ event ∈ events, Negative event)
      ∨ Noted op (arrived (contents stack (recordSize op)) events)) :
    Always (returns (requestThen member msg dir.text (contents stack (recordSize op)) 0 finish)) (Agrees stack op) := by
  refine (always_returns (tells_requestThen small msg dir.short ?_ ?_ agrees)).mono ?_
  · rw [length_contents]
    exact (recordSize_bounds op).1
  · rw [length_contents]
    exact (recordSize_bounds op).2
  · rintro result events ⟨returned, rfl, same⟩ other found
    rw [← Option.some.inj found, told]
    exact same

theorem minus_one_iff (status : Int) : (if status < 0 then (-1 : Int) else 0) < 0 ↔ status < 0 := by
  split <;> omega

theorem status_iff (status : Int) : (if status < 0 then status else 0) < 0 ↔ status < 0 := by
  split <;> omega

/-- The connection is not used. -/
def Silent (stack : Nat → Byte) (op : ClientOp) : Prop :=
  ∀ fuel heap, Always (op.run fuel heap stack) fun _ events => events = []

theorem agrees_run (op : ClientOp) (covered : Covered op) :
    Silent stack op ∨ ∀ fuel heap, Always (op.run fuel heap stack) (Agrees stack op) := by
  cases op with
  | «open» dir flags mode session hasMqtt =>
    refine Or.inr fun fuel heap => agrees_path (.open dir flags mode session hasMqtt) (by decide) _ ?_ fun events => Iff.rfl
    exact fun ret reply _ => minus_one_iff _
  | create => exact covered.elim
  | read dir fd session buffer offset size =>
    exact Or.inr fun fuel heap => tells_read _ stack fuel dir.short fd session _ offset size.toNat
  | write dir fd session hasMqtt published buffer offset size =>
    have run (fuel : Nat) (heap : Nat → Byte) :
        (ClientOp.write dir fd session hasMqtt published buffer offset size).run fuel heap stack
          = NfiXpnServer.nfiXpnServerWrite (contents heap msgSize) stack fuel dir.text fd session hasMqtt published
            (contents buffer size.toNat) offset size.toNat := rfl
    cases hasMqtt with
    | true =>
      left
      intro fuel heap
      rw [run, NfiXpnServer.nfiXpnServerWrite, if_pos rfl, Dialogue.pure_eq, always_done]
    | false =>
      by_cases empty : size.toNat = 0
      · left
        intro fuel heap
        rw [run, NfiXpnServer.nfiXpnServerWrite, if_neg (by decide), if_pos empty, Dialogue.pure_eq, always_done]
      · right
        intro fuel heap
        rw [run]
        exact tells_write _ stack fuel dir.short fd session _ offset empty published
  | close dir fd session hasMqtt =>
    have run (fuel : Nat) (heap : Nat → Byte) : (ClientOp.close dir fd session hasMqtt).run fuel heap stack
        = returns (NfiXpnServer.nfiXpnServerClose (contents heap msgSize) stack dir.text fd session hasMqtt) := rfl
    by_cases closed : session ≠ 1
    · left
      intro fuel heap
      rw [run, NfiXpnServer.nfiXpnServerClose]
      simp only [if_pos closed]
      rw [returns, Dialogue.pure_eq, Dialogue.done_bind, Dialogue.pure_eq, always_done]
    · right
      intro fuel heap
      rw [run, NfiXpnServer.nfiXpnServerClose]
      simp only [if_neg closed]
      refine agrees_path (.close dir fd session hasMqtt) (by decide) _ ?_ fun events => Iff.rfl
      exact fun ret reply _ => Iff.rfl
  | remove dir =>
    refine Or.inr fun fuel heap => agrees_path (.remove dir) (by decide) _ ?_ fun events => Iff.rfl
    exact fun ret reply nonneg => iff_of_false (not_lt.mpr nonneg) not_false
  | rename oldPath newPath =>
    refine Or.inr fun fuel heap => (always_returns (tells_rename _ stack oldPath.short newPath.short)).mono ?_
    rintro result events ⟨returned, rfl, same⟩ other found
    rw [← Option.some.inj found, same]
    exact (or_iff_left not_false).symm
  | getattr dir =>
    refine Or.inr fun fuel heap => agrees_path (.getattr dir) (by decide) _ ?_ fun events => Iff.rfl
    exact fun ret reply _ => Iff.rfl
  | setattr => exact covered.elim
  | mkdir => exact covered.elim
  | opendir dir session =>
    refine Or.inr fun fuel heap => agrees_path (.opendir dir session) (by decide) _ ?_ fun events => Iff.rfl
    exact fun ret reply _ => minus_one_iff _
  | readdir => exact covered.elim
  | closedir => exact covered.elim
  | rmdir dir =>
    refine Or.inr fun fuel heap => agrees_path (.rmdir dir) (by decide) _ ?_ fun events => Iff.rfl
    exact fun ret reply _ => status_iff _
  | statfs => exact covered.elim
  | readMdata dir =>
    refine Or.inr fun fuel heap => agrees_path (.readMdata dir) (by decide) _ ?_ fun events => Iff.rfl
    exact fun ret reply _ => Iff.rfl
  | writeMdata dir mdata onlyFileSize =>
    have run (fuel : Nat) (heap : Nat → Byte) : (ClientOp.writeMdata dir mdata onlyFileSize).run fuel heap stack
        = returns (NfiXpnServer.nfiXpnServerWriteMdata (contents heap msgSize) stack dir.text mdata onlyFileSize) := rfl
    right
    intro fuel heap
    rw [run, NfiXpnServer.nfiXpnServerWriteMdata]
    have noted (ret : Int) (reply : List Byte) (_ : 0 ≤ ret) :
        intAt reply 0 < 0 ↔ Noted (.writeMdata dir mdata onlyFileSize) reply := Iff.rfl
    cases onlyFileSize with
    | true =>
      rw [if_pos rfl]
      exact agrees_path (.writeMdata dir mdata true) (by decide) _ noted fun events => Iff.rfl
    | false =>
      rw [if_neg (by decide)]
      exact agrees_path (.writeMdata dir mdata false) (by decide) _ noted fun events => Iff.rfl

end

def observed {S : Type} (around : Surroundings Byte Empty Empty S) (world : S) (heap stack : Nat → Byte) (op : ClientOp)
    (fuel : Nat) : Observed Byte Empty Empty (Option Returned) S := observe around (op.run fuel heap stack) world

/-- A call that meets a failure comes back with a negative value. -/
def Reaches {S : Type} (around : Surroundings Byte Empty Empty S) (world : S) (heap stack : Nat → Byte)
    (op : ClientOp) : Prop :=
  ∀ fuel, Fails stack op (observed around world heap stack op fuel).events → ∃ rounds returned,
    (observed around world heap stack op rounds).result = some returned ∧ returned.ret < 0

/-- A failure reaches the caller where the call comes back and has been told. -/
theorem failures_reach_caller_iff {S : Type} (around : Surroundings Byte Empty Empty S) (world : S)
    (heap stack : Nat → Byte) {op : ClientOp} (covered : Covered op) :
    Reaches around world heap stack op ↔ ∀ fuel, Fails stack op (observed around world heap stack op fuel).events →
      ∃ rounds, (observed around world heap stack op rounds).result ≠ none
        ∧ Told stack op (observed around world heap stack op rounds).events := by
  unfold Reaches
  rcases agrees_run op covered with silent | agrees
  · have fine (fuel : Nat) : ¬Fails stack op (observed around world heap stack op fuel).events := by
      have nothing : (observed around world heap stack op fuel).events = [] := (silent fuel heap).observed around world
      rw [nothing]
      exact not_fails_nil stack op
    exact iff_of_true (fun fuel fails => absurd fails (fine fuel)) fun fuel fails => absurd fails (fine fuel)
  · refine forall_congr' fun fuel => imp_congr_right fun _ => exists_congr fun rounds => ?_
    have told := (agrees rounds heap).observed around world
    constructor
    · rintro ⟨returned, ended, negative⟩
      refine ⟨?_, (told returned ended).mp negative⟩
      rw [ended]
      exact Option.some_ne_none returned
    · rintro ⟨ended, noticed⟩
      obtain ⟨returned, found⟩ := Option.ne_none_iff_exists'.mp ended
      exact ⟨returned, found, (told returned found).mpr noticed⟩

/-- Everything goes through, and the server answers with −1 and `ENOENT`. -/
def refusing : Surroundings Byte Empty Empty Unit where
  send _ _ := (1, ())
  receive _ count := ((8, (field 4 (-1) ++ field 4 2).take count), ())
  call _ request := request.elim

def rootFile : CPath := ⟨[47, 98], by decide, by decide⟩

theorem failures_reach_caller_iff_rmdir : Reaches refusing () (fun _ => 0) (fun _ => 0) (.rmdir rootFile) := by
  apply (failures_reach_caller_iff refusing () _ _ (show Covered (.rmdir rootFile) from trivial)).mpr
  intro fuel _
  refine ⟨0, Option.some_ne_none _, Or.inr ?_⟩
  show intAt (overwrite (contents (fun _ => 0) statusSize) 0 ((field 4 (-1) ++ field 4 2).take 8)) 0 < 0
  decide

/-- The same answer to `remove`, which returns 0. -/
theorem remove_hides_failure : ¬∀ op, Covered op → Reaches refusing () (fun _ => 0) (fun _ => 0) op := by
  intro claimed
  have reply : (8, (field 4 (-1) ++ field 4 2).take 8)
      ∈ answers (fun _ => 0) (.remove rootFile)
        (observed refusing () (fun _ => 0) (fun _ => 0) (.remove rootFile) 0).events :=
    List.mem_singleton.mpr rfl
  obtain ⟨rounds, returned, ended, negative⟩ := claimed (.remove rootFile) trivial 0
    (Or.inr ⟨_, reply, by decide, by decide⟩)
  cases ended
  exact absurd negative (by decide)

end Xpn.Proofs.ClientFailures
