import Xpn.Lib.Session
import Xpn.Proofs.Transfer
import Xpn.Sessions

/-! Operations one after another on one connection. Whatever the local file system answers, an
operation hears all of its reply and nothing else, so the next one is understood; only a write
needs a file system that lets the server receive all of the data. This holds of the whole
session, however late each side is. -/

namespace Xpn.Proofs.Sessions
open Lib.Conversation Lib.ByteFile Xpn.Messages XpnServer NfiXpnServer Proofs.Messages PathTransport Transfer
open Transport (xpnPathMax msgSize PathMember intBytes fillPath pathTail opOpen opRead opWrite opClose opRm opGetattr opMkdir
  opRmdir opOpendir opReaddir opClosedir opReadMdata opWriteMdata opWriteMdataFileSize renameOpcode renameSize oldUrl newUrl)

variable {S : Type} {answer : S → Call → Answer × S} {α : Type} {n : Nat}

/-! ### What a handler says -/

theorem length_setStatus {record : List Byte} {offset : Nat} (inside : offset + 8 ≤ record.length) (ret errno : Int) :
    (setStatus record offset ret errno).length = record.length := by
  have first : (store record offset 4 ret).length = record.length := length_store (by omega) ret
  rw [setStatus, length_store (by omega), first]

section
variable (some_bytes : 0 < n) (small : n < 2 ^ 31)
include some_bytes small

theorem commReadData_eq {κ ρ : Type} :
    (commReadData n : Dialogue Byte κ ρ (Int × List Byte)) = .receive n fun code data => .done (code, data) := by
  have positive : (0 : Int) < n := by omega
  have int : toCInt n = n := toCInt_of_small (by omega) (by omega)
  simp only [commReadData, int, if_neg positive.ne', if_neg (Int.not_lt.mpr positive.le), Int.toNat_natCast,
    Dialogue.pure_eq]

end

/-- The handler, given this message and what follows it, answers the operation to the last byte. -/
def Answered (answer : S → Call → Answer × S) (issued : Issued) (memory : Nat → Byte) (typeOp : List Byte) (world : S)
    (handler : XpnServer.Handler) (head inbox : List Byte) : Prop :=
  ∃ (exchange : Exchange silent answer issued.run () (xpnServerDispatcher memory typeOp) world) (returned : Returned)
    (typeOp' : List Byte) (run : Performed Byte Unit S), exchange.Exact ∧ exchange.heard.result = some returned ∧
      exchange.served.result = .goesOn typeOp' ∧ perform answer (handler memory head) world inbox = some run ∧
        run.world = exchange.served.world ∧ exchange.served.sent.flatten ≠ []

/-- The handler ends with a reply that the client returns on. Nothing is left on the connection if and
only if the two agree, and then all is received as it was sent. -/
def Ends (answer : S → Call → Answer × S) (issued : Issued) (memory : Nat → Byte) (typeOp : List Byte) (world : S)
    (handler : XpnServer.Handler) (head inbox : List Byte) (agree : Prop) : Prop :=
  ∃ (exchange : Exchange silent answer issued.run () (xpnServerDispatcher memory typeOp) world) (returned : Returned)
    (typeOp' : List Byte) (run : Performed Byte Unit S), exchange.heard.result = some returned ∧
      exchange.served.result = .goesOn typeOp' ∧ perform answer (handler memory head) world inbox = some run ∧
        run.world = exchange.served.world ∧ exchange.served.sent.flatten ≠ [] ∧ exchange.heard.sent = [] ∧
          (exchange.heard.inbox = [] ∧ exchange.served.inbox = [] ↔ agree) ∧ (agree → exchange.Exact)

theorem Ends.answered {issued : Issued} {memory : Nat → Byte} {typeOp : List Byte} {world : S} {handler : XpnServer.Handler}
    {head inbox : List Byte} {agree : Prop} (ends : Ends answer issued memory typeOp world handler head inbox agree)
    (holds : agree) : Answered answer issued memory typeOp world handler head inbox := by
  obtain ⟨exchange, returned, typeOp', run, result, goes, performed, left, spoken, _, _, exactly⟩ := ends
  exact ⟨exchange, returned, typeOp', run, exactly holds, result, goes, performed, left, spoken⟩

section
variable (old new : CPath) {msg : List Byte} (whole : msg.length = msgSize)
include whole

end

theorem failure_reply {req : List Byte} (whole : req.length = rwReqSize) (errno : Int) :
    Reply (rwReq req (-1) (-1) errno) (-1) (-1) :=
  reply_rwReq whole (-1) (-1) errno

/-- What the server says and what the client makes of it. The client hears all of it if the two agree,
and leaves something otherwise. -/
def Meets (answer : S → Call → Answer × S) (server : ServerM Unit) (world : S) (client : ClientM (Option Returned))
    (agree : Prop) : Prop :=
  ∃ (sent heard : List (List Byte)) (left : List Byte) (world' : S) (returned : Returned),
    (∀ inbox, perform answer server world inbox = some ⟨(), world', inbox, sent, []⟩) ∧
    (∀ more, perform silent client () (sent.flatten ++ more) = some ⟨some returned, (), left ++ more, [], heard⟩) ∧
    sent.flatten ≠ [] ∧ (agree → left = [] ∧ heard = sent) ∧ (¬agree → left ≠ [])

section
variable {size : Nat} (long : size < 2 ^ 63)
include long

end

/-- The descriptor of the session or that of a file that is opened. -/
def openedFile (answer : S → Call → Answer × S) (path : Path) (flags fd session : Int) (world : S) : Answer × S :=
  if toCChar session = 1 then (⟨toCInt fd, 0, []⟩, world) else answer world (.filesystemOpen path flags)

section
variable {head : List Byte} {fd offset session : Int} {size : Nat} (fields : RwHead head fd offset size session)
include fields

end

/-- What a write needs of the file system if the server is to receive all of its data. A part is
received before it is sought and written, so nothing more is needed for the last one. -/
structure Storing (answer : S → Call → Answer × S) (size : Nat) : Prop where
  opens : ∀ world path flags, 0 ≤ (answer world (.filesystemOpen path flags)).1.ret
  grants : ∀ world count, (answer world (.malloc count)).1.ret ≠ 0
  seeks : maxBufferSize < size → ∀ world fd offset, 0 ≤ (answer world (.filesystemLseek fd offset)).1.ret
  writes : maxBufferSize < size → ∀ world fd data, 0 ≤ (answer world (.filesystemWrite fd data)).1.ret

section
variable {β : Type} {opSize s : Nat} {data : List Byte}

/-- Every part of the data but the last is sought and written, so that the server comes to the last
one. -/
def PartsTaken (answer : S → Call → Answer × S) (fd offset : Int) (data : List Byte) : Nat → Nat → S → Prop
  | 0, _, _ => True
  | fuel + 1, c, world =>
    let n := min maxBufferSize (data.length - c)
    let sought := answer world (.filesystemLseek fd (offset + c))
    let wrote := answer sought.2 (.filesystemWrite fd ((data.drop c).take n))
    c + n = data.length ∨ 0 ≤ sought.1.ret ∧ 0 ≤ wrote.1.ret ∧ PartsTaken answer fd offset data fuel (c + n) wrote.2

end

/-- The server takes all the data of a write: it has its file and its buffer, and every part but the last
is sought and written. -/
def Taken (answer : S → Call → Answer × S) (path : Path) (fd offset session : Int) (size : Nat) (data : List Byte)
    (world : S) : Prop :=
  let opened := openedFile answer path XpnServer.oWronly fd session world
  let buffer := answer opened.2 (.malloc (if (maxBufferSize : Int) < data.length then
    (maxBufferSize : Int) else data.length))
  0 ≤ opened.1.ret ∧ buffer.1.ret ≠ 0 ∧ PartsTaken answer opened.1.ret (toCLong offset) data (size + 1) 0 buffer.2

section
variable {head : List Byte} {fd offset session : Int} {size s : Nat}

end

section
variable {issued : Issued} {dir : CPath} {fd session published : Int} {buffer : Nat → Byte} {offset : Int} {size : UInt64}
  (op : issued.op = .write dir fd session false published buffer offset size)
include op

end

/-! ### Every operation -/

/-- What an operation needs if all of it is to be received. The size of a read or a write is an
`int`, as is that of all it can return, and the rounds that it needs are granted. A directory that is
read without a session is there, or the server would follow a null stream. -/
def Plain (answer : S → Call → Answer × S) (issued : Issued) : Prop :=
  match issued.op with
  | .read _ _ _ _ _ size => size.toNat < 2 ^ 31 ∧ size.toNat < issued.fuel
  | .write _ fd session hasMqtt _ _ _ size =>
    hasMqtt = false → 0 < size.toNat → size.toNat < 2 ^ 31 ∧ size.toNat ≤ issued.fuel ∧
      (toCChar session = 1 → 0 ≤ toCInt fd) ∧ Storing answer size.toNat
  | .readdir path _ _ session =>
    toCChar session ≠ 1 → ∀ world, (answer world (.filesystemOpendir path.text)).1.ret ≠ 0
  | _ => True

/-- Both sides are between two operations: the client has a result for every operation, the
dispatcher is at the start of a turn, all that was said was heard as it was said, and nothing is
left on the connection. -/
structure Rests (ops : List Issued) (memories : List (Nat → Byte))
    (meeting : Party Byte Empty Empty (List (Option Returned)) Unit × Party Byte Call Answer Turn S) : Prop where
  results : ∃ results : List Returned, meeting.1.dialogue = .done (results.map some) ∧ results.length = ops.length
  turns : ∃ left typeOp, left <:+ memories ∧ meeting.2.dialogue = dispatcherLoop left typeOp
  requests : meeting.2.received = meeting.1.sent
  replies : meeting.1.received = meeting.2.sent
  client : meeting.1.inbox = []
  server : meeting.2.inbox = []

theorem Rests.stuck {ops : List Issued} {memories : List (Nat → Byte)}
    {meeting : Party Byte Empty Empty (List (Option Returned)) Unit × Party Byte Call Answer Turn S}
      (rests : Rests ops memories meeting)
    (next : Party Byte Empty Empty (List (Option Returned)) Unit × Party Byte Call Answer Turn S) :
    ¬Step silent answer meeting next := by
  obtain ⟨client, server⟩ := meeting
  obtain ⟨results, returned, _⟩ := rests.results
  obtain ⟨left, typeOp, _, loops⟩ := rests.turns
  have empty := rests.server
  simp only at returned loops empty
  intro step
  cases step with
  | client moves => simp [Party.step, returned] at moves
  | server moves =>
    cases left with
    | nil => simp [Party.step, loops, dispatcherLoop] at moves
    | cons memory left =>
      rw [dispatcherLoop, xpnServerDispatcher, bind_assoc, show (4 : Int) = (4 : Nat) from rfl,
        commReadData_eq (by decide) (by decide)] at loops
      simp [Party.step, loops, empty] at moves

end Xpn.Proofs.Sessions
