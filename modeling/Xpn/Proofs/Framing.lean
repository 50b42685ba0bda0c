import Xpn.Proofs.Sessions

/-! Where the next request begins when the local calls of the server fail. Every handler reads all of its
request before it looks at what a call gave, except that of a write; and the two sides of a read
count the bytes that are left in integers of different width. -/

namespace Xpn.Proofs.Framing
open Lib.Conversation Lib.ByteFile Xpn.Messages XpnServer NfiXpnServer Proofs.Messages PathTransport Transfer Sessions
open Transport (xpnPathMax msgSize PathMember intBytes fillPath pathTail opOpen opRead opWrite opClose opRm opGetattr opMkdir
  opRmdir opOpendir opReaddir opClosedir opReadMdata opWriteMdata opWriteMdataFileSize)

variable {S : Type} {answer : S → Call → Answer × S} {α : Type}

/-- What these calls do with a null stream is not defined; the server can end there. -/
def OnNull : Call → Prop
  | .filesystemReaddir dir => dir = 0
  | .filesystemTelldir dir => dir = 0
  | .filesystemSeekdir dir _ => dir = 0
  | _ => False

/-- No call so far was on a null stream. -/
def Defined (world : S × List Call) : Prop := ∀ call ∈ world.2, ¬OnNull call

/-- The calls, in a world that keeps them. -/
def logged (answer : S → Call → Answer × S) : S × List Call → Call → Answer × (S × List Call) :=
  fun (world, log) request => ((answer world request).1, (answer world request).2, log ++ [request])

/-- The function has returned and the server goes on to the next opcode, with nothing left unread on
either side. -/
structure AtRest (memory : Nat → Byte) (typeOp : List Byte)
    (meeting : Party Byte Empty Empty (Option Returned) Unit × Party Byte Call Answer Turn (S × List Call)) : Prop where
  returned : ∃ returned, meeting.1.dialogue = .done (some returned)
  goesOn : meeting.2.dialogue = xpnServerDispatcher memory typeOp ∨ ∃ typeOp', meeting.2.dialogue = .done (.goesOn typeOp')
  defined : Defined meeting.2.world
  client : meeting.1.inbox = []
  server : meeting.2.inbox = []

section
variable {memory : Nat → Byte} {typeOp : List Byte} {world : S} {issued : Issued}

theorem AtRest.stuck {meeting : Party Byte Empty Empty (Option Returned) Unit × Party Byte Call Answer Turn (S × List Call)}
    (rest : AtRest memory typeOp meeting)
    (next : Party Byte Empty Empty (Option Returned) Unit × Party Byte Call Answer Turn (S × List Call)) :
    ¬Step silent (logged answer) meeting next := by
  obtain ⟨client, server⟩ := meeting
  obtain ⟨returned, ended⟩ := rest.returned
  have goes := rest.goesOn
  have empty := rest.server
  simp only at ended goes empty
  intro step
  cases step with
  | client moves => simp [Party.step, ended] at moves
  | server moves =>
    rcases goes with waits | ⟨typeOp', waits⟩
    · rw [xpnServerDispatcher, show (4 : Int) = (4 : Nat) from rfl, commReadData_eq (by decide) (by decide)] at waits
      simp [Party.step, waits, empty] at moves
    · simp [Party.step, waits] at moves

section
variable {hearing saying : Prop} {kind : Call → Prop}

/-- The handler replies when it has heard its request, and what it asks for is of this kind. -/
def Orderly (kind : Call → Prop) (handler : XpnServer.Handler) : Prop := ∀ memory head, HearsFirst kind (handler memory head)

end

/-- A handler that does not look at null streams. -/
abbrev Streamless : XpnServer.Handler → Prop := Orderly fun call => ¬OnNull call

theorem Orderly.any {kind : Call → Prop} {handler : XpnServer.Handler} (orderly : Orderly kind handler) :
    Orderly (fun _ => True) handler :=
  fun memory head => (orderly memory head).weaken fun _ _ => trivial

theorem defined_logged {world : S × List Call} {request : Call} :
    Defined (logged answer world request).2 ↔ Defined world ∧ ¬OnNull request := by
  simp [Defined, logged, or_imp, forall_and]

theorem Streamless.defined {handler : XpnServer.Handler} (streamless : Streamless handler) {head inbox : List Byte}
    {run : Performed Byte Unit (S × List Call)}
    (performed : perform (logged answer) (handler memory head) (world, []) inbox = some run) : Defined run.world := by
  refine (streamless memory head).acts.keeps ?_ ?_ performed
  · exact fun world request right holds => defined_logged.mpr ⟨holds, right⟩
  · simp [Defined]

end

end Xpn.Proofs.Framing
