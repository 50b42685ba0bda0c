import Xpn.NfiXpnServer
import Xpn.XpnServerOps

/-! A connection for as long as it lasts: the operations that a client does on it one after
another and the loop of the dispatcher that serves them. -/

namespace Xpn
open Transport

namespace NfiXpnServer

/-- An operation with what its memory holds. `fuel` bounds the rounds of a read. -/
structure Issued where
  op : ClientOp
  fuel : Nat
  heap : Nat → Byte
  stack : Nat → Byte

def Issued.run (issued : Issued) : ClientM (Option Returned) := issued.op.run issued.fuel issued.heap issued.stack

def session : List Issued → ClientM (List (Option Returned))
  | [] => pure []
  | issued :: rest => do
    let returned ← issued.run
    let others ← session rest
    pure (returned :: others)

end NfiXpnServer

namespace XpnServer

/-- The loop of `xpn_server_dispatcher`, for as many turns as there is memory given. A server of
sockets does the operations in the thread of the dispatcher. That `xpn_server_run` disconnects when an
operation leaves `EPIPE` in `errno` is not part of it. -/
def dispatcherLoop : List (Nat → Byte) → List Byte → ServerM Turn
  | [], typeOp => pure (.goesOn typeOp)
  | memory :: memories, typeOp => do
    match ← xpnServerDispatcher memory typeOp with
    | .leaves => pure .leaves
    | .goesOn typeOp => dispatcherLoop memories typeOp

end XpnServer

end Xpn
