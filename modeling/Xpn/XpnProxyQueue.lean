import Xpn.XpnProxy

/-! The proxy as a whole: clients that connect when they like, `main` that accepts their
connections and puts them in a queue, and the threads that take them from it. What is done
under the mutex is one step; to wait is not to be able to take it. -/

namespace Xpn.XpnProxy
open Lib.Conversation

/-- Where a thread is in `worker_thread`. -/
inductive Thread where
  | waiting
  | handling (client : Nat)
  | exited
  deriving DecidableEq

/-- Where `main` is in its loop: at the test of `do_exit`, in `accept`, or with a node to insert. -/
inductive Main where
  | looking
  | accepting
  | inserting (client : Nat)
  | left
  deriving DecidableEq

def Main.node : Main → Option Nat
  | .inserting i => some i
  | _ => none

/-- A connection is known by its client. -/
structure System (S : Type) where
  service : Service Byte Empty Empty Result Unit Call Answer (Option Int) S
  /-- The connections so far, in the order in which they were made. -/
  connected : List Nat
  /-- Those that nobody has accepted yet. -/
  backlog : List Nat
  main : Main
  clientQ : List Nat
  threads : List Thread
  doExit : Bool
  /-- The connections that were removed from the queue, those that a thread closed, and those that
  `main` closed for want of memory. -/
  taken : List Nat
  closed : List Nat
  dropped : List Nat

inductive Event where
  | connect (client : Nat)
  | client (client : Nat)
  | look
  | accept
  | acceptNoMemory
  | acceptFails
  | insert
  | remove (thread : Nat)
  | handlePetition (thread : Nat)
  | close (thread : Nat)
  | exit (thread : Nat)
  | sigHandler

section
variable {S : Type}

/-- The proxy as started; client `i` calls the function `ops i`. -/
def System.initial (stack : Nat → Byte) (ops : Nat → ProxyOp) (world : S) (threadPoolSize : Nat) : System S :=
  ⟨Service.opened world (fun i => (ops i).run) () (handlePetition stack), [], [], .looking, [],
    List.replicate threadPoolSize .waiting, false, [], [], []⟩

variable (answer : S → Call → Answer × S)

def step (s : System S) : Event → Option (System S)
  | .connect i =>
    if i ∈ s.connected then none
    else some { s with connected := s.connected ++ [i], backlog := s.backlog ++ [i] }
  -- A client whose connection was closed at once only finds that it is.
  | .client i =>
    if i ∈ s.connected ∧ i ∉ s.dropped then
      (s.service.clientStep NfiXpnServer.silent i).map fun service => { s with service }
    else none
  | .look => if s.main = .looking then some { s with main := if s.doExit then .left else .accepting } else none
  -- `accept` can return after `do_exit` was set.
  | .accept =>
    match s.backlog, s.main with
    | i :: rest, .accepting => some { s with backlog := rest, main := .inserting i }
    | _, _ => none
  | .acceptNoMemory =>
    match s.backlog, s.main with
    | i :: rest, .accepting => some { s with backlog := rest, main := .looking, dropped := s.dropped ++ [i] }
    | _, _ => none
  | .acceptFails => if s.main = .accepting then some { s with main := if s.doExit then .left else .looking } else none
  | .insert => s.main.node.map fun i => { s with clientQ := s.clientQ ++ [i], main := .looking }
  | .remove t =>
    match s.threads[t]?, s.clientQ with
    | some .waiting, i :: rest =>
      if s.doExit then none
      else some { s with clientQ := rest, threads := s.threads.set t (.handling i), taken := s.taken ++ [i] }
    | _, _ => none
  | .handlePetition t =>
    match s.threads[t]? with
    | some (.handling i) => (s.service.serverStep answer i).map fun service => { s with service }
    | _ => none
  | .close t =>
    match s.threads[t]? with
    | some (.handling i) =>
      match (s.service.servers i).dialogue with
      | .done (some _) => some { s with threads := s.threads.set t .waiting, closed := s.closed ++ [i] }
      | _ => none
    | _ => none
  | .exit t =>
    match s.threads[t]? with
    | some .waiting => if s.doExit then some { s with threads := s.threads.set t .exited } else none
    | _ => none
  | .sigHandler => some { s with doExit := true }

/-- Any interleaving of the clients, `main` and the threads. -/
def Proceeds : System S → System S → Prop := Relation.ReflTransGen fun before after => ∃ event, step answer before event = some after

end

end Xpn.XpnProxy
