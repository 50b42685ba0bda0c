import Mathlib.Logic.Function.Basic
import Xpn.Lib.Runs

/-! On-demand workers: a launch sets the shared `busy_worker`, creates a thread that gets
the address of the launcher's record, and waits until the flag is cleared; the thread
clears it when it has copied the record. The flag is also set outside the mutex. -/

namespace Xpn.WorkersOndemand

variable {α : Type}

/-- Where a launcher is in `worker_ondemand_launch`. -/
inductive Launcher where
  | outside
  | busySet
  /-- It waits under `m_worker` after it created this worker. -/
  | waiting (worker : Nat)
  deriving DecidableEq

/-- Where a thread is in `worker_run`. -/
inductive Worker (α : Type) where
  /-- It has the address of a launcher's record. -/
  | started (launcher : Nat)
  | copied (th : α)
  | finished (th : α)
  deriving DecidableEq

/-- `worker_ondemand_t`, the launchers' records, and what has happened. -/
structure System (α : Type) where
  busyWorker : Bool
  thArg : Nat → α
  launchers : Nat → Launcher
  workers : List (Worker α)
  /-- The records as they were when the workers were created. -/
  launched : List α
  executed : List α

def workerOndemandInit (thArg : Nat → α) : System α := ⟨true, thArg, fun _ => .outside, [], [], []⟩

inductive Event (α : Type) where
  /-- Outside a launch a launcher reuses its record. -/
  | fill (launcher : Nat) (record : α)
  | setBusy (launcher : Nat)
  | createThread (launcher : Nat)
  | launchReturns (launcher : Nat)
  | copy (worker : Nat)
  | function (worker : Nat)

def step (s : System α) : Event α → Option (System α)
  | .fill launcher record =>
    if s.launchers launcher = .outside then some { s with thArg := Function.update s.thArg launcher record } else none
  | .setBusy launcher =>
    if s.launchers launcher = .outside then
      some { s with busyWorker := true, launchers := Function.update s.launchers launcher .busySet }
    else none
  | .createThread launcher =>
    if s.launchers launcher = .busySet then
      some { s with
        launchers := Function.update s.launchers launcher (.waiting s.workers.length)
        workers := s.workers ++ [.started launcher]
        launched := s.launched ++ [s.thArg launcher] }
    else none
  | .launchReturns launcher =>
    match s.launchers launcher with
    | .waiting _ =>
      if s.busyWorker then none
      else some { s with busyWorker := true, launchers := Function.update s.launchers launcher .outside }
    | _ => none
  | .copy worker =>
    match s.workers[worker]? with
    | some (.started launcher) =>
      some { s with busyWorker := false, workers := s.workers.set worker (.copied (s.thArg launcher)) }
    | _ => none
  | .function worker =>
    match s.workers[worker]? with
    | some (.copied th) => some { s with workers := s.workers.set worker (.finished th), executed := s.executed ++ [th] }
    | _ => none

end Xpn.WorkersOndemand
