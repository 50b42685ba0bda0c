import Xpn.Lib.RingBuffer
import Xpn.Lib.Runs

/-! The worker pool: a ring of records behind one mutex, producers that wait while it is
full and pool threads that wait while it is empty. A critical section is one step; to
wait is not to be able to take it. A launcher's record is known by its address. -/

namespace Xpn.WorkersPool
open Lib.RingBuffer

/-- MAX_OPERATIONS -/
def maxOperations : Nat := 1024

/-- TH_FINALIZE -/
def thFinalize : Int := 200

/-- What the pool reads of `st_th`. `v` is the address of the launcher's own record, and
`params` stands for what the function gets. -/
structure StTh (α : Type) where
  typeOp : Int
  wait4me : Bool
  v : Nat
  params : α

structure WorkerPool (α : Type) where
  operationsBuffer : Nat → StTh α
  nOperation : Nat
  deqPos : Nat
  enqPos : Nat
  poolEnd : Bool

variable {α : Type}

/-- The buffer is not cleared, so it starts with anything. -/
def workerPoolInit (operationsBuffer : Nat → StTh α) : WorkerPool α := ⟨operationsBuffer, 0, 0, 0, false⟩

/-- `none` while the caller waits for `c_pool_no_full`. -/
def workerPoolEnqueue (w : WorkerPool α) (thArg : StTh α) : Option (WorkerPool α) :=
  if w.nOperation = maxOperations then none
  else some { w with
    operationsBuffer := Function.update w.operationsBuffer w.enqPos thArg
    enqPos := (w.enqPos + 1) % maxOperations
    nOperation := w.nOperation + 1 }

/-- `none` while the thread waits for `c_poll_no_empty`. The flag says that the thread
exits instead of returning the record. -/
def workerPoolDequeue (w : WorkerPool α) : Option (StTh α × Bool × WorkerPool α) :=
  if w.nOperation = 0 then none
  else
    let th := w.operationsBuffer w.deqPos
    some (th, w.poolEnd || th.typeOp == thFinalize,
      { w with deqPos := (w.deqPos + 1) % maxOperations, nOperation := w.nOperation - 1 })

/-- Where a pool thread is in `worker_pool_function`. -/
inductive PoolThread (α : Type) where
  | dequeue
  | function (th : StTh α)
  | wakeup (th : StTh α)
  | exited

/-- The pool with its threads, the `r_wait` of the records, and what has happened. -/
structure System (α : Type) where
  pool : WorkerPool α
  threads : List (PoolThread α)
  rWait : Nat → Bool
  enqueued : List (StTh α)
  dequeued : List (StTh α)
  executed : List (StTh α)
  /-- The records that have been launched and not waited for since. -/
  pending : Nat → Bool

/-- The pool as started, with POOL_MAX_THREADS threads. A record that was never launched holds
anything. -/
def System.initial (operationsBuffer : Nat → StTh α) (rWait : Nat → Bool) (poolMaxThreads : Nat) : System α :=
  ⟨workerPoolInit operationsBuffer, List.replicate poolMaxThreads .dequeue, rWait, [], [], [], fun _ => false⟩

inductive Event (α : Type) where
  /-- A launcher sets `r_wait` before it launches. -/
  | prepare (address : Nat)
  | enqueue (thArg : StTh α)
  | dequeue (thread : Nat)
  | function (thread : Nat)
  | wakeup (thread : Nat)
  | wait (address : Nat)

/-- `worker_pool_wait`: it returns when `r_wait` is false. -/
def workerPoolWait (s : System α) (address : Nat) : Option (System α) :=
  if s.rWait address then none
  else some { s with
    rWait := Function.update s.rWait address true
    pending := Function.update s.pending address false }

/-- The end of a pass of `worker_pool_function`. -/
def wakeup (s : System α) (thread : Nat) (th : StTh α) : System α :=
  { s with
    threads := s.threads.set thread .dequeue
    rWait := if th.wait4me then Function.update s.rWait th.v false else s.rWait }

def step (s : System α) : Event α → Option (System α)
  | .prepare address => some { s with rWait := Function.update s.rWait address true }
  | .enqueue thArg => (workerPoolEnqueue s.pool thArg).map fun pool =>
    { s with
      pool
      enqueued := s.enqueued ++ [thArg]
      pending := if thArg.wait4me then Function.update s.pending thArg.v true else s.pending }
  | .dequeue thread =>
    match s.threads[thread]? with
    | some .dequeue => (workerPoolDequeue s.pool).map fun (th, ends, pool) =>
      { s with
        pool
        threads := s.threads.set thread (if ends then .exited else .function th)
        dequeued := s.dequeued ++ [th] }
    | _ => none
  | .function thread =>
    match s.threads[thread]? with
    | some (.function th) => some { s with
        threads := s.threads.set thread (.wakeup th)
        executed := s.executed ++ [th] }
    | _ => none
  | .wakeup thread =>
    match s.threads[thread]? with
    | some (.wakeup th) => some (wakeup s thread th)
    | _ => none
  | .wait address => workerPoolWait s address

/-- A step of an interleaving before the pool is destroyed. -/
abbrev Step (before : System α) (event : Event α) (after : System α) : Prop := step before event = some after

end Xpn.WorkersPool
