import Mathlib.Data.List.Perm.Subperm
import Xpn.Lib.Slots
import Xpn.WorkersPool

/-! The pool queue under any interleaving: what has been enqueued is what has been
dequeued followed by what the ring holds. A launcher that waits for each launch of its record
before the next is released only when the record has been executed. -/

namespace Xpn.Proofs.WorkersPool
open Xpn.WorkersPool Lib.RingBuffer Lib.Runs Lib.Slots

variable {α : Type}

def running : PoolThread α → Option (StTh α)
  | .function th => some th
  | _ => none

def waking : PoolThread α → Option (StTh α)
  | .wakeup th => some th
  | _ => none

def wakes (address : Nat) (th : StTh α) : Bool := th.wait4me && th.v == address

/-- A record to be waited for is launched with `r_wait` set, and not while a launch before is pending. -/
def WaitedFor (before : System α) : Event α → Prop
  | .enqueue thArg => thArg.wait4me → before.rWait thArg.v = true ∧ before.pending thArg.v = false
  | _ => True

/-- The ring and its history agree. -/
structure Sound (s : System α) : Prop where
  bounded : s.pool.nOperation ≤ maxOperations
  enqPos : s.pool.enqPos = (s.pool.deqPos + s.pool.nOperation) % maxOperations
  inside : s.pool.deqPos < maxOperations
  queue : s.enqueued =
    s.dequeued ++ contents maxOperations s.pool.operationsBuffer s.pool.deqPos s.pool.nOperation
  once : (s.executed ++ s.threads.filterMap running).Subperm s.dequeued

/-- Of the launches of a record only a pending one may not have been executed and reported, and not
when `r_wait` is clear. -/
def Reported (s : System α) : Prop :=
  ∀ address, s.enqueued.countP (wakes address) + (s.threads.filterMap waking).countP (wakes address) ≤
    s.executed.countP (wakes address) + if s.pending address && s.rWait address then 1 else 0

variable {s : System α}

private theorem nobody (poolMaxThreads : Nat) (held : PoolThread α → Option (StTh α)) (idle : held .dequeue = none) :
    (List.replicate poolMaxThreads PoolThread.dequeue).filterMap held = [] := by
  simp [List.filterMap_replicate_of_none, idle]

theorem sound_initial (operationsBuffer : Nat → StTh α) (rWait : Nat → Bool) (poolMaxThreads : Nat) :
    Sound (System.initial operationsBuffer rWait poolMaxThreads) := by
  refine ⟨Nat.zero_le _, rfl, Nat.zero_lt_succ _, rfl, ?_⟩
  simp [System.initial, nobody poolMaxThreads running rfl]

theorem reported_initial (operationsBuffer : Nat → StTh α) (rWait : Nat → Bool) (poolMaxThreads : Nat) :
    Reported (System.initial operationsBuffer rWait poolMaxThreads) := by
  intro address
  simp [System.initial, nobody poolMaxThreads waking rfl]

/-- Changing a thread from one state to another, as seen by one of the two views. -/
theorem threads_set (held : PoolThread α → Option (StTh α)) {thread : Nat} {old : PoolThread α} (new : PoolThread α)
    (found : s.threads[thread]? = some old) (before : held old = none) (after : held new = none) :
    ((s.threads.set thread new).filterMap held).Perm (s.threads.filterMap held) := by
  simpa [before, after] using filterMap_set held found new

theorem threads_gain (held : PoolThread α → Option (StTh α)) {thread : Nat} {old : PoolThread α} (new : PoolThread α) {th : StTh α}
    (found : s.threads[thread]? = some old) (before : held old = none) (after : held new = some th) :
    ((s.threads.set thread new).filterMap held).Perm (s.threads.filterMap held ++ [th]) := by
  simpa [before, after] using filterMap_set held found new

theorem threads_lose (held : PoolThread α → Option (StTh α)) {thread : Nat} {old : PoolThread α} (new : PoolThread α) {th : StTh α}
    (found : s.threads[thread]? = some old) (before : held old = some th) (after : held new = none) :
    ((s.threads.set thread new).filterMap held ++ [th]).Perm (s.threads.filterMap held) := by
  simpa [before, after] using filterMap_set held found new

theorem Sound.enqueue (sound : Sound s) {thArg : StTh α} {pool : WorkerPool α} (pending : Nat → Bool)
    (entered : workerPoolEnqueue s.pool thArg = some pool) :
    Sound { s with pool, enqueued := s.enqueued ++ [thArg], pending } := by
  simp only [workerPoolEnqueue, Option.ite_none_left_eq_some, Option.some.injEq] at entered
  obtain ⟨room, rfl⟩ := entered
  have below : s.pool.nOperation < maxOperations := lt_of_le_of_ne sound.bounded room
  refine ⟨below, ?_, sound.inside, ?_, sound.once⟩
  · simp only [sound.enqPos, Nat.mod_add_mod]
    rw [Nat.add_assoc]
  · simp only [sound.enqPos]
    rw [contents_push _ _ below, ← List.append_assoc, ← sound.queue]

theorem Sound.dequeue (sound : Sound s) {thread : Nat} {th : StTh α} {ends : Bool} {pool : WorkerPool α}
    (idle : s.threads[thread]? = some .dequeue) (left : workerPoolDequeue s.pool = some (th, ends, pool)) :
    Sound { s with
      pool
      threads := s.threads.set thread (if ends then .exited else .function th)
      dequeued := s.dequeued ++ [th] } := by
  simp only [workerPoolDequeue, Option.ite_none_left_eq_some, Option.some.injEq, Prod.mk.injEq] at left
  obtain ⟨some_left, rfl, -, rfl⟩ := left
  obtain ⟨count, counted⟩ := Nat.exists_eq_succ_of_ne_zero some_left
  have bounded := sound.bounded
  have front := Nat.mod_eq_of_lt sound.inside
  refine ⟨by simp only; omega, ?_, Nat.mod_lt _ (by decide), ?_, ?_⟩
  · simp only [sound.enqPos, counted, Nat.mod_add_mod, Nat.succ_eq_add_one, Nat.add_sub_cancel]
    congr 1
    omega
  · have popped := @contents_pop _ maxOperations s.pool.deqPos count s.pool.operationsBuffer
    rw [front] at popped
    simp only [sound.queue, counted, Nat.succ_eq_add_one, Nat.add_sub_cancel, popped, List.append_assoc, List.singleton_append]
  · cases ends with
    | true =>
      have same := threads_set running .exited idle rfl rfl
      exact ((same.append_left _).subperm_right.mpr sound.once).trans (List.sublist_append_left _ _).subperm
    | false =>
      have more := threads_gain running (.function (s.pool.operationsBuffer s.pool.deqPos)) idle rfl rfl
      refine (more.append_left _).subperm_right.mpr ?_
      rw [← List.append_assoc]
      exact List.subperm_append_right _ |>.mpr sound.once

theorem Sound.function (sound : Sound s) {thread : Nat} {th : StTh α} (busy : s.threads[thread]? = some (.function th)) :
    Sound { s with threads := s.threads.set thread (.wakeup th), executed := s.executed ++ [th] } := by
  have fewer := threads_lose running (.wakeup th) busy rfl rfl
  refine ⟨sound.bounded, sound.enqPos, sound.inside, sound.queue, List.Perm.subperm_right ?_ |>.mpr sound.once⟩
  rw [List.append_assoc]
  exact (List.perm_append_comm.trans fewer).append_left _

theorem Sound.wakeup (sound : Sound s) {thread : Nat} {th : StTh α} (done : s.threads[thread]? = some (.wakeup th)) :
    Sound (WorkersPool.wakeup s thread th) :=
  ⟨sound.bounded, sound.enqPos, sound.inside, sound.queue,
    ((threads_set running .dequeue done rfl rfl).append_left _).subperm_right.mpr sound.once⟩

/-- What the launchers note in their records is no matter of the queue. -/
theorem Sound.note (sound : Sound s) (rWait pending : Nat → Bool) : Sound { s with rWait, pending } :=
  ⟨sound.bounded, sound.enqPos, sound.inside, sound.queue, sound.once⟩

theorem Reported.prepare (reported : Reported s) (address : Nat) :
    Reported { s with rWait := Function.update s.rWait address true } := by
  intro other
  have before := reported other
  by_cases same : other = address
  · subst same
    simp only [Function.update_self, Bool.and_true]
    cases pending : s.pending other with
    | true =>
      simp only [if_true]
      split at before <;> omega
    | false => simpa [pending] using before
  · simpa only [Function.update_of_ne same] using before

theorem Reported.enqueue (reported : Reported s) {thArg : StTh α} (pool : WorkerPool α) (waitedFor : WaitedFor s (.enqueue thArg)) :
    Reported { s with
      pool
      enqueued := s.enqueued ++ [thArg]
      pending := if thArg.wait4me then Function.update s.pending thArg.v true else s.pending } := by
  intro address
  have before := reported address
  simp only [List.countP_append, List.countP_singleton]
  cases waiting : thArg.wait4me with
  | false => simpa [wakes, waiting] using before
  | true =>
    obtain ⟨waits, free⟩ := waitedFor waiting
    by_cases same : thArg.v = address
    · subst same
      simp only [free, Bool.false_and, Bool.false_eq_true, if_false] at before
      simp only [wakes, waiting, beq_self_eq_true, Bool.and_self, if_true, Function.update_self, waits]
      omega
    · simpa [wakes, waiting, same, Function.update_of_ne (Ne.symm same)] using before

theorem Reported.dequeue (reported : Reported s) {thread : Nat} {next : PoolThread α} (pool : WorkerPool α) (dequeued : List (StTh α))
    (idle : s.threads[thread]? = some .dequeue) (busy : waking next = none) :
    Reported { s with pool, threads := s.threads.set thread next, dequeued } := by
  intro address
  simpa only [(threads_set waking next idle rfl busy).countP_eq] using reported address

theorem Reported.function (reported : Reported s) {thread : Nat} {th : StTh α} (busy : s.threads[thread]? = some (.function th)) :
    Reported { s with threads := s.threads.set thread (.wakeup th), executed := s.executed ++ [th] } := by
  intro address
  have more := threads_gain waking (.wakeup th) busy rfl rfl
  have before := reported address
  simp only [more.countP_eq, List.countP_append]
  omega

theorem Reported.wakeup (reported : Reported s) {thread : Nat} {th : StTh α} (done : s.threads[thread]? = some (.wakeup th)) :
    Reported (WorkersPool.wakeup s thread th) := by
  intro address
  have fewer := threads_lose waking .dequeue done rfl rfl
  have before := reported address
  simp only [← fewer.countP_eq, List.countP_append, List.countP_singleton] at before
  simp only [WorkersPool.wakeup]
  by_cases reports : wakes address th
  · -- It was the one launch that had not been reported.
    rw [if_pos reports] at before
    have bound : (if s.pending address && s.rWait address then 1 else 0) ≤ 1 := by split <;> omega
    omega
  · have same : (if th.wait4me then Function.update s.rWait th.v false else s.rWait) address = s.rWait address := by
      split
      next waiting =>
        rw [Function.update_of_ne]
        rintro rfl
        simp [wakes, waiting] at reports
      next => rfl
    rw [if_neg reports, Nat.add_zero] at before
    simpa only [same] using before

theorem Reported.wait (reported : Reported s) {address : Nat} {after : System α} (returned : workerPoolWait s address = some after) :
    Reported after := by
  simp only [workerPoolWait, Option.ite_none_left_eq_some, Option.some.injEq, Bool.not_eq_true] at returned
  obtain ⟨released, rfl⟩ := returned
  intro other
  have before := reported other
  by_cases same : other = address
  · subst same
    simpa [released] using before
  · simpa only [Function.update_of_ne same] using before

theorem Sound.step (sound : Sound s) {event : Event α} {after : System α} (taken : Step s event after) : Sound after := by
  cases event with
  | prepare address =>
    cases taken
    exact sound.note _ _
  | enqueue thArg =>
    obtain ⟨pool, entered, rfl⟩ := Option.map_eq_some_iff.mp taken
    exact sound.enqueue _ entered
  | dequeue thread =>
    simp only [Step, WorkersPool.step] at taken
    split at taken
    next idle =>
      obtain ⟨⟨th, ends, pool⟩, left, rfl⟩ := Option.map_eq_some_iff.mp taken
      exact sound.dequeue idle left
    next => cases taken
  | function thread =>
    simp only [Step, WorkersPool.step] at taken
    split at taken
    next th busy =>
      cases taken
      exact sound.function busy
    next => cases taken
  | wakeup thread =>
    simp only [Step, WorkersPool.step] at taken
    split at taken
    next th done =>
      cases taken
      exact sound.wakeup done
    next => cases taken
  | wait address =>
    simp only [Step, WorkersPool.step, workerPoolWait, Option.ite_none_left_eq_some, Option.some.injEq] at taken
    rw [← taken.2]
    exact sound.note _ _

theorem Reported.step (reported : Reported s) {event : Event α} {after : System α} (waitedFor : WaitedFor s event)
    (taken : Step s event after) : Reported after := by
  cases event with
  | prepare address =>
    cases taken
    exact reported.prepare address
  | enqueue thArg =>
    obtain ⟨pool, -, rfl⟩ := Option.map_eq_some_iff.mp taken
    exact reported.enqueue pool waitedFor
  | dequeue thread =>
    simp only [Step, WorkersPool.step] at taken
    split at taken
    next idle =>
      obtain ⟨⟨th, ends, pool⟩, -, rfl⟩ := Option.map_eq_some_iff.mp taken
      refine reported.dequeue pool _ idle ?_
      split <;> rfl
    next => cases taken
  | function thread =>
    simp only [Step, WorkersPool.step] at taken
    split at taken
    next th busy =>
      cases taken
      exact reported.function busy
    next => cases taken
  | wakeup thread =>
    simp only [Step, WorkersPool.step] at taken
    split at taken
    next th done =>
      cases taken
      exact reported.wakeup done
    next => cases taken
  | wait address => exact reported.wait taken

/-- With all launches reported, all of them have been executed. -/
theorem Sound.all_executed (sound : Sound s) {address : Nat}
    (reported : s.enqueued.countP (wakes address) ≤ s.executed.countP (wakes address)) :
    (s.executed.filter (wakes address)).Perm (s.enqueued.filter (wakes address)) := by
  have executed : s.executed.Subperm s.enqueued := by
    rw [sound.queue]
    exact ((List.sublist_append_left _ _).subperm.trans sound.once).trans (List.sublist_append_left _ _).subperm
  apply (executed.filter (wakes address)).perm_of_length_le
  rwa [← List.countP_eq_length_filter, ← List.countP_eq_length_filter]

/-- Nothing is lost, duplicated or reordered. As long as no record is launched again before the wait for
its launch before has returned, a wait returns only when all launches of the record have been executed. -/
theorem pool_queue_faithful (operationsBuffer : Nat → StTh α) (rWait : Nat → Bool) (poolMaxThreads : Nat) :
    (∀ s, Reachable Step (fun _ _ => True) (System.initial operationsBuffer rWait poolMaxThreads) s →
      s.pool.nOperation ≤ maxOperations ∧
      s.pool.enqPos = (s.pool.deqPos + s.pool.nOperation) % maxOperations ∧
      s.enqueued = s.dequeued ++ (List.range s.pool.nOperation).map (fun i =>
        s.pool.operationsBuffer ((s.pool.deqPos + i) % maxOperations)) ∧
      s.dequeued <+: s.enqueued ∧
      s.executed.Subperm s.dequeued) ∧
    ∀ s, Reachable Step WaitedFor (System.initial operationsBuffer rWait poolMaxThreads) s →
      ∀ address after, workerPoolWait s address = some after →
        (s.executed.filter (wakes address)).Perm (s.enqueued.filter (wakes address)) := by
  constructor
  · intro s run
    have sound := run.invariant Sound (sound_initial _ _ _) fun _ _ _ sound _ taken => sound.step taken
    exact ⟨sound.bounded, sound.enqPos, sound.queue, ⟨_, sound.queue.symm⟩,
      (List.sublist_append_left _ _).subperm.trans sound.once⟩
  · intro s run address after returned
    have sound := run.invariant Sound (sound_initial _ _ _) fun _ _ _ sound _ taken => sound.step taken
    have reported := run.invariant Reported (reported_initial _ _ _) fun _ _ _ reported waitedFor taken => reported.step waitedFor taken
    simp only [workerPoolWait, Option.ite_none_left_eq_some, Bool.not_eq_true] at returned
    have reported := reported address
    simp only [returned.1, Bool.and_false, Bool.false_eq_true, if_false, Nat.add_zero] at reported
    exact sound.all_executed (by omega)

private def launched (params : Nat) : StTh Nat := ⟨0, true, 7, params⟩

private def oneThread : System Nat := System.initial (fun _ => launched 0) (fun _ => false) 1

/-- A launcher that waits for its record and launches it again: both have been executed when the second
wait returns. -/
theorem pool_queue_faithful_again : ∃ s after : System Nat, workerPoolWait s 7 = some after ∧
    (s.executed.filter (wakes 7)).Perm [launched 42, launched 43] := by
  have prepared : Reachable Step WaitedFor oneThread _ := .next .start (show WaitedFor oneThread (.prepare 7) from trivial) rfl
  have run := (prepared.next (show WaitedFor _ (.enqueue (launched 42)) from fun _ => ⟨rfl, rfl⟩) rfl).exec_free
    [.dequeue 0, .function 0, .wakeup 0, .wait 7, .prepare 7] (by simp [WaitedFor]) rfl
  have again := (run.next (show WaitedFor _ (.enqueue (launched 43)) from fun _ => ⟨rfl, rfl⟩) rfl).exec_free
    [.dequeue 0, .function 0, .wakeup 0] (by simp [WaitedFor]) rfl
  exact ⟨_, _, rfl, (pool_queue_faithful _ _ _).2 _ again 7 _ rfl⟩

/-- A launcher whose record is in the queue twice: its wait returns when the first of them has been
executed. -/
theorem relaunched_not_executed : ¬∀ (operationsBuffer : Nat → StTh Nat) (rWait : Nat → Bool) (poolMaxThreads : Nat) (s : System Nat),
    Reachable Step (fun _ _ => True) (System.initial operationsBuffer rWait poolMaxThreads) s →
    ∀ address after, workerPoolWait s address = some after → ∀ th ∈ s.enqueued, wakes address th → th ∈ s.executed := by
  intro always
  obtain ⟨s, run, released, enqueued, executed⟩ : ∃ s, Lib.Runs.exec step oneThread
      [.prepare 7, .enqueue (launched 42), .prepare 7, .enqueue (launched 43), .dequeue 0, .function 0, .wakeup 0] = some s ∧
        s.rWait 7 = false ∧ s.enqueued = [launched 42, launched 43] ∧ s.executed = [launched 42] :=
    ⟨_, rfl, rfl, rfl, rfl⟩
  have missed := always _ _ _ s (Reachable.exec _ .start run) 7 _ (if_neg (by simp [released])) (launched 43) (by simp [enqueued]) rfl
  rw [executed] at missed
  exact absurd (List.mem_singleton.mp missed) (by simp [launched])

end Xpn.Proofs.WorkersPool
