import Mathlib.Data.List.Perm.Basic
import Xpn.Lib.Slots
import Xpn.WorkersOndemand

/-! The handshake of the on-demand workers. One flag serves all launchers, so it works
as long as a launch begins only after the worker of every earlier launch has copied its
record, and fails in some continuation as soon as one begins earlier. -/

namespace Xpn.Proofs.WorkersOndemand
open Xpn.WorkersOndemand Lib.Slots

variable {α : Type} {s : System α}

/-- A launch returns only after its worker has copied the record; when all workers have
finished, what was executed is what was launched. -/
def Handshake (s : System α) : Prop :=
  (∀ i launcher, s.workers[i]? = some (.started launcher) → s.launchers launcher = .waiting i) ∧
    ((∀ worker ∈ s.workers, ∃ th, worker = .finished th) → s.executed.Perm s.launched)

/-- The launcher is inside a launch whose worker has not copied the record. -/
def Uncopied (s : System α) (launcher : Nat) : Prop :=
  s.launchers launcher = .busySet ∨ ∃ i, s.launchers launcher = .waiting i ∧ s.workers[i]? = some (.started launcher)

/-- No launch begins while another one is not copied. -/
def OneAtATime (s : System α) : Event α → Prop
  | .setBusy _ => ∀ launcher, ¬Uncopied s launcher
  | _ => True

def record (thArg : Nat → α) : Worker α → α
  | .started launcher => thArg launcher
  | .copied th | .finished th => th

def done : Worker α → Option α
  | .finished th => some th
  | _ => none

structure Orderly (s : System α) : Prop where
  records : s.launched = s.workers.map (record s.thArg)
  started : ∀ i launcher, s.workers[i]? = some (.started launcher) → s.launchers launcher = .waiting i
  alone : ∀ launcher other, Uncopied s launcher → Uncopied s other → launcher = other
  busy : ∀ launcher, Uncopied s launcher → s.busyWorker = true
  executed : s.executed.Perm (s.workers.filterMap done)

theorem orderly_init (thArg : Nat → α) : Orderly (workerOndemandInit thArg) := by
  have nobody : ∀ launcher, ¬Uncopied (workerOndemandInit thArg) launcher := by
    rintro launcher (set | ⟨i, waits, -⟩)
    · cases set
    · cases waits
  exact ⟨rfl, fun i launcher impossible => by simp [workerOndemandInit] at impossible,
    fun launcher _ inside => absurd inside (nobody launcher), fun launcher inside => absurd inside (nobody launcher),
    List.Perm.refl _⟩

theorem Orderly.fill (orderly : Orderly s) {launcher : Nat} (outside : s.launchers launcher = .outside) (th : α) :
    Orderly { s with thArg := Function.update s.thArg launcher th } := by
  refine ⟨?_, orderly.started, orderly.alone, orderly.busy, orderly.executed⟩
  rw [orderly.records]
  apply List.map_congr_left
  intro worker member
  cases worker with
  | started other =>
    -- Its launcher is inside a launch, so it is not the one that fills its record.
    obtain ⟨i, found⟩ := List.getElem?_of_mem member
    have inside := orderly.started i other found
    have different : other ≠ launcher := by
      rintro rfl
      rw [outside] at inside
      cases inside
    simp only [record, Function.update_of_ne different]
  | copied th => rfl
  | finished th => rfl

theorem Orderly.setBusy (orderly : Orderly s) {launcher : Nat} (nobody : ∀ other, ¬Uncopied s other) :
    Orderly { s with busyWorker := true, launchers := Function.update s.launchers launcher .busySet } := by
  have only : ∀ other, Uncopied { s with busyWorker := true, launchers := Function.update s.launchers launcher .busySet } other →
      other = launcher := by
    intro other inside
    by_contra different
    refine nobody other ?_
    simpa only [Uncopied, Function.update_of_ne different] using inside
  refine ⟨orderly.records, fun i other found => ?_, fun one two inside inside' => (only one inside).trans (only two inside').symm,
    fun _ _ => rfl, orderly.executed⟩
  exact absurd (Or.inr ⟨i, orderly.started i other found, found⟩) (nobody other)

theorem Orderly.createThread (orderly : Orderly s) {launcher : Nat} (set : s.launchers launcher = .busySet) :
    Orderly { s with
      launchers := Function.update s.launchers launcher (.waiting s.workers.length)
      workers := s.workers ++ [.started launcher]
      launched := s.launched ++ [s.thArg launcher] } := by
  have only : ∀ other, Uncopied { s with
      launchers := Function.update s.launchers launcher (.waiting s.workers.length)
      workers := s.workers ++ [.started launcher]
      launched := s.launched ++ [s.thArg launcher] } other → other = launcher := by
    intro other inside
    by_contra different
    refine different (orderly.alone other launcher ?_ (Or.inl set))
    simp only [Uncopied, Function.update_of_ne different] at inside
    refine inside.imp id ?_
    rintro ⟨i, waits, found⟩
    refine ⟨i, waits, ?_⟩
    rw [List.getElem?_append] at found
    split at found
    next => exact found
    next =>
      rw [List.getElem?_singleton] at found
      split at found
      next =>
        cases found
        exact absurd rfl different
      next => cases found
  refine ⟨by simp [orderly.records, record], fun i other found => ?_,
    fun one two inside inside' => (only one inside).trans (only two inside').symm,
    fun _ _ => orderly.busy launcher (Or.inl set), by simpa [List.filterMap_append, done, List.filterMap_cons] using orderly.executed⟩
  rw [List.getElem?_append] at found
  split at found
  next =>
    have waits := orderly.started i other found
    have different : other ≠ launcher := by
      rintro rfl
      rw [set] at waits
      cases waits
    simpa only [Function.update_of_ne different] using waits
  next above =>
    rw [List.getElem?_singleton] at found
    split at found
    next here =>
      cases found
      have last : i = s.workers.length := by omega
      simp only [Function.update_self, last]
    next => cases found

theorem Orderly.launchReturns (orderly : Orderly s) {launcher : Nat} (free : s.busyWorker = false) :
    Orderly { s with busyWorker := true, launchers := Function.update s.launchers launcher .outside } := by
  have nobody : ∀ other, ¬Uncopied s other := by
    intro other inside
    have := orderly.busy other inside
    rw [free] at this
    cases this
  have still : ∀ other, ¬Uncopied { s with busyWorker := true, launchers := Function.update s.launchers launcher .outside } other := by
    intro other inside
    by_cases same : other = launcher
    · subst same
      simp [Uncopied] at inside
    · refine nobody other ?_
      simpa only [Uncopied, Function.update_of_ne same] using inside
  exact ⟨orderly.records, fun i other found => absurd (Or.inr ⟨i, orderly.started i other found, found⟩) (nobody other),
    fun one _ inside => absurd inside (still one), fun one inside => absurd inside (still one), orderly.executed⟩

theorem records_set {worker : Nat} {old : Worker α} (found : s.workers[worker]? = some old) (new : Worker α)
    (same : record s.thArg new = record s.thArg old) :
    (s.workers.set worker new).map (record s.thArg) = s.workers.map (record s.thArg) := by
  apply List.ext_getElem?
  intro i
  rw [List.getElem?_map, List.getElem?_map, List.getElem?_set]
  split
  next here =>
    subst here
    have inside : worker < s.workers.length := (List.getElem?_eq_some_iff.mp found).1
    rw [if_pos inside, found, Option.map_some, Option.map_some, same]
  next => rfl

theorem started_of_set {worker i launcher : Nat} {new : Worker α} (other : ∀ launcher, new ≠ .started launcher)
    (found : (s.workers.set worker new)[i]? = some (.started launcher)) :
    i ≠ worker ∧ s.workers[i]? = some (.started launcher) := by
  rw [List.getElem?_set] at found
  split at found
  next here =>
    split at found
    next =>
      cases found
      exact absurd rfl (other launcher)
    next => cases found
  next different => exact ⟨Ne.symm different, found⟩

theorem Orderly.copy (orderly : Orderly s) {worker launcher : Nat} (found : s.workers[worker]? = some (.started launcher)) :
    Orderly { s with busyWorker := false, workers := s.workers.set worker (.copied (s.thArg launcher)) } := by
  have before : Uncopied s launcher := Or.inr ⟨worker, orderly.started worker launcher found, found⟩
  have nobody : ∀ other, ¬Uncopied
      { s with busyWorker := false, workers := s.workers.set worker (.copied (s.thArg launcher)) } other := by
    rintro other inside
    have same : other = launcher := by
      refine orderly.alone other launcher ?_ before
      refine inside.imp id ?_
      rintro ⟨i, waits, here⟩
      exact ⟨i, waits, (started_of_set (fun _ => by simp) here).2⟩
    subst same
    rcases inside with set | ⟨i, waits, here⟩
    · rw [orderly.started worker other found] at set
      cases set
    · rw [orderly.started worker other found] at waits
      cases waits
      exact (started_of_set (fun _ => by simp) here).1 rfl
  refine ⟨orderly.records.trans (records_set found (.copied (s.thArg launcher)) rfl).symm, fun i other here => ?_,
    fun one _ inside => absurd inside (nobody one), fun one inside => absurd inside (nobody one), ?_⟩
  · exact orderly.started i other (started_of_set (fun _ => by simp) here).2
  · have same := filterMap_set done found (.copied (s.thArg launcher))
    simp only [done, Option.toList_none, List.append_nil] at same
    exact orderly.executed.trans same.symm

theorem Orderly.function (orderly : Orderly s) {worker : Nat} {th : α} (found : s.workers[worker]? = some (.copied th)) :
    Orderly { s with workers := s.workers.set worker (.finished th), executed := s.executed ++ [th] } := by
  have before : ∀ other, Uncopied { s with workers := s.workers.set worker (.finished th), executed := s.executed ++ [th] } other →
      Uncopied s other := by
    intro other inside
    refine inside.imp id ?_
    rintro ⟨i, waits, here⟩
    exact ⟨i, waits, (started_of_set (fun _ => by simp) here).2⟩
  refine ⟨orderly.records.trans (records_set found (.finished th) rfl).symm, fun i other here => ?_,
    fun one two inside inside' => orderly.alone one two (before one inside) (before two inside'),
    fun one inside => orderly.busy one (before one inside), ?_⟩
  · exact orderly.started i other (started_of_set (fun _ => by simp) here).2
  · have more := filterMap_set done found (.finished th)
    simp only [done, Option.toList_none, Option.toList_some, List.append_nil] at more
    exact (orderly.executed.append_right _).trans more.symm

theorem Orderly.step (orderly : Orderly s) {event : Event α} {after : System α} (allowed : OneAtATime s event)
    (taken : step s event = some after) : Orderly after := by
  cases event with
  | fill launcher th =>
    simp only [WorkersOndemand.step, Option.ite_none_right_eq_some, Option.some.injEq] at taken
    obtain ⟨outside, rfl⟩ := taken
    exact orderly.fill outside th
  | setBusy launcher =>
    simp only [WorkersOndemand.step, Option.ite_none_right_eq_some, Option.some.injEq] at taken
    obtain ⟨-, rfl⟩ := taken
    exact orderly.setBusy allowed
  | createThread launcher =>
    simp only [WorkersOndemand.step, Option.ite_none_right_eq_some, Option.some.injEq] at taken
    obtain ⟨set, rfl⟩ := taken
    exact orderly.createThread set
  | launchReturns launcher =>
    simp only [WorkersOndemand.step] at taken
    split at taken
    next =>
      simp only [Option.ite_none_left_eq_some, Option.some.injEq, Bool.not_eq_true] at taken
      obtain ⟨free, rfl⟩ := taken
      exact orderly.launchReturns free
    next => cases taken
  | copy worker =>
    simp only [WorkersOndemand.step] at taken
    split at taken
    next launcher found =>
      cases taken
      exact orderly.copy found
    next => cases taken
  | function worker =>
    simp only [WorkersOndemand.step] at taken
    split at taken
    next th found =>
      cases taken
      exact orderly.function found
    next => cases taken

theorem Orderly.handshake (orderly : Orderly s) : Handshake s := by
  refine ⟨orderly.started, fun finished => ?_⟩
  refine orderly.executed.trans (List.Perm.of_eq ?_)
  rw [orderly.records, ← List.filterMap_eq_map]
  apply List.filterMap_congr
  intro worker member
  obtain ⟨th, rfl⟩ := finished worker member
  rfl

/-- Another launch begins before a record is copied: that record's worker can release
the wrong launcher. -/
theorem overtaken {launcher : Nat} {after : System α} (overlaps : ¬OneAtATime s (.setBusy launcher))
    (taken : WorkersOndemand.step s (.setBusy launcher) = some after) :
    ∃ events final, Lib.Runs.exec WorkersOndemand.step after events = some final ∧ ¬Handshake final := by
  simp only [WorkersOndemand.step, Option.ite_none_right_eq_some, Option.some.injEq] at taken
  obtain ⟨outside, rfl⟩ := taken
  simp only [OneAtATime, not_forall, not_not] at overlaps
  obtain ⟨other, set | ⟨i, waits, found⟩⟩ := overlaps
  · have different : other ≠ launcher := by
      rintro rfl
      rw [outside] at set
      cases set
    refine ⟨[.createThread other, .createThread launcher, .copy s.workers.length, .launchReturns launcher], ?_⟩
    apply Exists.intro
    constructor
    · simp [Lib.Runs.exec, WorkersOndemand.step, set, Function.update_of_ne, different, different.symm]
      rfl
    · rintro ⟨copied, -⟩
      have := copied (s.workers.length + 1) launcher
      simp at this
  · have different : other ≠ launcher := by
      rintro rfl
      rw [outside] at waits
      cases waits
    have inside : i < s.workers.length := (List.getElem?_eq_some_iff.mp found).1
    refine ⟨[.createThread launcher, .copy i, .launchReturns launcher], ?_⟩
    apply Exists.intro
    constructor
    · simp [Lib.Runs.exec, WorkersOndemand.step, found, List.getElem?_append_left inside]
      rfl
    · rintro ⟨copied, -⟩
      have := copied s.workers.length launcher (by rw [List.getElem?_set_ne (by omega)]; simp)
      simp at this

/-- The states of the runs in which no launch begins before the records of the others
are copied. -/
abbrev OrderlyRun (thArg : Nat → α) : System α → Prop :=
  Lib.Runs.Reachable (fun before event after => step before event = some after) OneAtATime (workerOndemandInit thArg)

theorem launches_one_at_a_time {thArg : Nat → α} (run : OrderlyRun thArg s) :
    Handshake s ∧ ∀ launcher after, ¬OneAtATime s (.setBusy launcher) → step s (.setBusy launcher) = some after →
      ∃ events final, Lib.Runs.exec step after events = some final ∧ ¬Handshake final := by
  have orderly : Orderly s :=
    run.invariant Orderly (orderly_init _) fun _ _ _ orderly allowed taken => orderly.step allowed taken
  exact ⟨orderly.handshake, fun _ _ => overtaken⟩

/-- The second launch begins while the first worker has copied its record but not yet run. -/
theorem launches_one_at_a_time_once : ∃ s : System Nat, s.launched = [10, 20] ∧ s.executed = [20, 10] ∧ Handshake s := by
  let first : List (Event Nat) := [.setBusy 0, .createThread 0, .copy 0, .launchReturns 0]
  let second : List (Event Nat) := [.setBusy 1, .createThread 1, .copy 1, .function 1, .launchReturns 1, .function 0]
  have along : Lib.Runs.Along step OneAtATime (workerOndemandInit fun launcher => 10 * (launcher + 1)) (first ++ second) := by
    refine ⟨fun launcher uncopied => ?_, fun _ set => ?_⟩
    · simp [Uncopied, workerOndemandInit] at uncopied
    cases set
    refine ⟨trivial, fun _ created => ⟨trivial, fun _ copied => ⟨trivial, fun _ returned => ?_⟩⟩⟩
    cases created
    cases copied
    cases returned
    refine ⟨fun launcher uncopied => ?_, fun next _ => Lib.Runs.along_free _ (by simp [OneAtATime]) next⟩
    simp only [Uncopied, Function.update_apply, workerOndemandInit] at uncopied
    split at uncopied
    · simp at uncopied
    · simp at uncopied
  have run : OrderlyRun (fun launcher => 10 * (launcher + 1)) _ := Lib.Runs.Reachable.exec_along (first ++ second) along .start rfl
  exact ⟨_, rfl, rfl, (launches_one_at_a_time run).1⟩

/-- Two launchers overlap: the worker of launcher 0 releases launcher 1, whose record is
reused before its own worker copies it, so 20 is lost and 30 is executed. -/
theorem overlapping_launch_lost :
    ∃ final : System Nat, Lib.Runs.exec step (workerOndemandInit fun launcher => 10 * (launcher + 1))
      [.setBusy 0, .createThread 0, .setBusy 1, .createThread 1, .copy 0, .launchReturns 1, .fill 1 30, .copy 1,
        .launchReturns 0, .function 0, .function 1] = some final ∧
      final.launched = [10, 20] ∧ final.executed = [10, 30] ∧ ¬Handshake final := by
  have run : ∃ final : System Nat, Lib.Runs.exec step (workerOndemandInit fun launcher => 10 * (launcher + 1))
      [.setBusy 0, .createThread 0, .setBusy 1, .createThread 1, .copy 0, .launchReturns 1, .fill 1 30, .copy 1,
        .launchReturns 0, .function 0, .function 1] = some final ∧
      final.workers = [.finished 10, .finished 30] ∧ final.launched = [10, 20] ∧ final.executed = [10, 30] :=
    ⟨_, rfl, rfl, rfl, rfl⟩
  obtain ⟨final, run, workers, launched, executed⟩ := run
  refine ⟨final, run, launched, executed, ?_⟩
  rintro ⟨-, same⟩
  rw [workers, launched, executed] at same
  have perm := same (by simp)
  exact absurd (perm.mem_iff.mp (by simp : 30 ∈ [10, 30])) (by simp)

end Xpn.Proofs.WorkersOndemand
