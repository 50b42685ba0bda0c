import Mathlib.Data.Finset.Filter
import Mathlib.Data.List.Perm.Subperm
import Xpn.Lib.Slots
import Xpn.XpnProxyQueue
import Xpn.Proofs.XpnProxy

/-! The proxy with all its clients at once. The connections are taken in the order in which
they were made, each by one thread; the calls behind all the petitions come in one order, in
which every client gets what its own function does; and nobody waits for ever. -/

namespace Xpn.Proofs.XpnProxyQueue
open Transport (PathMember)
open Lib.Conversation Lib.Slots Xpn.Messages Xpn.XpnProxy XpnProxy Messages

variable {S : Type}

inductive Moves (answer : S → Call → Answer × S) (s : System S) : System S → Prop where
  | connect {i : Nat} (new : i ∉ s.connected) :
    Moves answer s { s with connected := s.connected ++ [i], backlog := s.backlog ++ [i] }
  | client {i : Nat} {service : Service Byte Empty Empty Result Unit Call Answer (Option Int) S} (known : i ∈ s.connected)
    (kept : i ∉ s.dropped) (moves : s.service.clientStep NfiXpnServer.silent i = some service) : Moves answer s { s with service }
  /-- `main` goes on without a connection, and leaves only when it is to exit. -/
  | main {before after : Main} (at_main : s.main = before) (empty : before.node = none) (empty' : after.node = none)
    (leaves : after = .left → s.doExit = true) : Moves answer s { s with main := after }
  | accept {i : Nat} {rest : List Nat} (waits : s.backlog = i :: rest) (accepting : s.main = .accepting) :
    Moves answer s { s with backlog := rest, main := .inserting i }
  | acceptNoMemory {i : Nat} {rest : List Nat} (waits : s.backlog = i :: rest) (accepting : s.main = .accepting) :
    Moves answer s { s with backlog := rest, main := .looking, dropped := s.dropped ++ [i] }
  | insert {i : Nat} (holds : s.main.node = some i) : Moves answer s { s with clientQ := s.clientQ ++ [i], main := .looking }
  | remove {t i : Nat} {rest : List Nat} (idle : s.threads[t]? = some .waiting) (queue : s.clientQ = i :: rest)
    (running : s.doExit = false) :
    Moves answer s { s with clientQ := rest, threads := s.threads.set t (.handling i), taken := s.taken ++ [i] }
  | handlePetition {t i : Nat} {service : Service Byte Empty Empty Result Unit Call Answer (Option Int) S}
    (busy : s.threads[t]? = some (.handling i)) (moves : s.service.serverStep answer i = some service) :
    Moves answer s { s with service }
  | close {t i : Nat} {ret : Int} (busy : s.threads[t]? = some (.handling i))
    (ended : (s.service.servers i).dialogue = .done (some ret)) :
    Moves answer s { s with threads := s.threads.set t .waiting, closed := s.closed ++ [i] }
  | exit {t : Nat} (idle : s.threads[t]? = some .waiting) (exits : s.doExit = true) :
    Moves answer s { s with threads := s.threads.set t .exited }
  | sigHandler : Moves answer s { s with doExit := true }

variable {answer : S → Call → Answer × S} {s s' : System S}

theorem moves_of_step {event : Event} (taken : step answer s event = some s') : Moves answer s s' := by
  cases event with
  | connect i =>
    simp only [step, Option.ite_none_left_eq_some, Option.some.injEq] at taken
    obtain ⟨new, rfl⟩ := taken
    exact .connect new
  | client i =>
    simp only [step] at taken
    split at taken
    next known =>
      obtain ⟨service, moves, rfl⟩ := Option.map_eq_some_iff.mp taken
      exact .client known.1 known.2 moves
    next => cases taken
  | look =>
    simp only [step, Option.ite_none_right_eq_some, Option.some.injEq] at taken
    obtain ⟨looking, rfl⟩ := taken
    exact .main looking rfl (by split <;> rfl) fun left => by simpa using left
  | accept =>
    simp only [step] at taken
    split at taken
    next waits accepting =>
      cases taken
      exact .accept waits accepting
    next => cases taken
  | acceptNoMemory =>
    simp only [step] at taken
    split at taken
    next waits accepting =>
      cases taken
      exact .acceptNoMemory waits accepting
    next => cases taken
  | acceptFails =>
    simp only [step, Option.ite_none_right_eq_some, Option.some.injEq] at taken
    obtain ⟨accepting, rfl⟩ := taken
    exact .main accepting rfl (by split <;> rfl) fun left => by simpa using left
  | insert =>
    obtain ⟨i, holds, rfl⟩ := Option.map_eq_some_iff.mp taken
    exact .insert holds
  | remove t =>
    simp only [step] at taken
    split at taken
    next idle queue =>
      simp only [Option.ite_none_left_eq_some, Option.some.injEq, Bool.not_eq_true] at taken
      obtain ⟨running, rfl⟩ := taken
      exact .remove idle queue running
    next => cases taken
  | handlePetition t =>
    simp only [step] at taken
    split at taken
    next busy =>
      obtain ⟨service, moves, rfl⟩ := Option.map_eq_some_iff.mp taken
      exact .handlePetition busy moves
    next => cases taken
  | close t =>
    simp only [step] at taken
    split at taken
    next busy =>
      split at taken
      next ended =>
        cases taken
        exact .close busy ended
      next => cases taken
    next => cases taken
  | exit t =>
    simp only [step] at taken
    split at taken
    next idle =>
      simp only [Option.ite_none_right_eq_some, Option.some.injEq] at taken
      obtain ⟨exits, rfl⟩ := taken
      exact .exit idle exits
    next => cases taken
  | sigHandler =>
    cases taken
    exact .sigHandler

def handled : Thread → Option Nat
  | .handling i => some i
  | _ => none

structure Queued (s : System S) : Prop where
  arrival : s.taken ++ s.clientQ ++ s.main.node.toList ++ s.backlog = s.connected.filter (· ∉ s.dropped)
  once : s.connected.Nodup
  known : ∀ i ∈ s.dropped, i ∈ s.connected
  hands : s.taken.Perm (s.closed ++ s.threads.filterMap handled)
  running : s.doExit = false → .exited ∉ s.threads ∧ s.main ≠ .left
  served : ∀ i ∈ s.closed, ∃ ret, (s.service.servers i).dialogue = .done (some ret)

theorem queued_initial (stack : Nat → Byte) (ops : Nat → ProxyOp) (world : S) (threadPoolSize : Nat) :
    Queued (System.initial stack ops world threadPoolSize) := by
  have nobody : (List.replicate threadPoolSize Thread.waiting).filterMap handled = [] := by
    rw [List.filterMap_replicate_of_none rfl]
  refine ⟨rfl, List.nodup_nil, fun i member => (List.not_mem_nil member).elim, ?_, ?_, ?_⟩
  · simp [System.initial, nobody]
  · refine fun _ => ⟨fun member => ?_, Main.noConfusion⟩
    cases (List.mem_replicate.mp member).2
  · intro i member
    cases member

/-- A server that has ended stays so. -/
theorem done_of_stepAt {service service' : Service Byte Empty Empty Result Unit Call Answer (Option Int) S} {i k : Nat}
    {result : Option Int} (step : Service.StepAt NfiXpnServer.silent answer i service service')
    (done : (service.servers k).dialogue = .done result) : (service'.servers k).dialogue = .done result := by
  by_cases other : k = i
  · subst other
    cases step with
    | client moves =>
      obtain ⟨_, _, rfl⟩ := Option.map_eq_some_iff.mp moves
      simpa [Party.deliver] using done
    | server moves =>
      obtain ⟨_, stepped, _⟩ := Option.map_eq_some_iff.mp moves
      simp [Party.step, Party.inWorld, done] at stepped
  · rw [(step.frame other).2]
    exact done

/-- The connections that wait, or have been taken, are those that were not dropped. -/
theorem Queued.kept (queued : Queued s) {i : Nat} :
    i ∈ s.taken ++ s.clientQ ++ s.main.node.toList ++ s.backlog ↔ i ∈ s.connected ∧ i ∉ s.dropped := by
  rw [queued.arrival, List.mem_filter]
  simp

theorem Queued.kept_once (queued : Queued s) : (s.taken ++ s.clientQ ++ s.main.node.toList ++ s.backlog).Nodup := by
  rw [queued.arrival]
  exact queued.once.filter _

theorem Queued.moves (queued : Queued s) (moves : Moves answer s s') : Queued s' := by
  have kept := @queued.kept
  have kept_once := queued.kept_once
  obtain ⟨arrival, once, known, hands, running, served⟩ := queued
  cases moves with
  | @connect i new =>
    refine ⟨?_, ?_, fun k member => List.mem_append_left _ (known k member), hands, running, served⟩
    · have kept : i ∉ s.dropped := fun member => new (known i member)
      simp only [← List.append_assoc, arrival, List.filter_append, List.filter_cons, kept, not_false_eq_true, decide_true,
        if_true, List.filter_nil]
    · exact List.nodup_append.mpr ⟨once, List.nodup_singleton i, by
        intro a member b single same
        rw [List.mem_singleton.mp single] at same
        exact new (same ▸ member)⟩
  | @client i service here here' moves =>
    have step : Service.StepAt NfiXpnServer.silent answer i s.service service := .client moves
    exact ⟨arrival, once, known, hands, running, fun i member => (served i member).imp fun _ => done_of_stepAt step⟩
  | @main before after at_main empty empty' leaves =>
    refine ⟨?_, once, known, hands, fun off => ⟨(running off).1, fun left => ?_⟩, served⟩
    · rw [at_main, empty] at arrival
      simpa only [empty'] using arrival
    · rw [leaves left] at off
      cases off
  | accept waits accepting =>
    refine ⟨?_, once, known, hands, fun off => ⟨(running off).1, Main.noConfusion⟩, served⟩
    simpa [waits, accepting, Main.node] using arrival
  | @acceptNoMemory i rest waits accepting =>
    have queue : s.taken ++ s.clientQ ++ s.main.node.toList ++ s.backlog = s.taken ++ s.clientQ ++ i :: rest := by
      simp [waits, accepting, Main.node]
    rw [queue] at arrival kept_once
    have here : i ∈ s.connected := (kept.mp (by simp [waits])).1
    refine ⟨?_, once, ?_, hands, fun off => ⟨(running off).1, Main.noConfusion⟩, served⟩
    · have apart : ∀ k ∈ s.taken ++ s.clientQ ++ rest, k ≠ i := by
        intro k member same
        exact (List.nodup_cons.mp (List.nodup_middle.mp kept_once)).1 (same ▸ member)
      have fewer : s.connected.filter (· ∉ s.dropped ++ [i]) = (s.connected.filter (· ∉ s.dropped)).filter (· ≠ i) := by
        rw [List.filter_filter]
        exact List.filter_congr fun k _ => by simp [and_comm]
      have stay : (s.taken ++ s.clientQ ++ rest).filter (· ≠ i) = s.taken ++ s.clientQ ++ rest :=
        List.filter_eq_self.mpr fun k member => decide_eq_true (apart k member)
      rw [fewer, ← arrival, List.filter_append, List.filter_cons_of_neg (by simp), ← List.filter_append, stay]
      exact congrArg (· ++ rest) (List.append_nil _)
    · intro k member
      cases List.mem_append.mp member with
      | inl before => exact known k before
      | inr last => exact List.mem_singleton.mp last ▸ here
  | insert holds =>
    refine ⟨?_, once, known, hands, fun off => ⟨(running off).1, Main.noConfusion⟩, served⟩
    rw [holds] at arrival
    simpa [Main.node] using arrival
  | @remove t i rest idle queue alive =>
    refine ⟨?_, once, known, ?_, fun off => ⟨fun member => ?_, (running off).2⟩, served⟩
    · simpa [queue] using arrival
    · have more : ((s.threads.set t (.handling i)).filterMap handled).Perm (s.threads.filterMap handled ++ [i]) := by
        simpa [handled] using filterMap_set handled idle (.handling i)
      refine (hands.append_right [i]).trans ?_
      rw [List.append_assoc]
      exact more.symm.append_left _
    · cases List.mem_or_eq_of_mem_set member with
      | inl before => exact (running off).1 before
      | inr same => cases same
  | @handlePetition t i service busy moves =>
    have step : Service.StepAt NfiXpnServer.silent answer i s.service service := .server moves
    exact ⟨arrival, once, known, hands, running, fun i member => (served i member).imp fun _ => done_of_stepAt step⟩
  | @close t i ret busy ended =>
    refine ⟨arrival, once, known, ?_, fun off => ⟨fun member => ?_, (running off).2⟩, ?_⟩
    · have fewer : ((s.threads.set t .waiting).filterMap handled ++ [i]).Perm (s.threads.filterMap handled) := by
        simpa [handled] using filterMap_set handled busy .waiting
      refine hands.trans ?_
      rw [List.append_assoc]
      exact (fewer.symm.trans List.perm_append_comm).append_left _
    · cases List.mem_or_eq_of_mem_set member with
      | inl before => exact (running off).1 before
      | inr same => cases same
    · intro k member
      cases List.mem_append.mp member with
      | inl before => exact served k before
      | inr last =>
        rw [List.mem_singleton.mp last]
        exact ⟨ret, ended⟩
  | @exit t idle exits =>
    refine ⟨arrival, once, known, ?_, ?_, served⟩
    · have same : ((s.threads.set t .exited).filterMap handled).Perm (s.threads.filterMap handled) := by
        simpa [handled] using filterMap_set handled idle .exited
      exact hands.trans (same.symm.append_left _)
    · intro off
      rw [exits] at off
      cases off
  | sigHandler =>
    refine ⟨arrival, once, known, hands, ?_, served⟩
    intro off
    cases off

theorem queued_of_proceeds {stack : Nat → Byte} {ops : Nat → ProxyOp} {world : S} {threadPoolSize : Nat}
    (run : Proceeds answer (System.initial stack ops world threadPoolSize) s) : Queued s := by
  induction run with
  | refl => exact queued_initial stack ops world threadPoolSize
  | tail _ step ih =>
    obtain ⟨event, taken⟩ := step
    exact ih.moves (moves_of_step taken)

theorem Queued.known_of_busy (queued : Queued s) {t i : Nat} (busy : s.threads[t]? = some (Thread.handling i)) :
    i ∈ s.connected ∧ i ∉ s.dropped ∧ i ∉ s.closed := by
  have member : i ∈ s.threads.filterMap handled := List.mem_filterMap.mpr ⟨_, List.mem_of_getElem? busy, rfl⟩
  have taken : i ∈ s.taken := queued.hands.mem_iff.mpr (List.mem_append_right _ member)
  obtain ⟨connected, kept⟩ := (queued.kept (i := i)).mp (by simp [taken])
  refine ⟨connected, kept, fun closed => ?_⟩
  have once : s.taken.Nodup := by
    have whole := queued.kept_once
    rw [List.append_assoc, List.append_assoc] at whole
    exact (List.nodup_append.mp whole).1
  have apart := (List.nodup_append.mp (queued.hands.nodup_iff.mp once)).2.2
  exact apart i closed i member rfl

/-- Every connection that `main` keeps is taken by one thread, in the order in which they were made, and
none is lost: those that are not closed are in the hands of a thread, queued, or still to be accepted. -/
theorem connections_taken_once (stack : Nat → Byte) (ops : Nat → ProxyOp) (world : S) (threadPoolSize : Nat)
    (run : Proceeds answer (System.initial stack ops world threadPoolSize) s) :
    s.taken ++ s.clientQ ++ s.main.node.toList ++ s.backlog = s.connected.filter (· ∉ s.dropped) ∧ s.connected.Nodup ∧
      (∀ i ∈ s.dropped, i ∈ s.connected) ∧ s.taken.Perm (s.closed ++ s.threads.filterMap handled) := by
  have queued := queued_of_proceeds run
  exact ⟨queued.arrival, queued.once, queued.known, queued.hands⟩

theorem proceeds_of_events (answer : S → Call → Answer × S) (s : System S) {events : List Event}
    (taken : events.foldlM (step answer) s = some s') : Proceeds answer s s' := by
  induction events generalizing s with
  | nil =>
    cases taken
    exact .refl
  | cons event events ih =>
    rw [List.foldlM_cons] at taken
    obtain ⟨next, first, rest⟩ := Option.bind_eq_some_iff.mp taken
    exact .head ⟨event, first⟩ (ih next rest)

/-- Three clients connect. There is no memory for the first, a thread handles the petition of the second
until it has its result, and the third is not accepted yet. -/
def threeEvents : List Event :=
  [.connect 0, .connect 1, .look, .acceptNoMemory, .look, .connect 2, .accept, .insert, .remove 1, .client 1, .handlePetition 1,
    .handlePetition 1, .handlePetition 1, .client 1]

def threeClients : System Unit :=
  (threeEvents.foldlM (step steady.answer) (System.initial (fun _ => 0) (fun _ => .close 3) () 2)).get (by decide +kernel)

theorem proceeds_threeClients : Proceeds steady.answer (System.initial (fun _ => 0) (fun _ => .close 3) () 2) threeClients :=
  proceeds_of_events steady.answer _ (show threeEvents.foldlM _ _ = _ from (Option.some_get _).symm)

theorem connections_taken_once_three : threeClients.taken ++ threeClients.clientQ ++ threeClients.main.node.toList ++
      threeClients.backlog = threeClients.connected.filter (· ∉ threeClients.dropped) ∧ threeClients.connected.Nodup ∧
    (∀ i ∈ threeClients.dropped, i ∈ threeClients.connected) ∧
    threeClients.taken.Perm (threeClients.closed ++ threeClients.threads.filterMap handled) :=
  connections_taken_once (fun _ => 0) (fun _ => .close 3) () 2 proceeds_threeClients

theorem service_of_moves (moves : Moves answer s s') :
    s'.service = s.service ∨ ∃ i, Service.StepAt NfiXpnServer.silent answer i s.service s'.service := by
  cases moves with
  | client _ _ moves => exact .inr ⟨_, .client moves⟩
  | handlePetition _ moves => exact .inr ⟨_, .server moves⟩
  | _ => exact .inl rfl

theorem service_of_proceeds {start : System S} (run : Proceeds answer start s) :
    Service.Reaches NfiXpnServer.silent answer start.service s.service := by
  induction run with
  | refl => exact .refl
  | tail _ step ih =>
    obtain ⟨event, taken⟩ := step
    cases service_of_moves (moves_of_step taken) with
    | inl same =>
      rw [same]
      exact ih
    | inr moved => exact ih.tail moved

/-- The functions behind the petitions, in a world that replays what they found. -/
def replayed (fs : FileSystem S) : FileSystem (Service.Replay S Call) where
  answer := Service.replay fs.answer
  memory := by
    intro world size
    obtain ⟨before, given⟩ := Service.replay_given fs.answer world (.malloc size)
    rw [given]
    exact fs.memory before size
  reads := by
    intro world fd size
    obtain ⟨before, given⟩ := Service.replay_given fs.answer world (.read fd size)
    rw [given]
    exact fs.reads before fd size
  stats := by
    intro world path
    obtain ⟨before, given⟩ := Service.replay_given fs.answer world (.stat path)
    rw [given]
    exact fs.stats before path
  entries := by
    intro world dir
    obtain ⟨before, given⟩ := Service.replay_given fs.answer world (.readdir dir)
    rw [given]
    exact fs.entries before dir

/-! A petition is answered after its calls. -/

section
variable {α : Type} {owes : Bool}

theorem replies_read {κ ρ : Type} {n : Int} {next : Int × List Byte → Dialogue Byte κ ρ α}
    (rest : ∀ got, Replies owes (next got)) :
    Replies owes (readNBytes n >>= next) := by
  rw [readNBytes]
  split
  · exact rest _
  · rw [Dialogue.receive_bind]
    exact .receive fun _ _ => rest _

theorem replies_ask {request : Call} {next : Answer → ServerM α} (rest : ∀ given, Replies true (next given)) :
    Replies owes (ask request >>= next) := .call rest

theorem replies_write {buffer : List Byte} {n : Nat} {next : Int → ServerM α} (rest : ∀ code, Replies false (next code)) :
    Replies false (writeNBytes buffer n >>= next) := by
  rw [writeNBytes]
  split
  · exact rest _
  · rw [Dialogue.send_bind]
    exact .send fun code => rest code

theorem replies_sendStatus {ret errno : Int} {next : Unit → ServerM α} (rest : Replies false (next ())) :
    Replies owes (sendStatus ret errno >>= next) := by
  have some : ((field 4 ret ++ field 4 errno).take statusSize).isEmpty = false := by
    rw [List.isEmpty_eq_false_iff]
    apply List.ne_nil_of_length_pos
    simp [statusSize]
  rw [sendStatus, bind_assoc, writeNBytes, if_neg (by decide), Dialogue.send_bind]
  apply Replies.send
  intro code
  rw [some, Bool.and_false]
  exact rest

theorem replies_answerCall {request : Call} {next : Unit → ServerM α} (rest : Replies false (next ())) :
    Replies owes (answerCall request >>= next) := by
  rw [answerCall, bind_assoc]
  exact replies_ask fun _ => replies_sendStatus rest

theorem replies_fullpath {pathLen : Int} {bytes : Path} {next : Path → ServerM α} (rest : ∀ path, Replies owes (next path)) :
    Replies owes (readFullpath pathLen bytes >>= next) := by
  rw [readFullpath]
  split
  · exact rest _
  · rw [bind_assoc]
    exact replies_read fun _ => rest _

section
variable (stack : Nat → Byte) (u : List Byte) {next : Unit → ServerM α} (rest : Replies false (next ()))
include rest

theorem replies_pathCall (member : PathMember) (request : Path → Call) :
    Replies false ((memberFullpath member u >>= fun path => answerCall (request path)) >>= next) := by
  rw [bind_assoc, memberFullpath]
  exact replies_fullpath fun _ => replies_answerCall rest

theorem replies_petitionRename : Replies false (petitionRename u >>= next) := by
  rw [petitionRename, bind_assoc]
  apply replies_fullpath
  intro old
  rw [bind_assoc]
  exact replies_fullpath fun _ => replies_answerCall rest

theorem replies_petitionGetattr : Replies false (petitionGetattr u >>= next) := by
  rw [petitionGetattr, bind_assoc, memberFullpath]
  apply replies_fullpath
  intro path
  rw [bind_assoc]
  apply replies_ask
  intro given
  rw [bind_assoc]
  apply replies_sendStatus
  split
  · rw [bind_assoc]
    exact replies_write fun _ => rest
  · exact rest

theorem replies_petitionReaddir : Replies false (petitionReaddir stack u >>= next) := by
  rw [petitionReaddir, bind_assoc]
  apply replies_ask
  intro given
  split
  · exact replies_sendStatus rest
  · rw [bind_assoc]
    apply replies_sendStatus
    rw [bind_assoc]
    exact replies_write fun _ => rest

theorem replies_petitionRead : Replies false (petitionRead stack u >>= next) := by
  rw [petitionRead, bind_assoc]
  apply replies_ask
  intro buf
  split
  · exact replies_sendStatus rest
  · rw [bind_assoc]
    apply replies_ask
    intro given
    rw [bind_assoc]
    apply replies_sendStatus
    split
    · rw [bind_assoc]
      exact replies_write fun _ => rest
    · exact rest

theorem replies_petitionWrite : Replies false (petitionWrite stack u >>= next) := by
  rw [petitionWrite, bind_assoc]
  apply replies_ask
  intro buf
  split
  · exact replies_sendStatus rest
  · rw [bind_assoc]
    apply replies_sendStatus
    rw [bind_assoc]
    apply replies_read
    rintro ⟨ret, data⟩
    simp only
    split
    · exact replies_answerCall rest
    · exact replies_sendStatus rest

end

theorem replies_petitionOpendir (u : List Byte) {next : Bool → ServerM α} (rest : ∀ alive, Replies false (next alive)) :
    Replies false (petitionOpendir u >>= next) := by
  rw [petitionOpendir, bind_assoc, memberFullpath]
  apply replies_fullpath
  intro path
  rw [bind_assoc]
  apply replies_ask
  intro given
  rw [bind_assoc]
  apply replies_sendStatus
  split
  · exact rest false
  · rw [bind_assoc]
    exact replies_write fun _ => rest true

theorem replies_petitionSwitch (stack : Nat → Byte) (u : List Byte) (type : Int) {next : Bool → ServerM α}
    (rest : ∀ alive, Replies false (next alive)) : Replies false (petitionSwitch stack u type >>= next) := by
  have after : Replies false ((fun _ : Unit => (pure true : ServerM Bool) >>= next) ()) := rest true
  unfold petitionSwitch
  split
  case h_1 => rw [lives, bind_assoc]; exact replies_pathCall u after _ _
  case h_2 => rw [lives, bind_assoc]; exact replies_pathCall u after _ _
  case h_3 => rw [lives, bind_assoc]; exact replies_petitionRead stack u after
  case h_4 => rw [lives, bind_assoc]; exact replies_petitionWrite stack u after
  case h_5 => rw [lives, bind_assoc]; exact replies_answerCall after
  case h_6 => rw [lives, bind_assoc]; exact replies_pathCall u after _ _
  case h_7 => rw [lives, bind_assoc]; exact replies_petitionRename u after
  case h_8 => rw [lives, bind_assoc]; exact replies_petitionGetattr u after
  case h_9 => rw [lives, bind_assoc]; exact replies_pathCall u after _ _
  case h_10 => rw [lives, bind_assoc]; exact replies_pathCall u after _ _
  case h_11 => exact replies_petitionOpendir u rest
  case h_12 => rw [lives, bind_assoc]; exact replies_petitionReaddir stack u after
  case h_13 => rw [lives, bind_assoc]; exact replies_answerCall after
  case h_14 => exact rest true

theorem replies_handlePetition (stack : Nat → Byte) : Replies false (handlePetition stack) := by
  rw [handlePetition]
  apply replies_read
  rintro ⟨ret, pr⟩
  simp only
  split
  · exact .done _
  · exact replies_petitionSwitch stack _ _ fun _ => .done _

end

/-! Clients and their calls. -/

section
variable (fs : FileSystem S) (stack : Nat → Byte) (ops : Nat → ProxyOp) (world : S) (threadPoolSize : Nat)

theorem conversation_of_proceeds (run : Proceeds fs.answer (System.initial stack ops world threadPoolSize) s) (i : Nat)
    (rest : List S) (last : S) :
    Lib.Conversation.Reaches NfiXpnServer.silent (replayed fs).answer
      (fresh (ops i).run (), fresh (handlePetition stack) ⟨Service.worldsOf s.service.log i ++ rest, [], last⟩)
      (s.service.clients i, (s.service.servers i).inWorld ⟨rest, Service.requestsOf s.service.log i, last⟩) :=
  (service_of_proceeds run).projected rfl i rest last

/-- Every client whose connection is kept, and whose directory is there when it is opened, is served as
if alone. The calls of all petitions come in one order, each in the world that the one before it left.
Done directly, with its calls in the worlds of that order, a client's function makes the calls that
were made for it, and no others once it has returned; then it has returned the same. -/
theorem proxy_linearizable (fits : ∀ i, XpnProxy.Fits (ops i))
    (run : Proceeds fs.answer (System.initial stack ops world threadPoolSize) s) :
    Service.Sequential fs.answer world s.service.log s.service.world ∧
      ∀ i last, i ∉ s.dropped → Opens (Service.replay fs.answer) ⟨Service.worldsOf s.service.log i, [], last⟩ (ops i) →
        ∃ done, perform (Service.replay fs.answer) (direct (ops i)) ⟨Service.worldsOf s.service.log i, [], last⟩ [] =
            some done ∧
        Service.requestsOf s.service.log i <+: done.world.asked ∧
        ∀ result, (s.service.clients i).dialogue = .done result →
          result = done.result ∧ done.world = ⟨[], Service.requestsOf s.service.log i, last⟩ := by
  refine ⟨(service_of_proceeds run).sequential rfl, fun i last _ opens => ?_⟩
  have alone := conversation_of_proceeds fs stack ops world threadPoolSize run i [] last
  rw [List.append_nil] at alone
  obtain ⟨result, world', done, meets⟩ :=
    transparent (replayed fs).toLibrary stack ⟨Service.worldsOf s.service.log i, [], last⟩ (ops i) (fits i) opens
      ((replayed fs).granted _ _)
  obtain ⟨final, onward, returned, quiet, ended, _, same⟩ := meets.inevitable alone
  refine ⟨_, done, ?_, ?_⟩
  · have asked := Service.asked_prefix onward
    rw [same] at asked
    exact asked
  · intro result' finished
    have replies := Replies.reaches ⟨false, replies_handlePetition stack⟩ alone
    obtain ⟨unchanged, kept⟩ := Service.returned_asked onward finished ended quiet replies
    rw [returned] at kept
    cases kept
    exact ⟨rfl, same.symm.trans unchanged⟩

end

theorem proxy_linearizable_three : Service.Sequential steady.answer () threeClients.service.log threeClients.service.world ∧
    ∀ i last, i ∉ threeClients.dropped →
      Opens (Service.replay steady.answer) ⟨Service.worldsOf threeClients.service.log i, [], last⟩ (.close 3) →
      ∃ done, perform (Service.replay steady.answer) (direct (.close 3))
          ⟨Service.worldsOf threeClients.service.log i, [], last⟩ [] = some done ∧
        Service.requestsOf threeClients.service.log i <+: done.world.asked ∧
        ∀ result, (threeClients.service.clients i).dialogue = .done result →
          result = done.result ∧ done.world = ⟨[], Service.requestsOf threeClients.service.log i, last⟩ :=
  proxy_linearizable steady (fun _ => 0) (fun _ => .close 3) () 2 (fun _ => (by decide : (0 : Int) ≤ Int32.toInt 3))
    proceeds_threeClients

/-- Both sides have come to their end and nothing is left on the connection. -/
structure Settled (service : Service Byte Empty Empty Result Unit Call Answer (Option Int) S) (i : Nat) : Prop where
  client : ∃ result, (service.clients i).dialogue = .done result
  heard : (service.clients i).inbox = []
  server : ∃ ret, (service.servers i).dialogue = .done (some ret)
  read : (service.servers i).inbox = []

/-- The connection of the client is closed, and it has its result. -/
def Finished (s : System S) (i : Nat) : Prop := i ∈ s.closed ∧ Settled s.service i

/-- A thread handles the connection, or has handled it. -/
def Held (s : System S) (i : Nat) : Prop :=
  (∃ t : Nat, s.threads[t]? = some (Thread.handling i)) ∨ ∃ ret, (s.service.servers i).dialogue = .done (some ret)

theorem proceeds_of_stepAt {i : Nat} {service : Service Byte Empty Empty Result Unit Call Answer (Option Int) S}
    (run : Relation.ReflTransGen (Service.StepAt NfiXpnServer.silent answer i) s.service service) (known : i ∈ s.connected)
    (kept : i ∉ s.dropped) (held : Held s i) : Proceeds answer s { s with service } ∧ Held { s with service } i := by
  induction run with
  | refl => exact ⟨.refl, held⟩
  | @tail before after _ taken ih =>
    obtain ⟨proceeds, held⟩ := ih
    have held' : Held { s with service := after } i := held.imp_right fun ⟨ret, done⟩ => ⟨ret, done_of_stepAt taken done⟩
    refine ⟨proceeds.tail ?_, held'⟩
    cases taken with
    | client moves =>
      refine ⟨.client i, ?_⟩
      simp only [step, if_pos (And.intro known kept), moves, Option.map_some]
    | server moves =>
      cases held with
      | inl busy =>
        obtain ⟨t, busy⟩ := busy
        have busy : s.threads[t]? = some (.handling i) := busy
        refine ⟨.handlePetition t, ?_⟩
        simp only [step, busy, moves, Option.map_some]
      | inr ended =>
        obtain ⟨ret, done⟩ := ended
        obtain ⟨_, stepped, _⟩ := Option.map_eq_some_iff.mp moves
        have done : (before.servers i).dialogue = .done (some ret) := done
        simp [Party.step, Party.inWorld, done] at stepped

/-- A directory that a connected client opens is there, whatever has happened so far. -/
def Present (answer : S → Call → Answer × S) (ops : Nat → ProxyOp) (start : System S) : Prop :=
  ∀ s, Proceeds answer start s → ∀ i ∈ s.connected, Opens answer s.service.world (ops i)

/-- A call found the world of a moment at which its client had connected. -/
theorem asked_during {stack : Nat → Byte} {ops : Nat → ProxyOp} {world : S} {threadPoolSize : Nat}
    (run : Proceeds answer (System.initial stack ops world threadPoolSize) s) :
    ∀ asked ∈ s.service.log, ∃ s₁, Proceeds answer (System.initial stack ops world threadPoolSize) s₁ ∧
      asked.who ∈ s₁.connected ∧ s₁.service.world = asked.world := by
  induction run with
  | refl => exact fun asked member => (List.not_mem_nil member).elim
  | @tail before after run step ih =>
    obtain ⟨event, taken⟩ := step
    cases moves_of_step taken with
    | client _ _ moves =>
      obtain ⟨_, _, rfl⟩ := Option.map_eq_some_iff.mp moves
      exact ih
    | @handlePetition t i service busy moves =>
      cases Service.serverStep_cases moves with
      | inl quiet =>
        obtain ⟨_, _, _, rfl⟩ := quiet
        exact ih
      | inr call =>
        obtain ⟨request, further, _, rfl⟩ := call
        intro asked member
        cases List.mem_append.mp member with
        | inl earlier => exact ih asked earlier
        | inr last =>
          rw [List.mem_singleton.mp last]
          exact ⟨before, run, ((queued_of_proceeds run).known_of_busy busy).1, rfl⟩
    | _ => exact ih

section
variable (fs : FileSystem S) (stack : Nat → Byte) (ops : Nat → ProxyOp) (world : S) (threadPoolSize : Nat)
    (fits : ∀ i, XpnProxy.Fits (ops i)) (present : Present fs.answer ops (System.initial stack ops world threadPoolSize))
include fits present

omit fits in
/-- So it is there in the world that its call found, or will find. -/
theorem opens_replayed (run : Proceeds fs.answer (System.initial stack ops world threadPoolSize) s) {i : Nat}
    (known : i ∈ s.connected) :
    Opens (replayed fs).answer ⟨Service.worldsOf s.service.log i, [], s.service.world⟩ (ops i) := by
  have opens : ∀ found, (found = s.service.world ∨ found ∈ Service.worldsOf s.service.log i) →
      Opens fs.answer found (ops i) := by
    rintro found (rfl | member)
    · exact present s run i known
    · obtain ⟨asked, logged, rfl⟩ := List.mem_map.mp member
      obtain ⟨logged, who⟩ := List.mem_filter.mp logged
      obtain ⟨s₁, run₁, connected, same⟩ := asked_during run asked logged
      exact same ▸ present s₁ run₁ i (of_decide_eq_true who ▸ connected)
  cases op : ops i with
  | «opendir» path =>
    rw [op] at opens
    cases worlds : Service.worldsOf s.service.log i with
    | nil => exact opens _ (.inl rfl)
    | cons found rest => exact opens found (.inr (worlds ▸ List.mem_cons_self))
  | _ => trivial

/-- A petition in the hands of a thread goes on to its end, and the others stay as they are. -/
theorem settles (run : Proceeds fs.answer (System.initial stack ops world threadPoolSize) s) {i : Nat}
    (known : i ∈ s.connected) (kept : i ∉ s.dropped) (held : Held s i) : ∃ service, Proceeds fs.answer s { s with service } ∧ Settled service i ∧
      ∀ k, Settled s.service k → Settled service k := by
  have alone := conversation_of_proceeds fs stack ops world threadPoolSize run i [] s.service.world
  rw [List.append_nil] at alone
  obtain ⟨result, world', _, meets⟩ :=
    transparent (replayed fs).toLibrary stack ⟨Service.worldsOf s.service.log i, [], s.service.world⟩ (ops i) (fits i)
      (opens_replayed fs stack ops world threadPoolSize present run known) ((replayed fs).granted _ _)
  obtain ⟨final, onward, returned, heard, ended, read, _⟩ := meets.inevitable alone
  obtain ⟨service, steps, client, server⟩ := Service.reaches_of_alone onward s.service rfl ⟨_, rfl⟩
  have settled : Settled service i := by
    refine ⟨⟨result, ?_⟩, ?_, ⟨0, ?_⟩, ?_⟩
    · rw [client, returned]
    · rw [client, heard]
    · rw [server]
      exact ended
    · rw [server]
      exact read
  refine ⟨service, (proceeds_of_stepAt steps known kept held).1, settled, ?_⟩
  intro k before
  by_cases same : k = i
  · rw [same]
    exact settled
  · have frame : service.clients k = s.service.clients k ∧ service.servers k = s.service.servers k := by
      clear settled server client
      induction steps with
      | refl => exact ⟨rfl, rfl⟩
      | tail _ taken ih =>
        obtain ⟨clients, servers⟩ := taken.frame same
        exact ⟨clients.trans ih.1, servers.trans ih.2⟩
    exact ⟨by rw [frame.1]; exact before.client, by rw [frame.1]; exact before.heard, by rw [frame.2]; exact before.server,
      by rw [frame.2]; exact before.read⟩

end

/-- One more client is finished, and what was finished is. -/
structure Advances (answer : S → Call → Answer × S) (s s' : System S) : Prop where
  proceeds : Proceeds answer s s'
  connected : s'.connected = s.connected
  dropped : s'.dropped = s.dropped
  running : s'.doExit = false
  threads : s'.threads.length = s.threads.length
  kept : ∀ k, Finished s k → Finished s' k
  more : ∃ i ∈ s.connected, i ∉ s.dropped ∧ ¬Finished s i ∧ Finished s' i

theorem Advances.after {s₁ : System S} {event : Event} (first : step answer s event = some s₁)
    (same : s₁.service = s.service ∧ s₁.closed = s.closed ∧ s₁.connected = s.connected ∧ s₁.dropped = s.dropped ∧
      s₁.threads.length = s.threads.length)
    (advances : Advances answer s₁ s') : Advances answer s s' := by
  obtain ⟨service, closed, connected, dropped, threads⟩ := same
  have finished : ∀ k, Finished s₁ k ↔ Finished s k := by
    intro k
    rw [Finished, Finished, service, closed]
  refine ⟨.head ⟨event, first⟩ advances.proceeds, advances.connected.trans connected, advances.dropped.trans dropped,
    advances.running, advances.threads.trans threads, fun k before => advances.kept k ((finished k).mpr before), ?_⟩
  obtain ⟨i, known, kept, unfinished, now⟩ := advances.more
  exact ⟨i, connected ▸ known, dropped ▸ kept, fun before => unfinished ((finished i).mpr before), now⟩

section
variable (fs : FileSystem S) (stack : Nat → Byte) (ops : Nat → ProxyOp) (world : S) (threadPoolSize : Nat)
    (fits : ∀ i, XpnProxy.Fits (ops i)) (present : Present fs.answer ops (System.initial stack ops world threadPoolSize))
include fits present

theorem advances_handled (run : Proceeds fs.answer (System.initial stack ops world threadPoolSize) s)
    (running : s.doExit = false) {t i : Nat} (busy : s.threads[t]? = some (Thread.handling i)) :
    ∃ s', Advances fs.answer s s' := by
  obtain ⟨known, here, unfinished⟩ := (queued_of_proceeds run).known_of_busy busy
  obtain ⟨service, proceeds, settled, kept⟩ :=
    settles fs stack ops world threadPoolSize fits present run known here (.inl ⟨t, busy⟩)
  obtain ⟨ret, ended⟩ := settled.server
  let s' : System S := { s with service, threads := s.threads.set t .waiting, closed := s.closed ++ [i] }
  have closes : step fs.answer { s with service } (.close t) = some s' := by simp only [step, busy, ended, s']
  refine ⟨s', proceeds.tail ⟨_, closes⟩, rfl, rfl, running, List.length_set, ?_, i, known, here, fun before => unfinished before.1, ?_⟩
  · exact fun k before => ⟨List.mem_append_left _ before.1, kept k before.2⟩
  · exact ⟨List.mem_append_right _ (List.mem_singleton_self i), settled⟩

theorem advances_queued (run : Proceeds fs.answer (System.initial stack ops world threadPoolSize) s)
    (running : s.doExit = false) {t i : Nat} {rest : List Nat} (idle : s.threads[t]? = some Thread.waiting)
    (queue : s.clientQ = i :: rest) : ∃ s', Advances fs.answer s s' := by
  let s₁ : System S := { s with clientQ := rest, threads := s.threads.set t (.handling i), taken := s.taken ++ [i] }
  have first : step fs.answer s (.remove t) = some s₁ := by simp [step, idle, queue, running, s₁]
  have below : t < s.threads.length := (List.getElem?_eq_some_iff.mp idle).1
  have busy : s₁.threads[t]? = some (Thread.handling i) := List.getElem?_set_self below
  obtain ⟨s', advances⟩ := advances_handled fs stack ops world threadPoolSize fits present (run.tail ⟨_, first⟩) running busy
  exact ⟨s', advances.after first ⟨rfl, rfl, rfl, rfl, List.length_set⟩⟩

theorem advances_node (run : Proceeds fs.answer (System.initial stack ops world threadPoolSize) s)
    (running : s.doExit = false) {t i : Nat} (idle : s.threads[t]? = some Thread.waiting) (holds : s.main.node = some i) :
    ∃ s', Advances fs.answer s s' := by
  let s₁ : System S := { s with clientQ := s.clientQ ++ [i], main := .looking }
  have first : step fs.answer s .insert = some s₁ := by simp [step, holds, s₁]
  obtain ⟨j, rest, queue⟩ := List.exists_cons_of_ne_nil (show s₁.clientQ ≠ [] by simp [s₁])
  obtain ⟨s', advances⟩ :=
    advances_queued fs stack ops world threadPoolSize fits present (run.tail ⟨_, first⟩) running idle queue
  exact ⟨s', advances.after first ⟨rfl, rfl, rfl, rfl, rfl⟩⟩

theorem advances_accepting (run : Proceeds fs.answer (System.initial stack ops world threadPoolSize) s)
    (running : s.doExit = false) {t i : Nat} {rest : List Nat} (idle : s.threads[t]? = some Thread.waiting)
    (accepting : s.main = .accepting) (waits : s.backlog = i :: rest) : ∃ s', Advances fs.answer s s' := by
  let s₁ : System S := { s with backlog := rest, main := .inserting i }
  have first : step fs.answer s .accept = some s₁ := by simp [step, waits, accepting, s₁]
  obtain ⟨s', advances⟩ := advances_node fs stack ops world threadPoolSize fits present (run.tail ⟨_, first⟩) running idle rfl
  exact ⟨s', advances.after first ⟨rfl, rfl, rfl, rfl, rfl⟩⟩

theorem advances_backlog (run : Proceeds fs.answer (System.initial stack ops world threadPoolSize) s)
    (running : s.doExit = false) {t i : Nat} {rest : List Nat} (idle : s.threads[t]? = some Thread.waiting)
    (free : s.main.node = none) (waits : s.backlog = i :: rest) : ∃ s', Advances fs.answer s s' := by
  cases at_main : s.main with
  | inserting j =>
    rw [at_main] at free
    cases free
  | left => exact absurd at_main ((queued_of_proceeds run).running running).2
  | accepting => exact advances_accepting fs stack ops world threadPoolSize fits present run running idle at_main waits
  | looking =>
    let s₁ : System S := { s with main := .accepting }
    have first : step fs.answer s .look = some s₁ := by simp [step, at_main, running, s₁]
    obtain ⟨s', advances⟩ :=
      advances_accepting fs stack ops world threadPoolSize fits present (run.tail ⟨_, first⟩) running idle rfl waits
    exact ⟨s', advances.after first ⟨rfl, rfl, rfl, rfl, rfl⟩⟩

/-- As long as a client is not finished, one can be: the connection that is furthest is brought
to its end. -/
theorem advances (run : Proceeds fs.answer (System.initial stack ops world threadPoolSize) s) (running : s.doExit = false)
    (some : 0 < s.threads.length) {i : Nat} (known : i ∈ s.connected) (here : i ∉ s.dropped) (unfinished : ¬Finished s i) :
    ∃ s', Advances fs.answer s s' := by
  have queued := queued_of_proceeds run
  by_cases busy : ∃ t j : Nat, s.threads[t]? = Option.some (Thread.handling j)
  · obtain ⟨t, j, busy⟩ := busy
    exact advances_handled fs stack ops world threadPoolSize fits present run running busy
  have idle : s.threads[0]? = Option.some Thread.waiting := by
    have first := List.getElem?_eq_getElem some
    cases at_first : s.threads[0] with
    | waiting => rw [first, at_first]
    | handling j => exact absurd ⟨0, j, first.trans (congrArg _ at_first)⟩ busy
    | exited => exact absurd (at_first ▸ List.getElem_mem some) (queued.running running).1
  have nobody : s.threads.filterMap handled = [] := by
    rw [List.filterMap_eq_nil_iff]
    intro thread member
    obtain ⟨t, at_t⟩ := List.mem_iff_getElem?.mp member
    cases thread with
    | handling j => exact absurd ⟨t, j, at_t⟩ busy
    | _ => rfl
  cases queue : s.clientQ with
  | cons j rest => exact advances_queued fs stack ops world threadPoolSize fits present run running idle queue
  | nil =>
    cases holds : s.main.node with
    | some j => exact advances_node fs stack ops world threadPoolSize fits present run running idle holds
    | none =>
      cases waits : s.backlog with
      | cons j rest => exact advances_backlog fs stack ops world threadPoolSize fits present run running idle holds waits
      | nil =>
        -- Every connection is closed, so only the client still has to read.
        have closed : i ∈ s.closed := by
          have taken : i ∈ s.taken := by simpa [queue, holds, waits] using queued.kept.mpr ⟨known, here⟩
          simpa [nobody] using queued.hands.mem_iff.mp taken
        obtain ⟨service, proceeds, settled, kept⟩ :=
          settles fs stack ops world threadPoolSize fits present run known here (.inr (queued.served i closed))
        exact ⟨{ s with service }, proceeds, rfl, rfl, running, rfl, fun k before => ⟨before.1, kept k before.2⟩, i,
          known, here, unfinished, closed, settled⟩

omit fits present in
theorem threads_of_proceeds (run : Proceeds fs.answer (System.initial stack ops world threadPoolSize) s) :
    s.threads.length = threadPoolSize := by
  induction run with
  | refl => exact List.length_replicate
  | tail _ step ih =>
    obtain ⟨event, taken⟩ := step
    cases moves_of_step taken with
    | remove | close | exit => exact List.length_set.trans ih
    | _ => exact ih

/-- While nobody stops the proxy, every run of it can go on until every client whose connection was
kept has its result, the connection is closed and nothing is left unread. -/
theorem proxy_serves_everyone (run : Proceeds fs.answer (System.initial stack ops world threadPoolSize) s)
    (running : s.doExit = false) (some : 0 < threadPoolSize) :
    ∃ s', Proceeds fs.answer s s' ∧ s'.connected = s.connected ∧ s'.dropped = s.dropped ∧
      ∀ i ∈ s.connected, i ∉ s.dropped → Finished s' i := by
  classical
  induction left : (s.connected.toFinset.filter fun i => ¬Finished s i).card using Nat.strong_induction_on
    generalizing s with
  | _ n ih =>
    by_cases all : ∀ i ∈ s.connected, i ∉ s.dropped → Finished s i
    · exact ⟨s, .refl, rfl, rfl, all⟩
    obtain ⟨i, known, here, unfinished⟩ : ∃ i ∈ s.connected, i ∉ s.dropped ∧ ¬Finished s i := by simpa using all
    have thread : 0 < s.threads.length := by rwa [threads_of_proceeds fs stack ops world threadPoolSize run]
    obtain ⟨s₁, advanced⟩ := advances fs stack ops world threadPoolSize fits present run running thread known here unfinished
    have fewer : (s₁.connected.toFinset.filter fun i => ¬Finished s₁ i).card < n := by
      rw [← left, advanced.connected]
      apply Finset.card_lt_card
      obtain ⟨j, here, _, before, now⟩ := advanced.more
      refine Finset.ssubset_iff_of_subset ?_ |>.mpr ⟨j, ?_, ?_⟩
      · intro k member
        simp only [Finset.mem_filter] at member ⊢
        exact ⟨member.1, fun done => member.2 (advanced.kept k done)⟩
      · simpa using ⟨here, before⟩
      · simp [now]
    obtain ⟨s', onward, connected, dropped, finished⟩ := ih _ fewer (run.trans advanced.proceeds) advanced.running rfl
    rw [advanced.connected, advanced.dropped] at finished
    exact ⟨s', advanced.proceeds.trans onward, connected.trans advanced.connected, dropped.trans advanced.dropped, finished⟩

end

theorem proxy_serves_everyone_three : ∃ s', Proceeds steady.answer threeClients s' ∧ s'.connected = threeClients.connected ∧
    s'.dropped = threeClients.dropped ∧ ∀ i ∈ threeClients.connected, i ∉ threeClients.dropped → Finished s' i :=
  proxy_serves_everyone steady (fun _ => 0) (fun _ => .close 3) () 2 (fun _ => (by decide : (0 : Int) ≤ Int32.toInt 3))
    (fun _ _ _ _ => trivial) proceeds_threeClients (by decide +kernel) (by decide)

end Xpn.Proofs.XpnProxyQueue
