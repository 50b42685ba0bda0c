import Mathlib.Data.List.Perm.Subperm
import Mathlib.Logic.Relation
import Xpn.Lib.Slots
import Xpn.MqServerQueue
import Xpn.Proofs.MqServerComm

/-! The MQTT server under any interleaving: the queue loses and repeats nothing, and messages
that write apart from each other leave the files as they would in the order of arrival. -/

namespace Xpn.MqServerComm
open Lib.ByteFile Lib.RingBuffer Lib.Slots

/-- Where a message goes and with what; to a file that cannot be opened nothing goes. -/
def change (opens : Path → Bool) (message : Message) : Option (Path × Nat × List Byte) := do
  let (path, toWrite1, offset) ← decodeTopic message.topic
  let size := if maxBufferSize < toWrite1 then (maxBufferSize : Int) else toWrite1
  let position := if offset < 0 then 0 else offset.toNat
  if opens path then
    if size < 0 ∨ message.payload.length + 1 < size then none
    else some (path, position, (message.payload ++ [0]).take size.toNat)
  else some (path, position, [])

def apply (files : Path → List Byte) (write : Path × Nat × List Byte) : Path → List Byte :=
  fun other => if other = write.1 then pwrite (files write.1) write.2.1 write.2.2 else files other

variable {opens : Path → Bool}

theorem apply_nothing (files : Path → List Byte) (path : Path) (position : Nat) :
    apply files (path, position, []) = files := by
  funext other
  simp only [apply, pwrite, List.isEmpty_nil, if_true]
  split
  next same => rw [same]
  next => rfl

theorem processMessage_eq (message : Message) (files : Path → List Byte) :
    processMessage opens message files = (change opens message).map (apply files) := by
  rw [processMessage, change]
  cases decodeTopic message.topic with
  | none => rfl
  | some decoded =>
    obtain ⟨path, toWrite1, offset⟩ := decoded
    simp only [Option.bind_eq_bind, Option.bind_some]
    by_cases opened : opens path = true
    · rw [if_pos opened, if_pos opened]
      generalize (if (maxBufferSize : Int) < toWrite1 then (maxBufferSize : Int) else toWrite1) = size
      by_cases bad : size < 0 ∨ (message.payload.length : Int) + 1 < size
      · rw [if_pos bad, if_pos bad]
        rfl
      · rw [if_neg bad, if_neg bad]
        rfl
    · rw [if_neg opened, if_neg opened, Option.map_some, apply_nothing]

def Apart (write other : Path × Nat × List Byte) : Prop :=
  write.1 = other.1 →
    write.2.1 + write.2.2.length ≤ other.2.1 ∨ other.2.1 + other.2.2.length ≤ write.2.1

theorem apply_comm (files : Path → List Byte) {write other : Path × Nat × List Byte} (apart : Apart write other) :
    apply (apply files write) other = apply (apply files other) write := by
  funext path
  by_cases same : write.1 = other.1
  · by_cases here : path = write.1
    · subst here
      simp only [apply, same, if_true]
      exact pwrite_comm (apart same)
    · have elsewhere : path ≠ other.1 := same ▸ here
      simp only [apply, if_neg here, if_neg elsewhere]
  · have different : ¬other.1 = write.1 := fun equal => same equal.symm
    simp only [apply, if_neg same, if_neg different]
    by_cases here : path = other.1
    · have elsewhere : ¬path = write.1 := fun equal => different (here ▸ equal)
      simp only [if_pos here, if_neg elsewhere]
    · simp only [if_neg here]

def MessagesApart (opens : Path → Bool) (message other : Message) : Prop :=
  ∀ write write', change opens message = some write → change opens other = some write' → Apart write write'

theorem processMessage_comm {message other : Message} (apart : message ≠ other → MessagesApart opens message other)
    (files : Path → List Byte) :
    (processMessage opens message files).bind (processMessage opens other) =
      (processMessage opens other files).bind (processMessage opens message) := by
  by_cases same : message = other
  · rw [same]
  cases first : change opens message with
  | none => cases second : change opens other <;> simp [processMessage_eq, first, second]
  | some write =>
    cases second : change opens other with
    | none => simp [processMessage_eq, first, second]
    | some write' =>
      simp only [processMessage_eq, first, second, Option.map_some, Option.bind_some]
      rw [apply_comm files (apart same write write' first second)]

theorem processMessages_append (first rest : List Message) (files : Path → List Byte) :
    processMessages opens (first ++ rest) files = (processMessages opens first files).bind (processMessages opens rest) := by
  induction first generalizing files with
  | nil => rfl
  | cons message first ih =>
    simp only [List.cons_append, processMessages, Option.bind_eq_bind, Option.bind_assoc]
    congr 1
    funext files
    exact ih files

/-- The order does not matter to messages that write apart from each other. -/
theorem processMessages_perm {messages order : List Message} (permuted : messages.Perm order)
    (apart : ∀ m ∈ messages, ∀ m' ∈ messages, m ≠ m' → MessagesApart opens m m') (files : Path → List Byte) :
    processMessages opens messages files = processMessages opens order files := by
  induction permuted generalizing files with
  | nil => rfl
  | cons message _ ih =>
    simp only [processMessages]
    congr 1
    funext files
    exact ih (fun m here m' here' => apart m (List.mem_cons_of_mem _ here) m' (List.mem_cons_of_mem _ here')) files
  | swap message other rest =>
    have comm := processMessage_comm (apart other List.mem_cons_self message (by simp)) files
    simp only [processMessages, Option.bind_eq_bind]
    rw [← Option.bind_assoc, ← Option.bind_assoc, comm]
  | trans first _ ih ih' =>
    rw [ih apart files]
    exact ih' (fun m here m' here' => apart m (first.mem_iff.mpr here) m' (first.mem_iff.mpr here')) files

def held : MqThread → Option Message
  | .processing threadData => some threadData
  | _ => none

structure MqSound (opens : Path → Bool) (files : Path → List Byte) (s : MqServer) : Prop where
  bounded : s.queueMq.count ≤ queueMqSize
  inside : s.queueMq.front < queueMqSize
  rear : (s.queueMq.rear + 1) % queueMqSize = ((s.queueMq.front + s.queueMq.count) % queueMqSize : Nat)
  queue : s.received = s.dequeued ++ contents queueMqSize s.queueMq.queue s.queueMq.front s.queueMq.count
  hands : s.dequeued.Perm (s.processed ++ s.threads.filterMap held)
  stored : processMessages opens s.processed files = some s.files
  alive : MqThread.exited ∈ s.threads → ∃ m ∈ s.processed, afterMessage opens m = .exited

variable {files : Path → List Byte} {s s' : MqServer}

theorem mqSound_initial (queue : Nat → Message) (nthreadsMq : Nat) :
    MqSound opens files (MqServer.initial queue nthreadsMq files) := by
  have nobody : (List.replicate nthreadsMq MqThread.dequeue).filterMap held = [] := by
    rw [List.filterMap_replicate_of_none rfl]
  refine ⟨Nat.zero_le _, ?_, ?_, rfl, ?_, rfl, ?_⟩
  · change 0 < queueMqSize
    decide
  · change ((-1 : Int) + 1) % queueMqSize = ((0 + 0) % queueMqSize : Nat)
    decide
  · simp [MqServer.initial, nobody]
  · intro member
    cases (List.mem_replicate.mp member).2

theorem MqSound.onMessage (sound : MqSound opens files s) {msg : Message} {queueMq : CircularQueueMQ}
    (entered : enqueueMq s.queueMq msg = some queueMq) :
    MqSound opens files { s with queueMq, received := s.received ++ [msg] } := by
  simp only [enqueueMq, Option.ite_none_left_eq_some, Option.some.injEq, not_le] at entered
  obtain ⟨room, rfl⟩ := entered
  refine ⟨room, sound.inside, ?_, ?_, sound.hands, sound.stored, sound.alive⟩
  · simp only [sound.rear]
    have wrapped : ((s.queueMq.front + s.queueMq.count) % queueMqSize + 1) % queueMqSize =
        (s.queueMq.front + (s.queueMq.count + 1)) % queueMqSize := by
      rw [Nat.mod_add_mod, Nat.add_assoc]
    exact_mod_cast wrapped
  · simp only [sound.rear, Int.toNat_natCast]
    rw [contents_push _ _ room, ← List.append_assoc, ← sound.queue]

theorem MqSound.dequeue (sound : MqSound opens files s) {thread : Nat} {threadData : Message} {queueMq : CircularQueueMQ}
    (idle : s.threads[thread]? = some .dequeue) (left : dequeueMq s.queueMq = some (threadData, queueMq)) :
    MqSound opens files { s with
      queueMq
      threads := s.threads.set thread (.processing threadData)
      dequeued := s.dequeued ++ [threadData] } := by
  simp only [dequeueMq, Option.ite_none_left_eq_some, Option.some.injEq, Prod.mk.injEq] at left
  obtain ⟨some_left, rfl, rfl⟩ := left
  obtain ⟨count, counted⟩ := Nat.exists_eq_succ_of_ne_zero some_left
  have bounded := sound.bounded
  have front := Nat.mod_eq_of_lt sound.inside
  refine ⟨by simp only; omega, Nat.mod_lt _ (by decide), ?_, ?_, ?_, sound.stored, ?_⟩
  · simp only [sound.rear, counted, Nat.mod_add_mod, Nat.succ_eq_add_one, Nat.add_sub_cancel]
    congr 2
    omega
  · have popped := @contents_pop _ queueMqSize s.queueMq.front count s.queueMq.queue
    rw [front] at popped
    simp only [sound.queue, counted, Nat.succ_eq_add_one, Nat.add_sub_cancel, popped, List.append_assoc,
      List.singleton_append]
  · have more : ((s.threads.set thread (.processing (s.queueMq.queue s.queueMq.front))).filterMap held).Perm
        (s.threads.filterMap held ++ [s.queueMq.queue s.queueMq.front]) := by
      simpa [held] using filterMap_set held idle (.processing (s.queueMq.queue s.queueMq.front))
    refine (sound.hands.append_right _).trans ?_
    rw [List.append_assoc]
    exact more.symm.append_left _
  · intro member
    cases List.mem_or_eq_of_mem_set member with
    | inl before => exact sound.alive before
    | inr same => cases same

theorem held_afterMessage (threadData : Message) : held (afterMessage opens threadData) = none := by
  rw [afterMessage]
  split
  · split <;> rfl
  · rfl

theorem MqSound.process (sound : MqSound opens files s) {thread : Nat} {threadData : Message} {after : Path → List Byte}
    (busy : s.threads[thread]? = some (.processing threadData))
      (done : processMessage opens threadData s.files = some after) :
    MqSound opens files { s with
      files := after
      threads := s.threads.set thread (afterMessage opens threadData)
      processed := s.processed ++ [threadData] } := by
  refine ⟨sound.bounded, sound.inside, sound.rear, sound.queue, ?_, ?_, ?_⟩
  · have fewer : ((s.threads.set thread (afterMessage opens threadData)).filterMap held ++ [threadData]).Perm
        (s.threads.filterMap held) := by
      have set := filterMap_set held busy (afterMessage opens threadData)
      rw [held_afterMessage] at set
      simpa [held] using set
    refine sound.hands.trans ?_
    rw [List.append_assoc]
    exact (fewer.symm.trans List.perm_append_comm).append_left _
  · rw [processMessages_append, sound.stored, Option.bind_some]
    simp [processMessages, done]
  · intro member
    cases List.mem_or_eq_of_mem_set member with
    | inl before =>
      obtain ⟨m, processed, ends⟩ := sound.alive before
      exact ⟨m, List.mem_append_left _ processed, ends⟩
    | inr same => exact ⟨threadData, List.mem_append_right _ (List.mem_singleton_self _), same.symm⟩

theorem MqSound.step (sound : MqSound opens files s) {event : MqEvent} (taken : mqStep opens s event = some s') :
    MqSound opens files s' := by
  cases event with
  | onMessage msg =>
    obtain ⟨queueMq, entered, rfl⟩ := Option.map_eq_some_iff.mp taken
    exact sound.onMessage entered
  | dequeue thread =>
    simp only [mqStep] at taken
    split at taken
    next idle =>
      obtain ⟨⟨threadData, queueMq⟩, left, rfl⟩ := Option.map_eq_some_iff.mp taken
      exact sound.dequeue idle left
    next => cases taken
  | process thread =>
    simp only [mqStep] at taken
    split at taken
    next busy =>
      obtain ⟨after, done, rfl⟩ := Option.map_eq_some_iff.mp taken
      exact sound.process busy done
    next => cases taken

theorem mqSound_of_proceeds {queue : Nat → Message} {nthreadsMq : Nat}
    (run : MqProceeds opens (MqServer.initial queue nthreadsMq files) s) : MqSound opens files s := by
  induction run with
  | refl => exact mqSound_initial queue nthreadsMq
  | tail _ step ih =>
    obtain ⟨event, taken⟩ := step
    exact ih.step taken

/-- The steps that are left, if nothing more comes: a queued message takes two. -/
def work (s : MqServer) : Nat := 2 * s.queueMq.count + (s.threads.filterMap held).length

/-- The message writes to a file that can be opened. -/
def Valid (opens : Path → Bool) (m : Message) : Prop := ∃ write, change opens m = some write ∧ opens write.1 = true

theorem Valid.processed {m : Message} (valid : Valid opens m) (files : Path → List Byte) :
    ∃ after, processMessage opens m files = some after := by
  obtain ⟨write, changes, _⟩ := valid
  exact ⟨apply files write, by rw [processMessage_eq, changes, Option.map_some]⟩

theorem Valid.goes_on {m : Message} (valid : Valid opens m) : afterMessage opens m = .dequeue := by
  obtain ⟨write, changes, opened⟩ := valid
  rw [change] at changes
  rw [afterMessage]
  cases decoded : decodeTopic m.topic with
  | none => simp [decoded] at changes
  | some found =>
    obtain ⟨path, toWrite1, offset⟩ := found
    simp only [decoded, Option.bind_eq_bind, Option.bind_some] at changes
    have same : write.1 = path := by
      by_cases known : opens path = true
      · rw [if_pos known] at changes
        generalize (if (maxBufferSize : Int) < toWrite1 then (maxBufferSize : Int) else toWrite1) = size at changes
        by_cases bad : size < 0 ∨ (m.payload.length : Int) + 1 < size
        · rw [if_pos bad] at changes
          cases changes
        · rw [if_neg bad] at changes
          cases changes
          rfl
      · rw [if_neg known] at changes
        cases changes
        rfl
    simp only [← same, opened, if_true]

theorem threads_of_mqStep {event : MqEvent} (taken : mqStep opens s event = some s') :
    s'.threads.length = s.threads.length := by
  cases event with
  | onMessage msg =>
    obtain ⟨_, _, rfl⟩ := Option.map_eq_some_iff.mp taken
    rfl
  | dequeue thread =>
    simp only [mqStep] at taken
    split at taken
    · obtain ⟨_, _, rfl⟩ := Option.map_eq_some_iff.mp taken
      exact List.length_set
    · cases taken
  | process thread =>
    simp only [mqStep] at taken
    split at taken
    · obtain ⟨_, _, rfl⟩ := Option.map_eq_some_iff.mp taken
      exact List.length_set
    · cases taken

/-- A thread with a message processes it, or an idle one takes the next. -/
theorem MqSound.advances (sound : MqSound opens files s) (some : 0 < s.threads.length)
    (valid : ∀ m ∈ s.received, Valid opens m) (left : work s ≠ 0) :
    ∃ event s', mqStep opens s event = Option.some s' ∧ s'.received = s.received ∧ work s' < work s := by
  have taken : ∀ m ∈ s.dequeued, m ∈ s.received := by
    intro m member
    rw [sound.queue]
    exact List.mem_append_left _ member
  by_cases busy : ∃ (t : Nat) (m : Message), s.threads[t]? = Option.some (MqThread.processing m)
  · obtain ⟨t, m, busy⟩ := busy
    have member : m ∈ s.threads.filterMap held := List.mem_filterMap.mpr ⟨_, List.mem_of_getElem? busy, rfl⟩
    have here : m ∈ s.received := taken m (sound.hands.mem_iff.mpr (List.mem_append_right _ member))
    obtain ⟨after, done⟩ := (valid m here).processed s.files
    have fewer := (filterMap_set held busy (afterMessage opens m)).length_eq
    rw [held_afterMessage] at fewer
    let s₁ : MqServer := { s with
      files := after
      threads := s.threads.set t (afterMessage opens m)
      processed := s.processed ++ [m] }
    have step : mqStep opens s (.process t) = Option.some s₁ := by simp only [mqStep, busy, done, Option.map_some, s₁]
    refine ⟨.process t, s₁, step, rfl, ?_⟩
    simp only [held, List.length_append, Option.toList_some, Option.toList_none, List.length_singleton,
      List.length_nil] at fewer
    simp only [work, s₁]
    omega
  · have nobody : s.threads.filterMap held = [] := by
      rw [List.filterMap_eq_nil_iff]
      intro thread member
      obtain ⟨t, at_t⟩ := List.mem_iff_getElem?.mp member
      cases thread with
      | processing m => exact absurd ⟨t, m, at_t⟩ busy
      | _ => rfl
    have idle : s.threads[0]? = Option.some MqThread.dequeue := by
      have first := List.getElem?_eq_getElem some
      cases at_first : s.threads[0] with
      | dequeue => rw [first, at_first]
      | processing m => exact absurd ⟨0, m, first.trans (congrArg _ at_first)⟩ busy
      | exited =>
        obtain ⟨m, processed, ends⟩ := sound.alive (at_first ▸ List.getElem_mem some)
        have here := taken m (sound.hands.mem_iff.mpr (List.mem_append_left _ processed))
        rw [(valid m here).goes_on] at ends
        cases ends
    have queued : s.queueMq.count ≠ 0 := by
      intro none
      exact left (by simp [work, none, nobody])
    have more := (filterMap_set held idle (.processing (s.queueMq.queue s.queueMq.front))).length_eq
    let s₁ : MqServer := { s with
      queueMq := { s.queueMq with front := (s.queueMq.front + 1) % queueMqSize, count := s.queueMq.count - 1 }
      threads := s.threads.set 0 (.processing (s.queueMq.queue s.queueMq.front))
      dequeued := s.dequeued ++ [s.queueMq.queue s.queueMq.front] }
    have step : mqStep opens s (.dequeue 0) = Option.some s₁ := by
      simp only [mqStep, idle, dequeueMq, if_neg queued, Option.map_some, s₁]
    refine ⟨.dequeue 0, s₁, step, rfl, ?_⟩
    simp only [held, List.length_append, Option.toList_some, Option.toList_none, List.length_singleton,
      List.length_nil] at more
    simp only [work, s₁]
    omega

theorem MqSound.catches_up (sound : MqSound opens files s) (some : 0 < s.threads.length)
    (valid : ∀ m ∈ s.received, Valid opens m) :
    ∃ s', MqProceeds opens s s' ∧ s'.received = s.received ∧ s'.processed.Perm s.received ∧ MqSound opens files s' := by
  induction left : work s using Nat.strong_induction_on generalizing s with
  | _ n ih =>
    by_cases done : work s = 0
    · refine ⟨s, .refl, rfl, ?_, sound⟩
      have empty : s.queueMq.count = 0 ∧ s.threads.filterMap held = [] := by
        rw [← List.length_eq_zero_iff]
        rw [work] at done
        omega
      rw [sound.queue, empty.1, contents_zero, List.append_nil]
      simpa [empty.2] using sound.hands.symm
    · obtain ⟨event, s₁, step, same, fewer⟩ := sound.advances some valid done
      have thread : 0 < s₁.threads.length := by rwa [threads_of_mqStep step]
      obtain ⟨s', onward, received, processed, sound'⟩ :=
        ih (work s₁) (left ▸ fewer) (sound.step step) thread (same ▸ valid) rfl
      exact ⟨s', .head ⟨event, step⟩ onward, received.trans same, same ▸ processed, sound'⟩

theorem threads_of_mqProceeds {queue : Nat → Message} {nthreadsMq : Nat}
    (run : MqProceeds opens (MqServer.initial queue nthreadsMq files) s) : s.threads.length = nthreadsMq := by
  induction run with
  | refl => exact List.length_replicate
  | tail _ step ih =>
    obtain ⟨event, taken⟩ := step
    exact (threads_of_mqStep taken).trans ih

/-- A write that a client publishes, with an offset and a length that the topic holds. -/
structure Publication where
  path : Path
  buffer : List Byte
  offset : Nat
  present : buffer ≠ []
  small : buffer.length < 2 ^ 31
  exact : offset < 2 ^ 31
  fits : TopicFits (chunk buffer.length) offset
  short : (topicText path (chunk buffer.length) offset).length < pathMax

def Publication.message (p : Publication) : Message :=
  ⟨topicText p.path (chunk p.buffer.length) p.offset, p.buffer.take (chunk p.buffer.length)⟩

theorem Publication.published (p : Publication) (rest : List Int) :
    nfiMqServerPublish p.path p.buffer p.offset p.buffer.length (0 :: rest) = some ((chunk p.buffer.length : Int),
      [p.message]) := by
  rw [publish_eq, printTopic_fits p.path p.fits, Option.bind_some, if_pos rfl]
  rfl

/-- A call that does not fail has published that message. -/
theorem Publication.sends (p : Publication) {results : List Int} {count : Int} {sent : List Message} (stored : 0 ≤ count)
    (published : nfiMqServerPublish p.path p.buffer p.offset p.buffer.length results = some (count, sent)) :
    count = chunk p.buffer.length ∧ sent = [p.message] := by
  cases results with
  | nil => cases published
  | cons ret rest =>
    by_cases success : ret = 0
    · subst success
      rw [p.published rest] at published
      cases published
      exact ⟨rfl, rfl⟩
    · rw [publish_eq, printTopic_fits p.path p.fits, Option.bind_some, if_neg success] at published
      cases published
      omega

theorem Publication.changes (p : Publication) (opened : opens p.path = true) :
    change opens p.message = some (p.path, p.offset, p.buffer.take (chunk p.buffer.length)) := by
  have capped : chunk p.buffer.length ≤ maxBufferSize := min_le_right _ _
  have below : chunk p.buffer.length ≤ p.buffer.length := min_le_left _ _
  have place := p.exact
  have length := p.small
  have size :
      (if (maxBufferSize : Int) < (chunk p.buffer.length : Int) then (maxBufferSize : Int) else chunk p.buffer.length) =
        chunk p.buffer.length := if_neg (by omega)
  have position : (if toCInt (p.offset : Int) < 0 then 0 else (toCInt (p.offset : Int)).toNat) = p.offset := by
    rw [Xpn.Proofs.Messages.toCInt_of_small (by omega) (by omega), if_neg (by omega), Int.toNat_natCast]
  have data : (p.buffer.take (chunk p.buffer.length) ++ [0]).take (chunk p.buffer.length) =
      p.buffer.take (chunk p.buffer.length) := by
    rw [List.take_append_of_le_length (by rw [length_first]), List.take_take, min_self]
  rw [change, Publication.message, decodeTopic_eq p.path (by omega) (by omega) p.short]
  simp only [Option.bind_eq_bind, Option.bind_some, size, position, length_first, Int.toNat_natCast, data, opened, if_true]
  rw [if_neg (by omega)]

theorem Publication.apart {p q : Publication} (opened : opens p.path = true) (opened' : opens q.path = true)
    (disjoint : p.path = q.path →
      p.offset + chunk p.buffer.length ≤ q.offset ∨ q.offset + chunk q.buffer.length ≤ p.offset) :
    MessagesApart opens p.message q.message := by
  intro write write' changes changes' same
  rw [p.changes opened] at changes
  rw [q.changes opened'] at changes'
  cases changes
  cases changes'
  simp only [length_first]
  exact disjoint same

/-- A message that goes last finds its data in the files. -/
theorem Publication.read_back (p : Publication) {messages : List Message} {files after : Path → List Byte}
    (opened : opens p.path = true) (done : processMessages opens (messages ++ [p.message]) files = some after) :
    pread (after p.path) p.offset (chunk p.buffer.length) = p.buffer.take (chunk p.buffer.length) := by
  rw [processMessages_append] at done
  obtain ⟨before, _, last⟩ := Option.bind_eq_some_iff.mp done
  simp only [processMessages, Option.bind_eq_bind, Option.bind_fun_some, processMessage_eq, p.changes opened,
    Option.map_some,
    Option.some.injEq] at last
  have some_bytes : p.buffer.take (chunk p.buffer.length) ≠ [] := by
    rw [← List.length_pos_iff, length_first]
    exact lt_min (List.length_pos_iff.mpr p.present) (by decide)
  have read := pread_pwrite (before p.path) p.offset some_bytes
  rw [length_first] at read
  rw [← last]
  simpa [apply] using read

/-- One byte at the start of a file, and one behind it. -/
def single (offset : Nat) (exact : offset < 2) : Publication :=
  ⟨[97], [7], offset, by decide, by decide, by omega, by interval_cases offset <;> (unfold TopicFits; decide),
    by interval_cases offset <;> decide⟩

def start : MqServer := .initial (fun _ => ⟨[], []⟩) 1 fun _ => []

/-- Both have come, the second byte before the first. -/
def arrived : MqServer :=
  let first := (single 1 Nat.one_lt_two).message
  let second := (single 0 Nat.zero_lt_two).message
  { start with
    queueMq := ⟨Function.update (Function.update (fun _ => ⟨[], []⟩) 0 first) 1 second, 0, 1, 2⟩
    received := [first, second] }

theorem proceeds_arrived : MqProceeds (fun _ => true) start arrived :=
  .tail (.single ⟨.onMessage (single 1 Nat.one_lt_two).message, rfl⟩) ⟨.onMessage (single 0 Nat.zero_lt_two).message, rfl⟩

theorem arrived_cases {p : Publication} (member : p ∈ [single 1 Nat.one_lt_two, single 0 Nat.zero_lt_two]) :
    p = single 1 Nat.one_lt_two ∨ p = single 0 Nat.zero_lt_two := by
  simpa using member

theorem arrived_apart {p q : Publication} (member : p ∈ [single 1 Nat.one_lt_two, single 0 Nat.zero_lt_two])
    (member' : q ∈ [single 1 Nat.one_lt_two, single 0 Nat.zero_lt_two]) (different : p ≠ q) :
    p.offset + chunk p.buffer.length ≤ q.offset ∨ q.offset + chunk q.buffer.length ≤ p.offset := by
  cases arrived_cases member with
  | inl first =>
    cases arrived_cases member' with
    | inl same => exact absurd (first.trans same.symm) different
    | inr second =>
      subst first second
      exact .inr (by decide)
  | inr first =>
    cases arrived_cases member' with
    | inl second =>
      subst first second
      exact .inl (by decide)
    | inr same => exact absurd (first.trans same.symm) different

theorem arrived_from {m : Message} (member : m ∈ arrived.received) :
    ∃ p ∈ [single 1 Nat.one_lt_two, single 0 Nat.zero_lt_two], p.message = m := by
  apply List.mem_map.mp
  exact member

theorem arrived_valid (m : Message) (member : m ∈ arrived.received) : Valid (fun _ => true) m := by
  obtain ⟨p, _, rfl⟩ := arrived_from member
  exact ⟨_, p.changes rfl, rfl⟩

theorem arrived_messages_apart (m : Message) (member : m ∈ arrived.received) (m' : Message)
    (member' : m' ∈ arrived.received) (different : m ≠ m') : MessagesApart (fun _ => true) m m' := by
  obtain ⟨p, here, rfl⟩ := arrived_from member
  obtain ⟨q, here', rfl⟩ := arrived_from member'
  exact Publication.apart rfl rfl fun _ => arrived_apart here here' fun same => different (congrArg Publication.message same)

/-- Nothing is lost and nothing is processed twice, and messages leave the queue as they came. -/
theorem mq_queue_fifo {queue : Nat → Message} {nthreadsMq : Nat}
    (run : MqProceeds opens (MqServer.initial queue nthreadsMq files) s) :
    s.queueMq.count ≤ queueMqSize ∧
      s.received = s.dequeued ++ contents queueMqSize s.queueMq.queue s.queueMq.front s.queueMq.count ∧
      s.dequeued.Perm (s.processed ++ s.threads.filterMap held) := by
  have sound := mqSound_of_proceeds run
  exact ⟨sound.bounded, sound.queue, sound.hands⟩

theorem mq_queue_fifo_arrived : arrived.queueMq.count ≤ queueMqSize ∧
    arrived.received =
      arrived.dequeued ++ contents queueMqSize arrived.queueMq.queue arrived.queueMq.front arrived.queueMq.count ∧
    arrived.dequeued.Perm (arrived.processed ++ arrived.threads.filterMap held) :=
  mq_queue_fifo proceeds_arrived

/-- Whatever the interleaving so far, the threads can catch up, and the files are then as if one
thread had processed messages that write apart in the order in which they came. -/
theorem mq_order_irrelevant {queue : Nat → Message} {nthreadsMq : Nat} (some : 0 < nthreadsMq)
    (run : MqProceeds opens (MqServer.initial queue nthreadsMq files) s) (valid : ∀ m ∈ s.received, Valid opens m) :
    ∃ s', MqProceeds opens s s' ∧ s'.received = s.received ∧ s'.processed.Perm s.received ∧
      ((∀ m ∈ s.received, ∀ m' ∈ s.received, m ≠ m' → MessagesApart opens m m') →
        processMessages opens s.received files = Option.some s'.files) := by
  have thread : 0 < s.threads.length := by rwa [threads_of_mqProceeds run]
  obtain ⟨s', onward, received, processed, sound⟩ := (mqSound_of_proceeds run).catches_up thread valid
  refine ⟨s', onward, received, processed, fun apart => ?_⟩
  rw [processMessages_perm processed.symm apart]
  exact sound.stored

theorem mq_order_irrelevant_arrived : ∃ s', MqProceeds (fun _ => true) arrived s' ∧ s'.received = arrived.received ∧
    s'.processed.Perm arrived.received ∧
    processMessages (fun _ => true) arrived.received (fun _ => []) = Option.some s'.files := by
  obtain ⟨s', onward, received, processed, stored⟩ := mq_order_irrelevant (by decide) proceeds_arrived arrived_valid
  exact ⟨s', onward, received, processed, stored arrived_messages_apart⟩

/-- Writers whose data do not meet all find what they published in the files, whatever the order in
which the broker delivers their messages and the threads process them. -/
theorem mq_publications_stored {queue : Nat → Message} {nthreadsMq : Nat} (some : 0 < nthreadsMq)
    (run : MqProceeds opens (MqServer.initial queue nthreadsMq files) s) {publications : List Publication}
    {sent : Publication → List Message} {count : Publication → Int}
    (published : ∀ p ∈ publications, 0 ≤ count p ∧
      ∃ results, nfiMqServerPublish p.path p.buffer p.offset p.buffer.length results = Option.some (count p, sent p))
    (received : s.received.Perm (publications.flatMap sent)) (opened : ∀ p ∈ publications, opens p.path = true)
    (apart : ∀ p ∈ publications, ∀ q ∈ publications, p ≠ q → p.path = q.path →
      p.offset + chunk p.buffer.length ≤ q.offset ∨ q.offset + chunk q.buffer.length ≤ p.offset) :
    ∃ s', MqProceeds opens s s' ∧ s'.received = s.received ∧
      ∀ p ∈ publications, count p = chunk p.buffer.length ∧
        pread (s'.files p.path) p.offset (chunk p.buffer.length) = p.buffer.take (chunk p.buffer.length) := by
  have sends : ∀ p ∈ publications, count p = chunk p.buffer.length ∧ sent p = [p.message] := by
    intro p here
    obtain ⟨stored, results, given⟩ := published p here
    exact p.sends stored given
  have received : s.received.Perm (publications.map Publication.message) := by
    rwa [List.flatMap_congr fun p here => (sends p here).2, ← List.map_eq_flatMap] at received
  have from_one : ∀ m ∈ s.received, ∃ p ∈ publications, p.message = m := fun m member =>
    List.mem_map.mp (received.mem_iff.mp member)
  have valid : ∀ m ∈ s.received, Valid opens m := by
    intro m member
    obtain ⟨p, here, rfl⟩ := from_one m member
    exact ⟨_, p.changes (opened p here), opened p here⟩
  have apart' : ∀ m ∈ s.received, ∀ m' ∈ s.received, m ≠ m' → MessagesApart opens m m' := by
    intro m member m' member' different
    obtain ⟨p, here, rfl⟩ := from_one m member
    obtain ⟨q, here', rfl⟩ := from_one m' member'
    exact Publication.apart (opened p here) (opened q here')
      (apart p here q here' fun same => different (congrArg Publication.message same))
  have thread : 0 < s.threads.length := by rwa [threads_of_mqProceeds run]
  obtain ⟨s', onward, same, processed, sound⟩ := (mqSound_of_proceeds run).catches_up thread valid
  refine ⟨s', onward, same, fun p here => ⟨(sends p here).1, ?_⟩⟩
  have done := sound.stored
  have member : p.message ∈ s.received := received.mem_iff.mpr (List.mem_map_of_mem here)
  have last : s.received.Perm (s.received.erase p.message ++ [p.message]) :=
    (List.perm_cons_erase member).trans (List.perm_append_singleton _ _).symm
  rw [← processMessages_perm processed.symm apart', processMessages_perm last apart'] at done
  exact p.read_back (opened p here) done

theorem mq_publications_stored_arrived : ∃ s', MqProceeds (fun _ => true) arrived s' ∧ s'.received = arrived.received ∧
    ∀ p ∈ [single 1 Nat.one_lt_two, single 0 Nat.zero_lt_two], (chunk p.buffer.length : Int) = chunk p.buffer.length ∧
      pread (s'.files p.path) p.offset (chunk p.buffer.length) = p.buffer.take (chunk p.buffer.length) :=
  mq_publications_stored (by decide) proceeds_arrived
    (fun p _ => ⟨Int.natCast_nonneg _, [0], p.published []⟩) (List.Perm.refl _) (fun _ _ => rfl)
    fun p here q here' different _ => arrived_apart here here' different

end Xpn.MqServerComm
