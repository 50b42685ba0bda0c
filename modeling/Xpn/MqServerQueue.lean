import Xpn.Lib.RingBuffer
import Xpn.MqServerComm

/-! The messages between the callback of the MQTT client and the threads that process them. What
is done under the mutex of the queue is one step; to wait is not to be able to take it. A
thread's turn on a message is its one write, so it is one step as well. -/

namespace Xpn.MqServerComm

/-- QUEUE_MQ_SIZE -/
def queueMqSize : Nat := 1000000

structure CircularQueueMQ where
  queue : Nat → Message
  front : Nat
  rear : Int
  count : Nat

/-- The cells are not cleared, so they start with anything. -/
def queueMqInit (queue : Nat → Message) : CircularQueueMQ := ⟨queue, 0, -1, 0⟩

/-- `none` while the caller waits for `not_full`. -/
def enqueueMq (q : CircularQueueMQ) (client : Message) : Option CircularQueueMQ :=
  if queueMqSize ≤ q.count then none
  else
    let rear := (q.rear + 1) % queueMqSize
    some { q with
      queue := Function.update q.queue rear.toNat client
      rear
      count := q.count + 1 }

/-- `none` while the thread waits for `not_empty`. -/
def dequeueMq (q : CircularQueueMQ) : Option (Message × CircularQueueMQ) :=
  if q.count = 0 then none
  else some (q.queue q.front, { q with front := (q.front + 1) % queueMqSize, count := q.count - 1 })

/-- Where a thread is in `process_message`. -/
inductive MqThread where
  | dequeue
  | processing (threadData : Message)
  | exited

/-- The queue with its threads, the files and what has happened. -/
structure MqServer where
  queueMq : CircularQueueMQ
  threads : List MqThread
  files : Path → List Byte
  received : List Message
  dequeued : List Message
  processed : List Message

def MqServer.initial (queue : Nat → Message) (nthreadsMq : Nat) (files : Path → List Byte) : MqServer :=
  ⟨queueMqInit queue, List.replicate nthreadsMq .dequeue, files, [], [], []⟩

inductive MqEvent where
  | onMessage (msg : Message)
  | dequeue (thread : Nat)
  | process (thread : Nat)

/-- A thread that cannot open its file ends. -/
def afterMessage (opens : Path → Bool) (threadData : Message) : MqThread :=
  match decodeTopic threadData.topic with
  | some (path, _, _) => if opens path then .dequeue else .exited
  | none => .exited

def mqStep (opens : Path → Bool) (s : MqServer) : MqEvent → Option MqServer
  | .onMessage msg => (enqueueMq s.queueMq msg).map fun queueMq => { s with queueMq, received := s.received ++ [msg] }
  | .dequeue thread =>
    match s.threads[thread]? with
    | some .dequeue => (dequeueMq s.queueMq).map fun (threadData, queueMq) =>
      { s with
        queueMq
        threads := s.threads.set thread (.processing threadData)
        dequeued := s.dequeued ++ [threadData] }
    | _ => none
  | .process thread =>
    match s.threads[thread]? with
    | some (.processing threadData) => (processMessage opens threadData s.files).map fun files =>
      { s with
        files
        threads := s.threads.set thread (afterMessage opens threadData)
        processed := s.processed ++ [threadData] }
    | _ => none

/-- Any interleaving of the callback and the threads. -/
def MqProceeds (opens : Path → Bool) : MqServer → MqServer → Prop :=
  Relation.ReflTransGen fun before after => ∃ event, mqStep opens before event = some after

end Xpn.MqServerComm
