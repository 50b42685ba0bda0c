import Xpn.Lib.Conversation
import Mathlib.Logic.Function.Basic

/-! Many conversations and one world. Every client talks over a connection of its own to a
server of its own, and all the servers ask the same surroundings. Their calls come in one
order, so each conversation can be told by itself: it is a conversation whose calls are
answered in the worlds that they found. -/

namespace Xpn.Lib.Conversation

variable {σ κ ρ α S κ' ρ' α' S' T : Type}

def Party.inWorld (party : Party σ κ ρ α S) (world : T) : Party σ κ ρ α T :=
  ⟨party.dialogue, world, party.inbox, party.sent, party.received⟩

/-- What the party is about to ask. -/
def Dialogue.asks : Dialogue σ κ ρ α → Option κ
  | .call request _ => some request
  | _ => none

/-- What a step does to the world: nothing, and then it can be taken in any world, or it is a
call. -/
theorem Party.step_world {answer : S → κ → ρ × S} {party next : Party σ κ ρ α S} {out : List σ}
    (moves : party.step answer = some (next, out)) :
    (party.dialogue.asks = none ∧ next.world = party.world ∧
      ∀ (T : Type) (other : T → κ → ρ × T) (world : T), (party.inWorld world).step other = some (next.inWorld world, out)) ∨
    ∃ request further, party.dialogue = .call request further ∧ out = [] ∧
      next = { party with
        dialogue := further (answer party.world request).1
        world := (answer party.world request).2 } := by
  obtain ⟨dialogue, world, inbox, sent, received⟩ := party
  cases dialogue with
  | done result => cases moves
  | send message further =>
    cases moves
    exact .inl ⟨rfl, rfl, fun _ _ _ => rfl⟩
  | receive count further =>
    simp only [step] at moves
    split at moves
    next arrived =>
      cases moves
      exact .inl ⟨rfl, rfl, fun _ _ _ => by simp [inWorld, step, arrived]⟩
    next => cases moves
  | call request further =>
    cases moves
    exact .inr ⟨request, further, rfl, rfl, rfl⟩

/-- A call of a server, with the world that it found. -/
structure Asked (S κ : Type) where
  who : Nat
  world : S
  request : κ

structure Service (σ κ ρ α S κ' ρ' α' S' : Type) where
  world : S'
  clients : Nat → Party σ κ ρ α S
  servers : Nat → Party σ κ' ρ' α' Unit
  log : List (Asked S' κ')

namespace Service

def opened (world : S') (clients : Nat → Dialogue σ κ ρ α) (home : S) (server : Dialogue σ κ' ρ' α') :
    Service σ κ ρ α S κ' ρ' α' S' :=
  ⟨world, fun i => fresh (clients i) home, fun _ => fresh server (), []⟩

def clientStep (answer : S → κ → ρ × S) (s : Service σ κ ρ α S κ' ρ' α' S') (i : Nat) :
    Option (Service σ κ ρ α S κ' ρ' α' S') :=
  ((s.clients i).step answer).map fun (next, out) =>
    { s with
      clients := Function.update s.clients i next
      servers := Function.update s.servers i ((s.servers i).deliver out) }

def serverStep (answer' : S' → κ' → ρ' × S') (s : Service σ κ ρ α S κ' ρ' α' S') (i : Nat) :
    Option (Service σ κ ρ α S κ' ρ' α' S') :=
  (((s.servers i).inWorld s.world).step answer').map fun (next, out) =>
    { world := next.world
      clients := Function.update s.clients i ((s.clients i).deliver out)
      servers := Function.update s.servers i (next.inWorld ())
      log := s.log ++ ((s.servers i).dialogue.asks.map fun request => ⟨i, s.world, request⟩).toList }

section
variable (answer : S → κ → ρ × S) (answer' : S' → κ' → ρ' × S')

/-- A step of one of the conversations. -/
inductive StepAt (i : Nat) (s s' : Service σ κ ρ α S κ' ρ' α' S') : Prop where
  | client (moves : s.clientStep answer i = some s') : StepAt i s s'
  | server (moves : s.serverStep answer' i = some s') : StepAt i s s'

def Reaches : Service σ κ ρ α S κ' ρ' α' S' → Service σ κ ρ α S κ' ρ' α' S' → Prop :=
  Relation.ReflTransGen fun s s' => ∃ i, StepAt answer answer' i s s'

end

/-- The calls of the log one after another, each in the world that the one before it left. -/
def Sequential (answer' : S' → κ' → ρ' × S') : S' → List (Asked S' κ') → S' → Prop
  | world, [], last => world = last
  | world, asked :: log, last => asked.world = world ∧ Sequential answer' (answer' world asked.request).2 log last

variable {answer : S → κ → ρ × S} {answer' : S' → κ' → ρ' × S'} {s s' start : Service σ κ ρ α S κ' ρ' α' S'}

theorem Sequential.snoc {first last : S'} {log : List (Asked S' κ')} (before : Sequential answer' first log last)
    (i : Nat) (request : κ') :
    Sequential answer' first (log ++ [⟨i, last, request⟩]) (answer' last request).2 := by
  induction log generalizing first with
  | nil =>
    cases before
    exact ⟨rfl, rfl⟩
  | cons asked log ih => exact ⟨before.1, ih before.2⟩

/-- A step of a server that is not a call leaves the world and the log alone. -/
theorem serverStep_cases {i : Nat} (moves : s.serverStep answer' i = some s') :
    (∃ (next : Party σ κ' ρ' α' Unit) (out : List σ),
      (∀ (T : Type) (other : T → κ' → ρ' × T) (world : T),
        ((s.servers i).inWorld world).step other = some (next.inWorld world, out)) ∧
      s' = { s with
        clients := Function.update s.clients i ((s.clients i).deliver out)
        servers := Function.update s.servers i next }) ∨
    ∃ request further, (s.servers i).dialogue = .call request further ∧
      s' = { s with
        world := (answer' s.world request).2
        servers := Function.update s.servers i
          { s.servers i with dialogue := further (answer' s.world request).1 }
        log := s.log ++ [⟨i, s.world, request⟩] } := by
  obtain ⟨⟨next, out⟩, stepped, rfl⟩ := Option.map_eq_some_iff.mp moves
  cases Party.step_world stepped with
  | inl quiet =>
    obtain ⟨silent, same, anywhere⟩ := quiet
    have asks : (s.servers i).dialogue.asks = none := silent
    refine .inl ⟨next.inWorld (), out, anywhere, ?_⟩
    simp only [asks, same, Option.map_none, Option.toList_none, List.append_nil]
    rfl
  | inr call =>
    obtain ⟨request, further, asks, rfl, rfl⟩ := call
    have asks : (s.servers i).dialogue = .call request further := asks
    refine .inr ⟨request, further, asks, ?_⟩
    simp only [asks, Dialogue.asks, Party.deliver_nil, Function.update_eq_self, Option.map_some, Option.toList_some]
    rfl

theorem serverStep_sequential {i : Nat} {first : S'} (moves : s.serverStep answer' i = some s')
    (before : Sequential answer' first s.log s.world) : Sequential answer' first s'.log s'.world := by
  cases serverStep_cases moves with
  | inl quiet =>
    obtain ⟨_, _, _, rfl⟩ := quiet
    exact before
  | inr call =>
    obtain ⟨_, _, _, rfl⟩ := call
    exact before.snoc i _

/-- The world is what the calls made of it, one at a time. -/
theorem Reaches.sequential (run : Reaches answer answer' start s) (none : start.log = []) :
    Sequential answer' start.world s.log s.world := by
  induction run with
  | refl =>
    rw [none]
    rfl
  | tail _ step ih =>
    obtain ⟨i, taken⟩ := step
    cases taken with
    | client moves =>
      obtain ⟨_, _, rfl⟩ := Option.map_eq_some_iff.mp moves
      exact ih
    | server moves => exact serverStep_sequential moves ih

def worldsOf (log : List (Asked S' κ')) (i : Nat) : List S' := (log.filter (·.who = i)).map (·.world)

def requestsOf (log : List (Asked S' κ')) (i : Nat) : List κ' := (log.filter (·.who = i)).map (·.request)

theorem worldsOf_append (log more : List (Asked S' κ')) (i : Nat) :
    worldsOf (log ++ more) i = worldsOf log i ++ worldsOf more i := by
  simp [worldsOf]

theorem requestsOf_append (log more : List (Asked S' κ')) (i : Nat) :
    requestsOf (log ++ more) i = requestsOf log i ++ requestsOf more i := by
  simp [requestsOf]

structure Replay (S κ : Type) where
  pending : List S
  asked : List κ
  world : S

def replay (answer' : S' → κ' → ρ' × S') (r : Replay S' κ') (request : κ') : ρ' × Replay S' κ' :=
  match r.pending with
  | world :: rest => ((answer' world request).1, ⟨rest, r.asked ++ [request], r.world⟩)
  | [] => ((answer' r.world request).1, ⟨[], r.asked ++ [request], (answer' r.world request).2⟩)

/-- A replayed answer is one that the surroundings give. -/
theorem replay_given (answer' : S' → κ' → ρ' × S') (r : Replay S' κ') (request : κ') :
    ∃ world, (replay answer' r request).1 = (answer' world request).1 := by
  unfold replay
  split
  next world rest _ => exact ⟨world, rfl⟩
  next => exact ⟨r.world, rfl⟩

/-- What the others do is not seen: conversation `i` has gone as it goes alone when its calls
find the worlds of the log. -/
theorem Reaches.projected (run : Reaches answer answer' start s) (none : start.log = []) (i : Nat) (rest : List S')
    (world : S') :
    Conversation.Reaches answer (replay answer')
      (start.clients i, (start.servers i).inWorld ⟨worldsOf s.log i ++ rest, [], world⟩)
      (s.clients i, (s.servers i).inWorld ⟨rest, requestsOf s.log i, world⟩) := by
  induction run generalizing rest with
  | refl =>
    rw [none]
    exact .refl
  | @tail s s' _ step ih =>
    obtain ⟨j, taken⟩ := step
    cases taken with
    | client moves =>
      obtain ⟨⟨next, out⟩, stepped, rfl⟩ := Option.map_eq_some_iff.mp moves
      by_cases same : i = j
      · subst same
        simp only [Function.update_self]
        exact (ih rest).tail (.client stepped)
      · simp only [Function.update_of_ne same]
        exact ih rest
    | server moves =>
      cases serverStep_cases moves with
      | inl quiet =>
        obtain ⟨next, out, anywhere, rfl⟩ := quiet
        by_cases same : i = j
        · subst same
          simp only [Function.update_self]
          exact (ih rest).tail (.server (anywhere _ _ _))
        · simp only [Function.update_of_ne same]
          exact ih rest
      | inr call =>
        obtain ⟨request, further, asks, rfl⟩ := call
        by_cases same : i = j
        · subst same
          have before := ih (s.world :: rest)
          simp only [worldsOf_append, requestsOf_append, Function.update_self]
          simp only [worldsOf, requestsOf, List.filter_cons_of_pos, decide_true, List.filter_nil, List.map_cons, List.map_nil,
            List.append_assoc, List.singleton_append] at before ⊢
          have answered : ((s.servers i).inWorld (⟨s.world :: rest, requestsOf s.log i, world⟩ : Replay S' κ')).step
              (replay answer') = some (({ s.servers i with dialogue := further (answer' s.world request).1 } :
                Party σ κ' ρ' α' Unit).inWorld ⟨rest, requestsOf s.log i ++ [request], world⟩, []) := by
            simp [Party.step, Party.inWorld, asks, replay]
          have after := before.tail (.server answered)
          rwa [Party.deliver_nil] at after
        · have other : ¬ j = i := fun equal => same equal.symm
          simpa [worldsOf_append, requestsOf_append, worldsOf, requestsOf, Function.update_of_ne same, other] using ih rest

theorem StepAt.frame {i k : Nat} (step : StepAt answer answer' i s s') (other : k ≠ i) :
    s'.clients k = s.clients k ∧ s'.servers k = s.servers k := by
  cases step with
  | client moves =>
    obtain ⟨_, _, rfl⟩ := Option.map_eq_some_iff.mp moves
    exact ⟨Function.update_of_ne other _ _, Function.update_of_ne other _ _⟩
  | server moves =>
    obtain ⟨_, _, rfl⟩ := Option.map_eq_some_iff.mp moves
    exact ⟨Function.update_of_ne other _ _, Function.update_of_ne other _ _⟩

/-- What a conversation can do alone it can do among the others. -/
theorem reaches_of_alone {i : Nat} {meeting last : Party σ κ ρ α S × Party σ κ' ρ' α' (Replay S' κ')}
    (run : Conversation.Reaches answer (replay answer') meeting last) (s : Service σ κ ρ α S κ' ρ' α' S')
    (client : s.clients i = meeting.1) (server : ∃ asked, meeting.2 = (s.servers i).inWorld ⟨[], asked, s.world⟩) :
    ∃ s', Relation.ReflTransGen (StepAt answer answer' i) s s' ∧ s'.clients i = last.1 ∧
      s'.servers i = last.2.inWorld () := by
  induction run using Relation.ReflTransGen.head_induction_on generalizing s with
  | refl =>
    obtain ⟨asked, server⟩ := server
    exact ⟨s, .refl, client, by rw [server]; rfl⟩
  | @head meeting next step rest ih =>
    obtain ⟨asked, server⟩ := server
    cases step with
    | @client party after talk out moves =>
      cases server
      let s₁ : Service σ κ ρ α S κ' ρ' α' S' := { s with
        clients := Function.update s.clients i after
        servers := Function.update s.servers i ((s.servers i).deliver out) }
      have step : StepAt answer answer' i s s₁ := .client (by simp [clientStep, client, moves, s₁])
      obtain ⟨s', reached, client', server'⟩ := ih s₁ (by simp [s₁]) ⟨asked, by simp [s₁, Party.inWorld, Party.deliver]⟩
      exact ⟨s', .head step reached, client', server'⟩
    | @server talk party after out moves =>
      cases server
      cases Party.step_world moves with
      | inl quiet =>
        obtain ⟨silent, same, anywhere⟩ := quiet
        let s₁ : Service σ κ ρ α S κ' ρ' α' S' := { s with
          clients := Function.update s.clients i ((s.clients i).deliver out)
          servers := Function.update s.servers i (after.inWorld ()) }
        have asks : (s.servers i).dialogue.asks = none := silent
        have taken : ((s.servers i).inWorld s.world).step answer' = some (after.inWorld s.world, out) :=
          anywhere _ answer' s.world
        have step : StepAt answer answer' i s s₁ :=
          .server (by
            simp only [serverStep, taken, Option.map_some]
            simp [asks, s₁, Party.inWorld])
        have world : after.world = ⟨[], asked, s.world⟩ := same
        obtain ⟨s', reached, client', server'⟩ := ih s₁ (by simp [s₁, client])
          ⟨asked, by simp [s₁, Party.inWorld, ← world]⟩
        exact ⟨s', .head step reached, client', server'⟩
      | inr call =>
        obtain ⟨request, further, asks, rfl, rfl⟩ := call
        have asks : (s.servers i).dialogue = .call request further := asks
        let s₁ : Service σ κ ρ α S κ' ρ' α' S' := { s with
          world := (answer' s.world request).2
          servers := Function.update s.servers i
            { s.servers i with dialogue := further (answer' s.world request).1 }
          log := s.log ++ [⟨i, s.world, request⟩] }
        have step : StepAt answer answer' i s s₁ := .server (by
          simp [serverStep, Party.step, Party.inWorld, Dialogue.asks, asks, s₁, Party.deliver_nil])
        obtain ⟨s', reached, client', server'⟩ := ih s₁ (by simp [s₁, client, Party.deliver_nil])
          ⟨asked ++ [request], by simp [s₁, Party.inWorld, replay]⟩
        exact ⟨s', .head step reached, client', server'⟩

/-- Calls are remembered. -/
theorem asked_prefix {meeting last : Party σ κ ρ α S × Party σ κ' ρ' α' (Replay S' κ')}
    (run : Conversation.Reaches answer (replay answer') meeting last) : meeting.2.world.asked <+: last.2.world.asked := by
  induction run with
  | refl => exact List.prefix_rfl
  | tail _ step ih =>
    cases step with
    | client moves => exact ih
    | server moves =>
      apply ih.trans
      cases Party.step_world moves with
      | inl quiet =>
        exact quiet.2.1 ▸ List.prefix_rfl
      | inr call =>
        obtain ⟨request, further, _, _, rfl⟩ := call
        unfold replay
        split <;> exact List.prefix_append _ _

end Service

/-- After a call there is always a message; `owes` says that one is due. -/
def Replies : Bool → Dialogue σ κ ρ α → Prop
  | owes, .done _ => owes = false
  | owes, .send message next => ∀ code, Replies (owes && message.isEmpty) (next code)
  | owes, .receive _ next => ∀ code data, Replies owes (next code data)
  | _, .call _ next => ∀ given, Replies true (next given)

section
variable {answer : S → κ → ρ × S} {answer' : S' → κ' → ρ' × S'}

/-- A server that ends without another message has made no more calls. -/
theorem Replies.silent {party last : Party σ κ ρ α S} {out : List σ} {owes : Bool} (replies : Replies owes party.dialogue)
    (runs : Party.Runs answer party out last) (nothing : out = []) {result : α} (done : last.dialogue = .done result) :
    owes = false ∧ last.world = party.world := by
  induction runs generalizing owes with
  | stay party =>
    rw [done] at replies
    exact ⟨replies, rfl⟩
  | @step party next last sent more moves rest ih =>
    obtain ⟨rfl, rfl⟩ := List.append_eq_nil_iff.mp nothing
    obtain ⟨dialogue, world, inbox, before, received⟩ := party
    cases dialogue with
    | done result => cases moves
    | send message further =>
      cases moves
      have due := replies (([] : List σ).length : Int)
      rw [List.isEmpty_nil, Bool.and_true] at due
      exact ih due rfl done
    | receive count further =>
      simp only [Party.step] at moves
      split at moves
      next => cases moves; exact ih (replies _ _) rfl done
      next => cases moves
    | call request further =>
      cases moves
      exact absurd (ih (replies _) rfl done).1 (by simp)

/-- When the client has returned only the server goes on. -/
theorem runs_of_returned {meeting last : Party σ κ ρ α S × Party σ κ' ρ' α' S'} {result : α}
    (run : Reaches answer answer' meeting last) (done : meeting.1.dialogue = .done result) :
    ∃ out, Party.Runs answer' meeting.2 out last.2 ∧ last.1 = meeting.1.deliver out := by
  induction run with
  | refl => exact ⟨[], .stay _, (Party.deliver_nil _).symm⟩
  | tail _ step ih =>
    obtain ⟨out, runs, same⟩ := ih
    cases step with
    | @client client next server more moves =>
      have returned : client.dialogue = .done result := (congrArg Party.dialogue same).trans done
      simp [Party.step, returned] at moves
    | @server client server next more moves =>
      refine ⟨out ++ more, runs.trans (Party.Runs.single moves), ?_⟩
      have same : client = meeting.1.deliver out := same
      rw [same, Party.deliver_deliver]

theorem Replies.step {party next : Party σ κ ρ α S} {out : List σ}
    (replies : ∃ owes, Replies owes party.dialogue) (moves : party.step answer = some (next, out)) :
    ∃ owes, Replies owes next.dialogue := by
  obtain ⟨owes, replies⟩ := replies
  obtain ⟨dialogue, world, inbox, before, received⟩ := party
  cases dialogue with
  | done result => cases moves
  | send message further =>
    cases moves
    exact ⟨_, replies _⟩
  | receive count further =>
    simp only [Party.step] at moves
    split at moves
    next => cases moves; exact ⟨_, replies _ _⟩
    next => cases moves
  | call request further =>
    cases moves
    exact ⟨_, replies _⟩

theorem Replies.reaches {meeting last : Party σ κ ρ α S × Party σ κ' ρ' α' S'}
    (replies : ∃ owes, Replies owes meeting.2.dialogue) (run : Reaches answer answer' meeting last) :
    ∃ owes, Replies owes last.2.dialogue := by
  induction run with
  | refl => exact replies
  | tail _ step ih =>
    cases step with
    | client moves => exact ih
    | server moves => exact Replies.step ih moves

theorem Replies.done (result : α) : Replies false (.done result : Dialogue σ κ ρ α) := rfl

theorem Replies.send {owes : Bool} {message : List σ} {next : Int → Dialogue σ κ ρ α}
    (rest : ∀ code, Replies (owes && message.isEmpty) (next code)) : Replies owes (.send message next) := rest

theorem Replies.receive {owes : Bool} {count : Nat} {next : Int → List σ → Dialogue σ κ ρ α}
    (rest : ∀ code data, Replies owes (next code data)) : Replies owes (.receive count next) := rest

theorem Replies.call {owes : Bool} {request : κ} {next : ρ → Dialogue σ κ ρ α} (rest : ∀ given, Replies true (next given)) :
    Replies owes (.call request next) := rest

attribute [irreducible] Replies

end

namespace Service
variable {answer : S → κ → ρ × S} {answer' : S' → κ' → ρ' × S'}

/-- A client that has returned has had all its calls made: the server that answers it asks for
nothing more on the way to a quiet end. -/
theorem returned_asked {meeting last : Party σ κ ρ α S × Party σ κ' ρ' α' S'} {result : α} {result' : α'}
    (run : Conversation.Reaches answer answer' meeting last) (done : meeting.1.dialogue = .done result)
    (ended : last.2.dialogue = .done result') (quiet : last.1.inbox = [])
    (replies : ∃ owes, Replies owes meeting.2.dialogue) :
    last.2.world = meeting.2.world ∧ last.1.dialogue = .done result := by
  obtain ⟨out, runs, same⟩ := runs_of_returned run done
  obtain ⟨owes, replies⟩ := replies
  rw [same] at quiet ⊢
  have nothing : out = [] := (List.append_eq_nil_iff.mp quiet).2
  exact ⟨(replies.silent runs nothing ended).2, done⟩

end Service

section
variable {answer : S → κ → ρ × S} {answer' : S' → κ' → ρ' × S'} {d d' : Dialogue σ κ ρ α} {w w' : S}
    {inbox inbox' out : List σ}

/-- A party goes on by itself from one point to another and sends `out` on the way. -/
def Goes (answer : S → κ → ρ × S) (d : Dialogue σ κ ρ α) (w : S) (inbox out : List σ) (d' : Dialogue σ κ ρ α) (w' : S)
    (inbox' : List σ) : Prop :=
  ∀ sent received, ∃ sent' received', Party.Runs answer ⟨d, w, inbox, sent, received⟩ out ⟨d', w', inbox', sent', received'⟩

theorem Goes.refl : Goes answer d w inbox [] d w inbox := fun _ _ => ⟨_, _, .stay _⟩

theorem Goes.send {message : List σ} {next : Int → Dialogue σ κ ρ α}
    (rest : Goes answer (next message.length) w inbox out d' w' inbox') :
    Goes answer (.send message next) w inbox (message ++ out) d' w' inbox' := by
  intro sent received
  obtain ⟨_, _, later⟩ := rest (sent ++ [message]) received
  exact ⟨_, _, .step rfl later⟩

theorem Goes.receive {count : Nat} {next : Int → List σ → Dialogue σ κ ρ α} {data after : List σ} (exact : data.length = count)
    (rest : Goes answer (next count data) w after out d' w' inbox') :
    Goes answer (.receive count next) w (data ++ after) out d' w' inbox' := by
  intro sent received
  obtain ⟨_, _, later⟩ := rest sent (received ++ [data])
  subst exact
  have moves : Party.step answer (⟨.receive data.length next, w, data ++ after, sent, received⟩ : Party σ κ ρ α S) =
      some (⟨next data.length data, w, after, sent, received ++ [data]⟩, []) := by
    simp [Party.step]
  exact ⟨_, _, .step moves later⟩

theorem Goes.call {request : κ} {next : ρ → Dialogue σ κ ρ α}
    (rest : Goes answer (next (answer w request).1) (answer w request).2 inbox out d' w' inbox') :
    Goes answer (.call request next) w inbox out d' w' inbox' := by
  intro sent received
  obtain ⟨_, _, later⟩ := rest sent received
  have moves : Party.step answer (⟨.call request next, w, inbox, sent, received⟩ : Party σ κ ρ α S) =
      some (⟨next (answer w request).1, (answer w request).2, inbox, sent, received⟩, []) := rfl
  exact ⟨_, _, .step moves later⟩

/-- The two parties can come to an end with nothing left on the connection. -/
def Meets (answer : S → κ → ρ × S) (answer' : S' → κ' → ρ' × S') (client : Dialogue σ κ ρ α) (home : S)
    (server : Dialogue σ κ' ρ' α') (world : S') (result : α) (result' : α') (world' : S') : Prop :=
  ∃ last, Reaches answer answer' (fresh client home, fresh server world) last ∧
    last.1.dialogue = .done result ∧ last.1.inbox = [] ∧
    last.2.dialogue = .done result' ∧ last.2.inbox = [] ∧ last.2.world = world'

variable {client waiting : Dialogue σ κ ρ α} {server serving : Dialogue σ κ' ρ' α'} {home : S} {world world₁ world' : S'}
    {result : α} {result' : α'}

/-- The client asks, the server answers and the client hears the answer. -/
theorem meets_once {asked answered : List σ} (asks : Goes answer client home [] asked waiting home [])
    (answers : Goes answer' server world asked answered (.done result') world' [])
    (hears : Goes answer waiting home answered [] (.done result) home []) :
    Meets answer answer' client home server world result result' world' := by
  obtain ⟨_, _, first⟩ := asks [] []
  obtain ⟨_, _, second⟩ := answers [] []
  obtain ⟨_, _, third⟩ := hears _ _
  refine ⟨_, first.reaches_client.trans (second.reaches_server.trans third.reaches_client), rfl, rfl, rfl, ?_, rfl⟩
  exact List.append_nil _

/-- The same with a second question after the first answer. -/
theorem meets_twice {waiting₁ : Dialogue σ κ ρ α} {asked answered asked₁ answered₁ : List σ}
    (asks : Goes answer client home [] asked waiting home [])
    (answers : Goes answer' server world asked answered serving world₁ [])
    (hears : Goes answer waiting home answered asked₁ waiting₁ home [])
    (answers₁ : Goes answer' serving world₁ asked₁ answered₁ (.done result') world' [])
    (hears₁ : Goes answer waiting₁ home answered₁ [] (.done result) home []) :
    Meets answer answer' client home server world result result' world' := by
  obtain ⟨_, _, first⟩ := asks [] []
  obtain ⟨_, _, second⟩ := answers [] []
  obtain ⟨_, _, third⟩ := hears _ _
  obtain ⟨_, _, fourth⟩ := answers₁ _ _
  obtain ⟨_, _, fifth⟩ := hears₁ _ _
  refine ⟨_, first.reaches_client.trans (second.reaches_server.trans (third.reaches_client.trans
    (fourth.reaches_server.trans fifth.reaches_client))), rfl, rfl, rfl, ?_, rfl⟩
  exact List.append_nil _

/-- However they take turns, the parties come to that end. -/
theorem Meets.inevitable (meets : Meets answer answer' client home server world result result' world')
    {meeting : Party σ κ ρ α S × Party σ κ' ρ' α' S'}
    (run : Reaches answer answer' (fresh client home, fresh server world) meeting) :
    ∃ last, Reaches answer answer' meeting last ∧ last.1.dialogue = .done result ∧ last.1.inbox = [] ∧
      last.2.dialogue = .done result' ∧ last.2.inbox = [] ∧ last.2.world = world' := by
  obtain ⟨last, reaches, done, quiet, done', quiet', same⟩ := meets
  exact ⟨last, Reaches.inevitable reaches (stuck_of_done done done') run, done, quiet, done', quiet', same⟩

end

end Xpn.Lib.Conversation
