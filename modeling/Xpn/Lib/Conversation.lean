import Mathlib.Logic.Relation

/-! Two parties that talk over a connection. A party sends and receives in an order of its
own and asks its surroundings for the rest. The connection keeps the order of what is sent,
so all the ways the two can take turns end in the same state, and what happens can be
read off each party alone. -/

namespace Xpn.Lib.Conversation

variable {σ κ ρ α β S κ' ρ' α' S' : Type}

/-- A send gives a code; a receipt gives a code and what was stored. -/
inductive Dialogue (σ κ ρ α : Type) where
  | done (result : α)
  | send (message : List σ) (next : Int → Dialogue σ κ ρ α)
  | receive (count : Nat) (next : Int → List σ → Dialogue σ κ ρ α)
  | call (request : κ) (next : ρ → Dialogue σ κ ρ α)

namespace Dialogue

def bind : Dialogue σ κ ρ α → (α → Dialogue σ κ ρ β) → Dialogue σ κ ρ β
  | .done result, f => f result
  | .send message next, f => .send message fun code => (next code).bind f
  | .receive count next, f => .receive count fun code data => (next code data).bind f
  | .call request next, f => .call request fun answer => (next answer).bind f

instance : Monad (Dialogue σ κ ρ) where
  pure := .done
  bind := Dialogue.bind

instance : LawfulMonad (Dialogue σ κ ρ) := by
  refine .mk' _ ?_ (fun _ _ => rfl) ?_
  · intro α dialogue
    change dialogue.bind .done = dialogue
    induction dialogue with
    | done result => rfl
    | send message next ih => simp only [bind, ih]
    | receive count next ih => simp only [bind, ih]
    | call request next ih => simp only [bind, ih]
  · intro α β γ dialogue f g
    change (dialogue.bind f).bind g = dialogue.bind fun result => (f result).bind g
    induction dialogue with
    | done result => rfl
    | send message next ih => simp only [bind, ih]
    | receive count next ih => simp only [bind, ih]
    | call request next ih => simp only [bind, ih]

@[simp] theorem pure_eq (result : α) : (pure result : Dialogue σ κ ρ α) = .done result := rfl

@[simp] theorem done_bind (result : α) (f : α → Dialogue σ κ ρ β) : (.done result : Dialogue σ κ ρ α) >>= f = f result :=
  rfl

@[simp] theorem send_bind (message : List σ) (next : Int → Dialogue σ κ ρ α) (f : α → Dialogue σ κ ρ β) :
    Dialogue.send message next >>= f = .send message fun code => next code >>= f := rfl

@[simp] theorem receive_bind (count : Nat) (next : Int → List σ → Dialogue σ κ ρ α) (f : α → Dialogue σ κ ρ β) :
    Dialogue.receive count next >>= f = .receive count fun code data => next code data >>= f := rfl

@[simp] theorem call_bind (request : κ) (next : ρ → Dialogue σ κ ρ α) (f : α → Dialogue σ κ ρ β) :
    Dialogue.call request next >>= f = .call request fun answer => next answer >>= f := rfl

end Dialogue

section
variable (answer : S → κ → ρ × S)

/-- A run to the end on what has arrived. -/
structure Performed (σ α S : Type) where
  result : α
  world : S
  inbox : List σ
  sent : List (List σ)
  received : List (List σ)

def perform : Dialogue σ κ ρ α → S → List σ → Option (Performed σ α S)
  | .done result, world, inbox => some ⟨result, world, inbox, [], []⟩
  | .send message next, world, inbox =>
    (perform (next message.length) world inbox).map fun run => { run with sent := message :: run.sent }
  | .receive count next, world, inbox =>
    if count ≤ inbox.length then
      (perform (next count (inbox.take count)) world (inbox.drop count)).map
        fun run => { run with received := inbox.take count :: run.received }
    else none
  | .call request next, world, inbox => perform (next (answer world request).1) (answer world request).2 inbox

variable {answer}

theorem perform_bind (first : Dialogue σ κ ρ α) (rest : α → Dialogue σ κ ρ β) (world : S) (inbox : List σ) :
    perform answer (first >>= rest) world inbox = (perform answer first world inbox).bind fun run =>
      (perform answer (rest run.result) run.world run.inbox).map fun later =>
        { later with sent := run.sent ++ later.sent, received := run.received ++ later.received } := by
  induction first generalizing world inbox with
  | done result => simp [perform]
  | send message next ih =>
    simp [perform, ih, Option.map_bind, Option.bind_map, Function.comp_def]
  | receive count next ih =>
    by_cases arrived : count ≤ inbox.length
    · simp [perform, arrived, ih, Option.map_bind, Option.bind_map, Function.comp_def]
    · simp [perform, arrived]
  | call request next ih => simp [perform, ih]

end

/-- One side of the connection, with what it has sent and received so far. -/
structure Party (σ κ ρ α S : Type) where
  dialogue : Dialogue σ κ ρ α
  world : S
  inbox : List σ
  sent : List (List σ)
  received : List (List σ)

namespace Party

def deliver (party : Party σ κ ρ α S) (data : List σ) : Party σ κ ρ α S := { party with inbox := party.inbox ++ data }

def step (answer : S → κ → ρ × S) (party : Party σ κ ρ α S) : Option (Party σ κ ρ α S × List σ) :=
  match party.dialogue with
  | .done _ => none
  | .send message next =>
    some ({ party with dialogue := next message.length, sent := party.sent ++ [message] }, message)
  | .receive count next =>
    if count ≤ party.inbox.length then
      some ({ party with
        dialogue := next count (party.inbox.take count)
        inbox := party.inbox.drop count
        received := party.received ++ [party.inbox.take count] }, [])
    else none
  | .call request next =>
    some ({ party with
      dialogue := next (answer party.world request).1
      world := (answer party.world request).2 }, [])

variable {answer : S → κ → ρ × S} {party next last : Party σ κ ρ α S}

theorem deliver_nil (party : Party σ κ ρ α S) : party.deliver [] = party := by simp [deliver]

theorem deliver_deliver (party : Party σ κ ρ α S) (first second : List σ) :
    (party.deliver first).deliver second = party.deliver (first ++ second) := by
  simp [deliver]

theorem step_deliver {out : List σ} (moves : party.step answer = some (next, out)) (data : List σ) :
    (party.deliver data).step answer = some (next.deliver data, out) := by
  obtain ⟨dialogue, world, inbox, sent, received⟩ := party
  cases dialogue with
  | done result => cases moves
  | send message further =>
    cases moves
    rfl
  | call request further =>
    cases moves
    rfl
  | receive count further =>
    simp only [step] at moves
    split at moves
    next arrived =>
      cases moves
      have still : count ≤ (inbox ++ data).length := by
        simp only [List.length_append]
        omega
      simp only [deliver, step, if_pos still, List.take_append_of_le_length arrived,
        List.drop_append_of_le_length arrived]
    next => cases moves

inductive Runs (answer : S → κ → ρ × S) : Party σ κ ρ α S → List σ → Party σ κ ρ α S → Prop where
  | stay (party : Party σ κ ρ α S) : Runs answer party [] party
  | step {party next last : Party σ κ ρ α S} {out more : List σ} (moves : party.step answer = some (next, out))
      (rest : Runs answer next more last) : Runs answer party (out ++ more) last

theorem Runs.single {out : List σ} (moves : party.step answer = some (next, out)) : Runs answer party out next := by
  simpa using Runs.step moves (.stay next)

theorem Runs.trans {out more : List σ} (first : Runs answer party out next) (rest : Runs answer next more last) :
    Runs answer party (out ++ more) last := by
  induction first with
  | stay => exact rest
  | step moves _ ih =>
    rw [List.append_assoc]
    exact .step moves (ih rest)

theorem runs_of_perform {dialogue : Dialogue σ κ ρ α} {world : S} {inbox : List σ} {run : Performed σ α S}
    (performed : perform answer dialogue world inbox = some run) (sent received : List (List σ)) :
    Runs answer ⟨dialogue, world, inbox, sent, received⟩ run.sent.flatten
      ⟨.done run.result, run.world, run.inbox, sent ++ run.sent, received ++ run.received⟩ := by
  induction dialogue generalizing world inbox run sent received with
  | done result =>
    cases performed
    simpa only [List.append_nil] using! .stay _
  | send message next ih =>
    obtain ⟨later, done, rfl⟩ := Option.map_eq_some_iff.mp performed
    have rest := ih _ done (sent ++ [message]) received
    have moves : step answer (⟨.send message next, world, inbox, sent, received⟩ : Party σ κ ρ α S) =
        some (⟨next message.length, world, inbox, sent ++ [message], received⟩, message) := rfl
    simpa using Runs.step moves rest
  | receive count next ih =>
    simp only [perform] at performed
    split at performed
    next arrived =>
      obtain ⟨later, done, rfl⟩ := Option.map_eq_some_iff.mp performed
      have rest := ih _ _ done sent (received ++ [inbox.take count])
      have moves : step answer (⟨.receive count next, world, inbox, sent, received⟩ : Party σ κ ρ α S) =
          some (⟨next count (inbox.take count), world, inbox.drop count, sent, received ++ [inbox.take count]⟩, []) := by
        simp [step, arrived]
      simpa using Runs.step moves rest
    next => cases performed
  | call request next ih =>
    have moves : step answer (⟨.call request next, world, inbox, sent, received⟩ : Party σ κ ρ α S) =
        some (⟨next (answer world request).1, (answer world request).2, inbox, sent, received⟩, []) := rfl
    exact .step moves (ih _ performed sent received)

end Party

section
variable (answer : S → κ → ρ × S) (answer' : S' → κ' → ρ' × S')

/-- Either side takes its next step. -/
inductive Step : Party σ κ ρ α S × Party σ κ' ρ' α' S' → Party σ κ ρ α S × Party σ κ' ρ' α' S' → Prop where
  | client {client next : Party σ κ ρ α S} {server : Party σ κ' ρ' α' S'} {out : List σ}
      (moves : client.step answer = some (next, out)) : Step (client, server) (next, server.deliver out)
  | server {client : Party σ κ ρ α S} {server next : Party σ κ' ρ' α' S'} {out : List σ}
      (moves : server.step answer' = some (next, out)) : Step (client, server) (client.deliver out, next)

def Reaches : Party σ κ ρ α S × Party σ κ' ρ' α' S' → Party σ κ ρ α S × Party σ κ' ρ' α' S' → Prop :=
  Relation.ReflTransGen (Step answer answer')

variable {answer answer'} {client client' : Party σ κ ρ α S} {server server' : Party σ κ' ρ' α' S'}

theorem diamond {start left right : Party σ κ ρ α S × Party σ κ' ρ' α' S'} (first : Step answer answer' start left)
    (second : Step answer answer' start right) :
    ∃ last, Relation.ReflGen (Step answer answer') left last ∧ Reaches answer answer' right last := by
  cases first with
  | client moves =>
    cases second with
    | client also =>
      cases moves.symm.trans also
      exact ⟨_, .refl, .refl⟩
    | server other => exact ⟨_, .single (.server (Party.step_deliver other _)),
      .single (.client (Party.step_deliver moves _))⟩
  | server moves =>
    cases second with
    | client other => exact ⟨_, .single (.client (Party.step_deliver other _)),
      .single (.server (Party.step_deliver moves _))⟩
    | server also =>
      cases moves.symm.trans also
      exact ⟨_, .refl, .refl⟩

theorem stuck_of_done {client : Party σ κ ρ α S} {server : Party σ κ' ρ' α' S'} {result : α} {result' : α'}
    (client_done : client.dialogue = .done result) (server_done : server.dialogue = .done result')
    (next : Party σ κ ρ α S × Party σ κ' ρ' α' S') : ¬Step answer answer' (client, server) next := by
  intro step
  cases step with
  | client moves => simp [Party.step, client_done] at moves
  | server moves => simp [Party.step, server_done] at moves

theorem Reaches.of_stuck {start last : Party σ κ ρ α S × Party σ κ' ρ' α' S'}
    (stuck : ∀ next, ¬Step answer answer' start next)
    (run : Reaches answer answer' start last) : last = start := by
  cases Relation.ReflTransGen.cases_head run with
  | inl same => exact same.symm
  | inr moves =>
    obtain ⟨next, step, _⟩ := moves
    exact absurd step (stuck next)

/-- A meeting that can end goes on to that end from wherever it is. -/
theorem Reaches.inevitable {start last meeting : Party σ κ ρ α S × Party σ κ' ρ' α' S'}
    (ends : Reaches answer answer' start last) (stuck : ∀ next, ¬Step answer answer' last next)
    (run : Reaches answer answer' start meeting) : Reaches answer answer' meeting last := by
  obtain ⟨common, fromLast, fromMeeting⟩ := Relation.church_rosser (fun _ _ _ => diamond) ends run
  rwa [Reaches.of_stuck stuck fromLast] at fromMeeting

theorem Party.Runs.reaches_client {out : List σ} (runs : Runs answer client out client') :
    Reaches answer answer' (client, server) (client', server.deliver out) := by
  induction runs generalizing server with
  | stay =>
    rw [deliver_nil]
    exact .refl
  | step moves _ ih =>
    rw [← deliver_deliver]
    exact .head (.client moves) ih

theorem Party.Runs.reaches_server {out : List σ} (runs : Runs answer' server out server') :
    Reaches answer answer' (client, server) (client.deliver out, server') := by
  induction runs generalizing client with
  | stay =>
    rw [deliver_nil]
    exact .refl
  | step moves _ ih =>
    rw [← deliver_deliver]
    exact .head (.server moves) ih

end

namespace Dialogue

def opening : Dialogue σ κ ρ α → List (List σ) × Dialogue σ κ ρ α
  | .send message next => ((next message.length).opening.1.cons message, (next message.length).opening.2)
  | other => ([], other)

theorem runs_opening (answer : S → κ → ρ × S) (dialogue : Dialogue σ κ ρ α) (world : S) (inbox : List σ)
    (sent received : List (List σ)) :
    Party.Runs answer ⟨dialogue, world, inbox, sent, received⟩ dialogue.opening.1.flatten
      ⟨dialogue.opening.2, world, inbox, sent ++ dialogue.opening.1, received⟩ := by
  induction dialogue generalizing sent with
  | send message next ih =>
    have rest := ih message.length (sent ++ [message])
    have moves : Party.step answer (⟨.send message next, world, inbox, sent, received⟩ : Party σ κ ρ α S) =
        some (⟨next message.length, world, inbox, sent ++ [message], received⟩, message) := rfl
    simpa [opening] using Party.Runs.step moves rest
  | _ => simpa [opening] using .stay _

end Dialogue

def fresh (dialogue : Dialogue σ κ ρ α) (world : S) : Party σ κ ρ α S := ⟨dialogue, world, [], [], []⟩

/-- The client asks, the server does what it is asked and the client hears the answer. -/
structure Exchange (answer : S → κ → ρ × S) (answer' : S' → κ' → ρ' × S') (client : Dialogue σ κ ρ α) (world : S)
    (server : Dialogue σ κ' ρ' α') (world' : S') where
  requests : List (List σ)
  waiting : Dialogue σ κ ρ α
  served : Performed σ α' S'
  heard : Performed σ α S
  opens : client.opening = (requests, waiting)
  serves : perform answer' server world' requests.flatten = some served
  hears : perform answer waiting world served.sent.flatten = some heard

namespace Exchange
variable {answer : S → κ → ρ × S} {answer' : S' → κ' → ρ' × S'} {client : Dialogue σ κ ρ α} {world : S}
    {server : Dialogue σ κ' ρ' α'} {world' : S'}

def last (exchange : Exchange answer answer' client world server world') : Party σ κ ρ α S × Party σ κ' ρ' α' S' :=
  (⟨.done exchange.heard.result, exchange.heard.world, exchange.heard.inbox, exchange.requests ++ exchange.heard.sent,
    exchange.heard.received⟩,
  ⟨.done exchange.served.result, exchange.served.world, exchange.served.inbox ++ exchange.heard.sent.flatten,
    exchange.served.sent, exchange.served.received⟩)

theorem reaches (exchange : Exchange answer answer' client world server world') :
    Reaches answer answer' (fresh client world, fresh server world') exchange.last := by
  have asked := client.runs_opening answer world [] [] []
  have answered := Party.runs_of_perform exchange.serves [] []
  have heard := Party.runs_of_perform exchange.hears exchange.requests []
  rw [exchange.opens] at asked
  refine Relation.ReflTransGen.trans asked.reaches_client ?_
  refine Relation.ReflTransGen.trans answered.reaches_server ?_
  exact heard.reaches_client

/-- Whatever the turns, every run goes on to the same end. -/
theorem inevitable (exchange : Exchange answer answer' client world server world')
    {meeting : Party σ κ ρ α S × Party σ κ' ρ' α' S'}
    (run : Reaches answer answer' (fresh client world, fresh server world') meeting) :
    Reaches answer answer' meeting exchange.last :=
  Reaches.inevitable exchange.reaches (stuck_of_done rfl rfl) run

end Exchange

section
variable {answer : S → κ → ρ × S}

/-- The party leaves its inbox alone; its result and its messages are as `said` has them. -/
def Says (answer : S → κ → ρ × S) (said : α → List (List σ) → Prop) (dialogue : Dialogue σ κ ρ α) : Prop :=
  ∀ world inbox, ∃ run, perform answer dialogue world inbox = some run ∧ run.inbox = inbox ∧ run.received = [] ∧
    said run.result run.sent

theorem Says.done {said : α → List (List σ) → Prop} {result : α} (nothing : said result []) :
    Says answer said (.done result : Dialogue σ κ ρ α) :=
  fun _ _ => ⟨_, rfl, rfl, rfl, nothing⟩

theorem Says.call {said : α → List (List σ) → Prop} {request : κ} {next : ρ → Dialogue σ κ ρ α}
    (rest : ∀ given, Says answer said (next given)) : Says answer said (.call request next) :=
  fun world inbox => rest _ (answer world request).2 inbox

theorem Says.bind {said : α → List (List σ) → Prop} {saying : β → List (List σ) → Prop} {first : Dialogue σ κ ρ α}
    {rest : α → Dialogue σ κ ρ β} (before : Says answer said first)
    (after : ∀ result sent, said result sent → Says answer (fun result more => saying result (sent ++ more)) (rest result)) :
    Says answer saying (first >>= rest) := by
  intro world inbox
  obtain ⟨run, performed, same, none, held⟩ := before world inbox
  obtain ⟨later, followed, same', none', held'⟩ := after run.result run.sent held run.world run.inbox
  refine ⟨{ later with sent := run.sent ++ later.sent, received := run.received ++ later.received }, ?_,
    same'.trans same, ?_,
    held'⟩
  · rw [perform_bind, performed, Option.bind_some, followed, Option.map_some]
  · simp [none, none']

end

/-- Whatever it hears, it hears and says something only where it may, and its requests are of this kind. -/
inductive Acts (hearing saying : Prop) (kind : κ → Prop) : Dialogue σ κ ρ α → Prop
  | done (result : α) : Acts hearing saying kind (.done result)
  | send {message : List σ} {next : Int → Dialogue σ κ ρ α} (may : saying)
    (rest : ∀ code, Acts hearing saying kind (next code)) :
    Acts hearing saying kind (.send message next)
  | receive {count : Nat} {next : Int → List σ → Dialogue σ κ ρ α} (may : hearing)
      (rest : ∀ code data, Acts hearing saying kind (next code data)) : Acts hearing saying kind (.receive count next)
  | call {request : κ} {next : ρ → Dialogue σ κ ρ α} (right : kind request)
      (rest : ∀ given, Acts hearing saying kind (next given)) : Acts hearing saying kind (.call request next)

/-- It says nothing before it has heard all that it hears. -/
inductive HearsFirst (kind : κ → Prop) : Dialogue σ κ ρ α → Prop
  | replying {dialogue : Dialogue σ κ ρ α} (deaf : Acts False True kind dialogue) : HearsFirst kind dialogue
  | receive {count : Nat} {next : Int → List σ → Dialogue σ κ ρ α} (rest : ∀ code data, HearsFirst kind (next code data)) :
    HearsFirst kind (.receive count next)
  | call {request : κ} {next : ρ → Dialogue σ κ ρ α} (right : kind request) (rest : ∀ given, HearsFirst kind (next given)) :
    HearsFirst kind (.call request next)

section
variable {hearing saying : Prop} {kind kind' : κ → Prop} {dialogue first : Dialogue σ κ ρ α} {rest : α → Dialogue σ κ ρ β}

theorem Acts.bind (acts : Acts hearing saying kind first) (others : ∀ result, Acts hearing saying kind (rest result)) :
    Acts hearing saying kind (first >>= rest) := by
  induction acts with
  | done result => exact others result
  | send may _ ih => exact .send may ih
  | receive may _ ih => exact .receive may ih
  | call right _ ih => exact .call right ih

theorem Acts.weaken (acts : Acts hearing saying kind dialogue) (wider : ∀ request, kind request → kind' request) :
    Acts hearing saying kind' dialogue := by
  induction acts with
  | done result => exact .done result
  | send may _ ih => exact .send may ih
  | receive may _ ih => exact .receive may ih
  | call right _ ih => exact .call (wider _ right) ih

/-- What all these requests keep, the dialogue keeps. -/
theorem Acts.keeps {answer : S → κ → ρ × S} {invariant : S → Prop}
    (kept : ∀ world request, kind request → invariant world → invariant (answer world request).2)
    (acts : Acts hearing saying kind dialogue) {world : S} (holds : invariant world) {inbox : List σ} {run : Performed σ α S}
    (performed : perform answer dialogue world inbox = some run) : invariant run.world := by
  induction acts generalizing world inbox run with
  | done result =>
    cases performed
    exact holds
  | send _ _ ih =>
    obtain ⟨later, done, rfl⟩ := Option.map_eq_some_iff.mp performed
    have held : invariant later.world := ih _ holds done
    exact held
  | receive _ _ ih =>
    simp only [perform] at performed
    split at performed
    next =>
      obtain ⟨later, done, rfl⟩ := Option.map_eq_some_iff.mp performed
      have held : invariant later.world := ih _ _ holds done
      exact held
    next => cases performed
  | call right _ ih => exact ih _ (kept _ _ right holds) performed

theorem HearsFirst.bind (hears : HearsFirst kind first) (others : ∀ result, Acts False True kind (rest result)) :
    HearsFirst kind (first >>= rest) := by
  induction hears with
  | replying deaf => exact .replying (deaf.bind others)
  | receive _ ih => exact .receive ih
  | call right _ ih => exact .call right ih

theorem HearsFirst.weaken (first : HearsFirst kind dialogue) (wider : ∀ request, kind request → kind' request) :
    HearsFirst kind' dialogue := by
  induction first with
  | replying deaf => exact .replying (deaf.weaken wider)
  | receive _ ih => exact .receive ih
  | call right _ ih => exact .call (wider _ right) ih

theorem HearsFirst.acts (first : HearsFirst kind dialogue) : Acts True True kind dialogue := by
  induction first with
  | replying deaf =>
    induction deaf with
    | done result => exact .done result
    | send may _ ih => exact .send may ih
    | receive may => exact may.elim
    | call right _ ih => exact .call right ih
  | receive _ ih => exact .receive trivial ih
  | call right _ ih => exact .call right ih

end

/-! ### The moment one side returns -/

section
variable {answer : S → κ → ρ × S} {answer' : S' → κ' → ρ' × S'} {kind : κ → Prop} {kind' : κ' → Prop}

/-- It has not said anything yet, or it has heard all that it hears. -/
def Polite (kind : κ → Prop) (party : Party σ κ ρ α S) : Prop :=
  Acts False True kind party.dialogue ∨ HearsFirst kind party.dialogue ∧ party.sent = []

theorem Acts.unread {party next : Party σ κ ρ α S} {out : List σ} (deaf : Acts False True kind party.dialogue)
    (moves : party.step answer = some (next, out)) : Acts False True kind next.dialogue ∧ next.inbox = party.inbox := by
  obtain ⟨dialogue, world, inbox, sent, received⟩ := party
  cases deaf with
  | done => cases moves
  | send _ rest =>
    cases moves
    exact ⟨rest _, rfl⟩
  | receive may => exact may.elim
  | call _ rest =>
    cases moves
    exact ⟨rest _, rfl⟩

theorem Polite.step {party next : Party σ κ ρ α S} {out : List σ} (polite : Polite kind party)
    (moves : party.step answer = some (next, out)) : Polite kind next := by
  rcases polite with deaf | ⟨first, unsaid⟩
  · exact .inl (deaf.unread moves).1
  obtain ⟨dialogue, world, inbox, sent, received⟩ := party
  cases first with
  | replying deaf =>
    have still : Acts False True kind (⟨dialogue, world, inbox, sent, received⟩ : Party σ κ ρ α S).dialogue := deaf
    exact .inl (still.unread moves).1
  | receive rest =>
    simp only [Party.step] at moves
    split at moves
    next =>
      cases moves
      exact .inr ⟨rest _ _, unsaid⟩
    next => cases moves
  | call _ rest =>
    cases moves
    exact .inr ⟨rest _, unsaid⟩

theorem Reaches.polite {start meeting : Party σ κ ρ α S × Party σ κ' ρ' α' S'} (run : Reaches answer answer' start meeting)
    (polite : Polite kind' start.2) : Polite kind' meeting.2 := by
  induction run with
  | refl => exact polite
  | tail _ step ih =>
    cases step with
    | client => exact ih
    | server moves => exact ih.step moves

theorem Party.step_said {party next : Party σ κ ρ α S} {out : List σ} (moves : party.step answer = some (next, out)) :
    next.sent.flatten = party.sent.flatten ++ out := by
  obtain ⟨dialogue, world, inbox, sent, received⟩ := party
  cases dialogue with
  | done => cases moves
  | send =>
    cases moves
    simp
  | receive =>
    simp only [Party.step] at moves
    split at moves
    next =>
      cases moves
      simp
    next => cases moves
  | call =>
    cases moves
    simp

theorem Party.Runs.said {party last : Party σ κ ρ α S} {out : List σ} (runs : Party.Runs answer party out last) :
    last.sent.flatten = party.sent.flatten ++ out := by
  induction runs with
  | stay => simp
  | step moves _ ih => rw [ih, Party.step_said moves, List.append_assoc]

theorem Party.Runs.unread {party last : Party σ κ ρ α S} {out : List σ} (runs : Party.Runs answer party out last)
    (deaf : Acts False True kind party.dialogue) : last.inbox = party.inbox := by
  induction runs with
  | stay => rfl
  | step moves _ ih =>
    have next := deaf.unread moves
    exact (ih next.1).trans next.2

end

end Xpn.Lib.Conversation
