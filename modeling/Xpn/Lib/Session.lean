import Xpn.Lib.Conversation

/-! Exchanges one after another on one connection. A party in an exchange may be in the middle of
a longer dialogue, and the other side may be late: what one exchange leaves behind is what the
next starts with. -/

namespace Xpn.Lib.Conversation

variable {σ κ ρ α β S κ' ρ' α' β' S' : Type} {answer : S → κ → ρ × S} {answer' : S' → κ' → ρ' × S'}

def Party.within (sent received : List (List σ)) (next : α → Dialogue σ κ ρ β) (party : Party σ κ ρ α S) :
    Party σ κ ρ β S :=
  ⟨party.dialogue >>= next, party.world, party.inbox, sent ++ party.sent, received ++ party.received⟩

theorem Party.step_within {party after : Party σ κ ρ α S} {out : List σ} (moves : party.step answer = some (after, out))
    (sent received : List (List σ)) (next : α → Dialogue σ κ ρ β) :
    (party.within sent received next).step answer = some (after.within sent received next, out) := by
  obtain ⟨dialogue, world, inbox, said, heard⟩ := party
  cases dialogue with
  | done result => cases moves
  | send message further =>
    cases moves
    simp [within, step]
  | call request further =>
    cases moves
    rfl
  | receive count further =>
    simp only [step] at moves
    split at moves
    next arrived =>
      cases moves
      simp [within, step, arrived]
    next => cases moves

/-- A meeting goes on as it does alone. -/
theorem Reaches.within {start last : Party σ κ ρ α S × Party σ κ' ρ' α' S'} (run : Reaches answer answer' start last)
    (sent received : List (List σ)) (next : α → Dialogue σ κ ρ β) (sent' received' : List (List σ))
    (next' : α' → Dialogue σ κ' ρ' β') :
    Reaches answer answer' (start.1.within sent received next, start.2.within sent' received' next')
      (last.1.within sent received next, last.2.within sent' received' next') := by
  induction run with
  | refl => exact .refl
  | tail _ step ih =>
    apply ih.tail
    cases step with
    | client moves => exact .client (Party.step_within moves sent received next)
    | server moves => exact .server (Party.step_within moves sent' received' next')

theorem fresh_within (dialogue : Dialogue σ κ ρ α) (world : S) (sent received : List (List σ)) (next : α → Dialogue σ κ ρ β) :
    (fresh dialogue world).within sent received next = ⟨dialogue >>= next, world, [], sent, received⟩ := by
  simp [fresh, Party.within]

/-- Each side hears what the other says, message by message, and nothing is left. -/
structure Exchange.Exact {client : Dialogue σ κ ρ α} {world : S} {server : Dialogue σ κ' ρ' α'} {world' : S'}
    (exchange : Exchange answer answer' client world server world') : Prop where
  requests : exchange.served.received = exchange.requests
  replies : exchange.heard.received = exchange.served.sent
  quiet : exchange.heard.sent = []
  served : exchange.served.inbox = []
  heard : exchange.heard.inbox = []

/-- An exact exchange leaves the parties as if they met for the first time. -/
theorem Exchange.Exact.continues {client : Dialogue σ κ ρ α} {world : S} {server : Dialogue σ κ' ρ' α'} {world' : S'}
    {exchange : Exchange answer answer' client world server world'} (exact : exchange.Exact)
    (next : α → Dialogue σ κ ρ β) (next' : α' → Dialogue σ κ' ρ' β') :
    Reaches answer answer' (fresh (client >>= next) world, fresh (server >>= next') world')
      ((fresh (next exchange.heard.result) exchange.heard.world).within exchange.requests exchange.served.sent pure,
        (fresh (next' exchange.served.result) exchange.served.world).within exchange.served.sent exchange.requests pure) := by
  have run := exchange.reaches.within [] [] next [] [] next'
  rw [fresh_within, fresh_within] at run
  rw [fresh_within, fresh_within]
  simpa [Exchange.last, Party.within, exact.requests, exact.replies, exact.quiet, exact.served, exact.heard, fresh] using run

end Xpn.Lib.Conversation
