import Xpn.Lib.Conversation

/-! A party in surroundings that may answer anything: a send or a receipt can fail at any
point, and so can a call. What the party did is told by its events, in order. -/

namespace Xpn.Lib.Conversation

variable {σ κ ρ α β S : Type}

inductive Event (σ κ ρ : Type) where
  | sent (message : List σ) (code : Int)
  | received (count : Nat) (code : Int) (data : List σ)
  | called (request : κ) (answer : ρ)

structure Surroundings (σ κ ρ S : Type) where
  send : S → List σ → Int × S
  receive : S → Nat → (Int × List σ) × S
  call : S → κ → ρ × S

structure Observed (σ κ ρ α S : Type) where
  result : α
  world : S
  events : List (Event σ κ ρ)

variable (around : Surroundings σ κ ρ S)

def observe : Dialogue σ κ ρ α → S → Observed σ κ ρ α S
  | .done result, world => ⟨result, world, []⟩
  | .send message next, world =>
    let sent := around.send world message
    let rest := observe (next sent.1) sent.2
    ⟨rest.result, rest.world, .sent message sent.1 :: rest.events⟩
  | .receive count next, world =>
    let got := around.receive world count
    let rest := observe (next got.1.1 got.1.2) got.2
    ⟨rest.result, rest.world, .received count got.1.1 got.1.2 :: rest.events⟩
  | .call request next, world =>
    let answered := around.call world request
    let rest := observe (next answered.1) answered.2
    ⟨rest.result, rest.world, .called request answered.1 :: rest.events⟩

@[simp] theorem observe_pure (result : α) (world : S) : observe around (pure result) world = ⟨result, world, []⟩ := rfl

theorem observe_bind (first : Dialogue σ κ ρ α) (next : α → Dialogue σ κ ρ β) : ∀ world,
    observe around (first >>= next) world =
      let before := observe around first world
      let after := observe around (next before.result) before.world
      ⟨after.result, after.world, before.events ++ after.events⟩ := by
  induction first with
  | done result => exact fun _ => rfl
  | send message resume ih =>
    intro world
    simp only [Dialogue.send_bind, observe, ih, List.cons_append]
  | receive count resume ih =>
    intro world
    simp only [Dialogue.receive_bind, observe, ih, List.cons_append]
  | call request resume ih =>
    intro world
    simp only [Dialogue.call_bind, observe, ih, List.cons_append]

def Event.message : Event σ κ ρ → Option (List σ)
  | .sent message _ => some message
  | _ => none

def firstSent (events : List (Event σ κ ρ)) : Option (List σ) := events.findSome? Event.message

def beforeSent (events : List (Event σ κ ρ)) : List (Event σ κ ρ) := events.takeWhile (·.message.isNone)

theorem firstSent_append {quiet : List (Event σ κ ρ)} (silent : ∀ event ∈ quiet, event.message = none)
    (message : List σ) (code : Int) (rest : List (Event σ κ ρ)) :
    firstSent (quiet ++ .sent message code :: rest) = some message := by
  rw [firstSent, List.findSome?_append, List.findSome?_eq_none_iff.mpr silent]
  rfl

theorem beforeSent_append {quiet : List (Event σ κ ρ)} (silent : ∀ event ∈ quiet, event.message = none)
    (message : List σ) (code : Int) (rest : List (Event σ κ ρ)) :
    beforeSent (quiet ++ .sent message code :: rest) = quiet := by
  rw [beforeSent, List.takeWhile_append_of_pos fun event member => by rw [silent event member]; rfl,
    List.takeWhile_cons_of_neg (by simp [Event.message]), List.append_nil]

/-- Whatever the answers are, the party ends with such a result after such events. -/
def Always : Dialogue σ κ ρ α → (α → List (Event σ κ ρ) → Prop) → Prop
  | .done result, post => post result []
  | .send message next, post => ∀ code, Always (next code) fun result events => post result (.sent message code :: events)
  | .receive count next, post => ∀ code data,
    Always (next code data) fun result events => post result (.received count code data :: events)
  | .call request next, post => ∀ answer,
    Always (next answer) fun result events => post result (.called request answer :: events)

section
variable {post : α → List (Event σ κ ρ) → Prop}

@[simp] theorem always_done (result : α) : Always (.done result) post ↔ post result [] := Iff.rfl

@[simp] theorem always_send (message : List σ) (next : Int → Dialogue σ κ ρ α) : Always (.send message next) post ↔
    ∀ code, Always (next code) fun result events => post result (.sent message code :: events) := Iff.rfl

@[simp] theorem always_receive (count : Nat) (next : Int → List σ → Dialogue σ κ ρ α) :
    Always (.receive count next) post ↔ ∀ code data,
      Always (next code data) fun result events => post result (.received count code data :: events) := Iff.rfl

@[simp] theorem always_call (request : κ) (next : ρ → Dialogue σ κ ρ α) : Always (.call request next) post ↔
    ∀ answer, Always (next answer) fun result events => post result (.called request answer :: events) := Iff.rfl

end

attribute [irreducible] Always

theorem Always.observed {dialogue : Dialogue σ κ ρ α} {post : α → List (Event σ κ ρ) → Prop}
    (always : Always dialogue post) (world : S) :
    post (observe around dialogue world).result (observe around dialogue world).events := by
  induction dialogue generalizing world post with
  | done result => exact always_done result |>.mp always
  | send message next ih => exact ih _ (always_send message next |>.mp always _) _
  | receive count next ih => exact ih _ _ (always_receive count next |>.mp always _ _) _
  | call request next ih => exact ih _ (always_call request next |>.mp always _) _

theorem Always.mono {dialogue : Dialogue σ κ ρ α} {post post' : α → List (Event σ κ ρ) → Prop}
    (always : Always dialogue post) (weaker : ∀ result events, post result events → post' result events) :
    Always dialogue post' := by
  induction dialogue generalizing post post' with
  | done result =>
    rw [always_done] at always ⊢
    exact weaker _ _ always
  | send message next ih =>
    rw [always_send] at always ⊢
    exact fun code => ih _ (always code) fun _ _ => weaker _ _
  | receive count next ih =>
    rw [always_receive] at always ⊢
    exact fun code data => ih _ _ (always code data) fun _ _ => weaker _ _
  | call request next ih =>
    rw [always_call] at always ⊢
    exact fun answer => ih _ (always answer) fun _ _ => weaker _ _

theorem Always.bind {dialogue : Dialogue σ κ ρ α} {next : α → Dialogue σ κ ρ β}
    {post : β → List (Event σ κ ρ) → Prop}
    (always : Always dialogue fun result events => Always (next result) fun later more => post later (events ++ more)) :
    Always (dialogue >>= next) post := by
  induction dialogue generalizing post with
  | done result =>
    rw [always_done] at always
    exact always
  | send message resume ih =>
    rw [Dialogue.send_bind, always_send]
    exact fun code => ih _ (always_send message resume |>.mp always code)
  | receive count resume ih =>
    rw [Dialogue.receive_bind, always_receive]
    exact fun code data => ih _ _ (always_receive count resume |>.mp always code data)
  | call request resume ih =>
    rw [Dialogue.call_bind, always_call]
    exact fun answer => ih _ (always_call request resume |>.mp always answer)

end Xpn.Lib.Conversation
