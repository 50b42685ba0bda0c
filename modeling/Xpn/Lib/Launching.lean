import Mathlib.Logic.Function.Basic

/-! Programs that hand work to servers and wait for it. The server keeps one record for the
work it was handed last, so a program has to wait before it hands out more. The logic below
follows what is owed: the servers with a launch that was not waited for. -/

namespace Xpn.Lib.Launching

variable {σ ω ρ α β : Type}

/-- After `stray` nothing is known of a run. -/
inductive Action (σ ω : Type) where
  | launch (serv : σ) (op : ω)
  | wait (serv : σ)
  | stray

/-- A wait gives a reply. `ask` is any outcome that no server is waited for. A program that
strays uses what it does not own, so there is nothing to go on with. -/
inductive Program (σ ω ρ α : Type) where
  | done (value : α)
  | launch (serv : σ) (op : ω) (next : Program σ ω ρ α)
  | wait (serv : σ) (next : ρ → Program σ ω ρ α)
  | ask (next : Int → Program σ ω ρ α)
  | stray

namespace Program

def bind : Program σ ω ρ α → (α → Program σ ω ρ β) → Program σ ω ρ β
  | .done value, f => f value
  | .launch serv op next, f => .launch serv op (next.bind f)
  | .wait serv next, f => .wait serv fun reply => (next reply).bind f
  | .ask next, f => .ask fun answer => (next answer).bind f
  | .stray, _ => .stray

instance : Monad (Program σ ω ρ) where
  pure := .done
  bind := Program.bind

end Program

/-- The actions of a run to the end, and the value it returns. -/
inductive Trace : Program σ ω ρ α → List (Action σ ω) → α → Prop where
  | done (value : α) : Trace (.done value) [] value
  | launch {serv op next trace value} (rest : Trace next trace value) :
      Trace (.launch serv op next) (.launch serv op :: trace) value
  | wait {serv next trace value} (reply : ρ) (rest : Trace (next reply) trace value) :
      Trace (.wait serv next) (.wait serv :: trace) value
  | ask {next trace value} (answer : Int) (rest : Trace (next answer) trace value) : Trace (.ask next) trace value
  | stray (value : α) : Trace .stray [.stray] value

/-- The value returned when each server has one reply for all the waits on it, unless the
program strays. -/
def Program.value (reply : σ → ρ) (answer : Int) : Program σ ω ρ α → Option α
  | .done value => some value
  | .launch _ _ next => next.value reply answer
  | .wait serv next => (next (reply serv)).value reply answer
  | .ask next => (next answer).value reply answer
  | .stray => none

theorem Program.value_bind (reply : σ → ρ) (answer : Int) (program : Program σ ω ρ α) (f : α → Program σ ω ρ β) :
    (program >>= f).value reply answer = (program.value reply answer).bind fun value => (f value).value reply answer := by
  induction program with
  | done value => rfl
  | launch serv op next ih => exact ih
  | wait serv next ih => exact ih _
  | ask next ih => exact ih _
  | stray => rfl

variable [DecidableEq σ]

def nothing : σ → Bool := fun _ => false

/-- What is owed after the actions. -/
def owedAfter (owed : σ → Bool) : List (Action σ ω) → σ → Bool
  | [] => owed
  | .launch serv _ :: trace => owedAfter (Function.update owed serv true) trace
  | .wait serv :: trace => owedAfter (Function.update owed serv false) trace
  | .stray :: trace => owedAfter owed trace

/-- No launch on a server that is owed, and no stray step. -/
def Disciplined (owed : σ → Bool) : List (Action σ ω) → Prop
  | [] => True
  | .launch serv _ :: trace => owed serv = false ∧ Disciplined (Function.update owed serv true) trace
  | .wait serv :: trace => Disciplined (Function.update owed serv false) trace
  | .stray :: _ => False

/-- Launches and waits take turns on every server, up to a stray step. -/
def Paired (owed : σ → Bool) : List (Action σ ω) → Prop
  | [] => True
  | .launch serv _ :: trace => owed serv = false ∧ Paired (Function.update owed serv true) trace
  | .wait serv :: trace => owed serv = true ∧ Paired (Function.update owed serv false) trace
  | .stray :: _ => True

def Launches (serv : σ) (trace : List (Action σ ω)) : Prop := ∃ op, .launch serv op ∈ trace

section
variable {owed own other : σ → Bool} {trace : List (Action σ ω)}

omit [DecidableEq σ] in
theorem not_launches_cons {serv : σ} {action : Action σ ω} (absent : ¬Launches serv (action :: trace)) :
    ¬Launches serv trace :=
  fun ⟨op, member⟩ => absent ⟨op, List.mem_cons_of_mem _ member⟩

theorem update_or {serv : σ} (value : Bool) (clear : other serv = false) :
    Function.update (fun s => own s || other s) serv value = fun s => Function.update own serv value s || other s := by
  funext s
  by_cases same : s = serv
  · subst same
    simp [clear]
  · simp [Function.update_of_ne same]

/-- What others are owed does not matter to a program that keeps off their servers, and
stays owed. -/
theorem Paired.frame (paired : Paired own trace) (apart : ∀ serv, own serv = true → other serv = false)
    (inside : .stray ∉ trace) (absent : ∀ serv, other serv = true → ¬Launches serv trace) :
    Disciplined (fun s => own s || other s) trace ∧
      owedAfter (fun s => own s || other s) trace = fun s => owedAfter own trace s || other s := by
  induction trace generalizing own with
  | nil => exact ⟨trivial, rfl⟩
  | cons action trace ih =>
    have rest : ∀ serv, other serv = true → ¬Launches serv trace := fun serv there => not_launches_cons (absent serv there)
    have ih (own' : σ → Bool) (paired' : Paired own' trace) (apart' : ∀ s, own' s = true → other s = false) :=
      ih paired' apart' (List.not_mem_of_not_mem_cons inside) rest
    cases action with
    | launch serv op =>
      have clear : other serv = false := by
        cases there : other serv with
        | false => rfl
        | true => exact absurd ⟨op, List.mem_cons_self⟩ (absent serv there)
      have apart' : ∀ s, Function.update own serv true s = true → other s = false := by
        intro s mine
        by_cases same : s = serv
        · exact same ▸ clear
        · exact apart s (by rwa [Function.update_of_ne same] at mine)
      obtain ⟨disciplined, after⟩ := ih _ paired.2 apart'
      rw [← update_or true clear] at disciplined after
      exact ⟨⟨by simp [paired.1, clear], disciplined⟩, after⟩
    | wait serv =>
      have clear := apart serv paired.1
      have apart' : ∀ s, Function.update own serv false s = true → other s = false := by
        intro s mine
        by_cases same : s = serv
        · exact same ▸ clear
        · exact apart s (by rwa [Function.update_of_ne same] at mine)
      obtain ⟨disciplined, after⟩ := ih _ paired.2 apart'
      rw [← update_or false clear] at disciplined after
      exact ⟨disciplined, after⟩
    | stray => exact absurd List.mem_cons_self inside

theorem Disciplined.inside (disciplined : Disciplined owed trace) : .stray ∉ trace := by
  induction trace generalizing owed with
  | nil => exact List.not_mem_nil
  | cons action trace ih =>
    cases action with
    | launch serv op => exact List.not_mem_cons_of_ne_of_not_mem (by simp) (ih disciplined.2)
    | wait serv => exact List.not_mem_cons_of_ne_of_not_mem (by simp) (ih disciplined)
    | stray => exact disciplined.elim

end

/-- From `owed` on the program pairs its launches and waits, and ends in `post` or strays. -/
def Program.Keeps (owed : σ → Bool) (post : α → (σ → Bool) → Prop) : Program σ ω ρ α → Prop
  | .done value => post value owed
  | .launch serv _ next => owed serv = false ∧ next.Keeps (Function.update owed serv true) post
  | .wait serv next => owed serv = true ∧ ∀ reply, (next reply).Keeps (Function.update owed serv false) post
  | .ask next => ∀ answer, (next answer).Keeps owed post
  | .stray => True

namespace Program
variable {program : Program σ ω ρ α} {owed : σ → Bool} {post : α → (σ → Bool) → Prop}

theorem Keeps.trace (keeps : program.Keeps owed post) {trace : List (Action σ ω)} {value : α} (run : Trace program trace value) :
    Paired owed trace ∧ (.stray ∉ trace → post value (owedAfter owed trace)) := by
  induction run generalizing owed with
  | done value => exact ⟨trivial, fun _ => keeps⟩
  | launch rest ih =>
    obtain ⟨paired, ends⟩ := ih keeps.2
    exact ⟨⟨keeps.1, paired⟩, fun inside => ends (List.not_mem_of_not_mem_cons inside)⟩
  | wait reply rest ih =>
    obtain ⟨paired, ends⟩ := ih (keeps.2 reply)
    exact ⟨⟨keeps.1, paired⟩, fun inside => ends (List.not_mem_of_not_mem_cons inside)⟩
  | ask answer rest ih => exact ih (keeps answer)
  | stray value => exact ⟨trivial, fun inside => absurd List.mem_cons_self inside⟩

theorem Keeps.mono {weaker : α → (σ → Bool) → Prop} (keeps : program.Keeps owed post)
    (implies : ∀ value owed, post value owed → weaker value owed) : program.Keeps owed weaker := by
  induction program generalizing owed with
  | done value => exact implies value owed keeps
  | launch serv op next ih => exact ⟨keeps.1, ih keeps.2⟩
  | wait serv next ih => exact ⟨keeps.1, fun reply => ih reply (keeps.2 reply)⟩
  | ask next ih => exact fun answer => ih answer (keeps answer)
  | stray => trivial

theorem Keeps.bind {f : α → Program σ ω ρ β} {last : β → (σ → Bool) → Prop}
    (keeps : program.Keeps owed fun value owed => (f value).Keeps owed last) : (program >>= f).Keeps owed last := by
  induction program generalizing owed with
  | done value => exact keeps
  | launch serv op next ih => exact ⟨keeps.1, ih keeps.2⟩
  | wait serv next ih => exact ⟨keeps.1, fun reply => ih reply (keeps.2 reply)⟩
  | ask next ih => exact fun answer => ih answer (keeps answer)
  | stray => trivial

theorem Keeps.then {f : α → Program σ ω ρ β} {last : β → (σ → Bool) → Prop} (keeps : program.Keeps owed post)
    (next : ∀ value owed, post value owed → (f value).Keeps owed last) : (program >>= f).Keeps owed last :=
  (keeps.mono next).bind

end Program

end Xpn.Lib.Launching
