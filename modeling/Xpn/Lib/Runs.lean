/-! Runs of a labelled transition system. A guard says which events may happen in
which state; an invariant has to survive the allowed events only. -/

namespace Xpn.Lib.Runs

variable {σ ε : Type} {step : σ → ε → σ → Prop} {guard : σ → ε → Prop} {start : σ}

/-- The states that runs of allowed events reach. -/
inductive Reachable (step : σ → ε → σ → Prop) (guard : σ → ε → Prop) (start : σ) : σ → Prop where
  | start : Reachable step guard start start
  | next {before event after} (run : Reachable step guard start before) (allowed : guard before event)
      (taken : step before event after) : Reachable step guard start after

theorem Reachable.invariant (property : σ → Prop) (initial : property start)
    (preserved : ∀ before event after, property before → guard before event → step before event after → property after)
    {state : σ} (run : Reachable step guard start state) : property state := by
  induction run with
  | start => exact initial
  | next _ allowed taken ih => exact preserved _ _ _ ih allowed taken

/-- Runs of a function on events, with the events given as a list. -/
def exec (step : σ → ε → Option σ) : σ → List ε → Option σ
  | state, [] => some state
  | state, event :: events => (step state event).bind fun next => exec step next events

/-- Each event is allowed in the state that the events before it lead to. -/
def Along (step : σ → ε → Option σ) (guard : σ → ε → Prop) : σ → List ε → Prop
  | _, [] => True
  | state, event :: events => guard state event ∧ ∀ next, step state event = some next → Along step guard next events

theorem Reachable.exec_along {step : σ → ε → Option σ} {state final : σ} (events : List ε) (along : Along step guard state events)
    (run : Reachable (fun before event after => step before event = some after) guard start state)
    (done : Runs.exec step state events = some final) :
    Reachable (fun before event after => step before event = some after) guard start final := by
  induction events generalizing state with
  | nil =>
    cases done
    exact run
  | cons event events ih =>
    obtain ⟨next, taken, rest⟩ := Option.bind_eq_some_iff.mp done
    exact ih (along.2 next taken) (.next run along.1 taken) rest

theorem along_free {step : σ → ε → Option σ} (events : List ε) (free : ∀ event ∈ events, ∀ before, guard before event) :
    ∀ state, Along step guard state events := by
  induction events with
  | nil => exact fun _ => trivial
  | cons event events ih =>
    intro state
    exact ⟨free event List.mem_cons_self state, fun next _ => ih (fun other member => free other (List.mem_cons_of_mem _ member)) next⟩

/-- Events that are allowed in every state go on with any run. -/
theorem Reachable.exec_free {step : σ → ε → Option σ} {state final : σ} (events : List ε)
    (free : ∀ event ∈ events, ∀ before, guard before event)
    (run : Reachable (fun before event after => step before event = some after) guard start state)
    (done : Runs.exec step state events = some final) :
    Reachable (fun before event after => step before event = some after) guard start final :=
  run.exec_along events (along_free events free state) done

theorem Reachable.exec {step : σ → ε → Option σ} {state final : σ} (events : List ε)
    (run : Reachable (fun before event after => step before event = some after) (fun _ _ => True) start state)
    (done : Runs.exec step state events = some final) :
    Reachable (fun before event after => step before event = some after) (fun _ _ => True) start final :=
  run.exec_free events (fun _ _ _ => trivial) done

end Xpn.Lib.Runs
