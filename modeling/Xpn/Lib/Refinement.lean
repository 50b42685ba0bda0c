/-! Two systems that get the same events. When every event gets the same answer from both and
keeps them related, whole runs answer alike. -/

namespace Xpn.Lib.Refinement

variable {σ τ ε ρ : Type}

/-- The answers to the events in turn and the state after them. -/
def run (step : σ → ε → ρ × σ) : σ → List ε → List ρ × σ
  | state, [] => ([], state)
  | state, event :: events =>
    let rest := run step (step state event).2 events
    ((step state event).1 :: rest.1, rest.2)

/-- Every event is allowed in the states that it comes in. -/
def Along (allowed : σ → τ → ε → Prop) (step : σ → ε → ρ × σ) (meaning : τ → ε → ρ × τ) : σ → τ → List ε → Prop
  | _, _, [] => True
  | state, abstract, event :: events =>
    allowed state abstract event ∧ Along allowed step meaning (step state event).2 (meaning abstract event).2 events

end Xpn.Lib.Refinement
