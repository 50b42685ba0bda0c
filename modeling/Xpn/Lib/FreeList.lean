import Mathlib.Data.List.Nodup
import Mathlib.Logic.Function.Basic

/-! A list that is threaded through the entries of a table by their indices; −1 ends it. -/

namespace Xpn.Lib.FreeList

/-- The links lead from the head through these indices, in this order, to the end. -/
def Threads (next : Nat → Int) : Int → List Nat → Prop
  | head, [] => head = -1
  | head, i :: path => head = i ∧ Threads next (next i) path

variable {next other : Nat → Int} {head : Int} {path : List Nat}

theorem Threads.congr (same : ∀ i ∈ path, next i = other i) (threads : Threads next head path) :
    Threads other head path := by
  induction path generalizing head with
  | nil => exact threads
  | cons i path ih =>
    obtain ⟨here, rest⟩ := threads
    rw [same i List.mem_cons_self] at rest
    exact ⟨here, ih (fun j member => same j (List.mem_cons_of_mem _ member)) rest⟩

/-- The head tells whether there is anything. -/
theorem Threads.nil_iff (threads : Threads next head path) : path = [] ↔ head = -1 := by
  cases path with
  | nil => exact ⟨fun _ => threads, fun _ => rfl⟩
  | cons i path =>
    have here : head = i := threads.1
    constructor
    · intro impossible
      contradiction
    · intro final
      omega

/-- A link that is not on the way may change. -/
theorem Threads.update {i : Nat} (outside : i ∉ path) (link : Int) (threads : Threads next head path) :
    Threads (Function.update next i link) head path := by
  apply threads.congr
  intro j member
  rw [Function.update_of_ne]
  rintro rfl
  exact outside member

theorem Threads.push {i : Nat} (outside : i ∉ path) (threads : Threads next head path) :
    Threads (Function.update next i head) i (i :: path) := by
  refine ⟨rfl, ?_⟩
  rw [Function.update_self]
  exact threads.update outside head

theorem Threads.pop (threads : Threads next head path) (simple : path.Nodup) (present : head ≠ -1) (link : Int) :
    ∃ i rest, path = i :: rest ∧ head = i ∧ i ∉ rest ∧ Threads (Function.update next i link) (next i) rest := by
  cases path with
  | nil => exact absurd threads present
  | cons i rest =>
    have outside := (List.nodup_cons.mp simple).1
    exact ⟨i, rest, rfl, threads.1, outside, threads.2.update outside link⟩

end Xpn.Lib.FreeList
