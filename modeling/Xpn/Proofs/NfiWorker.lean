import Xpn.NfiWorker
import Xpn.Lib.Runs

/-! Every launched operation is run once, with its own arguments, as long as no call launches
on a server that an earlier call has left without a wait, and none goes by a number that is no
server's. -/

namespace Xpn.Proofs.NfiWorker
open Lib.Launching Lib.Runs

variable {ω : Type}

/-- The operations run are the ones launched, each once, in order and with their own
arguments, and a result that was waited for is that of the last launch. -/
structure Lawful (wrk : NfiWorker ω) : Prop where
  bounded : wrk.pending ≤ wrk.launched.length
  executed : wrk.executed = wrk.launched.take (wrk.launched.length - wrk.pending)
  consumed : ∀ pair ∈ wrk.consumed, pair.2 = pair.1

/-- A worker with at most one launch to run, none when nothing is owed. -/
structure Sound (owed : Bool) (wrk : NfiWorker ω) : Prop where
  lawful : Lawful wrk
  single : wrk.pending ≤ 1
  settled : owed = false → wrk.pending = 0
  waiting : wrk.rWait = true ↔ wrk.pending = 1
  arg : wrk.arg = wrk.launched.getLast?
  result : wrk.pending = 0 → wrk.result = wrk.launched.getLast?
  numbered : ∀ op ∈ wrk.launched, op.1 < wrk.launched.length

theorem sound_initial : Sound false (NfiWorker.initial : NfiWorker ω) :=
  ⟨⟨Nat.le_refl _, rfl, by simp [NfiWorker.initial]⟩, Nat.zero_le _, fun _ => rfl, by simp [NfiWorker.initial], rfl,
    fun _ => rfl, by simp [NfiWorker.initial]⟩

variable {wrk next : NfiWorker ω} {owed : Bool}

theorem Sound.launch (sound : Sound false wrk) (op : ω) : Sound true (wrk.launch op) := by
  have idle := sound.settled rfl
  have ran := sound.lawful.executed
  rw [idle, Nat.sub_zero, List.take_length] at ran
  refine ⟨⟨?_, ?_, sound.lawful.consumed⟩, ?_, fun free => (nomatch free), ?_, ?_, fun none_left => ?_, ?_⟩
  · simp [NfiWorker.launch, idle]
  · simp [NfiWorker.launch, idle, ran]
  · simp [NfiWorker.launch, idle]
  · simp [NfiWorker.launch, idle]
  · simp [NfiWorker.launch]
  · simp [NfiWorker.launch] at none_left
  · intro other member
    simp only [NfiWorker.launch, List.mem_append, List.mem_singleton, List.length_append, List.length_singleton] at member ⊢
    rcases member with earlier | rfl
    · have := sound.numbered other earlier
      omega
    · exact Nat.lt_succ_self _

theorem Sound.doOperation (sound : Sound owed wrk) (ran : wrk.doOperation = some next) : Sound owed next := by
  unfold NfiWorker.doOperation at ran
  split at ran
  next => cases ran
  next op held =>
    split at ran
    next => cases ran
    next busy =>
      cases ran
      have one : wrk.pending = 1 := by
        have := sound.single
        omega
      have last := sound.arg.symm.trans held
      have front : wrk.launched.take (wrk.launched.length - 1) ++ [op] = wrk.launched := by
        obtain ⟨earlier, split⟩ := List.getLast?_eq_some_iff.mp last
        rw [split]
        simp
      have before := sound.lawful.executed
      rw [one] at before
      refine ⟨⟨?_, ?_, sound.lawful.consumed⟩, ?_, fun _ => ?_, ?_, sound.arg, fun _ => last.symm, sound.numbered⟩
      · simp [one]
      · simp [one, before, front]
      · simp [one]
      · simp [one]
      · simp [one]

theorem Sound.wait (sound : Sound owed wrk) (done : wrk.wait = some next) : Sound false next := by
  simp only [NfiWorker.wait, Option.ite_none_left_eq_some, Option.some.injEq] at done
  obtain ⟨quiet, rfl⟩ := done
  have idle : wrk.pending = 0 := by
    have single := sound.single
    have := mt sound.waiting.mpr quiet
    omega
  refine ⟨⟨sound.lawful.bounded, sound.lawful.executed, fun pair member => ?_⟩, sound.single, fun _ => idle, sound.waiting,
    sound.arg, sound.result, sound.numbered⟩
  rcases List.mem_append.mp member with earlier | here
  · exact sound.lawful.consumed pair earlier
  · rw [List.mem_singleton.mp here]
    exact sound.result idle

variable {owes : Int → Bool} {system : NfiSystem ω}

theorem Sound.runs (sound : Sound owed wrk) (busy : wrk.pending = 1) :
    ∃ next, wrk.doOperation = some next ∧ next.pending = 0 ∧ next.rWait = false := by
  have some_launched : wrk.launched ≠ [] := by
    intro none_launched
    have := sound.lawful.bounded
    rw [none_launched, busy, List.length_nil] at this
    omega
  obtain ⟨op, last⟩ := Option.isSome_iff_exists.mp (List.getLast?_isSome.mpr some_launched)
  rw [NfiWorker.doOperation, sound.arg, last]
  exact ⟨_, if_neg (by omega), by simp [busy], rfl⟩

end Xpn.Proofs.NfiWorker
