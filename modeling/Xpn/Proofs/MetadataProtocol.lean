import Xpn.MetadataProtocol
import Xpn.Lib.Runs

/-! Acknowledged sizes in the metadata protocol. A size update never lowers the
stored size; an open that writes back the record it read may, when another client
stored a larger size in between. -/

namespace Xpn.Proofs
open Lib.Runs MdataState

def MdataStep (created : XpnMetadata) (before : MdataState) (event : MdataEvent) (after : MdataState) : Prop :=
  before.step created event = some after

/-- A client that is sending a size holds that size in its own copy of the record. -/
def Announced (state : MdataState) : Prop :=
  ∀ client mdata offset, state.clients client = .updating mdata offset → mdata.fileSize = offset

def SizesKept (state : MdataState) : Prop := ∀ size ∈ state.acknowledged, (size : Int) ≤ state.stored.fileSize

/-- An open may write its record back while the stored size is not beyond the one in
the record. -/
def NoLargerSize (state : MdataState) : MdataEvent → Prop
  | .openUpdate client => ∀ creat mdata, state.clients client = .opening creat mdata → state.stored.fileSize ≤ mdata.fileSize
  | _ => True

theorem writeMdataFileSize_ge (stored : XpnMetadata) (size : Int) :
    stored.fileSize ≤ (xpnServerOpWriteMdataFileSize stored size).fileSize ∧
      size ≤ (xpnServerOpWriteMdataFileSize stored size).fileSize := by
  unfold xpnServerOpWriteMdataFileSize
  split
  next smaller => exact ⟨Int.le_of_lt smaller, Int.le_refl _⟩
  next larger => exact ⟨Int.le_refl _, Int.not_lt.mp larger⟩

variable {created : XpnMetadata} {before after : MdataState} {event : MdataEvent}

/-- Everything a step can do: it gives one client a new phase, and it leaves the
record alone, overwrites it, or stores a size that is acknowledged. -/
theorem step_cases (taken : MdataStep created before event after) :
    ∃ client phase, after.clients = (before.setClient client phase).clients ∧
      ((after.stored = before.stored ∧ after.acknowledged = before.acknowledged ∧
          ∀ mdata offset, phase = .updating mdata offset → mdata.fileSize = offset) ∨
        (∃ mdata, event = .openUpdate client ∧ before.clients client = .opening true mdata ∧
          phase = .opened mdata 0 ∧ after.stored = mdata ∧ after.acknowledged = before.acknowledged) ∨
        (∃ mdata offset, before.clients client = .updating mdata offset ∧ phase = .opened mdata offset ∧
          after.stored = xpnServerOpWriteMdataFileSize before.stored mdata.fileSize ∧
          after.acknowledged = offset :: before.acknowledged)) := by
  unfold MdataStep at taken
  cases event with
  | openRead client creat =>
    simp only [step] at taken
    split at taken
    · cases taken
      exact ⟨client, _, rfl, Or.inl ⟨rfl, rfl, fun _ _ impossible => nomatch impossible⟩⟩
    · cases taken
  | openUpdate client =>
    simp only [step] at taken
    split at taken
    next mdata phase =>
      cases taken
      exact ⟨client, _, rfl, Or.inr (Or.inl ⟨mdata, rfl, phase, rfl, rfl, rfl⟩)⟩
    · cases taken
  | openDone client =>
    simp only [step] at taken
    split at taken
    · cases taken
      exact ⟨client, _, rfl, Or.inl ⟨rfl, rfl, fun _ _ impossible => nomatch impossible⟩⟩
    · cases taken
  | seek client offset =>
    simp only [step] at taken
    split at taken
    · cases taken
      exact ⟨client, _, rfl, Or.inl ⟨rfl, rfl, fun _ _ impossible => nomatch impossible⟩⟩
    · cases taken
  | write client count =>
    simp only [step] at taken
    split at taken
    · split at taken
      · cases taken
        refine ⟨client, _, rfl, Or.inl ⟨rfl, rfl, fun _ _ same => ?_⟩⟩
        cases same
        rfl
      · cases taken
        exact ⟨client, _, rfl, Or.inl ⟨rfl, rfl, fun _ _ impossible => nomatch impossible⟩⟩
    · cases taken
  | sizeUpdate client =>
    simp only [step] at taken
    split at taken
    next mdata offset phase =>
      cases taken
      exact ⟨client, _, rfl, Or.inr (Or.inr ⟨mdata, offset, phase, rfl, rfl, rfl⟩)⟩
    · cases taken
  | close client =>
    simp only [step] at taken
    split at taken
    · cases taken
      exact ⟨client, _, rfl, Or.inl ⟨rfl, rfl, fun _ _ impossible => nomatch impossible⟩⟩
    · cases taken

theorem Announced.step (announced : Announced before) (taken : MdataStep created before event after) : Announced after := by
  obtain ⟨client, phase, clients, effect⟩ := step_cases taken
  intro other mdata offset updating
  rw [clients, setClient] at updating
  dsimp only at updating
  split at updating
  · rcases effect with ⟨-, -, sends⟩ | ⟨_, -, -, opened, -⟩ | ⟨_, _, -, opened, -⟩
    · exact sends mdata offset updating
    · rw [opened] at updating
      cases updating
    · rw [opened] at updating
      cases updating
  · exact announced other mdata offset updating

theorem SizesKept.step (announced : Announced before) (kept : SizesKept before) (allowed : NoLargerSize before event)
    (taken : MdataStep created before event after) : SizesKept after := by
  obtain ⟨client, phase, -, effect⟩ := step_cases taken
  intro size member
  rcases effect with ⟨stored, same, -⟩ | ⟨mdata, rfl, opening, -, stored, same⟩ | ⟨mdata, offset, updating, -, stored, grown⟩
  · rw [stored]
    exact kept size (same ▸ member)
  · have before_size := kept size (same ▸ member)
    have larger := allowed true mdata opening
    rw [stored]
    exact Int.le_trans before_size larger
  · obtain ⟨notLower, sent⟩ := writeMdataFileSize_ge before.stored mdata.fileSize
    rw [stored]
    rw [grown] at member
    rcases List.mem_cons.mp member with rfl | earlier
    · rwa [announced client mdata size updating] at sent ⊢
    · exact Int.le_trans (kept size earlier) notLower

/-- In every run in which opens write their records back only over sizes that are not
larger, no acknowledged size is lost. -/
theorem acknowledged_size_kept {stored : XpnMetadata} {state : MdataState}
    (run : Reachable (MdataStep created) NoLargerSize (initial stored) state) :
    ∀ size ∈ state.acknowledged, (size : Int) ≤ state.stored.fileSize := by
  have both : Announced state ∧ SizesKept state := by
    refine run.invariant (fun state => Announced state ∧ SizesKept state) ?_ ?_
    · exact ⟨fun _ _ _ impossible => (nomatch impossible), fun _ impossible => (nomatch impossible)⟩
    · intro before event after valid allowed taken
      exact ⟨valid.1.step taken, valid.2.step valid.1 allowed taken⟩
  exact both.2

def emptyRecord : XpnMetadata := xpnCreateMetadataExtern [slash, 97] 1 4 0

/-- One client reads the record, another one stores 100 bytes, and the first one
writes its record back. -/
def overtaken : List MdataEvent :=
  [.openRead 1 true, .openRead 2 true, .openUpdate 2, .write 2 100, .sizeUpdate 2, .openUpdate 1]

theorem acknowledged_size_lost : ¬∀ (created stored : XpnMetadata) (state : MdataState),
    Reachable (MdataStep created) (fun _ _ => True) (initial stored) state →
    ∀ size ∈ state.acknowledged, (size : Int) ≤ state.stored.fileSize := by
  intro kept
  have runs : (exec (step emptyRecord) (initial emptyRecord) overtaken).isSome = true := by decide
  obtain ⟨final, done⟩ := Option.isSome_iff_exists.mp runs
  have member : final.acknowledged = [100] := by
    have : (exec (step emptyRecord) (initial emptyRecord) overtaken).map (·.acknowledged) = some [100] := by decide
    rw [done] at this
    exact Option.some.inj this
  have size : final.stored.fileSize = 0 := by
    have : (exec (step emptyRecord) (initial emptyRecord) overtaken).map (·.stored.fileSize) = some 0 := by decide
    rw [done] at this
    exact Option.some.inj this
  have lost := kept emptyRecord emptyRecord final (Reachable.exec overtaken .start done) 100 (by rw [member]; decide)
  rw [size] at lost
  exact absurd lost (by decide)

/-- The second client opens behind the first one's size update, writes its record back over the same size,
and goes on to store more. -/
theorem acknowledged_size_kept_in_turn :
    ∃ state, Reachable (MdataStep emptyRecord) NoLargerSize (initial emptyRecord) state ∧
      state.acknowledged = [150, 100] ∧ ∀ size ∈ state.acknowledged, (size : Int) ≤ state.stored.fileSize := by
  have along : Along (step emptyRecord) NoLargerSize (initial emptyRecord)
      [.openRead 2 true, .openUpdate 2, .write 2 100, .sizeUpdate 2, .openRead 1 true, .openUpdate 1,
        .write 1 40, .write 1 110, .sizeUpdate 1] := by
    refine ⟨trivial, fun _ read => ?_⟩
    cases read
    refine ⟨fun _ _ opening => ?_, fun _ opened => ?_⟩
    · cases opening
      exact le_rfl
    cases opened
    refine ⟨trivial, fun _ wrote => ⟨trivial, fun _ stored => ⟨trivial, fun _ read => ?_⟩⟩⟩
    cases wrote
    cases stored
    cases read
    refine ⟨fun _ _ opening => ?_, fun _ _ => ⟨trivial, fun _ _ => ⟨trivial, fun _ _ => ⟨trivial, fun _ _ => trivial⟩⟩⟩⟩
    cases opening
    exact le_rfl
  have run := Reachable.exec_along _ along .start rfl
  exact ⟨_, run, rfl, acknowledged_size_kept run⟩

end Xpn.Proofs
