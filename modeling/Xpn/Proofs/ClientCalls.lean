import Xpn.Proofs.NfiWorker

/-! What the calls of the client launch and wait for, and which servers they leave without a
wait. Each call pairs its launches and waits; only `XpnUpdateMetadata` and the loops that are
left early end with something owed. -/

namespace Xpn.Proofs.ClientCalls
open Lib.Launching NfiClient

variable {part : XpnPartition} {servers : Servers}

def outstanding (servers : Servers) (list : List Int) : Int → Bool :=
  fun serv => decide (serv ∈ list ∧ ¬servers.Failed serv.toNat)

/-- The server of the last copy of the metadata of a file. -/
def lastCopy (part : XpnPartition) (path : Path) : Int := metadataServer part path part.replicationLevel

/-- What a call may leave owed: nothing; after an update of the metadata, its last copy;
after a loop that was left early, what it had launched, and then the call returns -1. -/
def Leaves (part : XpnPartition) (servers : Servers) (updated : Path) (value : Int) (owed : Int → Bool) : Prop :=
  owed = nothing ∨ owed = outstanding servers [lastCopy part updated] ∨ value = -1

def OpenLeaves (part : XpnPartition) (servers : Servers) (path : Path) (flags : Nat) (value : Int) (owed : Int → Bool) : Prop :=
  if hasFlag flags oCreat then Leaves part servers path value owed else owed = nothing

def ClientCall.leaves (part : XpnPartition) (servers : Servers) (value : Int) (owed : Int → Bool) : ClientCall → Prop
  | .open path flags => OpenLeaves part servers path flags value owed
  | .write file _ => Leaves part servers file.path value owed
  | .read _ _ _ => owed = nothing ∨ value = -1
  | .rename _ newpath => owed = nothing ∨ owed = outstanding servers [lastCopy part newpath]
  | .unlink _ => owed = nothing
  | .fstat _ => owed = nothing

variable (part servers)

def Runs (calls : List ClientCall) (traces : List (List (Action Int NfiOperation))) : Prop :=
  List.Forall₂ (fun call trace => ∃ value, Trace (call.program part servers) trace value) calls traces

def up : Servers := fun _ => ⟨[], 0⟩

end Xpn.Proofs.ClientCalls
