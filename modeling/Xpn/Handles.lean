import Xpn.NfiWorker

/-! The handles of a descriptor: what `data_vfh` holds of every server after an open and
after the calls that fetch a handle later, and what closing does with them. The memory
for the other structures is there. -/

namespace Xpn.Handles
open NfiClient (noReply oDirectory metadataServer)

/-- Pointers are addresses and NULL is 0. -/
structure NfiFhandle where
  type : Int
  url : Nat
  server : Nat
  privFh : Nat
  hasMqtt : Int
  deriving DecidableEq

def NfiFhandle.zero : NfiFhandle := ⟨0, 0, 0, 0, 0⟩

/-- A handle with the server whose open or opendir has filled it in, if one has. -/
structure KeptHandle where
  fields : NfiFhandle
  filledBy : Option Nat
  deriving DecidableEq

/-- `nfih` of `data_vfh`. -/
abbrev XpnFh := Nat → Option KeptHandle

/-- What a call meets: the servers that have failed, the memory that `malloc` returns for
the handle of a server, and what the operations of the other servers give. An open is
`none` when its result is negative. -/
structure World where
  failed : Nat → Bool
  memory : Nat → Option NfiFhandle
  opens : Nat → NfiOperation → Option NfiFhandle
  reads : Nat → NfiReply
  writes : Nat → Int

namespace World
variable (world : World)

/-- `nfiworker_launch` and `nfiworker_wait` of an open. On a server that has failed nothing
is launched, and the result of waiting is 0. -/
def nfiworkerOpen (serv : Nat) (op : NfiOperation) (handle : NfiFhandle) : Option KeptHandle :=
  if world.failed serv then some ⟨handle, none⟩
  else (world.opens serv op).map fun filled => ⟨filled, some serv⟩

/-- The handles of an open: what `malloc` returns is passed on as it is. -/
def openHandle (op : NfiOperation) (serv : Nat) : Option KeptHandle := do
  let handle ← world.memory serv
  world.nfiworkerOpen serv op handle

/-- All of the selected servers, or the open does not succeed. -/
def openHandles (op : NfiOperation) (selected : List Nat) : Option XpnFh :=
  if selected.all fun serv => (world.openHandle op serv).isSome then
    some fun serv => if serv ∈ selected then world.openHandle op serv else none
  else none

variable (part : XpnPartition)

/-- `none` when the server asked is outside of the table. -/
def xpnReadMetadata (path : Path) : Option NfiReply :=
  let n := part.dataNserv
  let errorAt serv := InTable n serv && world.failed serv.toNat
  let masterNode := xpnReadMetadataServer errorAt n part.replicationLevel 0 (hash path n 1)
  if InTable n masterNode then some (if world.failed masterNode.toNat then noReply else world.reads masterNode.toNat)
  else none

/-- The result of waiting for the writes of the metadata. -/
def xpnUpdateMetadata (path : Path) : Option Int :=
  if (List.range (part.replicationLevel + 1)).all fun i => InTable part.dataNserv (metadataServer part path i) then
    some (if (List.range part.replicationLevel).any fun i =>
        let serv := (metadataServer part path i).toNat
        !world.failed serv && decide (world.writes serv < 0) then -1
      else 0)
  else none

/-- Only files have metadata to read. -/
def openMetadata (path : Path) (flags : Nat) : Option NfiReply :=
  if hasFlag flags oDirectory then some noReply else world.xpnReadMetadata part path

/-- The metadata of a descriptor: a directory has none. -/
def openMdata (path : Path) (flags : Nat) (read : NfiReply) : XpnMetadata :=
  if hasFlag flags oDirectory then XpnMetadata.zero
  else if xpnCheckMagicNumber read.mdata then read.mdata
  else xpnCreateMetadataExtern path part.dataNserv part.blockSize part.replicationLevel

/-- The servers that an open makes a handle of, by their numbers. -/
def selected (path : Path) (flags : Nat) (read : NfiReply) : List Int :=
  if hasFlag flags oCreat then
    ((List.range part.dataNserv).filter (affected part (openMdata part path flags read) path)).map Nat.cast
  else [hash path part.dataNserv 0]

/-- The handles of the descriptor, when the open makes one. -/
def xpnInternalOpen (path : Path) (flags : Nat) : CallResult XpnFh :=
  let isFile := !hasFlag flags oDirectory
  if part.dataNserv = 0 then .failed
  else
    match world.openMetadata part path flags with
    | none => .stray
    | some read =>
      let selected := selected part path flags read
      if isFile && decide (read.result < 0) && !hasFlag flags oCreat then .failed
      else if ∃ serv ∈ selected, ¬InTable part.dataNserv serv then .stray
      else
        match world.openHandles (if hasFlag flags oCreat || isFile then .opOpen path flags else .opOpendir path)
            (selected.map Int.toNat) with
        | none => .failed
        | some handles =>
          if isFile && hasFlag flags oCreat then
            match world.xpnUpdateMetadata part path with
            | none => .stray
            | some res => if res < 0 then .failed else .done handles
          else .done handles

/-- The handle is cleared before it is filled in. -/
def fetchHandle (op : NfiOperation) (serv : Nat) (handles : XpnFh) : XpnFh :=
  match handles serv with
  | some _ => handles
  | none =>
    match world.memory serv with
    | none => handles
    | some _ =>
      match world.nfiworkerOpen serv op NfiFhandle.zero with
      | none => handles
      | some handle => Function.update handles serv (some handle)

def xpnGetFh (path : Path) : Nat → XpnFh → XpnFh := world.fetchHandle (.opOpen path (oRdwr ||| oCreat))

def xpnGetFhDir (path : Path) : Nat → XpnFh → XpnFh := world.fetchHandle (.opOpendir path)

end World

/-- A call that fetches the handle of a server. -/
inductive Fetch where
  | file (world : World) (path : Path) (serv : Nat)
  | directory (world : World) (path : Path) (serv : Nat)

def Fetch.perform (handles : XpnFh) : Fetch → XpnFh
  | .file world path serv => world.xpnGetFh path serv handles
  | .directory world path serv => world.xpnGetFhDir path serv handles

/-- The handles that the close function of a server is called with. -/
def closedHandles (n : Nat) (handles : XpnFh) : List KeptHandle :=
  ((List.range n).filterMap handles).filter fun handle => handle.fields.privFh != 0

def xpnSimpleClose : Nat → XpnFh → List KeptHandle := closedHandles

def xpnSimpleClosedir : Nat → XpnFh → List KeptHandle := closedHandles

end Xpn.Handles
