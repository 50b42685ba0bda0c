import Xpn.Namespace
import Xpn.OperationMatrix
import Xpn.Lib.Launching

/-! The workers of a client: every server has one record for the arguments of its
operations, and one worker that runs whatever the record holds. The calls of the client
fill the record, launch and wait. What an operation finds on its server is open, and so is
whether memory can be had. A call that goes by a number outside of the table of servers strays. -/

namespace Xpn
open Lib.Launching

/-- What a call comes to. When it goes by a number outside of the table of servers, nothing is
known of it. -/
inductive CallResult (α : Type) where
  | stray
  | failed
  | done (value : α)

/-- The operation and the arguments in `wrk->arg`. -/
inductive NfiOperation where
  | opOpen (path : Path) (flags : Nat)
  | opOpendir (path : Path)
  | opRead (path : Path) (io : List NfiWorkerIo)
  | opWrite (path : Path) (io : List NfiWorkerIo)
  | opRemove (path : Path)
  | opRename (path newpath : Path)
  | opGetattr (path : Path)
  | opReadMdata (path : Path)
  | opWriteMdata (path : Path) (mdata : XpnMetadata) (onlyFileSize : Bool)

/-- The result of an operation and what it has stored for the caller. -/
structure NfiReply where
  result : Int
  mdata : XpnMetadata
  atType : Int

/-! ### One worker -/

/-- `arg` is the record, with the number of the launch that filled it; `pending` counts the
launches that were not run yet. The lists say what has happened: a consumed result comes
with the operation that was launched last. -/
structure NfiWorker (ω : Type) where
  arg : Option (Nat × ω)
  pending : Nat
  rWait : Bool
  result : Option (Nat × ω)
  launched : List (Nat × ω)
  executed : List (Nat × ω)
  consumed : List (Option (Nat × ω) × Option (Nat × ω))

namespace NfiWorker
variable {ω : Type}

def initial : NfiWorker ω := ⟨none, 0, false, none, [], [], []⟩

/-- Fill the record and launch. -/
def launch (wrk : NfiWorker ω) (op : ω) : NfiWorker ω :=
  let numbered := (wrk.launched.length, op)
  { wrk with arg := some numbered, pending := wrk.pending + 1, rWait := true, launched := wrk.launched ++ [numbered] }

/-- `nfi_do_operation` runs what the record holds now and posts the result. -/
def doOperation (wrk : NfiWorker ω) : Option (NfiWorker ω) :=
  match wrk.arg with
  | none => none
  | some op =>
    if wrk.pending = 0 then none
    else some { wrk with pending := wrk.pending - 1, rWait := false, result := some op, executed := wrk.executed ++ [op] }

/-- `nfiworker_wait` goes on when `r_wait` is false. -/
def wait (wrk : NfiWorker ω) : Option (NfiWorker ω) :=
  if wrk.rWait then none else some { wrk with consumed := wrk.consumed ++ [(wrk.launched.getLast?, wrk.result)] }

end NfiWorker

/-- The actions that the client still has to make, and the workers. -/
structure NfiSystem (ω : Type) where
  todo : List (Action Int ω)
  workers : Int → NfiWorker ω
  strayed : Bool

/-- Who moves: the client, or the worker of a server. -/
inductive NfiEvent where
  | client
  | worker (serv : Int)

namespace NfiSystem
variable {ω : Type}

def initial (todo : List (Action Int ω)) : NfiSystem ω := ⟨todo, fun _ => NfiWorker.initial, false⟩

def step (system : NfiSystem ω) : NfiEvent → Option (NfiSystem ω)
  | .client =>
    match system.todo with
    | [] => none
    | .launch serv op :: todo =>
      some { system with todo, workers := Function.update system.workers serv ((system.workers serv).launch op) }
    | .wait serv :: todo =>
      (system.workers serv).wait.map fun wrk => { system with todo, workers := Function.update system.workers serv wrk }
    | .stray :: todo => some { system with todo, strayed := true }
  | .worker serv =>
    (system.workers serv).doOperation.map fun wrk => { system with workers := Function.update system.workers serv wrk }

end NfiSystem

/-! ### The calls of the client -/

namespace NfiClient

abbrev ClientProgram := Program Int NfiOperation NfiReply

/-- `malloc`: NULL or a pointer. -/
def malloc : ClientProgram Bool := .ask fun pointer => .done (pointer != 0)

/-- A number of allocations; the first that fails is the last. -/
def mallocs : Nat → ClientProgram Bool
  | 0 => pure true
  | count + 1 => do
    if ← malloc then mallocs count else pure false

/-- A request that is sent without a worker. -/
def direct : ClientProgram Int := .ask .done

section
variable (part : XpnPartition) (servers : Servers)

/-- A server that has failed is not launched on. -/
def nfiworkerLaunch (serv : Int) (op : NfiOperation) : ClientProgram Unit :=
  if InTable part.dataNserv serv then
    if servers.Failed serv.toNat then pure () else .launch serv op (.done ())
  else .stray

/-- Waiting for a server that has failed gives 0 at once; nothing was stored then. -/
def nfiworkerWait (serv : Int) (kept : NfiReply) : ClientProgram NfiReply :=
  if InTable part.dataNserv serv then
    if servers.Failed serv.toNat then pure { kept with result := 0 } else .wait serv .done
  else .stray

/-- The reply to a request that nobody has answered: the caller's variables as they were
cleared. -/
def noReply : NfiReply := ⟨0, XpnMetadata.zero, 0⟩

def launchAll (op : Nat → NfiOperation) : List Nat → ClientProgram Unit
  | [] => pure ()
  | serv :: rest => do
    nfiworkerLaunch part servers serv (op serv)
    launchAll op rest

/-- Wait for all of them; the results in order. -/
def waitAll : List Nat → ClientProgram (List Int)
  | [] => pure []
  | serv :: rest => do
    let reply ← nfiworkerWait part servers serv noReply
    let results ← waitAll rest
    pure (reply.result :: results)

/-- `servers[serv].error == -1`, of an entry of the table. The search for a server that is up
ends at a number outside of it, and the launch there strays. -/
def errorAt (serv : Int) : Bool := InTable part.dataNserv serv ∧ servers.Failed serv.toNat

/-- The server that `XpnReadMetadata` asks. -/
def readMetadataNode (path : Path) : Int :=
  xpnReadMetadataServer (errorAt part servers) part.dataNserv part.replicationLevel 0 (hash path part.dataNserv 1)

/-- The server that `XpnGetAtribFd` asks. -/
def getAtribFdNode (file : OpenFile) : Int :=
  xpnReadMetadataServer (errorAt part servers) part.dataNserv part.replicationLevel 0 file.mdata.firstNode

/-- The server that `XpnGetAtribPath` asks. -/
def getAtribPathNode (path : Path) : Int :=
  xpnReadMetadataServer (errorAt part servers) part.dataNserv part.replicationLevel 0 (hash path part.dataNserv 1)

def xpnReadMetadata (path : Path) : ClientProgram NfiReply := do
  let masterNode := readMetadataNode part servers path
  nfiworkerLaunch part servers masterNode (.opReadMdata path)
  nfiworkerWait part servers masterNode noReply

/-- The server of copy `i` of the metadata. -/
def metadataServer (path : Path) (i : Nat) : Int := (hash path part.dataNserv 1 + i).tmod part.dataNserv

def updateLaunches (path : Path) (op : NfiOperation) : List Nat → ClientProgram Unit
  | [] => pure ()
  | i :: rest => do
    nfiworkerLaunch part servers (metadataServer part path i) op
    updateLaunches path op rest

def updateWaits (path : Path) : List Nat → Int → ClientProgram Int
  | [], err => pure err
  | i :: rest, err => do
    let reply ← nfiworkerWait part servers (metadataServer part path i) noReply
    updateWaits path rest (if reply.result < 0 then -1 else err)

/-- The second loop stops one copy before the first one does. -/
def xpnUpdateMetadata (path : Path) (mdata : XpnMetadata) (onlyFileSize : Bool) : ClientProgram Int := do
  updateLaunches part servers path (.opWriteMdata path mdata onlyFileSize) (List.range (part.replicationLevel + 1))
  updateWaits part servers path (List.range part.replicationLevel) 0

/-- The handle of a file on one server, opened when it is not there yet. -/
def xpnGetFh (present : Bool) (serv : Nat) (path : Path) : ClientProgram Int := do
  if present then pure 0
  else if ← malloc then
    nfiworkerLaunch part servers serv (.opOpen path (oRdwr ||| oCreat))
    let reply ← nfiworkerWait part servers serv noReply
    pure (if reply.result < 0 then -1 else 0)
  else pure (-1)

/-- One launch for every selected server, each after an allocation; `false` when one fails. -/
def createAll (path : Path) (flags : Nat) : List Nat → ClientProgram Bool
  | [] => pure true
  | serv :: rest => do
    if ← malloc then
      nfiworkerLaunch part servers serv (.opOpen path flags)
      createAll path flags rest
    else pure false

def oDirectory : Nat := 65536

/-- Only files have metadata to read. -/
def openMetadata (path : Path) (isFile : Bool) : ClientProgram NfiReply :=
  if isFile then xpnReadMetadata part servers path else pure noReply

/-- Returns 0 when the file goes on to a slot of the table. -/
def xpnInternalOpen (path : Path) (flags : Nat) : ClientProgram Int := do
  let n := part.dataNserv
  if n = 0 then pure 0
  else if ← malloc then
    let isFile := !hasFlag flags oDirectory
    let read ← openMetadata part servers path isFile
    if isFile && decide (read.result < 0) && !hasFlag flags oCreat then pure read.result
    else
      let mdata :=
        if isFile && !xpnCheckMagicNumber read.mdata then
          xpnCreateMetadataExtern path n part.blockSize part.replicationLevel
        else read.mdata
      if ← malloc then
        if hasFlag flags oCreat then
          let selected := (List.range n).filter (affected part mdata path)
          if ← createAll part servers path flags selected then
            let results ← waitAll part servers selected
            if results.any (· < 0) then pure (-1)
            else if isFile then
              let res ← xpnUpdateMetadata part servers path mdata false
              pure (if res < 0 then res else 0)
            else pure 0
          else pure (-1)
        else
          let masterDir := hash path n 0
          -- The handle from malloc goes to `nfih[master_dir]`, whatever it is.
          if InTable n masterDir then
            if ← malloc then
              nfiworkerLaunch part servers masterDir (if isFile then .opOpen path flags else .opOpendir path)
              let reply ← nfiworkerWait part servers masterDir noReply
              pure (if reply.result < 0 then reply.result else 0)
            else pure (-1)
          else .stray
      else pure read.result
  else pure 0

def xpnInternalRemove (path : Path) : ClientProgram Int := do
  let read ← xpnReadMetadata part servers path
  let selected := (List.range part.dataNserv).filter (affected part read.mdata path)
  launchAll part servers (fun _ => .opRemove path) selected
  let results ← waitAll part servers selected
  pure (if results.any (· < 0) then -1 else 0)

def xpnSimpleRename (path newpath : Path) : ClientProgram Int := do
  let read ← xpnReadMetadata part servers path
  let selected := (List.range part.dataNserv).filter (affected part read.mdata path)
  launchAll part servers (fun _ => .opRename path newpath) selected
  let results ← waitAll part servers selected
  if results.any (· < 0) then pure (-1)
  else if xpnCheckMagicNumber read.mdata then
    let _ ← xpnUpdateMetadata part servers newpath read.mdata false
    pure 0
  else pure 0

def nfiFile : Int := 0

/-- `XpnGetAtribFd`; the first node is the one in the metadata of the descriptor. -/
def xpnSimpleFstat (file : OpenFile) : ClientProgram Int := do
  let n := part.dataNserv
  if n = 0 then pure (-1)
  else
    let masterNode := getAtribFdNode part servers file
    if InTable n masterNode then
      let res ← xpnGetFh part servers (file.handles masterNode.toNat) masterNode.toNat file.path
      if res < 0 ∧ ¬servers.Failed masterNode.toNat then pure res
      else
        nfiworkerLaunch part servers masterNode (.opGetattr file.path)
        let reply ← nfiworkerWait part servers masterNode noReply
        if reply.result < 0 then pure reply.result
        else if reply.atType = nfiFile then
          let read ← xpnReadMetadata part servers file.path
          pure (if read.result < 0 then read.result else 0)
        else pure 0
    else .stray

/-- Of a path in the partition; the empty one becomes the root. -/
def xpnGetAtribPath (path : Path) : ClientProgram Int := do
  if part.dataNserv = 0 then pure (-1)
  else
    let masterNode := getAtribPathNode part servers path
    let auxPath := if path.isEmpty then [slash] else path
    nfiworkerLaunch part servers masterNode (.opGetattr auxPath)
    let reply ← nfiworkerWait part servers masterNode noReply
    if reply.result < 0 then pure reply.result
    else if reply.atType = nfiFile then
      let read ← xpnReadMetadata part servers auxPath
      pure (if read.result < 0 then read.result else 0)
    else pure 0

/-- Open the file on every server with operations and launch them there; `false` when a file
could not be opened. -/
def launchRows (file : OpenFile) (op : Nat → NfiOperation) : List Nat → ClientProgram Bool
  | [] => pure true
  | serv :: rest => do
    let res ← xpnGetFh part servers (file.handles serv) serv file.path
    if res < 0 then pure false
    else
      nfiworkerLaunch part servers serv (op serv)
      launchRows file op rest

/-- The results by server, 0 where nothing was launched. -/
def spread (selected : List Nat) (results : List Int) (n : Nat) : List Int :=
  (List.range n).map fun serv => ((selected.zip results).lookup serv).getD 0

/-- The tries of `retryBlock` do not leave the table of servers. -/
def triesInside (fd : XpnFiledesc) (offset : Nat) : Nat → Nat → Bool
  | 0, replication => InTable part.dataNserv (xpnCalculateBlockMdata fd.mdata offset replication).2
  | fuel + 1, replication =>
    let serv := (xpnCalculateBlockMdata fd.mdata offset replication).2
    let next :=
      if fd.part.replicationLevel ≠ 0 then (replication + 1) % (fd.part.replicationLevel + 1) else replication
    InTable part.dataNserv serv ∧ (servers.Failed serv.toNat ∧ fuel ≠ 0 → triesInside fd offset fuel next)

/-- `XpnReadGetBlock`, unless it looks outside of the table of servers. -/
def readGetBlock (fd : XpnFiledesc) (rand : Nat → Nat) (offset : Nat) : Option ((Int × Int) × (Nat → Nat)) :=
  let level := fd.part.replicationLevel
  let found := xpnReadGetBlock fd servers rand offset part.localServ
  let onClient := if part.localServ ≠ -1 then localBlock fd servers offset part.localServ (level + 1) 0 else none
  if onClient.isSome ∨ triesInside part servers fd offset (level + 1) (if level ≠ 0 then rand 0 % (level + 1) else 0) then
    some found
  else none

/-- `XpnReadBlocksBlockByBlock` stays in its matrix. -/
def readsInside (fd : XpnFiledesc) (size offset : Nat) : Nat → Nat → (Nat → Nat) → Bool
  | 0, _, _ => true
  | fuel + 1, count, rand =>
    if count < size then
      match readGetBlock part servers fd rand (offset + count) with
      | none => false
      | some (_, rand) => readsInside fd size offset fuel (count + lSize fd.blockSize (offset + count) (size - count)) rand
    else true

def xpnPread (file : OpenFile) (rand : Nat → Nat) (size : Nat) : ClientProgram Int := do
  let n := part.dataNserv
  if n = 0 then pure (-1)
  else if ← mallocs (n + 4) then
    let fd := file.filedesc part
    if readsInside part servers fd size file.offset size 0 rand then
      let io := (xpnReadBlocks ⟨fd, servers, rand, fun _ => 0, 0⟩ size file.offset part.localServ).1
      let selected := (List.range n).filter fun serv => !(io serv).isEmpty
      if ← launchRows part servers file (fun serv => .opRead file.path (io serv)) selected then
        let results ← waitAll part servers selected
        pure (if results.any (· < 0) then -1 else xpnReadGetTotalBytes results)
      else pure (-1)
    else .stray
  else pure (-1)

/-- The end of a write: the size follows when the file has grown. -/
def advanceWrite (file : OpenFile) (count : Int) : ClientProgram Int := do
  if 0 < count then
    let offset := file.offset + count
    if file.mdata.fileSize < offset then
      let _ ← xpnUpdateMetadata part servers file.path { file.mdata with fileSize := offset } true
      pure count
    else pure count
  else pure count

def xpnPwrite (file : OpenFile) (size : Nat) : ClientProgram Int := do
  let n := part.dataNserv
  if n = 0 then pure (-1)
  else if ← mallocs (n + 4) then
    if (writeEntries (file.filedesc part) servers size file.offset).all fun entry => InTable n entry.1 then
      let io := (xpnWriteBlocks ⟨file.filedesc part, servers, fun _ => 0, fun _ => 0, 0⟩ [] size file.offset n).1
      let selected := (List.range n).filter fun serv => !(io serv).isEmpty
      if ← launchRows part servers file (fun serv => .opWrite file.path (io serv)) selected then
        let results ← waitAll part servers selected
        if results.any (· < 0) then pure (-1)
        else
          let total := (xpnWriteGetTotalBytes (spread selected results n) io servers n).tdiv (part.replicationLevel + 1)
          advanceWrite part servers file total
      else pure (-1)
    else .stray
  else pure (-1)

/-- Block by block and without the workers, but for the handles. -/
def sreadLoop (file : OpenFile) (size : Nat) : Nat → Int → (Nat → Nat) → (Nat → Bool) → ClientProgram Int
  | 0, count, _, _ => pure count
  | fuel + 1, count, rand, handles =>
    match readGetBlock part servers (file.filedesc part) rand (file.offset + count.toNat) with
    | none => .stray
    | some ((_, serv), rand) => do
      let res ← xpnGetFh part servers (handles serv.toNat) serv.toNat file.path
      if res < 0 then pure (-1)
      else
        let res ← direct
        if res < 0 then pure (if count = 0 then -1 else count)
        else if count + res < size ∧ 0 < res then
          sreadLoop file size fuel (count + res) rand (Function.update handles serv.toNat true)
        else pure (count + res)

def xpnSread (file : OpenFile) (rand : Nat → Nat) (size : Nat) : ClientProgram Int :=
  if part.dataNserv = 0 then pure (-1) else sreadLoop part servers file size (size + 1) 0 rand file.handles

/-- One piece to every copy that is on a live server: what `count` becomes, or the handles
and the last result to go on with. -/
def swriteReplicas (file : OpenFile) (count : Int) : List Nat → Int → (Nat → Bool) → ClientProgram (Int ⊕ (Int × (Nat → Bool)))
  | [], res, handles => pure (.inr (res, handles))
  | i :: rest, res, handles => do
    let ((_, serv), error) := xpnWriteGetBlock (file.filedesc part) servers (file.offset + count.toNat) i
    if ¬InTable part.dataNserv serv then .stray
    else if error = -1 then swriteReplicas file count rest res handles
    else
      let opened ← xpnGetFh part servers (handles serv.toNat) serv.toNat file.path
      if opened < 0 then pure (.inl (-1))
      else
        let res ← direct
        if res < 0 then pure (.inl (if count = 0 then -1 else count))
        else swriteReplicas file count rest res (Function.update handles serv.toNat true)

def swriteLoop (file : OpenFile) (size : Nat) : Nat → Int → Int → (Nat → Bool) → ClientProgram Int
  | 0, count, _, _ => pure count
  | fuel + 1, count, res, handles => do
    match ← swriteReplicas part servers file count (List.range (part.replicationLevel + 1)) res handles with
    | .inl count => pure count
    | .inr (res, handles) =>
      if count + res < size ∧ 0 < res then swriteLoop file size fuel (count + res) res handles else pure (count + res)

def xpnSwrite (file : OpenFile) (size : Nat) : ClientProgram Int := do
  if part.dataNserv = 0 then pure (-1)
  else
    let count ← swriteLoop part servers file size (size + 1) 0 (-1) file.handles
    advanceWrite part servers file count

def xpnSimpleRead (file : OpenFile) (rand : Nat → Nat) (size : Nat) : ClientProgram Int :=
  if size = 0 then pure 0
  else if file.flags = oWronly ∨ file.mdata.type = xpnDir then pure (-1)
  else if part.blockSize < size then xpnPread part servers file rand size
  else xpnSread part servers file rand size

def xpnSimpleWrite (file : OpenFile) (size : Nat) : ClientProgram Int :=
  if size = 0 then pure 0
  else if file.flags = oRdonly ∨ file.mdata.type = xpnDir then pure (-1)
  else if part.blockSize ≤ size ∨ 0 < part.replicationLevel then xpnPwrite part servers file size
  else xpnSwrite part servers file size

end

end NfiClient

/-- A call of the client, with whatever its descriptor holds at the time. -/
inductive ClientCall where
  | open (path : Path) (flags : Nat)
  | write (file : OpenFile) (size : Nat)
  | read (file : OpenFile) (rand : Nat → Nat) (size : Nat)
  | rename (path newpath : Path)
  | unlink (path : Path)
  | fstat (file : OpenFile)

def ClientCall.program (part : XpnPartition) (servers : Servers) : ClientCall → NfiClient.ClientProgram Int
  | .open path flags => NfiClient.xpnInternalOpen part servers path flags
  | .write file size => NfiClient.xpnSimpleWrite part servers file size
  | .read file rand size => NfiClient.xpnSimpleRead part servers file rand size
  | .rename path newpath => NfiClient.xpnSimpleRename part servers path newpath
  | .unlink path => NfiClient.xpnInternalRemove part servers path
  | .fstat file => NfiClient.xpnSimpleFstat part servers file

end Xpn
