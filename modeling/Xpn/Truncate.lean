import Xpn.NfiWorker

/-! Opening an existing file with O_TRUNC, and the calls that show its size. -/

namespace Xpn.Cluster
variable (part : XpnPartition) (cluster : Cluster)

/-- An open of a name that is a file: the servers refuse to open it as a directory. The server of
the directory is used where nothing is created. -/
def xpnOpenFile (path : Path) (flags : Nat) : CallResult Cluster :=
  let creat := hasFlag flags oCreat
  let dirInside := creat ∨ InTable part.dataNserv (hash path part.dataNserv 0)
  if hasFlag flags NfiClient.oDirectory then if dirInside then .failed else .stray
  else if ¬InTable part.dataNserv (hash path part.dataNserv 1) then .stray
  else if (cluster.xpnReadMetadata part path).1 < 0 ∧ !creat then .failed
  else if ¬dirInside then .stray
  else
    match cluster.xpnInternalOpen part path flags with
    | none => .failed
    | some after => .done after

/-- `XpnGetAtribFd`: the size is the one in the metadata, read again. -/
def xpnSimpleFstat (fd : Nat) : CallResult (Cluster × Int) :=
  match cluster.opened[fd]? with
  | none => .failed
  | some file =>
    let masterNode := xpnReadMetadataServer (fun _ => false) part.dataNserv part.replicationLevel 0 file.mdata.firstNode
    if InTable part.dataNserv masterNode ∧ InTable part.dataNserv (hash file.path part.dataNserv 1) then
      -- XpnGetFh creates the local file where there is no handle yet.
      let reached := cluster.onServers file.path (fun serv => serv == masterNode.toNat && !file.handles serv)
        (filesystemOpen (oRdwr ||| oCreat))
      let handles := fun serv => file.handles serv || serv == masterNode.toNat
      let (res, mdata) := reached.xpnReadMetadata part file.path
      if (reached.files masterNode.toNat file.path).isNone ∨ res < 0 then .failed
      else .done ({ reached with opened := reached.opened.set fd { file with handles } }, mdata.fileSize)
    else .stray

/-- A write that passes its checks goes by the server of every block it touches. -/
def xpnWriteFile (fd size : Nat) : CallResult Cluster :=
  match cluster.opened[fd]? with
  | none => .failed
  | some file =>
    let checked := size ≠ 0 ∧ ¬(file.flags = oRdonly ∨ file.mdata.type = xpnDir)
    let entries := writeEntries (file.filedesc part) (fun _ => ⟨[], 0⟩) size file.offset
    if checked ∧ ∃ entry ∈ entries, ¬InTable part.dataNserv entry.1 then .stray
    else
      match cluster.xpnSimpleWrite part fd size with
      | none => .failed
      | some after => .done after

end Xpn.Cluster
