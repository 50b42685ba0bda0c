import Xpn.ReadWrite
import Xpn.MetadataProtocol

/-! The namespace of files over all servers of a partition: which servers hold a
local file for a path and what the header of that file says. Paths are absolute
inside the partition, their directories exist on every server, no server fails and
sessions are off, so every request names its file by path. A call is `none` when it
does not succeed. -/

namespace Xpn

def oRdwr : Nat := 2

def oCreat : Nat := 64

def oExcl : Nat := 128

def oTrunc : Nat := 512

def hasFlag (flags flag : Nat) : Bool := flags &&& flag == flag

/-- What the namespace uses of an open descriptor; `handles` are the servers that
`data_vfh` has a file handle of. -/
structure OpenFile where
  path : Path
  flags : Nat
  mdata : XpnMetadata
  offset : Nat
  handles : Nat → Bool

/-- The local files of every server, given by their headers, and the descriptors in
the order they were opened. A local file without a header reads as zeroes. -/
structure Cluster where
  files : Nat → Path → Option XpnMetadata
  opened : List OpenFile

namespace Cluster

def empty : Cluster := ⟨fun _ _ => none, []⟩

/-- One request about `path` on each of the selected servers. -/
def onServers (cluster : Cluster) (path : Path) (selected : Nat → Bool)
    (request : Option XpnMetadata → Option XpnMetadata) : Cluster :=
  { cluster with files := fun serv =>
      if selected serv then Function.update (cluster.files serv) path (request (cluster.files serv path))
      else cluster.files serv }

end Cluster

/-! ### Requests on one server -/

/-- `open` on the server's file system. -/
def filesystemOpen (flags : Nat) : Option XpnMetadata → Option XpnMetadata
  | none => if hasFlag flags oCreat then some XpnMetadata.zero else none
  | some header =>
    if hasFlag flags oCreat && hasFlag flags oExcl then none
    else if hasFlag flags oTrunc then some XpnMetadata.zero
    else some header

/-- `rename` on the server's file system; the client does not look at its failure. -/
def filesystemRename (files : Path → Option XpnMetadata) (old new : Path) : Path → Option XpnMetadata :=
  match files old with
  | none => files
  | some header => Function.update (Function.update files old none) new (some header)

/-! ### Servers of a file -/

/-- `(i + master) % n_serv` for some `i` up to the replication level. -/
def inWindow (master level : Int) (nServ serv : Nat) : Bool :=
  (List.range (level + 1).toNat).any fun i => ((i : Int) + master).tmod nServ == serv

/-- The loop over the first blocks of the file, which stops past its size. -/
def hasData (mdata : XpnMetadata) (serv : Nat) : Nat → Nat → Bool
  | 0, _ => false
  | fuel + 1, i =>
    let offset := mdata.blockSize * i
    if mdata.fileSize < offset then false
    else if (List.range (mdata.replicationLevel + 1).toNat).any fun j =>
        (xpnCalculateBlockMdata mdata offset j).2 == serv then true
    else hasData mdata serv fuel (i + 1)

def xpnCheckServAffectedByOp (mdata : XpnMetadata) (masterDir masterNode : Int) (nServ serv : Nat) : Bool :=
  -- Without metadata it is a directory, which every server has.
  if !xpnCheckMagicNumber mdata then true
  else if inWindow masterDir mdata.replicationLevel nServ serv then true
  else if inWindow masterNode mdata.replicationLevel nServ serv then true
  else if mdata.nserv 1 ≠ 0 then true
  else hasData mdata serv nServ 0

variable (part : XpnPartition)

/-- The servers selected for an operation on a file of this name. -/
def affected (mdata : XpnMetadata) (path : Path) (serv : Nat) : Bool :=
  serv < part.dataNserv && xpnCheckServAffectedByOp mdata (hash path part.dataNserv 0) (hash path part.dataNserv 1)
    part.dataNserv serv

def OpenFile.filedesc (file : OpenFile) : XpnFiledesc where
  type := file.mdata.type
  flags := file.flags
  part := part
  mdata := file.mdata
  offset := file.offset
  blockSize := part.blockSize

/-- Servers with a copy of a block that the write touches: `xpn_pwrite` opens them all
first, `xpn_swrite` one after the other. -/
def OpenFile.writes (file : OpenFile) (size serv : Nat) : Bool :=
  serv < part.dataNserv &&
    (xpnWriteBlocksBlockByBlock (file.filedesc part) (fun _ => ⟨[], 0⟩) size file.offset serv != [])

namespace Cluster
variable (cluster : Cluster)

/-- The record on the master server, all zeroes when there is none. The first server
asked is up. -/
def xpnReadMetadata (path : Path) : Int × XpnMetadata :=
  match cluster.files (hash path part.dataNserv 1).toNat path with
  | none => (-1, XpnMetadata.zero)
  | some stored => (0, xpnServerOpReadMdata stored)

/-- The whole record, or its size only, on every server with metadata. -/
def xpnUpdateMetadata (mdata : XpnMetadata) (path : Path) (onlyFileSize : Bool) : Cluster :=
  cluster.onServers path (inWindow (hash path part.dataNserv 1) part.replicationLevel part.dataNserv) fun stored =>
    if onlyFileSize then stored.map (xpnServerOpWriteMdataFileSize · mdata.fileSize)
    else some (xpnServerOpWriteMdata (stored.getD XpnMetadata.zero) mdata)

def xpnInternalOpen (path : Path) (flags : Nat) : Option Cluster :=
  let (res, found) := cluster.xpnReadMetadata part path
  if res < 0 ∧ !hasFlag flags oCreat then none
  else
    let mdata :=
      if xpnCheckMagicNumber found then found
      else xpnCreateMetadataExtern path part.dataNserv part.blockSize part.replicationLevel
    if hasFlag flags oCreat then
      let handles := affected part mdata path
      if (List.range part.dataNserv).all fun serv => !handles serv || (filesystemOpen flags (cluster.files serv path)).isSome then
        let created := (cluster.onServers path handles (filesystemOpen flags)).xpnUpdateMetadata part mdata path false
        some { created with opened := created.opened ++ [⟨path, flags, mdata, 0, handles⟩] }
      else none
    else
      let masterDir := (hash path part.dataNserv 0).toNat
      if (filesystemOpen flags (cluster.files masterDir path)).isSome then
        let reached := cluster.onServers path (· == masterDir) (filesystemOpen flags)
        some { reached with opened := reached.opened ++ [⟨path, flags, mdata, 0, (· == masterDir)⟩] }
      else none

def xpnInternalRemove (path : Path) : Option Cluster :=
  let (_, mdata) := cluster.xpnReadMetadata part path
  some (cluster.onServers path (affected part mdata path) fun _ => none)

def xpnSimpleRename (path newpath : Path) : Option Cluster :=
  let (_, mdata) := cluster.xpnReadMetadata part path
  let files := fun serv =>
    if affected part mdata path serv then filesystemRename (cluster.files serv) path newpath else cluster.files serv
  let renamed := { cluster with files }
  some (if xpnCheckMagicNumber mdata then renamed.xpnUpdateMetadata part mdata newpath false else renamed)

/-- A write of `size` bytes that goes through as a whole. -/
def xpnSimpleWrite (fd size : Nat) : Option Cluster :=
  match cluster.opened[fd]? with
  | none => none
  | some file =>
    if size = 0 then some cluster
    else if file.flags = oRdonly ∨ file.mdata.type = xpnDir then none
    else
      -- XpnGetFh creates the local file where there is no handle yet.
      let reached := cluster.onServers file.path (fun serv => file.writes part size serv && !file.handles serv)
        (filesystemOpen (oRdwr ||| oCreat))
      if (List.range part.dataNserv).all fun serv => !file.writes part size serv || (reached.files serv file.path).isSome then
        let offset := file.offset + size
        let handles := fun serv => file.handles serv || file.writes part size serv
        if file.mdata.fileSize < offset then
          let mdata := { file.mdata with fileSize := offset }
          let updated := reached.xpnUpdateMetadata part mdata file.path true
          some { updated with opened := updated.opened.set fd { file with mdata, offset, handles } }
        else some { reached with opened := reached.opened.set fd { file with offset, handles } }
      else none

/-- `lseek` with SEEK_SET. -/
def xpnSimpleLseek (fd offset : Nat) : Option Cluster :=
  cluster.opened[fd]?.map fun file => { cluster with opened := cluster.opened.set fd { file with offset } }

end Cluster

inductive NamespaceCall where
  | open (path : Path) (flags : Nat)
  | write (fd size : Nat)
  | lseek (fd offset : Nat)
  | rename (path newpath : Path)
  | unlink (path : Path)

def NamespaceCall.perform (cluster : Cluster) : NamespaceCall → Option Cluster
  | .open path flags => cluster.xpnInternalOpen part path flags
  | .write fd size => cluster.xpnSimpleWrite part fd size
  | .lseek fd offset => cluster.xpnSimpleLseek fd offset
  | .rename path newpath => cluster.xpnSimpleRename part path newpath
  | .unlink path => cluster.xpnInternalRemove part path

/-! ### Listing a directory -/

/-- `xpn_simple_opendir` ends the path in a slash. -/
def opendirPath (path : Path) : Path := if path.getLast? = some slash then path else path ++ [slash]

/-- The loop of `XpnGetEntry` past the servers with an error; `none` while it has not ended. -/
def skipErrors (error : Nat → Bool) (n : Nat) : Nat → Nat → Option Nat
  | 0, _ => none
  | fuel + 1, masterNode => if error masterNode then skipErrors error n fuel ((masterNode + 1) % n) else some masterNode

/-- The server that an open directory is listed from. -/
def xpnGetEntry (error : Nat → Bool) (n fuel : Nat) (path : Path) : Option Nat :=
  skipErrors error n fuel (hash path n 1).toNat

end Xpn
