import Xpn.ConfReader
import Xpn.PathResolution

/-! Initialisation: the partitions of the configuration go into a table of fixed size, one
after the other, and each asks its servers. The table is a static array, so it starts out as
zeros and keeps what a call leaves in it. -/

namespace Xpn.InitPartition
open ConfReader PathResolution

/-- XPN_MAX_PART -/
def xpnMaxPart : Nat := 128

/-- An array from `malloc`, with the `error` of each server. -/
inductive DataServ where
  | null
  | live (errors : List Int)
  | freed

/-- `struct xpn_partition` -/
structure Entry where
  id : Int
  replicationLevel : Int
  name : Path
  blockSize : Int
  dataNserv : Int
  dataServ : DataServ

def Entry.zero : Entry := ⟨0, 0, [], 0, 0, .null⟩

abbrev Table := List Entry

/-- The table of a process that starts. -/
def staticTable : Table := List.replicate xpnMaxPart Entry.zero

/-- No result: a write behind the table, or what C leaves undefined. -/
inductive Stop where
  | overrun
  | undefined

/-- The memory and the network that a call meets: whether the servers of a partition get their
array, and for each server what `XpnInitServer` returns and whether the record has its url by
then. It has none where the url or its protocol is refused. -/
structure Around where
  allocates : Nat → Bool
  xpnInitServer : Nat → Nat → Int × Bool

def put (table : Table) (i : Nat) (f : Entry → Entry) : Except Stop Table :=
  match table[i]? with
  | none => .error .overrun
  | some entry => .ok (table.set i (f entry))

/-- `xpn_destroy_servers`. What an array held is gone, the pointer to it stays. -/
def DataServ.free : DataServ → DataServ
  | .null => .null
  | _ => .freed

def xpnDestroyServers (entry : Entry) : Entry := { entry with dataServ := entry.dataServ.free }

/-- XPN_CONF_DEFAULT_BLOCKSIZE for a value that is missing or 1. -/
def blockSize (value : Option (List Byte)) : Int :=
  match value with
  | none => 512 * kb
  | some buffValue => if getSizeFactor buffValue = 1 then 512 * kb else getSizeFactor buffValue

/-- XPN_CONF_DEFAULT_REPLICATION_LEVEL for a value that is missing or negative. -/
def replicationLevel (value : Option (List Byte)) : Int :=
  match value with
  | none => 0
  | some buffValue => if atoi buffValue < 0 then 0 else atoi buffValue

def serverErrors (around : Around) (i n : Nat) : List Int :=
  (List.range n).map fun j => if (around.xpnInitServer i j).1 < 0 then -1 else 0

/-- The host is searched for in every url, set or not. -/
def nullUrl (around : Around) (i n : Nat) : Bool := !(List.range n).all fun j => (around.xpnInitServer i j).2

/-- One partition: whether the loop goes on, and the table. A name that was never set is read
from address 0. -/
def configure (around : Around) (confData : List Partition) (i : Nat) (table : Table) : Except Stop (Bool × Table) := do
  let table ← put table i fun e => { e with id := i }
  match xpnConfReaderGetValue confData i tagPartitionName with
  | none => .error .undefined
  | some name =>
    let size := blockSize (xpnConfReaderGetValue confData i tagBlocksize)
    let level := replicationLevel (xpnConfReaderGetValue confData i tagReplicationLevel)
    let n := xpnConfReaderGetNumServers confData i
    let table ← put table i fun e => { e with name := cString name, blockSize := size, replicationLevel := level, dataNserv := n }
    if n ≤ 0 then .ok (false, table)
    else if around.allocates i = false then do
      let table ← put table i fun e => { e with dataServ := .null }
      .ok (false, table)
    else do
      let errors := serverErrors around i n.toNat
      let table ← put table i fun e => { e with dataServ := .live errors }
      if nullUrl around i n.toNat then .error .undefined
      else if level < errors.countP (· ≠ 0) then .ok (false, table.map xpnDestroyServers)
      else if i = xpnMaxPart then .ok (false, table.map xpnDestroyServers)
      else .ok (true, table)

def configureAll (around : Around) (confData : List Partition) : Nat → Nat → Table → Except Stop (Bool × Table)
  | 0, _, table => .ok (true, table)
  | n + 1, i, table => do
    let (goes, table) ← configure around confData i table
    if goes then configureAll around confData n (i + 1) table else .ok (false, table)

/-- The loop over `j` that writes to `i`. -/
def terminate (i : Nat) : Nat → Table → Except Stop Table
  | 0, table => .ok table
  | j + 1, table => do
    let table ← put table i fun e => { e with id := -1 }
    terminate i j table

/-- The first call. The result and the table; `xpn_init_file_table` always returns 0. -/
def xpnInitPartition (around : Around) (conf : Option (List Byte)) (table : Table) : Except Stop (Int × Table) :=
  match conf.map xpnConfReaderLoad with
  | none => .ok (-1, table)
  | some (.error .rejected) => .ok (-1, table)
  | some (.error .overrun) => .error .undefined
  | some (.ok confData) =>
    if xpnConfReaderGetNumPartitions confData ≤ 0 then .ok (-1, table)
    else do
      let (goes, table) ← configureAll around confData confData.length 0 table
      if goes then do
        let table ← terminate confData.length confData.length table
        .ok (0, table)
      else .ok (-1, table)

/-- `XpnGetPartition`, with the buffer for the name as the stack has it. -/
def xpnGetPartition (table : Table) (part path : List Byte) : Int :=
  let (_, part, _) := getNamePart part path
  match table.find? (·.name = cString part) with
  | none => -1
  | some entry => entry.id

end Xpn.InitPartition
