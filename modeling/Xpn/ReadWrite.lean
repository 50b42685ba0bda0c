import Xpn.Placement
import Xpn.Lib.ByteFile

/-! The data path of the client: how a read or a write of an open file is split
into per-server operations, executed, and put together again. Servers are byte
files; a failed server (`error = -1`) is skipped by the workers. Allocations
succeed and file handles open, so `XpnGetFh` does not appear. -/

namespace Xpn
open Lib.ByteFile

structure XpnPartition where
  dataNserv : Nat
  blockSize : Nat
  replicationLevel : Nat
  /-- The server on the client's own node, -1 when there is none. -/
  localServ : Int

def oRdonly : Int := 0

def oWronly : Int := 1

def xpnDir : Int := 1

def ebadf : Int := 9

def eisdir : Int := 21

structure XpnFiledesc where
  type : Int
  flags : Int
  part : XpnPartition
  mdata : XpnMetadata
  offset : Nat
  blockSize : Nat

/-- A server as one open file sees it: its local copy, header included. -/
structure NfiServer where
  file : List Byte
  error : Int

abbrev Servers := Nat → NfiServer

def Servers.Failed (servers : Servers) (serv : Nat) : Prop := (servers serv).error = -1

instance (servers : Servers) (serv : Nat) : Decidable (servers.Failed serv) :=
  inferInstanceAs (Decidable ((servers serv).error = -1))

/-- A number of an entry in the table of servers. -/
def InTable (n : Nat) (serv : Int) : Prop := 0 ≤ serv ∧ serv < n

instance (n : Nat) (serv : Int) : Decidable (InTable n serv) := inferInstanceAs (Decidable (_ ∧ _))

/-- One elementary operation: `buffer` is a position in the caller's buffer. -/
structure NfiWorkerIo where
  offset : Int
  size : Nat
  buffer : Nat
  deriving DecidableEq

/-- The operation matrix: row `i` holds the operations of server `i`. -/
abbrev IoMatrix := Nat → List NfiWorkerIo

/-- What the calls on one descriptor share. `rand` lists the outcomes of the calls
of `rand()` to come and `fresh` is what newly allocated memory happens to hold. -/
structure Client where
  fd : XpnFiledesc
  servers : Servers
  rand : Nat → Nat
  fresh : Nat → Byte
  errno : Int

/-! ### Choosing the copy of a block -/

/-- The first live copy on the client's own server. -/
def localBlock (fd : XpnFiledesc) (servers : Servers) (offset : Nat) (servClient : Int) :
    Nat → Nat → Option (Int × Int)
  | 0, _ => none
  | fuel + 1, replication =>
    let (localOffset, serv) := xpnCalculateBlockMdata fd.mdata offset replication
    if serv = servClient ∧ ¬servers.Failed serv.toNat then some (localOffset, serv)
    else localBlock fd servers offset servClient fuel (replication + 1)

/-- Try the copies in turn until one is on a live server; the fuel counts the
`replication_level + 1` tries. -/
def retryBlock (fd : XpnFiledesc) (servers : Servers) (offset : Nat) : Nat → Nat → Int × Int
  | 0, replication => xpnCalculateBlockMdata fd.mdata offset replication
  | fuel + 1, replication =>
    let found := xpnCalculateBlockMdata fd.mdata offset replication
    let next :=
      if fd.part.replicationLevel ≠ 0 then (replication + 1) % (fd.part.replicationLevel + 1) else replication
    if servers.Failed found.2.toNat ∧ fuel ≠ 0 then retryBlock fd servers offset fuel next else found

/-- The local offset and the server to read `offset` from, and the outcomes of
`rand()` that are left. -/
def xpnReadGetBlock (fd : XpnFiledesc) (servers : Servers) (rand : Nat → Nat) (offset : Nat) (servClient : Int) :
    (Int × Int) × (Nat → Nat) :=
  let level := fd.part.replicationLevel
  match if servClient ≠ -1 then localBlock fd servers offset servClient (level + 1) 0 else none with
  | some found => (found, rand)
  | none =>
    if level ≠ 0 then
      (retryBlock fd servers offset (level + 1) (rand 0 % (level + 1)), fun call => rand (call + 1))
    else (retryBlock fd servers offset (level + 1) 0, rand)

/-- The local offset, the server and its error mark for a write of one copy. -/
def xpnWriteGetBlock (fd : XpnFiledesc) (servers : Servers) (offset replication : Nat) : (Int × Int) × Int :=
  let found := xpnCalculateBlockMdata fd.mdata offset replication
  (found, (servers found.2.toNat).error)

/-! ### Splitting a request into operations -/

/-- The bytes from `newOffset` to the end of its block, or what is left to move. -/
def lSize (blockSize newOffset left : Nat) : Nat :=
  let rest := blockSize - newOffset % blockSize
  if left < rest then left else rest

/-- `io[serv][ion[serv]++] = op` -/
def IoMatrix.push (io : IoMatrix) (serv : Nat) (op : NfiWorkerIo) : IoMatrix :=
  fun i => if i = serv then io i ++ [op] else io i

def readBlocksLoop (fd : XpnFiledesc) (servers : Servers) (size offset : Nat) (servClient : Int) :
    Nat → Nat → IoMatrix → (Nat → Nat) → IoMatrix × (Nat → Nat)
  | 0, _, io, rand => (io, rand)
  | fuel + 1, count, io, rand =>
    if count < size then
      let ((localOffset, serv), rand) := xpnReadGetBlock fd servers rand (offset + count) servClient
      let size' := lSize fd.blockSize (offset + count) (size - count)
      readBlocksLoop fd servers size offset servClient fuel (count + size')
        (io.push serv.toNat ⟨localOffset, size', count⟩) rand
    else (io, rand)

/-- Every pass moves at least one byte, so `size` passes are enough. -/
def xpnReadBlocksBlockByBlock (fd : XpnFiledesc) (servers : Servers) (rand : Nat → Nat) (size offset : Nat)
    (servClient : Int) : IoMatrix × (Nat → Nat) :=
  readBlocksLoop fd servers size offset servClient size 0 (fun _ => []) rand

/-- The operations for all copies of one block. -/
def pushReplicas (fd : XpnFiledesc) (servers : Servers) (newOffset count size : Nat) (io : IoMatrix) : IoMatrix :=
  (List.range (fd.part.replicationLevel + 1)).foldl (fun io j =>
    let ((localOffset, serv), _) := xpnWriteGetBlock fd servers newOffset j
    io.push serv.toNat ⟨localOffset, size, count⟩) io

def writeBlocksLoop (fd : XpnFiledesc) (servers : Servers) (size offset : Nat) : Nat → Nat → IoMatrix → IoMatrix
  | 0, _, io => io
  | fuel + 1, count, io =>
    if count < size then
      let size' := lSize fd.blockSize (offset + count) (size - count)
      writeBlocksLoop fd servers size offset fuel (count + size')
        (pushReplicas fd servers (offset + count) count size' io)
    else io

def xpnWriteBlocksBlockByBlock (fd : XpnFiledesc) (servers : Servers) (size offset : Nat) : IoMatrix :=
  writeBlocksLoop fd servers size offset size 0 (fun _ => [])

def rowSize (row : List NfiWorkerIo) : Nat := (row.map (·.size)).sum

/-- The bytes of the rows before row `i`: the running count of the grouping loops. -/
def sizeBefore (io : IoMatrix) (i : Nat) : Nat := ((List.range i).map fun k => rowSize (io k)).sum

/-- Join a row into one operation that starts where its first one does. -/
def groupRow (row : List NfiWorkerIo) (buffer : Nat) : List NfiWorkerIo :=
  match row with
  | [] => []
  | op :: _ => [{ op with size := rowSize row, buffer }]

def groupRows (io : IoMatrix) : IoMatrix := fun i => groupRow (io i) (sizeBefore io i)

def xpnReadBlocksAllInOne (fd : XpnFiledesc) (servers : Servers) (rand : Nat → Nat) (size offset : Nat)
    (servClient : Int) : IoMatrix × (Nat → Nat) :=
  let (io, rand) := xpnReadBlocksBlockByBlock fd servers rand size offset servClient
  (groupRows io, rand)

/-- The grouped operations and the send buffer their data is copied to. -/
def xpnWriteBlocksAllInOne (fd : XpnFiledesc) (servers : Servers) (buffer : List Byte) (size offset numServers : Nat) :
    IoMatrix × List Byte :=
  let io := xpnWriteBlocksBlockByBlock fd servers size offset
  (groupRows io, (List.range numServers).flatMap fun i => (io i).flatMap fun op => pread buffer op.buffer op.size)

/-- Reads are grouped only without replication and without reconfigurations. -/
def optimizeRead (fd : XpnFiledesc) : Bool := !(0 < fd.part.replicationLevel || fd.mdata.nserv 1 != 0)

/-- The operations, the outcomes of `rand()` left, and the buffer to read into
when the rows are grouped. -/
def xpnReadBlocks (c : Client) (size offset : Nat) (servClient : Int) : IoMatrix × (Nat → Nat) × List Byte :=
  let newBuffer := (List.range size).map c.fresh
  if optimizeRead c.fd then
    let (io, rand) := xpnReadBlocksAllInOne c.fd c.servers c.rand size offset servClient
    (io, rand, newBuffer)
  else
    let (io, rand) := xpnReadBlocksBlockByBlock c.fd c.servers c.rand size offset servClient
    (io, rand, newBuffer)

/-- Hand the bytes of `newBuffer`, in the order of the rows, to where they belong. -/
def scatter (newBuffer : List Byte) : List NfiWorkerIo → Nat → List Byte → List Byte
  | [], _, buffer => buffer
  | op :: ops, count, buffer =>
    scatter newBuffer ops (count + op.size) (overwrite buffer op.buffer (pread newBuffer count op.size))

def xpnReadBlocksFinish (c : Client) (buffer : List Byte) (size offset : Nat) (servClient : Int) (numServers : Nat)
    (newBuffer : List Byte) : List Byte :=
  if optimizeRead c.fd then
    let (io, _) := xpnReadBlocksBlockByBlock c.fd c.servers c.rand size offset servClient
    scatter newBuffer ((List.range numServers).flatMap io) 0 buffer
  else buffer

/-- Writes are always grouped. -/
def xpnWriteBlocks (c : Client) (buffer : List Byte) (size offset numServers : Nat) : IoMatrix × List Byte :=
  xpnWriteBlocksAllInOne c.fd c.servers buffer size offset numServers

/-! ### Executing the operations -/

/-- A positioned read of the local file, `none` when the server returns an error. -/
def nfiRead (server : NfiServer) (offset : Int) (size : Nat) : Option (List Byte) :=
  if server.error = -1 ∨ offset < 0 then none else some (pread server.file offset.toNat size)

def nfiWrite (server : NfiServer) (data : List Byte) (offset : Int) : Option NfiServer :=
  if server.error = -1 ∨ offset < 0 then none
  else some { server with file := pwrite server.file offset.toNat data }

/-- `nfi_do_operation` for `op_read` -/
def nfiDoRead (server : NfiServer) : List NfiWorkerIo → Int → List Byte → Int × List Byte
  | [], ret, buffer => (ret, buffer)
  | op :: ops, ret, buffer =>
    match nfiRead server (op.offset + xpnHeaderSize) op.size with
    | none => (-1, buffer)
    | some data => nfiDoRead server ops (ret + data.length) (overwrite buffer op.buffer data)

/-- `nfi_do_operation` for `op_write` -/
def nfiDoWrite (buffer : List Byte) : List NfiWorkerIo → Int → NfiServer → Int × NfiServer
  | [], ret, server => (ret, server)
  | op :: ops, ret, server =>
    match nfiWrite server (pread buffer op.buffer op.size) (op.offset + xpnHeaderSize) with
    | none => (-1, server)
    | some server => nfiDoWrite buffer ops (ret + op.size) server

/-- Launch and wait for the reads of the servers in turn: each server's result
and the buffer. The launch on a failed server is skipped and waits with 0. -/
def launchReads (servers : Servers) (io : IoMatrix) : List Nat → List Byte → List Int × List Byte
  | [], buffer => ([], buffer)
  | j :: rest, buffer =>
    if servers.Failed j then
      let (results, buffer) := launchReads servers io rest buffer
      (0 :: results, buffer)
    else
      let (result, buffer) := nfiDoRead (servers j) (io j) 0 buffer
      let (results, buffer) := launchReads servers io rest buffer
      (result :: results, buffer)

def launchWrites (buffer : List Byte) (io : IoMatrix) : List Nat → Servers → List Int × Servers
  | [], servers => ([], servers)
  | j :: rest, servers =>
    if servers.Failed j then
      let (results, servers) := launchWrites buffer io rest servers
      (0 :: results, servers)
    else
      let (result, server) := nfiDoWrite buffer (io j) 0 (servers j)
      let (results, servers) := launchWrites buffer io rest fun i => if i = j then server else servers i
      (result :: results, servers)

def xpnReadGetTotalBytes (results : List Int) : Int := results.sum

/-- Bytes accepted, counting what went to failed servers as written when every
live server took all of its part. The two totals are `int`s. -/
def xpnWriteGetTotalBytes (results : List Int) (io : IoMatrix) (servers : Servers) (numServers : Nat) : Int :=
  let res := results.sum
  let rows := List.range numServers
  let totalSend := toCInt ((rows.map fun i => if servers.Failed i then 0 else (rowSize (io i) : Int)).sum)
  let totalWrite := toCInt ((rows.map fun i => (rowSize (io i) : Int)).sum)
  if res = totalSend then totalWrite else res

/-! ### Reads and writes of a descriptor -/

/-- The result of a call, the state after it and the caller's buffer. -/
structure ReadResult where
  ret : Int
  client : Client
  buffer : List Byte

structure WriteResult where
  ret : Int
  client : Client

def Client.advance (c : Client) (count : Int) : Client :=
  { c with fd := { c.fd with offset := c.fd.offset + count.toNat } }

/-- Move the descriptor and let the recorded size follow it. -/
def Client.advanceWrite (c : Client) (count : Int) : Client :=
  let moved := c.advance count
  if moved.fd.mdata.fileSize < moved.fd.offset then
    { moved with fd := { moved.fd with mdata := { moved.fd.mdata with fileSize := moved.fd.offset } } }
  else moved

def xpnPread (c : Client) (buffer : List Byte) (size offset : Nat) : ReadResult :=
  let n := c.fd.part.dataNserv
  if n = 0 then ⟨-1, c, buffer⟩
  else
    let servClient := c.fd.part.localServ
    let (io, rand, newBuffer) := xpnReadBlocks c size offset servClient
    let c := { c with rand }
    -- Grouped rows are read into the new buffer, single operations in place.
    let target := if optimizeRead c.fd then newBuffer else buffer
    let (results, target) := launchReads c.servers io (List.range n) target
    let total := if results.any (· < 0) then -1 else xpnReadGetTotalBytes results
    let buffer := if optimizeRead c.fd then buffer else target
    ⟨total, if 0 < total then c.advance total else c,
      xpnReadBlocksFinish c buffer size offset servClient n target⟩

def xpnPwrite (c : Client) (buffer : List Byte) (size offset : Nat) : WriteResult :=
  let n := c.fd.part.dataNserv
  if n = 0 then ⟨-1, c⟩
  else
    let (io, newBuffer) := xpnWriteBlocks c buffer size offset n
    let (results, servers) := launchWrites newBuffer io (List.range n) c.servers
    let total :=
      if results.any (· < 0) then -1
      else (xpnWriteGetTotalBytes results io c.servers n).tdiv (c.fd.part.replicationLevel + 1)
    let c := { c with servers }
    ⟨total, if 0 < total then c.advanceWrite total else c⟩

/-- Block by block, until the request is done or a read returns nothing. -/
def sreadLoop (c : Client) (size offset : Nat) : Nat → Nat → Client → List Byte → ReadResult
  | 0, count, client, buffer => ⟨count, client, buffer⟩
  | fuel + 1, count, client, buffer =>
    let ((localOffset, serv), rand) :=
      xpnReadGetBlock c.fd c.servers client.rand (offset + count) c.fd.part.localServ
    let client := { client with rand }
    match nfiRead (c.servers serv.toNat) (localOffset + xpnHeaderSize)
        (lSize c.fd.blockSize (offset + count) (size - count)) with
    | none => ⟨if count = 0 then -1 else count, client, buffer⟩
    | some data =>
      let count' := count + data.length
      let buffer := overwrite buffer count data
      if count' < size ∧ 0 < data.length then sreadLoop c size offset fuel count' client buffer
      else ⟨count', if 0 < count' then client.advance count' else client, buffer⟩

def xpnSread (c : Client) (buffer : List Byte) (size offset : Nat) : ReadResult :=
  if c.fd.part.dataNserv = 0 then ⟨-1, c, buffer⟩ else sreadLoop c size offset (size + 1) 0 c buffer

/-- Write one piece to every live copy. `res` is the last result and stays as it
was when every copy is on a failed server; the flag is an error return. -/
def swriteReplicas (fd : XpnFiledesc) (data : List Byte) (newOffset : Nat) :
    List Nat → Int → Servers → Bool × Int × Servers
  | [], res, servers => (false, res, servers)
  | i :: rest, res, servers =>
    let ((localOffset, serv), error) := xpnWriteGetBlock fd servers newOffset i
    if error ≠ -1 then
      match nfiWrite (servers serv.toNat) data (localOffset + xpnHeaderSize) with
      | none => (true, -1, servers)
      | some server =>
        swriteReplicas fd data newOffset rest data.length fun j => if j = serv.toNat then server else servers j
    else swriteReplicas fd data newOffset rest res servers

def swriteLoop (fd : XpnFiledesc) (buffer : List Byte) (size offset : Nat) :
    Nat → Nat → Int → Servers → Int × Servers
  | 0, count, _, servers => (count, servers)
  | fuel + 1, count, res, servers =>
    let data := pread buffer count (lSize fd.blockSize (offset + count) (size - count))
    let (failed, res, servers) :=
      swriteReplicas fd data (offset + count) (List.range (fd.part.replicationLevel + 1)) res servers
    if failed then (if count = 0 then -1 else count, servers)
    else if (count : Int) + res < size ∧ 0 < res then
      swriteLoop fd buffer size offset fuel (count + res.toNat) res servers
    else (count + res, servers)

def xpnSwrite (c : Client) (buffer : List Byte) (size offset : Nat) : WriteResult :=
  if c.fd.part.dataNserv = 0 then ⟨-1, c⟩
  else
    let (count, servers) := swriteLoop c.fd buffer size offset (size + 1) 0 (-1) c.servers
    let c := { c with servers }
    ⟨count, if 0 < count then c.advanceWrite count else c⟩

/-- Small reads go block by block, larger ones in parallel. -/
def xpnSimpleRead (c : Client) (buffer : List Byte) (size : Nat) : ReadResult :=
  if size = 0 then ⟨0, c, buffer⟩
  else if c.fd.flags = oWronly then ⟨-1, { c with errno := ebadf }, buffer⟩
  else if c.fd.type = xpnDir then ⟨-1, { c with errno := eisdir }, buffer⟩
  else if c.fd.blockSize < size then xpnPread c buffer size c.fd.offset
  else xpnSread c buffer size c.fd.offset

def xpnSimpleWrite (c : Client) (buffer : List Byte) (size : Nat) : WriteResult :=
  if size = 0 then ⟨0, c⟩
  else if c.fd.flags = oRdonly then ⟨-1, { c with errno := ebadf }⟩
  else if c.fd.type = xpnDir then ⟨-1, { c with errno := eisdir }⟩
  else if c.fd.blockSize ≤ size ∨ 0 < c.fd.part.replicationLevel then xpnPwrite c buffer size c.fd.offset
  else xpnSwrite c buffer size c.fd.offset

/-- `xpn_simple_lseek` with `SEEK_SET` -/
def Client.seek (c : Client) (offset : Nat) : Client := { c with fd := { c.fd with offset } }

end Xpn
