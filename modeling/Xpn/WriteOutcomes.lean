import Xpn.ReadWrite

/-! A write when the servers may answer anything: every elementary request fails or stores
the front of its data, in the length that it answers. What has been stored is kept as a
list; the servers' own files play no part. -/

namespace Xpn.WriteOutcomes
open Lib.ByteFile

/-- Data at a place of a server's local file. -/
structure Stored where
  serv : Nat
  offset : Int
  data : List Byte

/-- What a server answers to a request for a place and its data: an error, or how many
bytes it has stored, never more than it was sent. -/
abbrev Outcomes := Nat → Int → List Byte → Option Nat

/-- The result of a call, the descriptor after it, and what the servers have stored. -/
structure WriteResult where
  ret : Int
  client : Client
  stored : List Stored

def nfiWrite (outcomes : Outcomes) (serv : Nat) (data : List Byte) (offset : Int) : Option (Nat × Stored) :=
  (outcomes serv offset data).map fun count => (min count data.length, ⟨serv, offset, data.take count⟩)

/-- `nfi_do_operation` for `op_write` -/
def nfiDoWrite (outcomes : Outcomes) (serv : Nat) (buffer : List Byte) : List NfiWorkerIo → Int → Int × List Stored
  | [], ret => (ret, [])
  | op :: ops, ret =>
    match nfiWrite outcomes serv (pread buffer op.buffer op.size) (op.offset + xpnHeaderSize) with
    | none => (-1, [])
    | some (count, piece) =>
      let (ret, stored) := nfiDoWrite outcomes serv buffer ops (ret + count)
      (ret, piece :: stored)

/-- A failed server is neither launched nor waited for. -/
def launchWrites (outcomes : Outcomes) (servers : Servers) (buffer : List Byte) (io : IoMatrix) : List Nat → List Int × List Stored
  | [] => ([], [])
  | j :: rest =>
    let (result, stored) := if servers.Failed j then (0, []) else nfiDoWrite outcomes j buffer (io j) 0
    let (results, later) := launchWrites outcomes servers buffer io rest
    (result :: results, stored ++ later)

def xpnPwrite (outcomes : Outcomes) (c : Client) (buffer : List Byte) (size offset : Nat) : WriteResult :=
  let n := c.fd.part.dataNserv
  if n = 0 then ⟨-1, c, []⟩
  else
    let (io, newBuffer) := xpnWriteBlocks c buffer size offset n
    let (results, stored) := launchWrites outcomes c.servers newBuffer io (List.range n)
    let total :=
      if results.any (· < 0) then -1
      else (xpnWriteGetTotalBytes results io c.servers n).tdiv (c.fd.part.replicationLevel + 1)
    ⟨total, if 0 < total then c.advanceWrite total else c, stored⟩

/-- The copies of one piece; `res` keeps the last result when a copy is skipped. -/
def swriteReplicas (outcomes : Outcomes) (fd : XpnFiledesc) (servers : Servers) (data : List Byte) (newOffset : Nat) :
    List Nat → Int → Bool × Int × List Stored
  | [], res => (false, res, [])
  | i :: rest, res =>
    let ((localOffset, serv), error) := xpnWriteGetBlock fd servers newOffset i
    if error ≠ -1 then
      match nfiWrite outcomes serv.toNat data (localOffset + xpnHeaderSize) with
      | none => (true, -1, [])
      | some (count, piece) =>
        let (failed, res, stored) := swriteReplicas outcomes fd servers data newOffset rest count
        (failed, res, piece :: stored)
    else swriteReplicas outcomes fd servers data newOffset rest res

def swriteLoop (outcomes : Outcomes) (fd : XpnFiledesc) (servers : Servers) (buffer : List Byte) (size offset : Nat) :
    Nat → Nat → Int → Int × List Stored
  | 0, count, _ => (count, [])
  | fuel + 1, count, res =>
    let data := pread buffer count (lSize fd.blockSize (offset + count) (size - count))
    let (failed, res, stored) :=
      swriteReplicas outcomes fd servers data (offset + count) (List.range (fd.part.replicationLevel + 1)) res
    if failed then (if count = 0 then -1 else count, stored)
    else if (count : Int) + res < size ∧ 0 < res then
      let (ret, later) := swriteLoop outcomes fd servers buffer size offset fuel (count + res.toNat) res
      (ret, stored ++ later)
    else (count + res, stored)

def xpnSwrite (outcomes : Outcomes) (c : Client) (buffer : List Byte) (size offset : Nat) : WriteResult :=
  if c.fd.part.dataNserv = 0 then ⟨-1, c, []⟩
  else
    let (count, stored) := swriteLoop outcomes c.fd c.servers buffer size offset (size + 1) 0 (-1)
    ⟨count, if 0 < count then c.advanceWrite count else c, stored⟩

def xpnSimpleWrite (outcomes : Outcomes) (c : Client) (buffer : List Byte) (size : Nat) : WriteResult :=
  if size = 0 then ⟨0, c, []⟩
  else if c.fd.flags = oRdonly then ⟨-1, { c with errno := ebadf }, []⟩
  else if c.fd.type = xpnDir then ⟨-1, { c with errno := eisdir }, []⟩
  else if c.fd.blockSize ≤ size ∨ 0 < c.fd.part.replicationLevel then xpnPwrite outcomes c buffer size c.fd.offset
  else xpnSwrite outcomes c buffer size c.fd.offset

end Xpn.WriteOutcomes
