import Mathlib.Algebra.Order.BigOperators.Group.Finset
import Xpn.WriteOutcomes
import Xpn.Proofs.WriteRows
import Xpn.Proofs.WriteCount
import Xpn.Proofs.ReadAfterWrite
import Xpn.Proofs.Messages

/-! What the caller of a write is told. The count is put together from the sums of the
servers, so it is right only if what they store is a front of the request and no byte that
is counted is without a live copy. -/

namespace Xpn.Proofs.WriteOutcomes
open Xpn.WriteOutcomes Lib.ByteFile

def StoredAt (stored : List Stored) (serv : Nat) (place : Int) (byte : Byte) : Prop :=
  ∃ piece ∈ stored, piece.serv = serv ∧ ∃ i : Nat, place = piece.offset + i ∧ piece.data[i]? = some byte

/-- Byte `k` of the request is at one of its places, on a live server. -/
def Reached (c : Client) (buffer : List Byte) (offset : Nat) (stored : List Stored) (k : Nat) : Prop :=
  ∃ r byte, r ≤ c.fd.part.replicationLevel ∧ buffer[k]? = some byte ∧
    let place := xpnCalculateBlockMdata c.fd.mdata (offset + k : Nat) r
    ¬c.servers.Failed place.2.toNat ∧ StoredAt stored place.2.toNat (place.1 + xpnHeaderSize) byte

/-- The one request that a parallel write has for a server: where, and the data of its row. -/
def request (c : Client) (buffer : List Byte) (size s : Nat) : Option (Int × List Byte) :=
  let (io, sendBuffer) := xpnWriteBlocks c buffer size c.fd.offset c.fd.part.dataNserv
  (io s).head?.map fun op => (op.offset + xpnHeaderSize, pread sendBuffer op.buffer op.size)

/-- Every server stores all of its request, and the sums of the sizes fit an `int` where a copy of a byte
is on a failed server. -/
structure Whole (outcomes : Outcomes) (c : Client) (buffer : List Byte) (size : Nat) : Prop where
  full : ∀ s, s < c.fd.part.dataNserv → ¬c.servers.Failed s → ∀ place data count,
    request c buffer size s = some (place, data) → outcomes s place data = some count → data.length ≤ count
  sums : (∃ k, k < size ∧ ∃ r, r ≤ c.fd.part.replicationLevel ∧
      c.servers.Failed (xpnCalculateBlockMdata c.fd.mdata (c.fd.offset + k : Nat) r).2.toNat) →
    size * (c.fd.part.replicationLevel + 1) < 2 ^ 31

/-- Every byte of the request has a copy on a live server. -/
def Covered (c : Client) (size : Nat) : Prop :=
  ∀ k, k < size → ∃ r, r ≤ c.fd.part.replicationLevel ∧
    ¬c.servers.Failed (xpnCalculateBlockMdata c.fd.mdata (c.fd.offset + k : Nat) r).2.toNat

/-- A live server stores a copy of byte `k`: it is in the part of its request that the server takes. -/
def Kept (outcomes : Outcomes) (c : Client) (buffer : List Byte) (size k : Nat) : Prop :=
  ∃ r : Nat, r ≤ c.fd.part.replicationLevel ∧
    let place := xpnCalculateBlockMdata c.fd.mdata (c.fd.offset + k : Nat) r
    ¬c.servers.Failed place.2.toNat ∧ ∃ start data count, request c buffer size place.2.toNat = some (start, data) ∧
      outcomes place.2.toNat start data = some count ∧ place.1 + xpnHeaderSize < start + count

variable {g : Layout} {fd : XpnFiledesc} {c : Client} {servers : Servers} {size offset : Nat} {buffer : List Byte}
    {outcomes : Outcomes}

private theorem StoredAt.append {stored later : List Stored} {serv : Nat} {place : Int} {byte : Byte} :
    StoredAt (stored ++ later) serv place byte ↔ StoredAt stored serv place byte ∨ StoredAt later serv place byte := by
  simp only [StoredAt, List.mem_append, or_and_right, exists_or]

private def taken (outcomes : Outcomes) (c : Client) (buffer : List Byte) (size s : Nat) : Nat :=
  match request c buffer size s with
  | none => 0
  | some (place, data) => ((outcomes s place data).map fun count => min count data.length).getD 0

/-- What the servers take, and how the count is put together from it. -/
private def counted (outcomes : Outcomes) (c : Client) (buffer : List Byte) (size : Nat) : Int :=
  (xpnWriteGetTotalBytes ((List.range c.fd.part.dataNserv).map fun s => if c.servers.Failed s then 0 else
    (taken outcomes c buffer size s : Int))
    (groupRows (xpnWriteBlocksBlockByBlock c.fd c.servers size c.fd.offset)) c.servers c.fd.part.dataNserv).tdiv
      (c.fd.part.replicationLevel + 1)

private def front (outcomes : Outcomes) (c : Client) (buffer : List Byte) (size s : Nat) : Nat :=
  if c.servers.Failed s then 0 else taken outcomes c buffer size s

private theorem Reached.mono {stored later : List Stored} {k : Nat} (here : Reached c buffer offset stored k)
    (grows : ∀ serv place byte, StoredAt stored serv place byte → StoredAt later serv place byte) :
      Reached c buffer offset later k := by
  obtain ⟨r, byte, copy, found, live, place⟩ := here
  exact ⟨r, byte, copy, found, live, grows _ _ _ place⟩

end Xpn.Proofs.WriteOutcomes
