import Xpn.Proofs.ReadAfterWrite
import Xpn.Proofs.ElementaryRequests

/-! The parallel and the serial read of one request. The serial read ends at the first place
where a copy has no byte; the parallel one adds up what all servers return. They agree where
the bytes that the copies have are a front of the request. -/

namespace Xpn.Proofs.ReadAgreement
open Lib.ByteFile

def copyByte (g : Layout) (servers : Servers) (p r : Nat) : Option Byte :=
  (servers (g.server p r)).file[xpnHeaderSize + g.localOffset p r]?

/-- The copies of every byte of the request that a read may go to are the same, and the bytes that there
are come before those that there are not. -/
def Front (g : Layout) (servers : Servers) (own : Int) (offset size : Nat) : Prop :=
  ∃ count, ∀ k, k < size → ∀ r, Readable g servers own (offset + k) r →
    (copyByte g servers (offset + k) r).isSome = decide (k < count) ∧
    ∀ r', Readable g servers own (offset + k) r' → copyByte g servers (offset + k) r' = copyByte g servers (offset + k) r

variable {g : Layout} {c : Client} {servers : Servers} {size offset : Nat} {buffer : List Byte}

def drawn (g : Layout) (own : Int) (q p : Nat) : Nat :=
  ((List.range (g.level + 1)).find? fun r => decide ((g.server p r : Int) = own)).getD (q % (g.level + 1))

theorem drawn_cases (g : Layout) (own : Int) (q p : Nat) :
    drawn g own q p ≤ g.level ∧ (g.server p (drawn g own q p) : Int) = own ∨
      (∀ r, r ≤ g.level → (g.server p r : Int) ≠ own) ∧ drawn g own q p = q % (g.level + 1) := by
  unfold drawn
  cases found : (List.range (g.level + 1)).find? fun r => decide ((g.server p r : Int) = own) with
  | some r =>
    have inside := List.mem_range.mp (List.mem_of_find?_eq_some found)
    have here : (g.server p r : Int) = own := by simpa using List.find?_some found
    exact Or.inl ⟨Nat.le_of_lt_succ inside, here⟩
  | none =>
    refine Or.inr ⟨fun r copy here => ?_, rfl⟩
    exact List.find?_eq_none.mp found r (List.mem_range.mpr (Nat.lt_succ_of_le copy)) (decide_eq_true here)

theorem drawn_readable (g : Layout) (servers : Servers) (own : Int) (q p : Nat) :
    Readable g servers own p (drawn g own q p) := by
  rcases drawn_cases g own q p with ⟨copy, here⟩ | ⟨elsewhere, drawn_eq⟩
  · exact ⟨copy, fun r' copy' here' => g.copies_apart copy' copy (Int.ofNat_inj.mp (here'.1.trans here.symm))⟩
  · rw [drawn_eq]
    exact ⟨Nat.le_of_lt_succ (Nat.mod_lt _ (Nat.succ_pos _)), fun r' copy' here => absurd here.1 (elsewhere r' copy')⟩

section
variable (live : ∀ s, s < g.n → ¬servers.Failed s)
include live

/-- Every copy that may be read is drawn. -/
theorem Readable.drawn {own : Int} {p r : Nat} (readable : Readable g servers own p r) : drawn g own r p = r := by
  rcases drawn_cases g own r p with ⟨copy, here⟩ | ⟨-, drawn_eq⟩
  · exact readable.2 _ copy ⟨here, live _ (g.server_lt _ _)⟩
  · rw [drawn_eq, Nat.mod_eq_of_lt (Nat.lt_succ_of_le readable.1)]

end

private theorem Front.served {own : Int} (front : Front g servers own offset size) (live : ∀ s, s < g.n → ¬servers.Failed s) :
    ∃ reference, ServedRange g servers own reference offset size := by
  obtain ⟨count, copies⟩ := front
  let byteAt (k : Nat) := copyByte g servers (offset + k) (drawn g own 0 (offset + k))
  refine ⟨List.replicate offset 0 ++ (List.range (min count size)).map fun k => (byteAt k).getD 0, ?_, ?_⟩
  · exact fun k _ => ⟨0, Nat.zero_le _, live _ (g.server_lt _ _)⟩
  · intro k r inside readable _
    obtain ⟨present, same⟩ := copies k inside _ (drawn_readable g servers own 0 (offset + k))
    refine (same r readable).trans ?_
    change byteAt k = _
    change (byteAt k).isSome = _ at present
    rw [List.getElem?_append_right (by simp), List.length_replicate, Nat.add_sub_cancel_left, List.getElem?_map]
    by_cases before : k < count
    · rw [decide_eq_true before, Option.isSome_iff_exists] at present
      obtain ⟨byte, here⟩ := present
      rw [List.getElem?_range (by omega), Option.map_some, here]
      rfl
    · rw [decide_eq_false before, Option.isSome_eq_false_iff, Option.isNone_iff_eq_none] at present
      rw [present, List.getElem?_eq_none (by rw [List.length_range]; omega)]
      rfl

section
variable {fd : XpnFiledesc} (opened : Opened g fd) (live : ∀ s, s < g.n → ¬servers.Failed s) (size offset q : Nat) (own : Int)

include opened live

end

section
variable (opened : Opened g c.fd) (live : ∀ s, s < g.n → ¬c.servers.Failed s)
include opened live

end

private def mirrored : Layout := ⟨2, 2, 1, 1, Nat.zero_lt_two, le_rfl, Nat.one_lt_two⟩

end Xpn.Proofs.ReadAgreement
