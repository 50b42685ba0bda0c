import Mathlib.Algebra.Order.BigOperators.Group.List
import Mathlib.Algebra.Order.Group.Nat
import Xpn.MetadataProtocol
import Xpn.Tools
import Xpn.Proofs.Layout

/-! `xpn_rebuild` never writes a metadata record: the files of the new servers keep the
header of zeroes that they start with. -/

namespace Xpn.Proofs.Rebuild
open Lib.ByteFile

/-- The client can read the file on `n` servers: every copy of every byte is where it
looks, and so is a valid record of the size, whichever servers have failed. -/
structure Readable (path : Path) (blocksize level n : Nat) (content : List Byte) (files : Nat → LocalFile) : Prop where
  data : ∀ offset < content.length, ∀ r ≤ level,
    let (localOffset, serv) := xpnCalculateBlock blocksize level n offset r (hash path n 1)
    (files serv.toNat).data[localOffset.toNat]? = content[offset]?
  record : ∀ error, let mdata := (files (xpnReadMetadataServer error n level 0 (hash path n 1)).toNat).header
    xpnCheckMagicNumber mdata = true ∧ mdata.fileSize = content.length

section
variable (blocksize level oldSize newSize : Nat) (old : Nat → LocalFile)

/-- A round writes behind the headers. -/
theorem round_header (offsetSrc s : Nat) : ∀ (ranks : List Nat) (new : Nat → LocalFile),
    ((XpnRebuild.round blocksize level oldSize newSize old offsetSrc ranks new).1 s).header = (new s).header
  | [], _ => rfl
  | rank :: ranks, new => by
    rw [XpnRebuild.round]
    dsimp only
    rw [round_header offsetSrc s ranks, Function.update_apply]
    split
    next same => rw [same]
    next => rfl

/-- Behind the end of all files nobody reads anything. -/
theorem round_ended {offsetSrc : Nat} : ∀ (ranks : List Nat) (new : Nat → LocalFile),
    (∀ rank ∈ ranks, (old rank).data.length ≤ offsetSrc) →
      (XpnRebuild.round blocksize level oldSize newSize old offsetSrc ranks new).2 = false
  | [], _, _ => rfl
  | rank :: ranks, new, ended => by
    have here : pread (old rank).data offsetSrc blocksize = [] := by
      simp [pread, List.drop_of_length_le (ended rank List.mem_cons_self)]
    rw [XpnRebuild.round]
    dsimp only
    rw [here, round_ended ranks _ fun other member => ended other (List.mem_cons_of_mem _ member)]
    rfl

end

variable {blocksize level oldSize newSize : Nat} {old : Nat → LocalFile}

theorem copyLoop_header {ranks : List Nat} (s : Nat) {files : Nat → LocalFile} : ∀ {fuel offsetSrc : Nat} {new : Nat → LocalFile},
    XpnRebuild.copyLoop blocksize level oldSize newSize old ranks fuel offsetSrc new = some files →
      (files s).header = (new s).header
  | 0, _, _, done => by cases done
  | fuel + 1, offsetSrc, new, done => by
    have kept := round_header blocksize level oldSize newSize old offsetSrc s ranks new
    rw [XpnRebuild.copyLoop] at done
    split at done
    next later ran =>
      rw [ran] at kept
      exact (copyLoop_header s done).trans kept
    next later ran =>
      rw [ran] at kept
      cases done
      exact kept

theorem copyLoop_ends (blocks : 0 < blocksize) {ranks : List Nat} {size : Nat}
    (bounded : ∀ rank ∈ ranks, (old rank).data.length ≤ size) : ∀ (fuel offsetSrc : Nat) (new : Nat → LocalFile),
      size - offsetSrc < fuel →
        ∃ files, XpnRebuild.copyLoop blocksize level oldSize newSize old ranks fuel offsetSrc new = some files
  | 0, _, _, short => by omega
  | fuel + 1, offsetSrc, new, enough => by
    rw [XpnRebuild.copyLoop]
    split
    next later ran =>
      have more : offsetSrc < size := by
        by_contra past
        have ended := round_ended blocksize level oldSize newSize old ranks new
          fun rank member => (bounded rank member).trans (Nat.le_of_not_lt past)
        rw [ran] at ended
        cases ended
      exact copyLoop_ends blocks bounded fuel _ later (by omega)
    next later ran => exact ⟨later, rfl⟩

theorem copy_not_readable {path : Path} {content : List Byte} {ranks : List Nat} {fuel : Nat} {files : Nat → LocalFile}
    (done : XpnRebuild.copy blocksize level oldSize newSize old ranks fuel = some files) :
    ¬Readable path blocksize level newSize content files := by
  intro readable
  have valid := (readable.record fun _ => false).1
  rw [copyLoop_header _ done] at valid
  exact absurd valid (by decide)

theorem copy_ends (blocks : 0 < blocksize) (ranks : List Nat) : ∃ bound, ∀ fuel, bound ≤ fuel →
    ∃ files, XpnRebuild.copy blocksize level oldSize newSize old ranks fuel = some files := by
  let size := (ranks.map fun rank => (old rank).data.length).sum
  have bounded : ∀ rank ∈ ranks, (old rank).data.length ≤ size := fun rank member =>
    List.le_sum_of_mem (List.mem_map_of_mem (f := fun rank => (old rank).data.length) member)
  refine ⟨size + 1, fun fuel enough => ?_⟩
  exact copyLoop_ends blocks bounded fuel 0 _ (by omega)

/-- The tool ends, and whatever the old files hold, the client finds no record of the new one. -/
theorem rebuild_never_readable (path : Path) (blocksize level oldSize newSize : Nat) (blocks : 0 < blocksize) (content : List Byte)
    (old : Nat → LocalFile) (ranks : List Nat) :
    (∃ bound, ∀ fuel, bound ≤ fuel → ∃ files, XpnRebuild.copy blocksize level oldSize newSize old ranks fuel = some files) ∧
      ∀ fuel files, XpnRebuild.copy blocksize level oldSize newSize old ranks fuel = some files →
        ¬Readable path blocksize level newSize content files :=
  ⟨copy_ends blocks ranks, fun _ _ done => copy_not_readable done⟩

/-- A file of one byte as the client leaves it on one server. -/
def oneByte : LocalFile := ⟨{ xpnCreateMetadataExtern [slash, 97] 1 4 0 with fileSize := 1 }, [7]⟩

theorem rebuild_never_readable_byte :
    (∃ bound, ∀ fuel, bound ≤ fuel → ∃ files, XpnRebuild.copy 4 0 1 1 (fun _ => oneByte) [0] fuel = some files) ∧
      ∀ fuel files, XpnRebuild.copy 4 0 1 1 (fun _ => oneByte) [0] fuel = some files → ¬Readable [slash, 97] 4 0 1 [7] files :=
  rebuild_never_readable [slash, 97] 4 0 1 1 (by decide) [7] (fun _ => oneByte) [0]

theorem oneByte_readable : Readable [slash, 97] 4 0 1 [7] fun _ => oneByte := by
  refine ⟨fun offset inside r copy => ?_, fun error => ⟨rfl, rfl⟩⟩
  obtain rfl : offset = 0 := by simpa using inside
  obtain rfl : r = 0 := by omega
  decide

/-- The byte can be read before the tool has run and not after. -/
theorem rebuild_loses_byte : Readable [slash, 97] 4 0 1 [7] (fun _ => oneByte) ∧
    ∃ files, XpnRebuild.copy 4 0 1 1 (fun _ => oneByte) [0] 2 = some files ∧ ¬Readable [slash, 97] 4 0 1 [7] files := by
  refine ⟨oneByte_readable, ?_⟩
  have ends : (XpnRebuild.copy 4 0 1 1 (fun _ => oneByte) [0] 2).isSome := by decide
  obtain ⟨files, done⟩ := Option.isSome_iff_exists.mp ends
  exact ⟨files, done, copy_not_readable done⟩

end Xpn.Proofs.Rebuild
