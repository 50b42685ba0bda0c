import Xpn.Tools
import Xpn.Proofs.Layout
import Xpn.Proofs.Listing

/-! What `xpn_preload` copies into a partition, `xpn_flush` copies back. The two loops meet
at `held`: the pieces of the source that a server keeps, one behind the other. -/

namespace Xpn.Proofs.RoundTrip
open Lib.ByteFile Lib.Striping Namespace

section
variable (g : Layout) (source : List Byte) (s : Nat)

def piece (b : Nat) : List Byte := pread source (b * g.bs) g.bs

/-- Server `s` has a copy of block `b`. -/
def Holds (b : Nat) : Prop := ∃ r ≤ g.level, g.server (b * g.bs) r = s

/-- The pieces that server `s` keeps of the blocks below a block. -/
noncomputable def held : Nat → List Byte
  | 0 => []
  | b + 1 => held b ++ open Classical in if Holds g s b then piece g source b else []

end

variable {g : Layout} {source : List Byte} {s b : Nat}

theorem slotOf_block (g : Layout) (b r : Nat) : g.slotOf (b * g.bs) r = slot (g.level + 1) b r := by
  rw [Layout.slotOf, Nat.mul_div_cancel _ g.bs_pos]

theorem localOffset_block (g : Layout) (b r : Nat) :
    g.localOffset (b * g.bs) r = slot (g.level + 1) b r / g.n * g.bs := by
  rw [Layout.localOffset, slotOf_block, Nat.mul_mod_left, Nat.add_zero]

theorem held_next (holds : Holds g s b) : held g source s (b + 1) = held g source s b ++ piece g source b := by
  rw [held, if_pos holds]

theorem held_skip (absent : ¬Holds g s b) : held g source s (b + 1) = held g source s b := by
  rw [held, if_neg absent, List.append_nil]

theorem length_piece (inside : (b + 1) * g.bs ≤ source.length) : (piece g source b).length = g.bs := by
  rw [Nat.add_mul] at inside
  rw [piece, length_pread]
  omega

theorem piece_eq_nil_iff : piece g source b = [] ↔ source.length ≤ b * g.bs := by
  have positive := g.bs_pos
  rw [← List.length_eq_zero_iff, piece, length_pread]
  omega

/-- Before a block all pieces are whole, so the lines are filled one by one. -/
theorem length_held : ∀ b, b * g.bs ≤ source.length →
    (held g source s b).length = filled g.n g.first s (slot (g.level + 1) b 0) * g.bs
  | 0, _ => by simp [held, slot, filled]
  | b + 1, inside => by
    have before := length_held b (by rw [Nat.add_mul] at inside; omega)
    by_cases holds : Holds g s b
    · obtain ⟨r, copy, here⟩ := holds
      have present := (filled_present g.first b g.n_pos g.fits (Nat.lt_succ_of_le copy)).2
      rw [Layout.server, slotOf_block] at here
      rw [here] at present
      rw [held_next ⟨r, copy, by rw [Layout.server, slotOf_block, here]⟩, List.length_append, before, length_piece inside,
        present, Nat.add_mul, Nat.one_mul]
    · rw [held_skip holds, before, filled_absent fun r inside same => ?_]
      exact holds ⟨r, Nat.le_of_lt_succ inside, by rw [Layout.server, slotOf_block, same]⟩

/-- A copy goes right behind what its server keeps already. -/
theorem localOffset_held {r : Nat} (copy : r ≤ g.level) (here : g.server (b * g.bs) r = s)
    (inside : b * g.bs ≤ source.length) : g.localOffset (b * g.bs) r = (held g source s b).length := by
  have present := (filled_present g.first b g.n_pos g.fits (Nat.lt_succ_of_le copy)).1
  rw [Layout.server, slotOf_block] at here
  rw [here] at present
  rw [localOffset_block, length_held b inside, present]

theorem held_split (source : List Byte) (s : Nat) {stop : Nat} (below : b ≤ stop) :
    ∃ rest, held g source s stop = held g source s b ++ rest ∧ (source.length ≤ b * g.bs → rest = []) := by
  induction stop, below using Nat.le_induction with
  | base => exact ⟨[], (List.append_nil _).symm, fun _ => rfl⟩
  | succ stop below ih =>
    obtain ⟨rest, split, past⟩ := ih
    by_cases holds : Holds g s stop
    · refine ⟨rest ++ piece g source stop, ?_, fun ended => ?_⟩
      · rw [held_next holds, split, List.append_assoc]
      · rw [past ended, piece_eq_nil_iff.mpr (ended.trans (Nat.mul_le_mul_right _ below)), List.append_nil]
    · exact ⟨rest, by rw [held_skip holds, split], past⟩

/-- A server gives back each piece from where it was put. -/
theorem pread_held {stop : Nat} (holds : Holds g s b) (below : b < stop) :
    pread (held g source s stop) (held g source s b).length g.bs = piece g source b := by
  obtain ⟨rest, split, past⟩ := held_split (g := g) source s (Nat.succ_le_of_lt below)
  rw [split, held_next holds, List.append_assoc, pread, List.drop_left]
  rcases Nat.le_total source.length ((b + 1) * g.bs) with ended | more
  · rw [past ended, List.append_nil]
    apply List.take_of_length_le
    rw [piece, length_pread]
    exact Nat.min_le_left _ _
  · rw [← length_piece more, List.take_left]

/-- Every server has a copy of some later block. -/
theorem exists_holds (inside : s < g.n) (b : Nat) : ∃ later, b ≤ later ∧ Holds g s later := by
  let q := g.n * (b * (g.level + 1)) + column g.n g.first s
  have column_lt : column g.n g.first s < g.n := Nat.mod_lt _ g.n_pos
  have rest := Nat.mod_lt q (Nat.succ_pos g.level)
  have whole : slot (g.level + 1) (q / (g.level + 1)) (q % (g.level + 1)) = q := by
    rw [slot, Nat.mul_comm]
    exact Nat.div_add_mod q _
  refine ⟨q / (g.level + 1), ?_, q % (g.level + 1), Nat.le_of_lt_succ rest, ?_⟩
  · rw [Nat.le_div_iff_mul_le (Nat.succ_pos _)]
    exact (Nat.le_mul_of_pos_left _ g.n_pos).trans (Nat.le_add_right _ _)
  · rw [Layout.server, slotOf_block, whole, bin_eq_iff g.first g.n_pos inside, Nat.mul_add_mod, Nat.mod_eq_of_lt column_lt]

section
variable {mdata : XpnMetadata} (describes : g.Describes mdata) {state : XpnPreload.Copying}
include describes

theorem copyBlock_absent {offset : Nat} : ∀ fuel i, (∀ r, i ≤ r → r < i + fuel → g.server offset r ≠ s) →
    XpnPreload.copyBlock mdata s source offset fuel i state = (state, false)
  | 0, _, _ => rfl
  | fuel + 1, i, absent => by
    have here := absent i (Nat.le_refl i) (by omega)
    rw [XpnPreload.copyBlock, describes.calculate]
    dsimp only
    rw [if_neg (by exact_mod_cast here)]
    exact copyBlock_absent fuel (i + 1) fun r above below => absent r (by omega) (by omega)

theorem copyBlock_present {offset r : Nat} (here : g.server offset r = s) (copy : r ≤ g.level) : ∀ fuel i, i ≤ r → i + fuel = g.level + 1 →
    XpnPreload.copyBlock mdata s source offset fuel i state =
      if (pread source offset g.bs).isEmpty then (state, true)
      else
        (⟨{ state.dest with data := pwrite state.dest.data (g.localOffset offset r) (pread source offset g.bs) },
          state.localSize + (pread source offset g.bs).length, (pread source offset g.bs).length⟩, false)
  | 0, _, above, total => by omega
  | fuel + 1, i, above, total => by
    rw [XpnPreload.copyBlock, describes.calculate, describes.blockSize]
    dsimp only
    rcases Nat.eq_or_lt_of_le above with same | later
    · subst same
      rw [if_pos (by exact_mod_cast here), Int.toNat_natCast, Int.toNat_natCast]
      split
      · rfl
      · refine copyBlock_absent describes fuel (i + 1) fun r above below same => ?_
        have := g.copies_apart copy (by omega) (here.trans same.symm)
        omega
    · have apart : g.server offset i ≠ s := by
        intro same
        have := g.copies_apart (by omega) copy (same.trans here.symm)
        omega
      rw [if_neg (by exact_mod_cast apart)]
      exact copyBlock_present here copy fuel (i + 1) later (by omega)

structure Written (g : Layout) (source : List Byte) (s b : Nat) (state : XpnPreload.Copying) : Prop where
  data : state.dest.data = held g source s b
  size : state.localSize = state.dest.data.length

omit describes in
theorem Written.skip (written : Written g source s b state) (absent : ¬Holds g s b) : Written g source s (b + 1) state :=
  ⟨written.data.trans (held_skip absent).symm, written.size⟩

/-- The loop goes on to a block of the rank behind the end of the source. -/
theorem preload_ends {stop : Nat} (last : Holds g s stop) (ended : source.length ≤ stop * g.bs) :
    ∀ {fuel b state}, b ≤ stop → stop - b < fuel → Written g source s b state → 0 < state.writeSize →
      ∃ final state', XpnPreload.copyLoop mdata g.level s source fuel (b * g.bs) state = some state' ∧
        source.length ≤ final * g.bs ∧ Written g source s final state'
  | 0, _, _, _, short, _, _ => by omega
  | fuel + 1, b, state, before, enough, written, moving => by
    rw [XpnPreload.copyLoop]
    by_cases holds : Holds g s b
    · obtain ⟨r, copy, here⟩ := holds
      rw [copyBlock_present describes here copy (g.level + 1) 0 (Nat.zero_le r) (Nat.zero_add _), ← piece]
      by_cases past : source.length ≤ b * g.bs
      · rw [if_pos (by simpa using piece_eq_nil_iff.mpr past)]
        exact ⟨b, state, rfl, past, written⟩
      · have some_left : piece g source b ≠ [] := fun none_left => past (piece_eq_nil_iff.mp none_left)
        have inside : b < stop := by
          by_contra beyond
          exact past (ended.trans (Nat.mul_le_mul_right _ (Nat.le_of_not_lt beyond)))
        rw [if_neg (by simpa using some_left)]
        dsimp only
        rw [if_pos (List.length_pos_iff.mpr some_left), describes.blockSize, Int.toNat_natCast,
          localOffset_held copy here (Nat.le_of_not_le past), ← written.data, pwrite_end, ← Nat.succ_mul]
        refine preload_ends last ended inside (by omega) ⟨?_, ?_⟩ (List.length_pos_iff.mpr some_left)
        · rw [held_next ⟨r, copy, here⟩, ← written.data]
        · rw [List.length_append, written.size]
    · rw [copyBlock_absent describes (g.level + 1) 0 fun r _ below same => holds ⟨r, by omega, same⟩]
      dsimp only
      have inside : b < stop := lt_of_le_of_ne before fun same => holds (same ▸ last)
      rw [if_pos moving, describes.blockSize, Int.toNat_natCast, ← Nat.succ_mul]
      exact preload_ends last ended inside (by omega) (written.skip holds) moving

end

theorem describes_created {path : Path} (first : hash path g.n 1 = g.first) :
    g.Describes (xpnCreateMetadataExtern path g.n g.bs g.level) := by
  refine ⟨rfl, rfl, first, ?_, ?_⟩
  · simp only [XpnMetadata.nserv, xpnCreateMetadataExtern, Vector.getElem?_setIfInBounds]
    rfl
  · simp only [XpnMetadata.nserv, xpnCreateMetadataExtern, XpnMetadata.zero, Vector.getElem?_setIfInBounds]
    rfl

theorem amongCopies_master (g : Layout) : amongCopies g.first g.level g.n g.first = true := by
  rw [amongCopies, List.any_eq_true]
  refine ⟨0, by simp only [List.mem_range]; omega, ?_⟩
  simp [Int.tmod_eq_of_lt, g.first_lt]

/-- The file of a rank has all its pieces; a file that is not there would be empty. -/
def Preloaded (g : Layout) (source : List Byte) (s : Nat) (file : Option LocalFile) : Prop :=
  ∃ final, source.length ≤ final * g.bs ∧ (file.map (·.data)).getD [] = held g source s final

theorem preload_copy {destPath : Path} (first : hash destPath g.n 1 = g.first) (xpnPathLen : Nat) {stop fuel : Nat}
    (last : Holds g s stop) (ended : source.length ≤ stop * g.bs) (enough : stop < fuel) : ∃ file,
      XpnPreload.copy destPath xpnPathLen source g.bs g.level s g.n fuel = some file ∧ Preloaded g source s file ∧
        (s = g.first → XpnFlush.readMdata file =
          { xpnCreateMetadataExtern destPath g.n g.bs g.level with fileSize := source.length }) := by
  obtain ⟨final, state, runs, complete, written⟩ := preload_ends (describes_created first) last ended (Nat.zero_le stop)
    (by omega : stop - 0 < fuel) (⟨rfl, rfl⟩ : Written g source s 0 ⟨LocalFile.new, 0, xpnHeaderSize⟩) (by decide)
  rw [Nat.zero_mul] at runs
  simp only [XpnPreload.copy, runs, Option.map_some, Option.some.injEq, exists_eq_left']
  cases master : amongCopies (xpnCreateMetadataExtern destPath g.n g.bs g.level).firstNode g.level g.n s with
  | true =>
    have stays : ¬(decide (state.localSize + sizeofXpnMetadata = 0) &&
        !amongCopies (hash (destPath.drop xpnPathLen) g.n 0) g.level g.n s) = true := by
      simp [sizeofXpnMetadata]
    simp only [if_true, if_neg stays]
    exact ⟨⟨final, complete, written.data⟩, fun _ => rfl⟩
  | false =>
    simp only [if_false, Bool.false_eq_true]
    refine ⟨⟨final, complete, ?_⟩, fun same => ?_⟩
    · rw [← written.data]
      split
      next removed =>
        have empty : state.localSize = 0 := by
          rw [Bool.and_eq_true, decide_eq_true_eq] at removed
          exact removed.1
        rw [written.size] at empty
        exact (List.length_eq_zero_iff.mp empty).symm
      next => rfl
    · have chosen : amongCopies (xpnCreateMetadataExtern destPath g.n g.bs g.level).firstNode g.level g.n g.first = true := by
        rw [(describes_created first).firstNode]
        exact amongCopies_master g
      rw [same, chosen] at master
      cases master

section
variable {mdata : XpnMetadata} (describes : g.Describes mdata)
include describes

theorem findCopy_absent {offset : Nat} : ∀ fuel i, (∀ r, i ≤ r → r < i + fuel → g.server offset r ≠ s) →
    XpnFlush.findCopy mdata s offset fuel i = none
  | 0, _, _ => rfl
  | fuel + 1, i, absent => by
    have here := absent i (Nat.le_refl i) (by omega)
    rw [XpnFlush.findCopy, describes.calculate]
    dsimp only
    rw [if_neg (by exact_mod_cast here)]
    exact findCopy_absent fuel (i + 1) fun r above below => absent r (by omega) (by omega)

theorem findCopy_present {offset r : Nat} (here : g.server offset r = s) (copy : r ≤ g.level) :
    ∀ fuel i, i ≤ r → r < i + fuel → XpnFlush.findCopy mdata s offset fuel i = some (g.localOffset offset r : Int)
  | 0, _, above, below => by omega
  | fuel + 1, i, above, below => by
    rw [XpnFlush.findCopy, describes.calculate]
    dsimp only
    rcases Nat.eq_or_lt_of_le above with same | later
    · subst same
      rw [if_pos (by exact_mod_cast here)]
    · have apart : g.server offset i ≠ s := by
        intro same
        have := g.copies_apart (by omega) copy (same.trans here.symm)
        omega
      rw [if_neg (by exact_mod_cast apart)]
      exact findCopy_present here copy fuel (i + 1) later (by omega)

/-- The search stops at the next block of the rank, or behind the end of the file. -/
inductive Found (g : Layout) (source : List Byte) (s b : Nat) : Int × Option Int → Prop
  | here {next r : Nat} (copy : r ≤ g.level) (server : g.server (next * g.bs) r = s) (after : b ≤ next)
      (skipped : ∀ c, b ≤ c → c < next → ¬Holds g s c) :
      Found g source s b (((next * g.bs : Nat) : Int), some (g.localOffset (next * g.bs) r : Int))
  | ended {next : Nat} (past : source.length ≤ next * g.bs) (after : b ≤ next)
      (skipped : ∀ c, b ≤ c → c ≤ next → ¬Holds g s c) :
      Found g source s b (((next * g.bs : Nat) : Int), none)

theorem search_found (size : mdata.fileSize = source.length) {stop : Nat} (ended : source.length ≤ stop * g.bs) :
    ∀ {fuel b}, stop - b < fuel → ∃ found,
      XpnFlush.search mdata g.bs g.level s fuel (((b * g.bs : Nat) : Int) - g.bs) = some found ∧ Found g source s b found
  | 0, b, enough => by omega
  | fuel + 1, b, enough => by
    rw [XpnFlush.search, Int.sub_add_cancel]
    by_cases holds : Holds g s b
    · obtain ⟨r, copy, here⟩ := holds
      rw [findCopy_present describes here copy (g.level + 1) 0 (Nat.zero_le r) (by omega)]
      exact ⟨_, rfl, .here copy here (Nat.le_refl b) fun c above below => by omega⟩
    · have only : ∀ c, b ≤ c → c ≤ b → ¬Holds g s c := by
        intro c above below
        rw [Nat.le_antisymm below above]
        exact holds
      rw [findCopy_absent describes (g.level + 1) 0 fun r _ below same => holds ⟨r, by omega, same⟩, size]
      by_cases past : source.length ≤ b * g.bs
      · dsimp only
        rw [if_neg (by omega)]
        exact ⟨_, rfl, .ended past (Nat.le_refl b) only⟩
      · have inside : b < stop := by
          by_contra beyond
          exact past (ended.trans (Nat.mul_le_mul_right _ (Nat.le_of_not_lt beyond)))
        obtain ⟨found, searched, spec⟩ := search_found size ended (by omega : stop - (b + 1) < fuel)
        have step : ((b * g.bs : Nat) : Int) = (((b + 1) * g.bs : Nat) : Int) - g.bs := by
          rw [Nat.add_mul]
          push_cast
          omega
        dsimp only
        rw [if_pos (by omega), step, searched]
        refine ⟨found, rfl, ?_⟩
        cases spec with
        | here copy server after skipped =>
          refine .here copy server (by omega) fun c above below => ?_
          rcases Nat.eq_or_lt_of_le above with same | later
          · exact same ▸ holds
          · exact skipped c later below
        | ended past after skipped =>
          refine .ended past (by omega) fun c above below => ?_
          rcases Nat.eq_or_lt_of_le above with same | later
          · exact same ▸ holds
          · exact skipped c later below

omit describes in
theorem Preloaded.pread_source {file : LocalFile} (preloaded : Preloaded g source s (some file)) {r : Nat} (copy : r ≤ g.level)
    (server : g.server (b * g.bs) r = s) (inside : b * g.bs ≤ source.length) :
    pread file.data (g.localOffset (b * g.bs) r) g.bs = piece g source b ∧ g.localOffset (b * g.bs) r ≤ file.data.length := by
  obtain ⟨final, complete, kept⟩ := preloaded
  rw [Option.map_some, Option.getD_some] at kept
  rw [kept, localOffset_held copy server inside]
  by_cases more : b < final
  · obtain ⟨rest, split, -⟩ := held_split (g := g) source s more.le
    exact ⟨pread_held ⟨r, copy, server⟩ more, by rw [split, List.length_append]; omega⟩
  · -- The block lies exactly behind the end of the source.
    have past : source.length ≤ b * g.bs := complete.trans (Nat.mul_le_mul_right _ (Nat.le_of_not_lt more))
    obtain ⟨rest, split, empty⟩ := held_split (g := g) source s (Nat.le_of_not_lt more)
    rw [split, empty complete, List.append_nil]
    refine ⟨?_, Nat.le_refl _⟩
    rw [piece_eq_nil_iff.mpr past]
    simp [pread]

omit describes in
theorem Preloaded.absent (preloaded : Preloaded g source s none) (holds : Holds g s b) : source.length ≤ b * g.bs := by
  obtain ⟨final, complete, kept⟩ := preloaded
  by_cases more : b < final
  · obtain ⟨rest, split, -⟩ := held_split (g := g) source s (Nat.succ_le_of_lt more)
    rw [← kept, held_next holds] at split
    simp only [Option.map_none, Option.getD_none] at split
    have nothing := List.append_eq_nil_iff.mp (List.append_eq_nil_iff.mp split.symm).1
    exact piece_eq_nil_iff.mp nothing.2
  · exact complete.trans (Nat.mul_le_mul_right _ (Nat.le_of_not_lt more))

/-- What a rank writes when it comes to block `b`: pieces of the source, and all of its own. -/
structure Restores (g : Layout) (source : List Byte) (s b : Nat) (writes : List (Nat × List Byte)) : Prop where
  pieces : ∀ write ∈ writes, write.2 = pread source write.1 write.2.length
  all : ∀ c, b ≤ c → Holds g s c → c * g.bs < source.length → (c * g.bs, piece g source c) ∈ writes

omit describes in
theorem Restores.nothing (past : ∀ c, b ≤ c → Holds g s c → source.length ≤ c * g.bs) : Restores g source s b [] :=
  ⟨by simp, fun c above holds inside => absurd (past c above holds) (by omega)⟩

theorem flush_restores (size : mdata.fileSize = source.length) {file : Option LocalFile} (preloaded : Preloaded g source s file)
    (stamped : Bool) {stop searchFuel : Nat} (last : Holds g s stop) (ended : source.length ≤ stop * g.bs)
    (deep : stop < searchFuel) : ∀ {fuel b} (readSize : Int), b ≤ stop → stop - b < fuel → ∃ writes,
      XpnFlush.copyLoop mdata g.bs g.level s file stamped searchFuel fuel (((b * g.bs : Nat) : Int) - g.bs) readSize = some writes ∧
        Restores g source s b writes
  | 0, _, _, _, enough => by omega
  | fuel + 1, b, readSize, before, enough => by
    obtain ⟨found, searched, spec⟩ := search_found (s := s) describes size ended (by omega : stop - b < searchFuel)
    rw [XpnFlush.copyLoop, searched, Option.bind_some]
    cases spec with
    | @ended next past after skipped =>
      have behind : ∀ c, b ≤ c → Holds g s c → source.length ≤ c * g.bs := by
        intro c above holds
        have later : next ≤ c := by
          by_contra earlier
          exact skipped c above (by omega) holds
        exact past.trans (Nat.mul_le_mul_right _ later)
      dsimp only
      split
      next going =>
        have early : next < stop := by
          by_contra beyond
          exact skipped stop before (by omega) last
        have step : ((next * g.bs : Nat) : Int) = (((next + 1) * g.bs : Nat) : Int) - g.bs := by
          rw [Nat.add_mul]
          push_cast
          omega
        rw [step]
        obtain ⟨writes, runs, restores⟩ := flush_restores size preloaded stamped last ended deep readSize early
          (by omega : stop - (next + 1) < fuel)
        refine ⟨writes, runs, restores.pieces, fun c above holds inside => ?_⟩
        exact absurd (behind c above holds) (by omega)
      next => exact ⟨[], rfl, Restores.nothing behind⟩
    | @here next r copy server after skipped =>
      have later : ∀ c, b ≤ c → Holds g s c → next ≤ c := by
        intro c above holds
        by_contra earlier
        exact skipped c above (by omega) holds
      have behind : source.length ≤ next * g.bs → Restores g source s b [] := fun past =>
        Restores.nothing fun c above holds => past.trans (Nat.mul_le_mul_right _ (later c above holds))
      cases file with
      | none =>
        refine ⟨[], ?_, behind (preloaded.absent ⟨r, copy, server⟩)⟩
        dsimp only
        rw [if_neg (by simp)]
        split <;> rfl
      | some file =>
        dsimp only
        rw [size]
        rcases Nat.lt_or_ge (next * g.bs) source.length with inside | past
        · obtain ⟨reads, present⟩ := preloaded.pread_source copy server inside.le
          have some_left : piece g source next ≠ [] := fun none_left => by
            have := piece_eq_nil_iff.mp none_left
            omega
          have early : next < stop := by
            by_contra beyond
            have := ended.trans (Nat.mul_le_mul_right g.bs (Nat.le_of_not_lt beyond))
            omega
          have reached : ¬((some file).isSome && stamped && decide ((XpnFlush.stSize (some file) : Int) < g.localOffset (next * g.bs) r)) = true := by
            rw [Bool.and_eq_true, decide_eq_true_eq, XpnFlush.stSize]
            rintro ⟨-, short⟩
            omega
          have step : ((next * g.bs : Nat) : Int) = (((next + 1) * g.bs : Nat) : Int) - g.bs := by
            rw [Nat.add_mul]
            push_cast
            omega
          obtain ⟨writes, runs, restores⟩ := flush_restores size preloaded stamped last ended deep
            (piece g source next).length early (by omega : stop - (next + 1) < fuel)
          rw [if_neg reached, if_neg (by omega), Int.toNat_natCast, reads, if_neg (by simpa using some_left), step, runs, ← step,
            Int.toNat_natCast]
          refine ⟨_, rfl, ?_, ?_⟩
          · rintro write (_ | ⟨_, member⟩)
            · exact (pread_length _ _ _).symm
            · exact restores.pieces write member
          · intro c above holds below
            rcases Nat.eq_or_lt_of_le (later c above holds) with same | more
            · rw [← same]
              exact List.mem_cons_self
            · exact List.mem_cons_of_mem _ (restores.all c more holds below)
        · refine ⟨[], ?_, behind past⟩
          split
          · rfl
          · split
            · rfl
            next close =>
              have at_end : next * g.bs ≤ source.length := by omega
              rw [Int.toNat_natCast, (preloaded.pread_source copy server at_end).1, piece_eq_nil_iff.mpr past]
              rfl

theorem flush_copy (size : mdata.fileSize = source.length) (magic : xpnCheckMagicNumber mdata = true) {file : Option LocalFile}
    (preloaded : Preloaded g source s file) (stamped : Bool) {stop fuel : Nat} (last : Holds g s stop)
    (ended : source.length ≤ stop * g.bs) (enough : stop < fuel) : ∃ writes,
      XpnFlush.copy mdata file stamped g.bs g.level s fuel = some (0, writes) ∧ Restores g source s 0 writes := by
  obtain ⟨writes, runs, restores⟩ := flush_restores describes size preloaded stamped last ended enough (-1)
    (Nat.zero_le stop) (by omega : stop - 0 < fuel)
  rw [Nat.zero_mul, Int.natCast_zero, Int.zero_sub] at runs
  refine ⟨writes, ?_, restores⟩
  rw [XpnFlush.copy, if_pos magic, runs, Option.map_some]

end

/-- The writes of all ranks together make up the source, in whatever order they are done. -/
theorem union_restores {writes : Nat → List (Nat × List Byte)} (restores : ∀ rank < g.n, Restores g source rank 0 (writes rank))
    {order : List (Nat × List Byte)} (any : order.Perm ((List.range g.n).flatMap writes)) :
    order.foldl (fun file write => pwrite file write.1 write.2) [] = source := by
  apply foldl_pwrite_pieces order
  · intro write member
    obtain ⟨rank, inside, here⟩ := List.mem_flatMap.mp (any.mem_iff.mp member)
    exact (restores rank (List.mem_range.mp inside)).pieces write here
  · exact Nat.zero_le _
  · intro i below
    right
    have split := Nat.div_add_mod' i g.bs
    have rest := Nat.mod_lt i g.bs_pos
    have inside := g.server_lt (i / g.bs * g.bs) 0
    have member := (restores _ inside).all (i / g.bs) (Nat.zero_le _) ⟨0, Nat.zero_le _, rfl⟩ (by omega)
    refine ⟨_, any.mem_iff.mpr (List.mem_flatMap.mpr ⟨_, List.mem_range.mpr inside, member⟩), ?_, ?_⟩
    · exact Nat.div_mul_le_self i g.bs
    · simp only [piece, length_pread]
      omega

theorem layout_round_trip (g : Layout) (source : List Byte) {destPath : Path} (first : hash destPath g.n 1 = g.first)
    (xpnPathLen : Nat) (stamped : Nat → Bool) :
    ∃ bound, ∀ fuel, bound ≤ fuel → ∃ (files : Nat → Option LocalFile) (writes : Nat → List (Nat × List Byte)),
      (∀ rank < g.n, XpnPreload.copy destPath xpnPathLen source g.bs g.level rank g.n fuel = some (files rank)) ∧
      (∀ rank < g.n, XpnFlush.copy (XpnFlush.readMdata (files g.first)) (files rank) (stamped rank) g.bs g.level rank fuel =
        some (0, writes rank)) ∧
      ∀ order : List (Nat × List Byte), order.Perm ((List.range g.n).flatMap writes) →
        order.foldl (fun file write => pwrite file write.1 write.2) [] = source := by
  have stops : ∀ rank : Fin g.n, ∃ stop, source.length ≤ stop * g.bs ∧ Holds g rank stop := by
    intro rank
    obtain ⟨stop, past, last⟩ := exists_holds rank.isLt source.length
    exact ⟨stop, past.trans (Nat.le_mul_of_pos_right _ g.bs_pos), last⟩
  choose stop ended last using stops
  refine ⟨Finset.univ.sup stop + 1, fun fuel enough => ?_⟩
  have deep : ∀ rank, stop rank < fuel := fun rank => (Finset.le_sup (Finset.mem_univ rank)).trans_lt enough
  choose files preloads preloaded header using
    fun rank : Fin g.n => preload_copy first xpnPathLen (last rank) (ended rank) (deep rank)
  let mdata := { xpnCreateMetadataExtern destPath g.n g.bs g.level with fileSize := (source.length : Int) }
  have created := describes_created first
  have describes : g.Describes mdata := ⟨created.blockSize, created.replicationLevel, created.firstNode, created.servers, created.plain⟩
  choose writes flushes restores using
    fun rank : Fin g.n => flush_copy describes rfl rfl (preloaded rank) (stamped rank) (last rank) (ended rank) (deep rank)
  refine ⟨fun rank => if inside : rank < g.n then files ⟨rank, inside⟩ else none,
    fun rank => if inside : rank < g.n then writes ⟨rank, inside⟩ else [], ?_, ?_, fun order any => ?_⟩
  · intro rank inside
    dsimp only
    rw [dif_pos inside]
    exact preloads ⟨rank, inside⟩
  · intro rank inside
    dsimp only
    rw [dif_pos inside, dif_pos inside, dif_pos g.first_lt, header ⟨g.first, g.first_lt⟩ rfl]
    exact flushes ⟨rank, inside⟩
  · refine union_restores (fun rank inside => ?_) any
    rw [dif_pos inside]
    exact restores ⟨rank, inside⟩

/-- Every rank runs `xpn_preload` and then `xpn_flush` on its own local directory: both end, and
the writes of the ranks, in any order, leave the source in a destination that was empty. -/
theorem flush_undoes_preload (source : List Byte) (blocksize n level : Nat) (blocks : 0 < blocksize) (fits : level + 1 ≤ n)
    (preloadDir flushDir name : Path) (named : name ≠ []) (plain : slash ∉ name) (hashed : 0 ≤ hash (preloadDir ++ slash :: name) n 1)
    (preloadPathLen flushPathLen : Nat) (below : flushPathLen ≤ flushDir.length) (stamped : Nat → Bool) :
    let master := hash ((flushDir ++ slash :: name).drop flushPathLen) n 1
    ∃ bound, ∀ fuel, bound ≤ fuel → ∃ (files : Nat → Option LocalFile) (writes : Nat → List (Nat × List Byte)),
      (∀ rank < n, XpnPreload.copy (preloadDir ++ slash :: name) preloadPathLen source blocksize level rank n fuel =
        some (files rank)) ∧
      (∀ rank < n, XpnFlush.copy (XpnFlush.readMdata (files master.toNat)) (files rank) (stamped rank) blocksize level rank fuel =
        some (0, writes rank)) ∧
      ∀ order : List (Nat × List Byte), order.Perm ((List.range n).flatMap writes) →
        order.foldl (fun file write => pwrite file write.1 write.2) [] = source := by
  intro master
  have positive : 0 < n := by omega
  have bounded : hash (preloadDir ++ slash :: name) n 1 < n := Int.tmod_lt_of_pos _ (by exact_mod_cast positive)
  let g : Layout := ⟨blocksize, n, level, (hash (preloadDir ++ slash :: name) n 1).toNat, blocks, fits, by omega⟩
  have chosen : master.toNat = g.first := by
    rw [show master = hash ((flushDir ++ slash :: name).drop flushPathLen) n 1 from rfl, List.drop_append_of_le_length below, hash_file named plain, ← hash_file (d := preloadDir) named plain]
  rw [chosen]
  exact layout_round_trip g source (Int.toNat_of_nonneg hashed).symm preloadPathLen stamped

/-- Five bytes in blocks of two, in two copies on three servers. -/
theorem flush_undoes_preload_copies :
    let master := hash (([47, 100] ++ slash :: [97]).drop 1) 3 1
    ∃ bound, ∀ fuel, bound ≤ fuel → ∃ (files : Nat → Option LocalFile) (writes : Nat → List (Nat × List Byte)),
      (∀ rank < 3, XpnPreload.copy ([47, 112] ++ slash :: [97]) 2 [7, 8, 9, 10, 11] 2 1 rank 3 fuel = some (files rank)) ∧
      (∀ rank < 3, XpnFlush.copy (XpnFlush.readMdata (files master.toNat)) (files rank) true 2 1 rank fuel =
        some (0, writes rank)) ∧
      ∀ order : List (Nat × List Byte), order.Perm ((List.range 3).flatMap writes) →
        order.foldl (fun file write => pwrite file write.1 write.2) [] = [7, 8, 9, 10, 11] :=
  flush_undoes_preload [7, 8, 9, 10, 11] 2 3 1 (by decide) (by decide) [47, 112] [47, 100] [97] (by decide) (by decide) (by decide) 2 1
    (by decide) fun _ => true

end Xpn.Proofs.RoundTrip
