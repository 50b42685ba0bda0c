import Xpn.Truncate
import Xpn.Proofs.Namespace
import Xpn.Proofs.OperationMatrix

/-! What is left of a file's metadata after an open with O_TRUNC. The servers truncate
their local files with the header in them, and the client writes back the record it has
read before. -/

namespace Xpn.Proofs.Truncate
open Xpn.Cluster Proofs.Namespace

variable {part : XpnPartition} {cluster after : Cluster} {path : Path} {flags : Nat} {mdata : XpnMetadata}

/-- A file with its record on all servers with metadata. -/
structure Existing (part : XpnPartition) (cluster : Cluster) (path : Path) (mdata : XpnMetadata) : Prop where
  servers : 0 < part.dataNserv
  blocks : 0 < part.blockSize
  valid : xpnCheckMagicNumber mdata
  described : ∀ i, i ≤ part.replicationLevel → cluster.files (nodeServer part path i) path = some mdata

/-- Only the size of the record has changed on the servers with metadata, and it is 0. -/
def Reset (part : XpnPartition) (cluster : Cluster) (path : Path) (mdata : XpnMetadata) : Prop :=
  ∀ i, i ≤ part.replicationLevel → cluster.files (nodeServer part path i) path = some { mdata with fileSize := 0 }

/-- The sizes seen through the new descriptor: by `fstat`, and after a first write. Neither goes by
a number that is no server's. -/
def ShowsEmpty (part : XpnPartition) (cluster : Cluster) (path : Path) (fd : Nat) : Prop :=
  (∃ later, cluster.xpnSimpleFstat part fd = .done (later, 0)) ∧
    ∀ size, cluster.xpnWriteFile part fd size ≠ .stray ∧ ∀ later, cluster.xpnWriteFile part fd size = .done later →
      ∀ i, i ≤ part.replicationLevel → ∃ stored, later.files (nodeServer part path i) path = some stored ∧ stored.fileSize = size

def masterDir (part : XpnPartition) (path : Path) : Nat := (hash path part.dataNserv 0).toNat

/-- The hash of the file and, where it is not created, the one of its directory are servers. -/
def Addressed (part : XpnPartition) (path : Path) (flags : Nat) : Prop :=
  0 ≤ hash path part.dataNserv 1 ∧ (hasFlag flags oCreat = true ∨ 0 ≤ hash path part.dataNserv 0)

/-- The record itself leads to servers only: its first node, where `fstat` starts from, and the
places of all blocks of a file. -/
def LeadsToServers (part : XpnPartition) (mdata : XpnMetadata) : Prop :=
  InTable part.dataNserv (xpnReadMetadataServer (fun _ => false) part.dataNserv part.replicationLevel 0 mdata.firstNode) ∧
    (mdata.type ≠ xpnDir → ∀ block r : Nat, r ≤ part.replicationLevel →
      InTable part.dataNserv (xpnCalculateBlockMdata mdata (block * part.blockSize : Nat) r).2)

private theorem inTable_hash (path : Path) (servers : 0 < part.dataNserv) (isFile : Int) :
    InTable part.dataNserv (hash path part.dataNserv isFile) ↔ 0 ≤ hash path part.dataNserv isFile :=
  and_iff_left (Int.tmod_lt_of_pos _ (by omega))

private theorem node_zero (servers : 0 < part.dataNserv) (node : 0 ≤ hash path part.dataNserv 1) :
    nodeServer part path 0 = (hash path part.dataNserv 1).toNat := by
  have below : hash path part.dataNserv 1 < part.dataNserv := Int.tmod_lt_of_pos _ (by omega)
  simp only [nodeServer, Nat.cast_zero, Int.add_zero]
  rw [Int.tmod_eq_of_lt node below]

theorem Existing.read (existing : Existing part cluster path mdata) (node : 0 ≤ hash path part.dataNserv 1) :
    cluster.xpnReadMetadata part path = (0, mdata) := by
  have stored := existing.described 0 (Nat.zero_le _)
  rw [node_zero existing.servers node] at stored
  simp only [xpnReadMetadata, stored, xpnServerOpReadMdata, existing.valid, if_true]

private theorem opened_inside (servers : 0 < part.dataNserv) (opened : cluster.xpnOpenFile part path flags = .done after) :
    Addressed part path flags ∧ cluster.xpnInternalOpen part path flags = some after := by
  simp only [xpnOpenFile, inTable_hash path servers] at opened
  split at opened
  · split at opened <;> cases opened
  · split at opened
    · cases opened
    next node =>
      split at opened
      · cases opened
      · split at opened
        · cases opened
        next dir =>
          split at opened
          · cases opened
          · exact ⟨⟨not_not.mp node, not_not.mp dir⟩, by rw [← CallResult.done.inj opened]; assumption⟩

private theorem opened_of_addressed (servers : 0 < part.dataNserv) (addressed : Addressed part path flags)
    (returned : cluster.xpnOpenFile part path flags ≠ .failed) : ∃ after, cluster.xpnOpenFile part path flags = .done after := by
  revert returned
  simp only [xpnOpenFile, inTable_hash path servers, addressed.1, addressed.2, not_true_eq_false, if_true, if_false]
  split
  · simp
  · split
    · simp
    · split
      · simp
      · simp

private theorem truncated (trunc : hasFlag flags oTrunc = true) {stored : Option XpnMetadata} {header : XpnMetadata}
    (opened : filesystemOpen flags stored = some header) : header = XpnMetadata.zero := by
  cases stored with
  | none =>
    rw [filesystemOpen] at opened
    split at opened
    · exact (Option.some.inj opened).symm
    · cases opened
  | some old =>
    rw [filesystemOpen, if_pos trunc] at opened
    split at opened
    · cases opened
    · exact (Option.some.inj opened).symm

/-- The new descriptor comes last, and its servers have the file. With O_CREAT the record
that was read is written back, without it one server has its file truncated. -/
private theorem opened_cases (existing : Existing part cluster path mdata) (trunc : hasFlag flags oTrunc = true)
    (opened : cluster.xpnOpenFile part path flags = .done after) :
    (∃ handles, after.opened = cluster.opened ++ [⟨path, flags, mdata, 0, handles⟩] ∧
      ∀ serv, handles serv = true → (after.files serv path).isSome) ∧
      (hasFlag flags oCreat = true ∧ (∀ i, i ≤ part.replicationLevel → after.files (nodeServer part path i) path = some mdata) ∨
        hasFlag flags oCreat = false ∧
          ∀ serv, after.files serv path = if serv = masterDir part path then some XpnMetadata.zero else cluster.files serv path) := by
  obtain ⟨⟨node, -⟩, opened⟩ := opened_inside existing.servers opened
  · have up : ¬((0 : Int) < 0 ∧ (!hasFlag flags oCreat) = true) := fun down => absurd down.1 (by decide)
    simp only [xpnInternalOpen, existing.read node, if_neg up, existing.valid, if_true] at opened
    cases creat : hasFlag flags oCreat with
    | true =>
      simp only [creat, if_true] at opened
      split at opened
      case isFalse => cases opened
      case isTrue all =>
        cases opened
        have files : ∀ serv, ((cluster.onServers path (affected part mdata path) (filesystemOpen flags)).xpnUpdateMetadata part
            mdata path false).files serv path = if inNode part path serv then some mdata
              else if affected part mdata path serv then filesystemOpen flags (cluster.files serv path)
              else cluster.files serv path := by
          intro serv
          simp only [xpnUpdateMetadata, onServers_same, xpnServerOpWriteMdata, Bool.false_eq_true, if_false]
        refine ⟨⟨affected part mdata path, rfl, fun serv handle => ?_⟩, Or.inl ⟨rfl, fun i copy => ?_⟩⟩
        · have inside : serv < part.dataNserv := of_decide_eq_true (Bool.and_eq_true_iff.mp handle).1
          have made := List.all_eq_true.mp all serv (List.mem_range.mpr inside)
          rw [handle, Bool.not_true, Bool.false_or] at made
          change (Cluster.files _ serv path).isSome = true
          rw [files, if_pos handle]
          split
          · rfl
          · exact made
        · have inside : inNode part path (nodeServer part path i) := inWindow_server node copy
          change Cluster.files _ _ path = _
          rw [files, if_pos inside]
    | false =>
      simp only [creat, Bool.false_eq_true, if_false] at opened
      split at opened
      case isFalse => cases opened
      case isTrue made =>
        cases opened
        obtain ⟨header, stored⟩ := Option.isSome_iff_exists.mp made
        rw [truncated trunc stored] at stored
        have files : ∀ serv, (cluster.onServers path (· == (hash path part.dataNserv 0).toNat) (filesystemOpen flags)).files serv path =
            if serv = masterDir part path then some XpnMetadata.zero else cluster.files serv path := by
          intro serv
          rw [onServers_same]
          by_cases here : serv = masterDir part path
          · rw [if_pos here, here]
            simp only [masterDir, beq_self_eq_true, if_true, stored]
          · rw [if_neg here, if_neg]
            exact fun same => here (beq_iff_eq.mp same)
        refine ⟨⟨(· == (hash path part.dataNserv 0).toNat), rfl, fun serv handle => ?_⟩, Or.inr ⟨rfl, files⟩⟩
        have here : serv = masterDir part path := beq_iff_eq.mp handle
        change (Cluster.files _ serv path).isSome = true
        rw [files, if_pos here]
        rfl

private theorem zero_invalid : ¬xpnCheckMagicNumber XpnMetadata.zero := by
  decide

private theorem sized (mdata : XpnMetadata) : { mdata with fileSize := 0 } = mdata ↔ mdata.fileSize = 0 := by
  constructor
  · intro same
    exact (congrArg XpnMetadata.fileSize same).symm
  · intro empty
    rw [← empty]

private theorem node_of_inside {serv : Nat} (inside : inNode part path serv) :
    ∃ i, i ≤ part.replicationLevel ∧ nodeServer part path i = serv := by
  obtain ⟨i, copy, same⟩ := inWindow_iff.mp inside
  refine ⟨i, copy, ?_⟩
  rw [nodeServer, Int.add_comm, same]
  rfl

private theorem reset_iff (existing : Existing part cluster path mdata) (trunc : hasFlag flags oTrunc = true)
    (opened : cluster.xpnOpenFile part path flags = .done after) : Reset part after path mdata ↔
      mdata.fileSize = 0 ∧ (hasFlag flags oCreat = true ∨ ¬inNode part path (masterDir part path)) := by
  have node := (opened_inside existing.servers opened).1.1
  obtain ⟨-, ⟨creat, kept⟩ | ⟨creat, files⟩⟩ := opened_cases existing trunc opened
  · constructor
    · intro reset
      have same := (reset 0 (Nat.zero_le _)).symm.trans (kept 0 (Nat.zero_le _))
      exact ⟨(sized mdata).mp (Option.some.inj same), Or.inl creat⟩
    · intro ⟨empty, _⟩ i copy
      rw [kept i copy, (sized mdata).mpr empty]
  · constructor
    · intro reset
      have outside : ¬inNode part path (masterDir part path) := by
        intro inside
        obtain ⟨i, copy, same⟩ := node_of_inside inside
        have lost := reset i copy
        rw [same, files, if_pos rfl] at lost
        apply zero_invalid
        rw [Option.some.inj lost]
        exact existing.valid
      have apart : nodeServer part path 0 ≠ masterDir part path := by
        intro same
        apply outside
        rw [← same]
        exact inWindow_server node (Nat.zero_le _)
      have same := (reset 0 (Nat.zero_le _)).symm
      rw [files, if_neg apart, existing.described 0 (Nat.zero_le _)] at same
      exact ⟨(sized mdata).mp (Option.some.inj same), Or.inr outside⟩
    · intro ⟨empty, where_⟩ i copy
      have apart : nodeServer part path i ≠ masterDir part path := by
        intro same
        apply where_.resolve_left (by rw [creat]; exact Bool.false_ne_true)
        rw [← same]
        exact inWindow_server node copy
      rw [files, if_neg apart, existing.described i copy, (sized mdata).mpr empty]

private theorem reopened (header : XpnMetadata) : filesystemOpen (oRdwr ||| oCreat) (some header) = some header := rfl

private theorem fetched_some (selected : Nat → Bool) {header : XpnMetadata} {serv : Nat} (stored : cluster.files serv path = some header) :
    (cluster.onServers path selected (filesystemOpen (oRdwr ||| oCreat))).files serv path = some header := by
  rw [onServers_same, stored, reopened, ite_self]

private theorem fetched_there {selected : Nat → Bool} {serv : Nat} (there : selected serv = true ∨ (cluster.files serv path).isSome) :
    ((cluster.onServers path selected (filesystemOpen (oRdwr ||| oCreat))).files serv path).isSome := by
  cases stored : cluster.files serv path with
  | some header =>
    rw [fetched_some selected stored]
    rfl
  | none =>
    rw [stored] at there
    have chosen := there.resolve_right (by decide)
    rw [onServers_same, if_pos chosen, stored]
    rfl

private theorem fetched_read (existing : Existing part cluster path mdata) (node : 0 ≤ hash path part.dataNserv 1)
    (reset : Reset part after path mdata) (selected : Nat → Bool) :
    (after.onServers path selected (filesystemOpen (oRdwr ||| oCreat))).xpnReadMetadata part path =
      (0, { mdata with fileSize := 0 }) :=
  Existing.read ⟨existing.servers, existing.blocks, existing.valid, fun i copy => fetched_some selected (reset i copy)⟩ node

/-- The numbers that the writes at the start of a file go by are those of the places of its blocks. -/
private theorem entries_inside_iff (blocks : 0 < part.blockSize) {fd : XpnFiledesc} (same : fd.part = part) (size_eq : fd.blockSize = part.blockSize) :
    (∀ size, ∀ entry ∈ writeEntries fd (fun _ => ⟨[], 0⟩) size 0, InTable part.dataNserv entry.1) ↔
      ∀ block r : Nat, r ≤ part.replicationLevel → InTable part.dataNserv (xpnCalculateBlockMdata fd.mdata (block * part.blockSize : Nat) r).2 := by
  subst same
  have starts (size start : Nat) : (∃ piece ∈ requestPieces fd.part.blockSize size 0 size 0, piece.1 = start) ↔
      start < size ∧ (start = 0 ∨ 0 < start ∧ fd.part.blockSize ∣ 0 + start) :=
    piece_starts blocks (Nat.le_add_left _ _) start
  simp only [writeEntries, writeEntries_pieces, List.mem_flatMap, copyEntries, List.mem_map, List.mem_range, Nat.lt_succ_iff,
    xpnWriteGetBlock, size_eq]
  constructor
  · intro inside block r copy
    obtain ⟨piece, member, start⟩ := (starts _ (block * fd.part.blockSize)).mpr
      ⟨Nat.lt_succ_self _, by
        rcases Nat.eq_zero_or_pos (block * fd.part.blockSize) with zero | later
        · exact Or.inl zero
        · exact Or.inr ⟨later, by rw [Nat.zero_add]; exact Nat.dvd_mul_left _ _⟩⟩
    have := inside _ _ ⟨piece, member, r, copy, rfl⟩
    rwa [start, Nat.zero_add] at this
  · rintro inside size entry ⟨piece, member, r, copy, rfl⟩
    have start := ((starts size piece.1).mp ⟨piece, member, rfl⟩).2
    rw [Nat.zero_add] at start ⊢
    obtain ⟨block, whole⟩ : fd.part.blockSize ∣ piece.1 := by
      rcases start with zero | ⟨-, divides⟩
      · rw [zero]
        exact Nat.dvd_zero _
      · exact divides
    rw [whole, Nat.mul_comm]
    exact inside block r copy

private theorem shows_empty_iff (existing : Existing part cluster path mdata) (trunc : hasFlag flags oTrunc = true)
    (node : 0 ≤ hash path part.dataNserv 1) (reset : Reset part after path mdata)
    (empty : mdata.fileSize = 0) {handles : Nat → Bool}
    (last : after.opened = cluster.opened ++ [⟨path, flags, mdata, 0, handles⟩])
    (there : ∀ serv, handles serv = true → (after.files serv path).isSome) :
    ShowsEmpty part after path cluster.opened.length ↔ LeadsToServers part mdata := by
  have file : after.opened[cluster.opened.length]? = some ⟨path, flags, mdata, 0, handles⟩ := by
    rw [last, List.getElem?_concat_length]
  have named := (inTable_hash path existing.servers 1).mpr node
  have writes : ¬((flags : Int) = oRdonly) := by
    intro none_
    obtain rfl : flags = 0 := Int.ofNat_inj.mp none_
    revert trunc
    decide
  have held : ∀ masterNode, ((after.onServers path (fun serv => serv == masterNode && !handles serv)
      (filesystemOpen (oRdwr ||| oCreat))).files masterNode path).isSome := by
    intro masterNode
    apply fetched_there
    cases handle : handles masterNode with
    | true => exact Or.inr (there masterNode handle)
    | false => exact Or.inl (by simp only [beq_self_eq_true, Bool.not_false, Bool.and_self])
  have stats : (∃ later, after.xpnSimpleFstat part cluster.opened.length = .done (later, 0)) ↔
      InTable part.dataNserv (xpnReadMetadataServer (fun _ => false) part.dataNserv part.replicationLevel 0 mdata.firstNode) := by
    simp only [xpnSimpleFstat, file, fetched_read existing node reset, named, and_true]
    constructor
    · rintro ⟨later, stat⟩
      split at stat
      next inside => exact inside
      next => cases stat
    · intro inside
      rw [if_pos inside, if_neg]
      · exact ⟨_, rfl⟩
      · rintro (missing | negative)
        · exact absurd (held _) (Option.not_isSome_iff_eq_none.mpr (Option.isNone_iff_eq_none.mp missing))
        · exact absurd negative (by decide)
  have entries : (∀ size, ∀ entry ∈ writeEntries (OpenFile.filedesc part ⟨path, flags, mdata, 0, handles⟩) (fun _ => ⟨[], 0⟩) size 0,
      InTable part.dataNserv entry.1) ↔ ∀ block r : Nat, r ≤ part.replicationLevel →
        InTable part.dataNserv (xpnCalculateBlockMdata mdata (block * part.blockSize : Nat) r).2 :=
    entries_inside_iff existing.blocks rfl rfl
  have grows : ∀ size later, after.xpnSimpleWrite part cluster.opened.length size = some later →
      ∀ i, i ≤ part.replicationLevel → ∃ stored, later.files (nodeServer part path i) path = some stored ∧ stored.fileSize = size := by
    intro size later wrote i copy
    simp only [Cluster.xpnSimpleWrite, file, Nat.zero_add, empty] at wrote
    split at wrote
    case isTrue none_ =>
      cases wrote
      exact ⟨_, reset i copy, congrArg Nat.cast none_.symm⟩
    case isFalse some_ =>
      split at wrote
      case isTrue => cases wrote
      case isFalse =>
        split at wrote
        case isFalse => cases wrote
        case isTrue =>
          rw [if_pos (by omega)] at wrote
          cases wrote
          refine ⟨{ mdata with fileSize := size }, ?_, rfl⟩
          have inside : inNode part path (nodeServer part path i) := inWindow_server node copy
          change Cluster.files _ _ path = _
          rw [xpnUpdateMetadata, onServers_same, if_pos inside, if_pos rfl, fetched_some _ (reset i copy), Option.map_some,
            xpnServerOpWriteMdataFileSize, if_pos]
          change (0 : Int) < size
          omega
  have strays : ∀ size, after.xpnWriteFile part cluster.opened.length size = .stray ↔ (size ≠ 0 ∧ mdata.type ≠ xpnDir) ∧
      ∃ entry ∈ writeEntries (OpenFile.filedesc part ⟨path, flags, mdata, 0, handles⟩) (fun _ => ⟨[], 0⟩) size 0,
        ¬InTable part.dataNserv entry.1 := by
    intro size
    simp only [xpnWriteFile, file, writes, false_or]
    split
    next outside => exact iff_of_true rfl outside
    next inside =>
      refine iff_of_false ?_ inside
      split <;> simp
  rw [ShowsEmpty, LeadsToServers, stats, ← entries]
  refine and_congr_right fun _ => ?_
  constructor
  · intro shows file size entry member
    by_contra outside
    rcases Nat.eq_zero_or_pos size with rfl | some_
    · cases member
    · exact (shows size).1 ((strays size).mpr ⟨⟨some_.ne', file⟩, entry, member, outside⟩)
  · intro inside size
    refine ⟨fun outside => ?_, fun later wrote => ?_⟩
    · obtain ⟨⟨-, file⟩, entry, member, outside⟩ := (strays size).mp outside
      exact outside (inside file size entry member)
    · rw [xpnWriteFile, file] at wrote
      dsimp only at wrote
      split at wrote
      · cases wrote
      · split at wrote
        · cases wrote
        next written =>
          cases wrote
          exact grows size _ written

/-- Unless it fails, truncating leaves an empty file exactly when the open goes by servers, the
record leads to servers, the file was empty before, and, unless it is created, the server of its
directory has no metadata of it. -/
theorem truncate_resets_iff (existing : Existing part cluster path mdata) (trunc : hasFlag flags oTrunc = true)
    (returned : cluster.xpnOpenFile part path flags ≠ .failed) :
    (∃ after, cluster.xpnOpenFile part path flags = .done after ∧ Reset part after path mdata ∧
      ShowsEmpty part after path cluster.opened.length) ↔
      Addressed part path flags ∧ LeadsToServers part mdata ∧
        mdata.fileSize = 0 ∧ (hasFlag flags oCreat = true ∨ ¬inNode part path (masterDir part path)) := by
  constructor
  · rintro ⟨after, opened, reset, shows⟩
    obtain ⟨⟨handles, last, there⟩, -⟩ := opened_cases existing trunc opened
    obtain ⟨addressed, -⟩ := opened_inside existing.servers opened
    have kept := (reset_iff existing trunc opened).mp reset
    exact ⟨addressed, (shows_empty_iff existing trunc addressed.1 reset kept.1 last there).mp shows, kept⟩
  · rintro ⟨addressed, leads, kept⟩
    obtain ⟨after, opened⟩ := opened_of_addressed existing.servers addressed returned
    obtain ⟨⟨handles, last, there⟩, -⟩ := opened_cases existing trunc opened
    have reset := (reset_iff existing trunc opened).mpr kept
    exact ⟨after, opened, reset, (shows_empty_iff existing trunc addressed.1 reset kept.1 last there).mpr leads⟩

private def twoServers : XpnPartition := ⟨2, 4, 0, -1⟩

private def fileName : Path := [slash, 98]

private def fileRecord (fileSize : Int) : XpnMetadata :=
  { xpnCreateMetadataExtern fileName 2 4 0 with fileSize }

private def oneFile (fileSize : Int) : Cluster where
  files serv path := if path = fileName ∧ serv < 2 then some (fileRecord fileSize) else none
  opened := []

private theorem existing_file (fileSize : Int) : Existing twoServers (oneFile fileSize) fileName (fileRecord fileSize) where
  servers := by decide
  blocks := by decide
  valid := rfl
  described i copy := by
    obtain rfl := Nat.le_zero.mp copy
    rfl

/-- A file of 5 bytes is opened as by `fopen` with "w": its size is still 5. -/
theorem truncate_keeps_size : Existing twoServers (oneFile 5) fileName (fileRecord 5) ∧
    (oneFile 5).xpnOpenFile twoServers fileName (oRdwr ||| oCreat ||| oTrunc) ≠ .failed ∧
    ¬∃ after, (oneFile 5).xpnOpenFile twoServers fileName (oRdwr ||| oCreat ||| oTrunc) = .done after ∧
      Reset twoServers after fileName (fileRecord 5) ∧ ShowsEmpty twoServers after fileName 0 := by
  obtain ⟨after, opened, size⟩ : ∃ after, (oneFile 5).xpnOpenFile twoServers fileName (oRdwr ||| oCreat ||| oTrunc) = .done after ∧
      (after.files 0 fileName).map XpnMetadata.fileSize = some 5 := ⟨_, rfl, by decide⟩
  refine ⟨existing_file 5, by rw [opened]; simp, ?_⟩
  rintro ⟨again, same, reset, -⟩
  obtain rfl := CallResult.done.inj (opened.symm.trans same)
  have kept := congrArg (Option.map XpnMetadata.fileSize) (reset 0 (Nat.zero_le _))
  exact absurd (size.symm.trans kept) (by decide)

private theorem record_leads : LeadsToServers twoServers (fileRecord 0) := by
  refine ⟨by decide, fun _ block r copy => ?_⟩
  have plain : (fileRecord 0).nserv 1 = 0 := rfl
  have place := xpnCalculateBlock_ofNat 4 0 2 (block * 4) r 0
  rw [xpnCalculateBlockMdata, if_pos plain]
  change InTable 2 (xpnCalculateBlock (4 : Nat) (0 : Nat) (2 : Nat) (block * 4 : Nat) r (0 : Nat)).2
  rw [place]
  exact ⟨Int.natCast_nonneg _, Int.ofNat_lt.mpr (Lib.Striping.bin_lt (by decide) _)⟩

/-- A file that is empty already stays empty. -/
theorem truncate_resets_empty : ∃ after,
    (oneFile 0).xpnOpenFile twoServers fileName (oRdwr ||| oCreat ||| oTrunc) = .done after ∧
      Reset twoServers after fileName (fileRecord 0) ∧ ShowsEmpty twoServers after fileName 0 := by
  obtain ⟨after, opened⟩ : ∃ after, (oneFile 0).xpnOpenFile twoServers fileName (oRdwr ||| oCreat ||| oTrunc) = .done after :=
    ⟨_, rfl⟩
  have returned : (oneFile 0).xpnOpenFile twoServers fileName (oRdwr ||| oCreat ||| oTrunc) ≠ .failed := by
    rw [opened]
    simp
  exact (truncate_resets_iff (existing_file 0) (by decide) returned).mpr
    ⟨⟨by decide, Or.inl (by decide)⟩, record_leads, rfl, Or.inl (by decide)⟩

end Xpn.Proofs.Truncate
