import Xpn.Namespace
import Xpn.Lib.Runs
import Xpn.Proofs.Rows

/-! The files of a cluster against the names that logically exist. Where a file has
its directory entry and its metadata is a matter of its current name; the servers an
operation visits are computed from the metadata it reads. -/

namespace Xpn.Proofs.Namespace
open Xpn.Cluster NamespaceCall Lib.Runs Lib.Striping

variable (part : XpnPartition)

/-- The servers whose listing of the directory shows the file. -/
def dirServer (path : Path) (i : Nat) : Nat := ((hash path part.dataNserv 0 + i).tmod part.dataNserv).toNat

def nodeServer (path : Path) (i : Nat) : Nat := ((hash path part.dataNserv 1 + i).tmod part.dataNserv).toNat

/-- The local files are those of the existing names, where the readers look for them. -/
structure Consistent (files : Nat → Path → Option XpnMetadata) (names : Path → Bool) : Prop where
  listed : ∀ path, names path → ∀ i, i ≤ part.replicationLevel → (files (dirServer part path i) path).isSome
  described : ∀ path, names path → ∀ i, i ≤ part.replicationLevel →
    ∃ mdata, files (nodeServer part path i) path = some mdata ∧ xpnCheckMagicNumber mdata
  nothing_else : ∀ serv path, (files serv path).isSome → names path

/-! ### Runs -/

/-- The names that exist after a successful call. -/
def namesAfter (names : Path → Bool) : NamespaceCall → Path → Bool
  | .open path flags => if hasFlag flags oCreat then Function.update names path true else names
  | .rename path newpath =>
    if names path then Function.update (Function.update names path false) newpath true else names
  | .unlink path => Function.update names path false
  | .write _ _ | .lseek _ _ => names

abbrev NamespaceState := Cluster × (Path → Bool)

def NamespaceStep (before : NamespaceState) (call : NamespaceCall) (after : NamespaceState) : Prop :=
  call.perform part before.1 = some after.1 ∧ after.2 = namesAfter before.2 call

def noFiles : NamespaceState := (Cluster.empty, fun _ => false)

/-- Both hashes of the name are server numbers. -/
def Addressable (path : Path) : Prop := 0 ≤ hash path part.dataNserv 0 ∧ 0 ≤ hash path part.dataNserv 1

/-- Files are opened with O_CREAT, or at least not truncated. -/
def Considered : NamespaceCall → Prop
  | .open path flags => Addressable part path ∧ (hasFlag flags oCreat ∨ hasFlag flags oTrunc = false)
  | .rename path newpath => Addressable part path ∧ Addressable part newpath
  | .unlink path => Addressable part path
  | .write _ _ | .lseek _ _ => True

abbrev inDir (path : Path) (serv : Nat) : Bool :=
  inWindow (hash path part.dataNserv 0) part.replicationLevel part.dataNserv serv

abbrev inNode (path : Path) (serv : Nat) : Bool :=
  inWindow (hash path part.dataNserv 1) part.replicationLevel part.dataNserv serv

/-- The descriptor knows the file that its path names now; only the size may have grown. -/
def Current (cluster : Cluster) (file : OpenFile) : Prop :=
  ∃ stored, cluster.files (nodeServer part file.path 0) file.path = some stored ∧
    file.mdata = { stored with fileSize := file.mdata.fileSize } ∧ file.mdata.fileSize ≤ stored.fileSize

/-- A file is renamed only where the servers of the new name are among those it is on
already, and those are among the servers that operations on the new name visit. -/
def NameFits (cluster : Cluster) (path newpath : Path) : Prop :=
  let mdata := (cluster.xpnReadMetadata part path).2
  let held := fun serv => (cluster.files serv path).isSome || (cluster.files serv newpath).isSome
  (∀ serv, inDir part newpath serv → held serv ∨ inNode part newpath serv) ∧
    ∀ serv, held serv → affected part mdata newpath serv

def KeepsPlaces (before : NamespaceState) : NamespaceCall → Prop
  | .write fd _ => ∀ file, before.1.opened[fd]? = some file → Current part before.1 file
  | .rename path newpath => before.2 path → NameFits part before.1 path newpath
  | .open _ _ | .lseek _ _ | .unlink _ => True

variable {part}

/-! ### Servers of a file -/

theorem inWindow_iff {master : Int} {level nServ serv : Nat} :
    inWindow master level nServ serv ↔ ∃ i : Nat, i ≤ level ∧ (i + master).tmod nServ = serv := by
  have levels : ((level : Int) + 1).toNat = level + 1 := by omega
  simp only [inWindow, levels, List.any_eq_true, List.mem_range, beq_iff_eq, Nat.lt_succ_iff]

/-- A server of a window, counted from its start. -/
theorem inWindow_server {master : Int} {level nServ i : Nat} (nonneg : 0 ≤ master) (copy : i ≤ level) :
    inWindow master level nServ ((master + i).tmod nServ).toNat := by
  apply inWindow_iff.mpr
  refine ⟨i, copy, ?_⟩
  rw [Int.toNat_of_nonneg (Int.tmod_nonneg _ (by omega)), Int.add_comm]

theorem inWindow_lt {master : Int} {level nServ serv : Nat} (servers : 0 < nServ)
    (inside : inWindow master level nServ serv) : serv < nServ := by
  obtain ⟨i, -, same⟩ := inWindow_iff.mp inside
  have := Int.tmod_lt_of_pos (i + master) (by omega : (0 : Int) < nServ)
  omega

/-- The metadata of a file on the servers of the partition. -/
structure FileLayout (part : XpnPartition) (g : Layout) (mdata : XpnMetadata) : Prop where
  servers : g.n = part.dataNserv
  level : g.level = part.replicationLevel
  blockSize : g.bs = part.blockSize
  describes : g.Describes mdata
  valid : xpnCheckMagicNumber mdata

variable {g : Layout} {mdata : XpnMetadata} {path : Path} {serv : Nat}

theorem FileLayout.resize (layout : FileLayout part g mdata) (fileSize : Int) :
    FileLayout part g { mdata with fileSize } :=
  ⟨layout.servers, layout.level, layout.blockSize,
    ⟨layout.describes.blockSize, layout.describes.replicationLevel, layout.describes.firstNode,
      layout.describes.servers, layout.describes.plain⟩, layout.valid⟩

private theorem hasData_iff (describes : g.Describes mdata) (serv : Nat) : ∀ fuel i,
    hasData mdata serv fuel i ↔ ∃ k, i ≤ k ∧ k < i + fuel ∧ ((g.bs * k : Nat) : Int) ≤ mdata.fileSize ∧
      ∃ r, r ≤ g.level ∧ g.server (g.bs * k) r = serv := by
  intro fuel
  induction fuel with
  | zero =>
    intro i
    simp only [hasData, Bool.false_eq_true, false_iff]
    rintro ⟨k, above, below, -⟩
    omega
  | succ fuel ih =>
    intro i
    have offset_eq : mdata.blockSize * (i : Int) = ((g.bs * i : Nat) : Int) := by
      rw [describes.blockSize, Nat.cast_mul]
    have here : ((List.range (mdata.replicationLevel + 1).toNat).any fun j =>
        (xpnCalculateBlockMdata mdata (g.bs * i : Nat) j).2 == serv) = true ↔
          ∃ r, r ≤ g.level ∧ g.server (g.bs * i) r = serv := by
      have levels : (mdata.replicationLevel + 1).toNat = g.level + 1 := by
        rw [describes.replicationLevel]
        omega
      simp only [levels, List.any_eq_true, List.mem_range, describes.calculate, beq_iff_eq, Nat.cast_inj,
        Nat.lt_succ_iff]
    simp only [hasData, offset_eq]
    split
    next past =>
      simp only [Bool.false_eq_true, false_iff]
      rintro ⟨k, above, -, within, -⟩
      have := Nat.mul_le_mul_left g.bs above
      omega
    next within =>
      split
      next found => exact ⟨fun _ => ⟨i, le_rfl, by omega, by omega, here.mp found⟩, fun _ => rfl⟩
      next missing =>
        rw [ih (i + 1)]
        constructor
        · rintro ⟨k, above, below, rest⟩
          exact ⟨k, by omega, by omega, rest⟩
        · rintro ⟨k, above, below, size, copy⟩
          rcases Nat.lt_or_eq_of_le above with later | rfl
          · exact ⟨k, later, by omega, size, copy⟩
          · exact absurd (here.mpr copy) missing

/-- The servers that the check selects. -/
theorem check_iff (describes : g.Describes mdata) (valid : xpnCheckMagicNumber mdata) (masterDir masterNode : Int) (serv : Nat) :
    xpnCheckServAffectedByOp mdata masterDir masterNode g.n serv ↔
      inWindow masterDir g.level g.n serv ∨ inWindow masterNode g.level g.n serv ∨
        ∃ k, k < g.n ∧ ((g.bs * k : Nat) : Int) ≤ mdata.fileSize ∧ ∃ r, r ≤ g.level ∧ g.server (g.bs * k) r = serv := by
  have data := hasData_iff describes serv g.n 0
  simp only [Nat.zero_add, Nat.zero_le, true_and] at data
  simp only [xpnCheckServAffectedByOp, valid, describes.replicationLevel, describes.plain, Bool.not_true, Bool.false_eq_true,
    if_false, ne_eq, not_true_eq_false]
  split
  next dir => simp [dir]
  next noDir =>
    split
    next node => simp [node]
    next noNode => simp only [noDir, noNode, data, Bool.false_eq_true, false_or]

/-- The servers an operation on the name visits. -/
theorem affected_iff (layout : FileLayout part g mdata) : affected part mdata path serv ↔
    serv < part.dataNserv ∧ (inDir part path serv ∨ inNode part path serv ∨
      ∃ k, k < g.n ∧ ((g.bs * k : Nat) : Int) ≤ mdata.fileSize ∧ ∃ r, r ≤ g.level ∧ g.server (g.bs * k) r = serv) := by
  have selected := check_iff layout.describes layout.valid (hash path part.dataNserv 0) (hash path part.dataNserv 1) serv
  rw [layout.servers, layout.level] at selected
  rw [affected, Bool.and_eq_true, decide_eq_true_eq, selected, layout.servers, layout.level]

theorem affected_dir (layout : FileLayout part g mdata) (inside : inDir part path serv) :
    affected part mdata path serv :=
  (affected_iff layout).mpr ⟨inWindow_lt (layout.servers ▸ g.n_pos) inside, Or.inl inside⟩

theorem affected_node (layout : FileLayout part g mdata) (inside : inNode part path serv) :
    affected part mdata path serv :=
  (affected_iff layout).mpr ⟨inWindow_lt (layout.servers ▸ g.n_pos) inside, Or.inr (Or.inl inside)⟩

/-- A larger file is on more servers. -/
theorem affected_grows (layout : FileLayout part g mdata) {fileSize : Int} (larger : mdata.fileSize ≤ fileSize)
    (visited : affected part mdata path serv) : affected part { mdata with fileSize } path serv := by
  obtain ⟨inside, dir | node | ⟨k, below, size, copy⟩⟩ := (affected_iff layout).mp visited
  · exact affected_dir (layout.resize _) dir
  · exact affected_node (layout.resize _) node
  · exact (affected_iff (layout.resize _)).mpr ⟨inside, Or.inr (Or.inr ⟨k, below, le_trans size larger, copy⟩)⟩

/-- The blocks repeat their servers after `n` of them, so the first `n` blocks show where
the copies of any byte are. -/
theorem first_blocks_cover (g : Layout) (p r : Nat) : ∃ k < g.n, g.bs * k ≤ p ∧ g.server (g.bs * k) r = g.server p r := by
  refine ⟨p / g.bs % g.n, Nat.mod_lt _ g.n_pos, ?_, ?_⟩
  · exact le_trans (Nat.mul_le_mul_left _ (Nat.mod_le _ _)) (Nat.mul_div_le p g.bs)
  · simp only [Layout.server, Layout.slotOf, slot, bin, Nat.mul_div_cancel_left _ g.bs_pos]
    have same : p / g.bs % g.n * (g.level + 1) + r + g.first ≡ p / g.bs * (g.level + 1) + r + g.first [MOD g.n] :=
      (((Nat.mod_modEq _ _).mul_right _).add_right _).add_right _
    exact same

theorem affected_data (layout : FileLayout part g mdata) {p r : Nat} (copy : r ≤ g.level)
    (inside : (p : Int) < mdata.fileSize) : affected part mdata path (g.server p r) := by
  obtain ⟨k, first, before, same⟩ := first_blocks_cover g p r
  apply (affected_iff layout).mpr
  exact ⟨layout.servers ▸ g.server_lt p r, Or.inr (Or.inr ⟨k, first, by omega, r, copy, same⟩)⟩

/-! ### The invariant -/

/-- An existing file with its record. What is not promised by `Consistent` is that the
servers holding it are among those its operations visit. -/
structure Placed (part : XpnPartition) (files : Nat → Path → Option XpnMetadata) (path : Path) (mdata : XpnMetadata) :
    Prop where
  layout : ∃ g, FileLayout part g mdata
  addressable : Addressable part path
  listed : ∀ serv, inDir part path serv → (files serv path).isSome
  described : ∀ serv, inNode part path serv → files serv path = some mdata
  covered : ∀ serv, (files serv path).isSome → affected part mdata path serv

structure Valid (part : XpnPartition) (files : Nat → Path → Option XpnMetadata) (names : Path → Bool) : Prop where
  placed : ∀ path, names path → ∃ mdata, Placed part files path mdata
  absent : ∀ path, names path = false → ∀ serv, files serv path = none

variable {cluster : Cluster} {files after : Nat → Path → Option XpnMetadata} {names : Path → Bool}

theorem valid_noFiles : Valid part noFiles.1.files noFiles.2 :=
  ⟨fun _ impossible => (nomatch impossible), fun _ _ _ => rfl⟩

theorem Valid.consistent (valid : Valid part files names) : Consistent part files names := by
  constructor
  · intro path named i copy
    obtain ⟨mdata, placed⟩ := valid.placed path named
    exact placed.listed _ (inWindow_server placed.addressable.1 copy)
  · intro path named i copy
    obtain ⟨mdata, placed⟩ := valid.placed path named
    obtain ⟨g, layout⟩ := placed.layout
    exact ⟨mdata, placed.described _ (inWindow_server placed.addressable.2 copy), layout.valid⟩
  · intro serv path held
    cases named : names path with
    | true => rfl
    | false =>
      rw [valid.absent path named serv] at held
      cases held

/-- A file that no request is about stays where it is. -/
theorem Placed.frame (placed : Placed part files path mdata) (same : ∀ serv, after serv path = files serv path) :
    Placed part after path mdata where
  layout := placed.layout
  addressable := placed.addressable
  listed serv inside := by rw [same]; exact placed.listed serv inside
  described serv inside := by rw [same]; exact placed.described serv inside
  covered serv held := by rw [same] at held; exact placed.covered serv held

/-- The name `path` is touched, in both worlds. -/
theorem Valid.update (valid : Valid part files names) {named : Bool}
    (others : ∀ other, other ≠ path → ∀ serv, after serv other = files serv other)
    (present : named → ∃ mdata, Placed part after path mdata)
    (absent : named = false → ∀ serv, after serv path = none) :
    Valid part after (Function.update names path named) := by
  constructor
  · intro other isNamed
    by_cases same : other = path
    · subst same
      rw [Function.update_self] at isNamed
      exact present isNamed
    · rw [Function.update_of_ne same] at isNamed
      obtain ⟨mdata, placed⟩ := valid.placed other isNamed
      exact ⟨mdata, placed.frame (others other same)⟩
  · intro other missing serv
    by_cases same : other = path
    · subst same
      rw [Function.update_self] at missing
      exact absent missing serv
    · rw [Function.update_of_ne same] at missing
      rw [others other same]
      exact valid.absent other missing serv

theorem onServers_same (cluster : Cluster) (path : Path) (selected : Nat → Bool)
    (request : Option XpnMetadata → Option XpnMetadata) (serv : Nat) :
    (cluster.onServers path selected request).files serv path =
      if selected serv then request (cluster.files serv path) else cluster.files serv path := by
  simp only [onServers]
  split
  · exact Function.update_self ..
  · rfl

theorem onServers_other (cluster : Cluster) {path other : Path} (selected : Nat → Bool)
    (request : Option XpnMetadata → Option XpnMetadata) (different : other ≠ path) (serv : Nat) :
    (cluster.onServers path selected request).files serv other = cluster.files serv other := by
  simp only [onServers]
  split
  · exact Function.update_of_ne different ..
  · rfl

theorem master_eq (servers : 0 < part.dataNserv) (addressable : Addressable part path) :
    nodeServer part path 0 = (hash path part.dataNserv 1).toNat := by
  have below : hash path part.dataNserv 1 < part.dataNserv := Int.tmod_lt_of_pos _ (by omega)
  simp only [nodeServer, Nat.cast_zero, Int.add_zero]
  rw [Int.tmod_eq_of_lt addressable.2 below]

theorem Placed.read (placed : Placed part cluster.files path mdata) : cluster.xpnReadMetadata part path = (0, mdata) := by
  obtain ⟨g, layout⟩ := placed.layout
  have stored := placed.described _ (inWindow_server placed.addressable.2 (Nat.zero_le _))
  rw [← nodeServer, master_eq (layout.servers ▸ g.n_pos) placed.addressable] at stored
  simp only [xpnReadMetadata, stored, xpnServerOpReadMdata, layout.valid, if_true]

theorem read_absent (absent : ∀ serv, cluster.files serv path = none) :
    cluster.xpnReadMetadata part path = (-1, XpnMetadata.zero) := by
  simp only [xpnReadMetadata, absent]

theorem Valid.covered (valid : Valid part cluster.files names) {serv : Nat} (held : (cluster.files serv path).isSome) :
    affected part (cluster.xpnReadMetadata part path).2 path serv := by
  cases named : names path with
  | false =>
    rw [valid.absent path named serv] at held
    cases held
  | true =>
    obtain ⟨mdata, placed⟩ := valid.placed path named
    rw [placed.read]
    exact placed.covered serv held

/-! ### Opening -/

theorem created_layout (blocks : 0 < part.blockSize) (copies : part.replicationLevel + 1 ≤ part.dataNserv)
    (addressable : Addressable part path) :
    ∃ g, FileLayout part g (xpnCreateMetadataExtern path part.dataNserv part.blockSize part.replicationLevel) := by
  have below : hash path part.dataNserv 1 < part.dataNserv := Int.tmod_lt_of_pos _ (by omega)
  have nonneg := addressable.2
  exact ⟨⟨part.blockSize, part.dataNserv, part.replicationLevel, (hash path part.dataNserv 1).toNat, blocks, copies,
    by omega⟩, rfl, rfl, rfl, ⟨rfl, rfl, (Int.toNat_of_nonneg nonneg).symm, rfl, rfl⟩, rfl⟩

private theorem opened_placed (layout : ∃ g, FileLayout part g mdata) (addressable : Addressable part path) {flags : Nat}
    (covered : ∀ serv, (cluster.files serv path).isSome → affected part mdata path serv)
    (succeeds : ∀ serv, affected part mdata path serv → (filesystemOpen flags (cluster.files serv path)).isSome) :
    Placed part ((cluster.onServers path (affected part mdata path) (filesystemOpen flags)).xpnUpdateMetadata part mdata
      path false).files path mdata := by
  have stored : ∀ serv, ((cluster.onServers path (affected part mdata path) (filesystemOpen flags)).xpnUpdateMetadata
      part mdata path false).files serv path = if inNode part path serv then some mdata
        else if affected part mdata path serv then filesystemOpen flags (cluster.files serv path)
        else cluster.files serv path := by
    intro serv
    simp only [xpnUpdateMetadata, onServers_same, xpnServerOpWriteMdata, Bool.false_eq_true, if_false]
  obtain ⟨g, layout⟩ := layout
  refine ⟨⟨g, layout⟩, addressable, ?_, ?_, ?_⟩
  · intro serv inside
    rw [stored, if_pos (affected_dir layout inside)]
    split
    · rfl
    · exact succeeds serv (affected_dir layout inside)
  · intro serv inside
    rw [stored, if_pos inside]
  · intro serv held
    rw [stored] at held
    by_cases node : inNode part path serv
    · exact affected_node layout node
    · by_cases visited : affected part mdata path serv
      · exact visited
      · rw [if_neg node, if_neg visited] at held
        exact covered serv held

private theorem plain_open {flags : Nat} (creat : hasFlag flags oCreat = false) (trunc : hasFlag flags oTrunc = false)
    (stored : Option XpnMetadata) : filesystemOpen flags stored = stored := by
  cases stored <;> simp [filesystemOpen, creat, trunc]

theorem Valid.open (valid : Valid part cluster.files names) (blocks : 0 < part.blockSize)
    (copies : part.replicationLevel + 1 ≤ part.dataNserv) (addressable : Addressable part path) {flags : Nat}
    (kind : hasFlag flags oCreat ∨ hasFlag flags oTrunc = false) {after : Cluster}
    (done : cluster.xpnInternalOpen part path flags = some after) :
    Valid part after.files (namesAfter names (.open path flags)) := by
  simp only [xpnInternalOpen] at done
  generalize found_eq : cluster.xpnReadMetadata part path = found at done
  split at done
  · cases done
  generalize mdata_eq : (if xpnCheckMagicNumber found.2 then found.2
    else xpnCreateMetadataExtern path part.dataNserv part.blockSize part.replicationLevel) = mdata at done
  split at done
  next creat =>
    split at done
    next succeeds =>
      cases done
      simp only [namesAfter, creat, if_true]
      have prepared : (∃ g, FileLayout part g mdata) ∧
          ∀ serv, (cluster.files serv path).isSome → affected part mdata path serv := by
        cases named : names path with
        | true =>
          obtain ⟨stored, placed⟩ := valid.placed path named
          obtain ⟨g, layout⟩ := placed.layout
          rw [← found_eq, placed.read] at mdata_eq
          simp only [layout.valid, if_true] at mdata_eq
          rw [← mdata_eq]
          exact ⟨⟨g, layout⟩, placed.covered⟩
        | false =>
          have absent := valid.absent path named
          rw [← found_eq, read_absent absent] at mdata_eq
          rw [← mdata_eq]
          refine ⟨created_layout blocks copies addressable, fun serv held => ?_⟩
          rw [absent serv] at held
          cases held
      refine valid.update ?_ (fun _ => ⟨mdata, opened_placed prepared.1 addressable prepared.2 ?_⟩) (fun h => nomatch h)
      · intro other different serv
        simp only [xpnUpdateMetadata, onServers_other _ _ _ different]
      · intro serv visited
        have inside : serv < part.dataNserv := by
          simp only [affected, Bool.and_eq_true, decide_eq_true_eq] at visited
          exact visited.1
        have opened := List.all_eq_true.mp succeeds serv (List.mem_range.mpr inside)
        simpa [visited] using opened
    next => cases done
  next noCreat =>
    have creat : hasFlag flags oCreat = false := by simpa using noCreat
    have trunc : hasFlag flags oTrunc = false := kind.resolve_left noCreat
    split at done
    · cases done
      have same : ∀ serv other, (cluster.onServers path (· == (hash path part.dataNserv 0).toNat)
          (filesystemOpen flags)).files serv other = cluster.files serv other := by
        intro serv other
        by_cases here : other = path
        · subst here
          rw [onServers_same, plain_open creat trunc, ite_self]
        · exact onServers_other _ _ _ here serv
      simp only [namesAfter, noCreat]
      have unchanged := funext fun serv => funext fun other => same serv other
      rw [unchanged]
      exact valid
    · cases done

/-! ### Removing and renaming -/

theorem Valid.unlink (valid : Valid part cluster.files names) {after : Cluster}
    (done : cluster.xpnInternalRemove part path = some after) :
    Valid part after.files (namesAfter names (.unlink path)) := by
  simp only [xpnInternalRemove, Option.some.injEq] at done
  subst done
  refine valid.update ?_ (fun h => nomatch h) ?_
  · intro other different serv
    exact onServers_other _ _ _ different serv
  · intro _ serv
    rw [onServers_same]
    by_cases visited : affected part (cluster.xpnReadMetadata part path).2 path serv
    · rw [if_pos visited]
    · rw [if_neg visited]
      apply Option.not_isSome_iff_eq_none.mp
      intro held
      exact visited (valid.covered held)

section
variable {local_ : Path → Option XpnMetadata} {old new : Path}

private theorem rename_missing (missing : local_ old = none) : filesystemRename local_ old new = local_ := by
  simp only [filesystemRename, missing]

private theorem rename_new : filesystemRename local_ old new new = (local_ old).or (local_ new) := by
  cases stored : local_ old with
  | none => rw [rename_missing stored, Option.none_or]
  | some header => simp only [filesystemRename, stored, Function.update_self, Option.some_or]

theorem rename_old (different : old ≠ new) : filesystemRename local_ old new old = none := by
  cases stored : local_ old with
  | none => rw [rename_missing stored, stored]
  | some header => simp only [filesystemRename, stored, Function.update_of_ne different, Function.update_self]

private theorem rename_other {other : Path} (notOld : other ≠ old) (notNew : other ≠ new) :
    filesystemRename local_ old new other = local_ other := by
  cases stored : local_ old with
  | none => rw [rename_missing stored]
  | some header => simp only [filesystemRename, stored, Function.update_of_ne notNew, Function.update_of_ne notOld]

end

/-- The servers that hold the old name are visited, so it is as if all were. -/
private theorem renamed_everywhere (valid : Valid part cluster.files names) {newpath : Path} (serv : Nat) :
    (if affected part (cluster.xpnReadMetadata part path).2 path serv then
      filesystemRename (cluster.files serv) path newpath else cluster.files serv) =
      filesystemRename (cluster.files serv) path newpath := by
  by_cases visited : affected part (cluster.xpnReadMetadata part path).2 path serv
  · rw [if_pos visited]
  · rw [if_neg visited, rename_missing]
    apply Option.not_isSome_iff_eq_none.mp
    intro held
    exact visited (valid.covered held)

private theorem renamed_placed (placed : Placed part cluster.files path mdata) {newpath : Path}
    (addressable : Addressable part newpath) (fits : NameFits part cluster path newpath)
    (stored : ∀ serv, after serv newpath = if inNode part newpath serv then some mdata
      else filesystemRename (cluster.files serv) path newpath newpath) : Placed part after newpath mdata := by
  obtain ⟨g, layout⟩ := placed.layout
  simp only [NameFits, placed.read, Bool.or_eq_true] at fits
  refine ⟨⟨g, layout⟩, addressable, ?_, ?_, ?_⟩
  · intro serv inside
    rw [stored]
    rcases fits.1 serv inside with held | node
    · split
      · rfl
      · rw [rename_new, Option.isSome_or]
        exact Bool.or_eq_true _ _ ▸ held
    · rw [if_pos node]
      rfl
  · intro serv inside
    rw [stored, if_pos inside]
  · intro serv held
    rw [stored] at held
    by_cases node : inNode part newpath serv
    · exact affected_node layout node
    · rw [if_neg node, rename_new, Option.isSome_or, Bool.or_eq_true] at held
      exact fits.2 serv held

theorem Valid.rename (valid : Valid part cluster.files names) {newpath : Path} (addressable : Addressable part newpath)
    (fits : names path → NameFits part cluster path newpath) {after : Cluster}
    (done : cluster.xpnSimpleRename part path newpath = some after) :
    Valid part after.files (namesAfter names (.rename path newpath)) := by
  simp only [xpnSimpleRename, renamed_everywhere valid] at done
  cases named : names path with
  | false =>
    have absent := valid.absent path named
    have same : ∀ serv, filesystemRename (cluster.files serv) path newpath = cluster.files serv :=
      fun serv => rename_missing (absent serv)
    have invalid : xpnCheckMagicNumber XpnMetadata.zero = false := rfl
    simp only [read_absent absent, same, invalid, Bool.false_eq_true, if_false, Option.some.injEq] at done
    subst done
    simpa only [namesAfter, named, Bool.false_eq_true, if_false] using valid
  | true =>
    obtain ⟨mdata, placed⟩ := valid.placed path named
    obtain ⟨g, layout⟩ := placed.layout
    simp only [placed.read, layout.valid, if_true] at done
    cases done
    simp only [namesAfter, named, if_true]
    -- First the old name goes, then the new one is there.
    have removed : Valid part (fun serv => Function.update (cluster.files serv) path none)
        (Function.update names path false) :=
      valid.update (fun other different serv => Function.update_of_ne different ..) (fun h => nomatch h)
        (fun _ serv => Function.update_self ..)
    refine removed.update ?_ (fun _ => ⟨mdata, renamed_placed placed addressable (fits named) ?_⟩) (fun h => nomatch h)
    · intro other different serv
      simp only [xpnUpdateMetadata, onServers_other _ _ _ different]
      by_cases old : other = path
      · subst old
        rw [rename_old different, Function.update_self]
      · rw [rename_other old different, Function.update_of_ne old]
    · intro serv
      simp only [xpnUpdateMetadata, onServers_same, xpnServerOpWriteMdata, Bool.false_eq_true, if_false]

/-! ### Writing -/

private theorem writes_copy {file : OpenFile} (layout : FileLayout part g file.mdata) {size : Nat}
    (written : file.writes part size serv) : ∃ p r, p < file.offset + size ∧ r ≤ g.level ∧ g.server p r = serv := by
  have opened : Opened g (file.filedesc part) := ⟨layout.servers.symm, layout.level.symm, layout.blockSize.symm, layout.describes⟩
  have blocks : 0 < (file.filedesc part).blockSize := opened.blockSize ▸ g.bs_pos
  simp only [OpenFile.writes, Bool.and_eq_true, bne_iff_ne, ne_eq] at written
  refine writeBlocksLoop_rule (fun _ => ⟨[], 0⟩) blocks
    (fun count io => ¬io serv = [] → ∃ p r, p < file.offset + count ∧ r ≤ g.level ∧ g.server p r = serv) ?_
    size 0 (fun _ => []) (Nat.zero_le _) (by omega) (fun empty => absurd rfl empty) written.2
  intro count io more earlier filled
  have moved := lSize_pos (p := file.offset + count) blocks (Nat.sub_pos_of_lt more)
  rcases hosts_or_not g (file.offset + count) serv with ⟨r, copy, hosted⟩ | absent
  · exact ⟨file.offset + count, r, by omega, copy, hosted⟩
  · rw [pushReplicas_absent opened absent] at filled
    obtain ⟨p, r, below, copy, hosted⟩ := earlier filled
    exact ⟨p, r, by omega, copy, hosted⟩

private theorem open_write (stored : Option XpnMetadata) :
    filesystemOpen (oRdwr ||| oCreat) stored = some (stored.getD XpnMetadata.zero) := by
  cases stored <;> rfl

private theorem written_placed (placed : Placed part files path mdata) {fileSize : Int} (larger : mdata.fileSize ≤ fileSize)
    {created : Nat → Bool} (covers : ∀ serv, created serv → affected part { mdata with fileSize } path serv)
    (stored : ∀ serv, after serv path = if inNode part path serv then some { mdata with fileSize }
      else if created serv then some ((files serv path).getD XpnMetadata.zero) else files serv path) :
    Placed part after path { mdata with fileSize } := by
  obtain ⟨g, layout⟩ := placed.layout
  refine ⟨⟨g, layout.resize fileSize⟩, placed.addressable, ?_, ?_, ?_⟩
  · intro serv inside
    rw [stored]
    split
    · rfl
    · split
      · rfl
      · exact placed.listed serv inside
  · intro serv inside
    rw [stored, if_pos inside]
  · intro serv held
    rw [stored] at held
    by_cases node : inNode part path serv
    · exact affected_node (layout.resize fileSize) node
    · by_cases new : created serv
      · exact covers serv new
      · rw [if_neg node, if_neg new] at held
        exact affected_grows layout larger (placed.covered serv held)

private theorem resized_to_max (mdata : XpnMetadata) (offset : Int) :
    xpnServerOpWriteMdataFileSize mdata offset = { mdata with fileSize := max mdata.fileSize offset } := by
  simp only [xpnServerOpWriteMdataFileSize]
  split
  next larger => rw [max_eq_right (le_of_lt larger)]
  next smaller => rw [max_eq_left (not_lt.mp smaller)]

private theorem Valid.wrote (valid : Valid part files names) {file : OpenFile} (named : names file.path)
    (placed : Placed part files file.path mdata) (layout : FileLayout part g mdata)
    (fileLayout : FileLayout part g file.mdata) (size : Nat)
    (others : ∀ other, other ≠ file.path → ∀ serv, after serv other = files serv other)
    (stored : ∀ serv, after serv file.path = if inNode part file.path serv
      then some { mdata with fileSize := max mdata.fileSize (file.offset + size : Nat) }
      else if file.writes part size serv && !file.handles serv
        then some ((files serv file.path).getD XpnMetadata.zero) else files serv file.path) :
    Valid part after names := by
  have covers : ∀ serv, (file.writes part size serv && !file.handles serv) → affected part
      { mdata with fileSize := max mdata.fileSize (file.offset + size : Nat) } file.path serv := by
    intro serv created
    obtain ⟨p, r, below, copy, rfl⟩ := writes_copy fileLayout (Bool.and_eq_true _ _ ▸ created).1
    apply affected_data (layout.resize _) copy
    exact lt_of_lt_of_le (Int.ofNat_lt.mpr below) (le_max_right _ _)
  have updated := valid.update others
    (fun _ : names file.path => ⟨_, written_placed placed (le_max_left _ _) covers stored⟩)
    (fun missing => absurd named (by rw [missing]; decide))
  rwa [Function.update_eq_self] at updated

theorem Valid.write (valid : Valid part cluster.files names) {fd size : Nat}
    (current : ∀ file, cluster.opened[fd]? = some file → Current part cluster file) {after : Cluster}
    (done : Cluster.xpnSimpleWrite part cluster fd size = some after) : Valid part after.files names := by
  simp only [Cluster.xpnSimpleWrite] at done
  split at done
  next => cases done
  next file found =>
    obtain ⟨recorded, atMaster, sameFile, known⟩ := current file found
    have named : names file.path := valid.consistent.nothing_else _ _ (by rw [atMaster]; rfl)
    obtain ⟨mdata, placed⟩ := valid.placed file.path named
    obtain ⟨g, layout⟩ := placed.layout
    have atNode := placed.described _ (inWindow_server placed.addressable.2 (Nat.zero_le _))
    rw [← nodeServer, atMaster] at atNode
    cases atNode
    have fileLayout : FileLayout part g file.mdata := sameFile ▸ layout.resize _
    split at done
    next =>
      cases done
      exact valid
    next =>
      split at done
      next => cases done
      next =>
        split at done
        next =>
          split at done
          next grows =>
            cases done
            apply valid.wrote named placed layout fileLayout size
            · intro other different serv
              simp only [xpnUpdateMetadata, onServers_other _ _ _ different]
            · intro serv
              simp only [xpnUpdateMetadata, onServers_same, open_write, if_true]
              split
              next node =>
                rw [placed.described serv node]
                simp only [Option.getD_some, ite_self, Option.map_some, resized_to_max]
              next => rfl
          next inside =>
            cases done
            apply valid.wrote named placed layout fileLayout size
            · intro other different serv
              simp only [onServers_other _ _ _ different]
            · intro serv
              have size_eq : max recorded.fileSize (file.offset + size : Nat) = recorded.fileSize :=
                max_eq_left (le_trans (not_lt.mp inside) known)
              rw [size_eq]
              simp only [onServers_same, open_write]
              by_cases node : inNode part file.path serv
              · rw [if_pos node, placed.described serv node]
                simp only [Option.getD_some, ite_self]
              · rw [if_neg node]
        next => cases done

/-! ### Whole runs -/

/-- One call that fits keeps the files where their names say. -/
theorem Valid.step (blocks : 0 < part.blockSize) (copies : part.replicationLevel + 1 ≤ part.dataNserv)
    {before after : NamespaceState} {call : NamespaceCall} (valid : Valid part before.1.files before.2)
    (allowed : Considered part call ∧ KeepsPlaces part before call) (taken : NamespaceStep part before call after) :
    Valid part after.1.files after.2 := by
  obtain ⟨considered, keeps⟩ := allowed
  obtain ⟨done, same⟩ := taken
  rw [same]
  cases call with
  | «open» path flags => exact valid.open blocks copies considered.1 considered.2 done
  | write fd size => exact valid.write keeps done
  | lseek fd offset =>
    obtain ⟨file, -, moved⟩ := Option.map_eq_some_iff.mp done
    rw [← moved]
    exact valid
  | rename path newpath => exact valid.rename considered.2 keeps done
  | unlink path => exact valid.unlink done

/-- In every run whose renames fit the new name and whose writes are to the file that
still has the name, all files are where the readers look and there are no others. -/
theorem namespace_consistent (blocks : 0 < part.blockSize) (copies : part.replicationLevel + 1 ≤ part.dataNserv)
    {state : NamespaceState}
    (run : Reachable (NamespaceStep part) (fun before call => Considered part call ∧ KeepsPlaces part before call)
      noFiles state) : Consistent part state.1.files state.2 := by
  have valid := run.invariant (fun state => Valid part state.1.files state.2) valid_noFiles
    (fun _ _ _ valid allowed taken => Valid.step blocks copies valid allowed taken)
  exact valid.consistent

/-- A name with the same hashes is always fit. -/
theorem nameFits_of_hashes (valid : Valid part cluster.files names) {newpath : Path} (named : names path)
    (unused : names newpath = false) (dir : hash newpath part.dataNserv 0 = hash path part.dataNserv 0)
    (node : hash newpath part.dataNserv 1 = hash path part.dataNserv 1) : NameFits part cluster path newpath := by
  obtain ⟨mdata, placed⟩ := valid.placed path named
  simp only [NameFits, inDir, inNode, affected, dir, node, valid.absent newpath unused, Option.isSome_none, Bool.or_false]
  refine ⟨fun serv inside => Or.inl (placed.listed serv inside), fun serv held => valid.covered held⟩

private def threeServers : XpnPartition := ⟨3, 4, 0, -1⟩

private def ax : Path := [47, 97, 47, 120]

private def bx : Path := [47, 98, 47, 120]

private def au : Path := [47, 97, 47, 117]

private def performed (state : NamespaceState) (call : NamespaceCall) : NamespaceState :=
  ((call.perform threeServers state.1).getD Cluster.empty, namesAfter state.2 call)

private theorem performed_step {state : NamespaceState} {call : NamespaceCall}
    (succeeds : (call.perform threeServers state.1).isSome) :
    NamespaceStep threeServers state call (performed state call) := by
  refine ⟨?_, rfl⟩
  obtain ⟨cluster, done⟩ := Option.isSome_iff_exists.mp succeeds
  simp only [performed, done, Option.getD_some]

private abbrev created : NamespaceState := performed noFiles (.open ax (oRdwr ||| oCreat))

private abbrev written : NamespaceState := performed created (.write 0 6)

private theorem created_step : NamespaceStep threeServers noFiles (.open ax (oRdwr ||| oCreat)) created :=
  performed_step (by decide)

private theorem considered_ax : Considered threeServers (.open ax (oRdwr ||| oCreat)) := by
  refine ⟨⟨?_, ?_⟩, Or.inl ?_⟩ <;> decide

private theorem written_current : KeepsPlaces threeServers created (.write 0 6) := by
  intro file found
  have same : file = ⟨ax, oRdwr ||| oCreat, xpnCreateMetadataExtern ax 3 4 0, 0,
      affected threeServers (xpnCreateMetadataExtern ax 3 4 0) ax⟩ := (Option.some.inj found).symm
  subst same
  exact ⟨xpnCreateMetadataExtern ax 3 4 0, by decide, rfl, le_rfl⟩

private theorem written_step : NamespaceStep threeServers created (.write 0 6) written :=
  performed_step (by decide)

private theorem created_reachable : Reachable (NamespaceStep threeServers)
    (fun before call => Considered threeServers call ∧ KeepsPlaces threeServers before call) noFiles created :=
  .next .start ⟨considered_ax, trivial⟩ created_step

private theorem written_reachable : Reachable (NamespaceStep threeServers)
    (fun before call => Considered threeServers call ∧ KeepsPlaces threeServers before call) noFiles written :=
  created_reachable.next (And.intro (show Considered threeServers (.write 0 6) from trivial) written_current) written_step

/-- `/a/x` is written to and renamed to `/a/u`, which has the same hashes. -/
theorem namespace_consistent_renamed : ∃ state : NamespaceState, Consistent threeServers state.1.files state.2 ∧
    state.2 au ∧ state.2 ax = false := by
  have valid : Valid threeServers written.1.files written.2 :=
    written_reachable.invariant (fun state => Valid threeServers state.1.files state.2) valid_noFiles
      (fun _ _ _ valid allowed taken => Valid.step (by decide) (by decide) valid allowed taken)
  have fits : NameFits threeServers written.1 ax au := by
    apply nameFits_of_hashes valid <;> decide
  have considered : Considered threeServers (.rename ax au) := by
    refine ⟨⟨?_, ?_⟩, ?_, ?_⟩ <;> decide
  have renamed : NamespaceStep threeServers written (.rename ax au) (performed written (.rename ax au)) :=
    performed_step (by decide)
  exact ⟨_, namespace_consistent (by decide) (by decide) (written_reachable.next ⟨considered, fun _ => fits⟩ renamed),
    by decide, by decide⟩

/-- Renamed to `/b/x`, the file is not on the server that lists `/b`. -/
theorem renamed_file_unlisted : ¬∀ part (state : NamespaceState), 0 < part.blockSize →
    part.replicationLevel + 1 ≤ part.dataNserv →
    Reachable (NamespaceStep part) (fun _ call => Considered part call) noFiles state →
    Consistent part state.1.files state.2 := by
  intro always
  have considered : Considered threeServers (.rename ax bx) := by
    refine ⟨⟨?_, ?_⟩, ?_, ?_⟩ <;> decide
  have renamed : NamespaceStep threeServers created (.rename ax bx) (performed created (.rename ax bx)) :=
    performed_step (by decide)
  have consistent := always threeServers _ (by decide) (by decide)
    (.next (.next .start considered_ax created_step) considered renamed)
  have listed := consistent.listed bx (by decide) 0 (by decide)
  revert listed
  decide

end Xpn.Proofs.Namespace
