import Xpn.BypassTables
import Xpn.Proofs.FileTable

/-! Duplicated descriptors of the bypass. `dup` returns the number of the library and `dup2`
leaves its second number to it, so what they make is in the name space of the bypass only
where the two kinds of numbers happen to meet. -/

namespace Xpn.Proofs.BypassTables
open Xpn.BypassTables Xpn.FileTable Lib.References Lib.Runs

variable {state after : BypassState} {table : FdsTable} {files : FileTable}

def entryFile (state : BypassState) (v : Nat) : Option Nat :=
  let fd := state.fds.entries v
  if fd.type = .xpn ∧ InRange fd.realFd then state.files.slots fd.realFd.toNat else none

/-- The open file that a descriptor reaches in the library; none for what is not FD_XPN. -/
def openFile (state : BypassState) (fd : Int) : Option Nat :=
  if (plusXpn : Int) ≤ fd ∧ (fd - plusXpn).toNat < state.fds.size then entryFile state (fd - plusXpn).toNat else none

/-! ### Runs -/

/-- The tables, and the descriptors that `dup` and `dup2` have made, each with the open file
of its original. -/
structure DescriptorState where
  tables : BypassState
  made : List (Int × Nat)

def madeAfter (before : DescriptorState) (outcome : Outcome) : BypassCall → List (Int × Nat)
  | .dup fd =>
    match outcome with
    | .library ret => if 0 ≤ ret then before.made ++ (openFile before.tables fd).toList.map (ret, ·) else before.made
    | .system => before.made
  | .dup2 fd fd2 =>
    match outcome with
    | .library ret => if 0 ≤ ret then before.made ++ (openFile before.tables fd).toList.map (fd2, ·) else before.made
    | .system => before.made
  | .close fd => before.made.filter fun made => made.1 ≠ fd
  | .open _ _ _ => before.made

def BypassStep (before : DescriptorState) (call : BypassCall) (after : DescriptorState) : Prop :=
  call.Allocates before.tables ∧ ∃ outcome, call.perform before.tables = some (outcome, after.tables) ∧
    after.made = madeAfter before outcome call

def noDescriptors : DescriptorState := ⟨BypassState.initial, []⟩

/-- Every duplicate that was not closed reaches the open file of its original. -/
def Inside (state : DescriptorState) : Prop :=
  ∀ fd file, (fd, file) ∈ state.made → openFile state.tables fd = some file

/-- The library has a slot for what is opened. The first slot it has for a duplicate has the virtual
number itself, and `dup2` finds its slot taken or is given a virtual number. -/
def StaysInside (before : DescriptorState) : BypassCall → Prop
  | .open _ _ _ => ∃ i, i < xpnMaxFile ∧ before.tables.files.slots i = none
  | .dup fd => (openFile before.tables fd).isSome →
      InRange fd ∧ (∀ i : Nat, (i : Int) < fd → before.tables.files.slots i ≠ none) ∧ before.tables.files.slots fd.toNat = none
  | .dup2 fd fd2 => (openFile before.tables fd).isSome →
      (plusXpn : Int) ≤ fd2 ∨ fd2 < 0 ∨ before.tables.files.slots fd2.toNat ≠ none
  | .close _ => True

/-! ### The invariant -/

private theorem entryFile_xpn {v : Nat} {file : Nat} (reaches : entryFile state v = some file) :
    (state.fds.entries v).type = .xpn := by
  unfold entryFile at reaches
  dsimp only at reaches
  split at reaches
  next named => exact named.1
  next => cases reaches

/-- An entry names a slot of its own with a live open file, and an open file has at least as
many links as entries. -/
structure Sound (state : BypassState) : Prop where
  room : maxFds ≤ state.fds.size
  beyond : ∀ v, state.fds.size ≤ v → state.fds.entries v = unusedFd
  kinds : ∀ v, state.fds.entries v = unusedFd ∨ (state.fds.entries v).type = .xpn
  live : ∀ v, (state.fds.entries v).type = .xpn → InRange (state.fds.entries v).realFd ∧
    ∃ file, state.files.slots (state.fds.entries v).realFd.toNat = some file ∧ (state.files.heap file).isSome
  apart : ∀ v w, (state.fds.entries v).type = .xpn → (state.fds.entries w).type = .xpn →
    (state.fds.entries v).realFd = (state.fds.entries w).realFd → v = w
  counted : ∀ file desc n, state.files.heap file = some desc → state.fds.size ≤ n →
    (references n (entryFile state) file : Int) ≤ desc.links
  /-- Every open file was opened once. -/
  distinct : ∀ v w file, entryFile state v = some file → entryFile state w = some file → v = w

theorem sound_initial : Sound BypassState.initial := by
  have unused : ∀ v, FdsTable.fdstableInit.entries v = unusedFd := by
    intro v
    unfold FdsTable.fdstableInit FdsTable.fdstableRealloc
    exact ite_self _
  have notXpn : ∀ v, (FdsTable.fdstableInit.entries v).type ≠ .xpn := by
    intro v
    rw [unused]
    exact FdType.noConfusion
  exact ⟨le_rfl, fun v _ => unused v, fun v => Or.inl (unused v), fun v named => absurd named (notXpn v),
    fun v _ named => absurd named (notXpn v), fun _ _ _ present => (nomatch present),
    fun v _ _ reaches => absurd (entryFile_xpn reaches) (notXpn v)⟩

private theorem Sound.file_live (sound : Sound state) {v file : Nat} (reaches : entryFile state v = some file) :
    (state.files.heap file).isSome := by
  have named := entryFile_xpn reaches
  obtain ⟨range, found, slot, live⟩ := sound.live v named
  unfold entryFile at reaches
  rw [if_pos ⟨named, range⟩, slot] at reaches
  rw [← Option.some.inj reaches]
  exact live

/-- The library's table grows: slots in use and open files stay, and no link is lost. -/
structure Extends (files other : FileTable) : Prop where
  slots : ∀ i, files.slots i ≠ none → other.slots i = files.slots i
  heap : ∀ file desc, files.heap file = some desc → ∃ found, other.heap file = some found ∧ desc.links ≤ found.links
  fresh : ∀ file found, other.heap file = some found → files.heap file = none → 0 ≤ found.links

theorem Sound.entryFile_extends (sound : Sound state) (larger : Extends state.files files) :
    entryFile { state with files } = entryFile state := by
  funext v
  unfold entryFile
  dsimp only
  split
  next named =>
    obtain ⟨-, file, slot, -⟩ := sound.live v named.1
    exact larger.slots _ (by rw [slot]; exact Option.some_ne_none file)
  next => rfl

theorem Sound.extends (sound : Sound state) (larger : Extends state.files files) : Sound { state with files } where
  room := sound.room
  beyond := sound.beyond
  kinds := sound.kinds
  live v named := by
    obtain ⟨range, file, slot, live⟩ := sound.live v named
    obtain ⟨desc, present⟩ := Option.isSome_iff_exists.mp live
    obtain ⟨found, kept, -⟩ := larger.heap file desc present
    refine ⟨range, file, ?_, ?_⟩
    · exact (larger.slots _ (by rw [slot]; exact Option.some_ne_none file)).trans slot
    · exact Option.isSome_iff_exists.mpr ⟨found, kept⟩
  apart := sound.apart
  counted file found n present above := by
    rw [sound.entryFile_extends larger]
    cases before : state.files.heap file with
    | none =>
      have absent : ∀ v, v < n → entryFile state v ≠ some file := by
        intro v _ reaches
        have live := sound.file_live reaches
        rw [before] at live
        cases live
      rw [references_eq_zero absent]
      exact larger.fresh file found present before
    | some desc =>
      obtain ⟨same, kept, links⟩ := larger.heap file desc before
      rw [kept] at present
      cases present
      exact le_trans (sound.counted file desc n before above) links
  distinct v w file := by
    rw [sound.entryFile_extends larger]
    exact sound.distinct v w file

/-! ### What the library does -/

private theorem extends_errno (files : FileTable) (errno : Int) : Extends files { files with errno } :=
  ⟨fun _ _ => rfl, fun _ desc present => ⟨desc, present, le_rfl⟩, fun _ _ present absent => by rw [absent] at present; cases present⟩

private theorem update_used {slots : Nat → Option Nat} {i j : Nat} (free : slots i = none) (used : slots j ≠ none) (value : Option Nat) :
    Function.update slots i value j = slots j := by
  apply Function.update_of_ne
  rintro rfl
  exact used free

private theorem extends_allocate {i address : Nat} (free : files.slots i = none) (unused : files.heap address = none) :
    Extends files { files with
      slots := Function.update files.slots i (some address)
      heap := Function.update files.heap address (some ⟨i, 1⟩) } where
  slots j used := update_used free used _
  heap file desc present := by
    refine ⟨desc, ?_, le_rfl⟩
    rw [← present]
    exact Function.update_of_ne (fun same => by rw [same, unused] at present; cases present) _ _
  fresh file found present absent := by
    by_cases same : file = address
    · rw [same] at present
      cases (Function.update_self address _ files.heap).symm.trans present
      exact Int.one_nonneg
    · have kept := (Function.update_of_ne same _ _).symm.trans present
      rw [absent] at kept
      cases kept

private theorem extends_share {address slot : Nat} {other : FileTable} (free : files.slots slot = none)
    (shared : files.share address slot = some other) : Extends files other := by
  obtain ⟨desc, present, rfl⟩ := Option.map_eq_some_iff.mp shared
  constructor
  · intro i used
    exact update_used free used _
  · intro file found here
    by_cases same : file = address
    · subst same
      rw [present] at here
      cases here
      exact ⟨_, Function.update_self _ _ _, Int.le_add_one le_rfl⟩
    · exact ⟨found, (Function.update_of_ne same _ _).trans here, le_rfl⟩
  · intro file found here absent
    have different : file ≠ address := by
      rintro rfl
      rw [absent] at present
      cases present
    have kept := (Function.update_of_ne different _ _).symm.trans here
    rw [absent] at kept
    cases kept

private theorem open_spec (free : ∃ i, i < xpnMaxFile ∧ files.slots i = none) (path : Option Nat) (opens : Bool) {address : Option Nat}
    (unused : ∀ a, address = some a → files.heap a = none) {ret : Int} {other : FileTable}
    (done : files.xpnSimpleOpen path opens address = (ret, other)) : Extends files other ∧
      (ret < 0 ∨ ∃ file slot : Nat, ret = slot ∧ slot < xpnMaxFile ∧ files.slots slot = none ∧ other.slots slot = some file ∧
        files.heap file = none ∧ other.heap file = some ⟨slot, 1⟩) := by
  have refl : Extends files files := extends_errno files files.errno
  cases path with
  | none =>
    cases done
    exact ⟨extends_errno files einval, Or.inl (by decide)⟩
  | some length =>
    rw [xpnSimpleOpen] at done
    split at done
    · cases done
      exact ⟨extends_errno files einval, Or.inl (by decide)⟩
    · split at done
      · obtain ⟨i, inside, none⟩ := free
        obtain ⟨bound, slotFree⟩ := Proofs.FileTable.freeSlot_free inside none
        cases address with
        | none =>
          cases done
          exact ⟨⟨fun j used => update_used slotFree used _, refl.heap, refl.fresh⟩, Or.inl (by decide)⟩
        | some a =>
          cases done
          exact ⟨extends_allocate slotFree (unused a rfl), Or.inr ⟨a, files.freeSlot, rfl, bound, slotFree,
            Function.update_self _ _ _, unused a rfl, Function.update_self _ _ _⟩⟩
      · cases done
        exact ⟨refl, Or.inl (by decide)⟩

private theorem dup_spec (free : ∃ i, i < xpnMaxFile ∧ files.slots i = none) {fd ret : Int} {file : Nat} {other : FileTable}
    (range : InRange fd) (slot : files.slots fd.toNat = some file) (done : files.xpnSimpleDup fd = some (ret, other)) :
    ret = files.freeSlot ∧ Extends files other := by
  obtain ⟨i, inside, none⟩ := free
  rw [xpnSimpleDup, if_pos range, slot] at done
  obtain ⟨shared, same, pair⟩ := Option.map_eq_some_iff.mp done
  cases pair
  exact ⟨rfl, extends_share (Proofs.FileTable.freeSlot_free inside none).2 same⟩

private theorem freeSlot_eq {i : Nat} (inside : i < xpnMaxFile) (free : files.slots i = none) (before : ∀ j < i, files.slots j ≠ none) :
    files.freeSlot = i := by
  obtain ⟨-, -, full, -⟩ := Proofs.FileTable.searchSlot_spec files (xpnMaxFile - 1) 0
  obtain ⟨-, stops⟩ := Proofs.FileTable.freeSlot_free inside free
  apply Nat.le_antisymm
  · by_contra later
    exact full i (Nat.zero_le i) (not_le.mp later) free
  · by_contra earlier
    exact before files.freeSlot (not_le.mp earlier) stops

private theorem dup2_refused {fd fd2 : Int} (taken : InRange fd2 → files.slots fd2.toNat ≠ none) :
    files.xpnSimpleDup2 fd fd2 = some (-1, files) := by
  rw [xpnSimpleDup2]
  split
  next ranges =>
    split
    next free => exact absurd free (taken ranges.2)
    next => rfl
  next => rfl

/-! ### The table of the bypass -/

theorem searchFree_spec (table : FdsTable) {i : Nat} : ∀ fuel start, table.searchFree fuel start = some i →
    (table.entries i).type = .free ∧ i < start + fuel := by
  intro fuel
  induction fuel with
  | zero =>
    intro start found
    cases found
  | succ fuel ih =>
    intro start found
    rw [FdsTable.searchFree] at found
    split at found
    next free =>
      cases found
      exact ⟨free, by omega⟩
    next =>
      obtain ⟨free, below⟩ := ih (start + 1) found
      exact ⟨free, by omega⟩

/-- An entry that was free takes the descriptor; the table only grows. -/
theorem put_spec (room : maxFds ≤ table.size) (beyond : ∀ v, table.size ≤ v → table.entries v = unusedFd) (fd : GenericFd) :
    ∃ i : Nat, (table.fdstablePut fd).1 = (i : Int) + plusXpn ∧ (table.entries i).type = .free ∧ i < (table.fdstablePut fd).2.size ∧
      table.size ≤ (table.fdstablePut fd).2.size ∧ (table.fdstablePut fd).2.entries = Function.update table.entries i fd := by
  have some : table.size ≠ 0 := by
    unfold maxFds at room
    omega
  have grown : table.fdstableRealloc.entries = table.entries := by
    funext v
    unfold FdsTable.fdstableRealloc
    simp only [if_neg some]
    split
    next new => exact (beyond v new.1).symm
    next => rfl
  have size : table.fdstableRealloc.size = table.size * 2 := if_neg some
  have unused := beyond table.size le_rfl
  rw [FdsTable.fdstablePut]
  cases found : table.searchFree (table.size - table.firstFree) table.firstFree with
  | some i =>
    obtain ⟨free, below⟩ := searchFree_spec table _ _ found
    refine ⟨i, rfl, free, ?_, le_rfl, rfl⟩
    dsimp only
    by_contra outside
    have none : table.searchFree (table.size - table.firstFree) table.firstFree = Option.none := by
      have empty : table.size - table.firstFree = 0 := by omega
      rw [empty]
      rfl
    rw [none] at found
    cases found
  | none =>
    have free : (table.fdstableRealloc.entries table.size).type = .free := by rw [grown, unused]; rfl
    dsimp only
    rw [if_pos free]
    refine ⟨table.size, rfl, by rw [unused]; rfl, ?_, ?_, by rw [grown]⟩
    · dsimp only
      omega
    · dsimp only
      omega

private theorem Sound.put (sound : Sound state) {real file : Nat} {desc : FileDesc} {i : Nat} {fds : FdsTable} (inside : real < xpnMaxFile)
    (slot : state.files.slots real = some file) (present : state.files.heap file = some desc)
    (absent : ∀ v, entryFile state v ≠ some file) (linked : 1 ≤ desc.links)
    (unnamed : ∀ v, (state.fds.entries v).type = .xpn → (state.fds.entries v).realFd ≠ real)
    (free : (state.fds.entries i).type = .free) (bound : i < fds.size) (grows : state.fds.size ≤ fds.size)
    (entries : fds.entries = Function.update state.fds.entries i ⟨.xpn, real⟩) :
    Sound { state with fds } ∧ entryFile { state with fds } = Function.update (entryFile state) i (some file) := by
  have range : InRange (real : Int) := by
    unfold InRange
    omega
  have here : fds.entries i = ⟨.xpn, real⟩ := by rw [entries, Function.update_self]
  have elsewhere : ∀ v, v ≠ i → fds.entries v = state.fds.entries v := by
    intro v different
    rw [entries, Function.update_of_ne different]
  have reaches : entryFile { state with fds } = Function.update (entryFile state) i (some file) := by
    funext v
    by_cases same : v = i
    · subst same
      rw [Function.update_self]
      unfold entryFile
      rw [show (BypassState.mk fds state.files).fds.entries v = ⟨.xpn, real⟩ from here]
      dsimp only
      rw [if_pos ⟨rfl, range⟩]
      exact slot
    · rw [Function.update_of_ne same]
      unfold entryFile
      rw [show (BypassState.mk fds state.files).fds.entries v = state.fds.entries v from elsewhere v same]
  refine ⟨⟨le_trans sound.room grows, fun v past => ?_, fun v => ?_, fun v named => ?_, fun v w namedV namedW same => ?_,
    fun other found n listed above => ?_, fun v w other reachesV reachesW => ?_⟩, reaches⟩
  · change fds.size ≤ v at past
    exact (elsewhere v (by omega)).trans (sound.beyond v (le_trans grows past))
  · by_cases same : v = i
    · right
      subst same
      exact congrArg GenericFd.type here
    · rw [show (BypassState.mk fds state.files).fds.entries v = state.fds.entries v from elsewhere v same]
      exact sound.kinds v
  · by_cases same : v = i
    · subst same
      rw [show (BypassState.mk fds state.files).fds.entries v = ⟨.xpn, real⟩ from here]
      exact ⟨range, file, slot, Option.isSome_iff_exists.mpr ⟨desc, present⟩⟩
    · rw [show (BypassState.mk fds state.files).fds.entries v = state.fds.entries v from elsewhere v same] at named ⊢
      exact sound.live v named
  · change (fds.entries v).type = .xpn at namedV
    change (fds.entries w).type = .xpn at namedW
    change (fds.entries v).realFd = (fds.entries w).realFd at same
    by_cases first : v = i
    · by_cases second : w = i
      · rw [first, second]
      · rw [elsewhere w second] at namedW same
        rw [first, here] at same
        exact absurd same.symm (unnamed w namedW)
    · rw [elsewhere v first] at namedV same
      by_cases second : w = i
      · rw [second, here] at same
        exact absurd same (unnamed v namedV)
      · rw [elsewhere w second] at namedW same
        exact sound.apart v w namedV namedW same
  · have below : state.fds.size ≤ n := le_trans grows above
    have old : entryFile state i ≠ some other := by
      intro reached
      rw [entryFile_xpn reached] at free
      cases free
    have count := references_update (entryFile state) other (lt_of_lt_of_le bound above) (some file)
    rw [reaches]
    rw [if_neg old] at count
    by_cases same : file = other
    · subst same
      change state.files.heap file = some found at listed
      rw [present] at listed
      cases listed
      rw [if_pos rfl, references_eq_zero fun v _ => absent v] at count
      omega
    · rw [if_neg (fun equal => same (Option.some.inj equal))] at count
      have before := sound.counted other found n listed below
      omega
  · rw [reaches] at reachesV reachesW
    by_cases first : v = i
    · by_cases second : w = i
      · rw [first, second]
      · rw [first, Function.update_self] at reachesV
        rw [Function.update_of_ne second, ← reachesV] at reachesW
        exact absurd reachesW (absent w)
    · rw [Function.update_of_ne first] at reachesV
      by_cases second : w = i
      · rw [second, Function.update_self] at reachesW
        rw [← reachesW] at reachesV
        exact absurd reachesV (absent v)
      · rw [Function.update_of_ne second] at reachesW
        exact sound.distinct v w other reachesV reachesW

/-- The number of the library means nothing to the bypass, or a descriptor that cannot be
duplicated onto the one that was just opened. -/
private theorem trick_nothing (sound : Sound state) {real i : Nat} (inside : real < xpnMaxFile) (taken : state.files.slots real ≠ none)
    (bound : i < state.fds.size) (entry : state.fds.entries i = ⟨.xpn, real⟩) :
    ∃ outcome, state.dup2 real ((i : Int) + plusXpn) = some (outcome, state) := by
  have found : state.fds.fdstableGet ((i : Int) + plusXpn) = some ⟨.xpn, real⟩ := by
    have index : ((i : Int) + plusXpn - plusXpn).toNat = i := by omega
    rw [FdsTable.fdstableGet, if_pos (by omega), index]
    dsimp only
    rw [if_pos bound, entry]
  have first : ∃ fd, state.fds.fdstableGet real = some fd := by
    rw [FdsTable.fdstableGet]
    split
    next virtual =>
      have room := sound.room
      have index : ((real : Int) - plusXpn).toNat < state.fds.size := by
        unfold maxFds at room
        unfold xpnMaxFile at inside
        omega
      dsimp only
      rw [if_pos index]
      exact ⟨_, rfl⟩
    next => exact ⟨_, rfl⟩
  obtain ⟨fd, number⟩ := first
  rw [BypassState.dup2, number, found]
  simp only [Option.bind_eq_bind, Option.bind_some]
  split
  next =>
    have refused : state.files.xpnSimpleDup2 fd.realFd real = some (-1, state.files) := by
      apply dup2_refused
      intro _
      rw [Int.toNat_natCast]
      exact taken
    rw [refused]
    exact ⟨_, rfl⟩
  next => exact ⟨_, rfl⟩

/-! ### The calls -/

private theorem openFile_kept (after : BypassState) {fd : Int} {file : Nat} (reaches : openFile state fd = some file) (size : state.fds.size ≤ after.fds.size)
    (same : (plusXpn : Int) ≤ fd → entryFile state (fd - plusXpn).toNat = some file →
      entryFile after (fd - plusXpn).toNat = some file) : openFile after fd = some file := by
  rw [openFile] at reaches ⊢
  split at reaches
  next inside =>
    rw [if_pos ⟨inside.1, by omega⟩]
    exact same inside.1 reaches
  next => cases reaches

private theorem Sound.openFile_extends (sound : Sound state) (larger : Extends state.files files) (fd : Int) :
    openFile { state with files } fd = openFile state fd := by
  rw [openFile, openFile, sound.entryFile_extends larger]

private theorem Sound.open (sound : Sound state) (free : ∃ i, i < xpnMaxFile ∧ state.files.slots i = none) {path : Option Nat} {opens : Bool}
    {address : Option Nat} (unused : ∀ a, address = some a → state.files.heap a = none) {outcome : Outcome}
    (done : state.open path opens address = some (outcome, after)) :
    Sound after ∧ ∀ fd file, openFile state fd = some file → openFile after fd = some file := by
  generalize opened_eq : state.files.xpnSimpleOpen path opens address = opened
  obtain ⟨fd, files⟩ := opened
  obtain ⟨larger, result⟩ := open_spec free path opens unused opened_eq
  have kept := sound.extends larger
  have reached := sound.entryFile_extends larger
  have library := sound.openFile_extends larger
  rw [BypassState.open, opened_eq] at done
  simp only [Option.bind_eq_bind, BypassState.addXpnFileToFdstable] at done
  rcases result with failed | ⟨file, slot, rfl, inside, wasFree, slotFile, newFile, present⟩
  · rw [if_pos failed] at done
    cases done
    exact ⟨kept, fun fd file reaches => (library fd).trans reaches⟩
  · rw [if_neg (by omega)] at done
    obtain ⟨i, ret, wasUnused, bound, grows, entries⟩ := put_spec kept.room kept.beyond ⟨.xpn, slot⟩
    have absent : ∀ v, entryFile state v ≠ some file := by
      intro v reaches
      have live := sound.file_live reaches
      rw [newFile] at live
      cases live
    have unnamed : ∀ v, (state.fds.entries v).type = .xpn → (state.fds.entries v).realFd ≠ slot := by
      intro v named same
      obtain ⟨-, other, taken, -⟩ := sound.live v named
      rw [same, Int.toNat_natCast, wasFree] at taken
      cases taken
    obtain ⟨placed, reaches⟩ := kept.put inside slotFile present (reached ▸ absent) le_rfl unnamed wasUnused bound grows entries
    have here : (state.fds.fdstablePut ⟨.xpn, slot⟩).2.entries i = ⟨.xpn, slot⟩ := by rw [entries, Function.update_self]
    have taken : files.slots slot ≠ none := by
      rw [slotFile]
      exact Option.some_ne_none file
    obtain ⟨trick, nothing⟩ := trick_nothing placed inside taken bound here
    rw [if_neg (by rw [ret]; omega), ret, nothing] at done
    cases done
    refine ⟨placed, fun fd other before => ?_⟩
    apply openFile_kept _ ((library fd).trans before) grows
    intro _ entry
    rw [reaches, Function.update_of_ne]
    · exact entry
    · intro same
      rw [reached] at entry
      have named := entryFile_xpn entry
      rw [same] at named
      exact absurd (named.symm.trans wasUnused) FdType.noConfusion

private theorem openFile_get {fd : Int} {virtualFd : GenericFd} (found : state.fds.fdstableGet fd = some virtualFd)
    (named : virtualFd.type = .xpn) : (plusXpn : Int) ≤ fd ∧ (fd - plusXpn).toNat < state.fds.size ∧
      state.fds.entries (fd - plusXpn).toNat = virtualFd ∧ openFile state fd = entryFile state (fd - plusXpn).toNat := by
  rw [FdsTable.fdstableGet] at found
  split at found
  next virtual =>
    dsimp only at found
    split at found
    next inside =>
      cases found
      refine ⟨virtual, inside, rfl, ?_⟩
      rw [openFile, if_pos ⟨virtual, inside⟩]
    next => cases found
  next =>
    cases found
    cases named

private theorem get_openFile {fd : Int} {virtualFd : GenericFd} {file : Nat} (found : state.fds.fdstableGet fd = some virtualFd)
    (reaches : openFile state fd = some file) : virtualFd.type = .xpn := by
  rw [openFile] at reaches
  split at reaches
  next inside =>
    rw [FdsTable.fdstableGet, if_pos inside.1] at found
    dsimp only at found
    rw [if_pos inside.2] at found
    cases found
    exact entryFile_xpn reaches
  next => cases reaches

private theorem openFile_distinct (sound : Sound state) {fd other : Int} {file : Nat} (reaches : openFile state fd = some file)
    (same : openFile state other = some file) : fd = other := by
  rw [openFile] at reaches same
  split at reaches
  next virtual =>
    split at same
    next virtualOther =>
      have entry := sound.distinct _ _ file reaches same
      omega
    next => cases same
  next => cases reaches

private theorem Sound.dup (sound : Sound state) {fd : Int} (free : (openFile state fd).isSome →
      ∃ i, i < xpnMaxFile ∧ state.files.slots i = none) {outcome : Outcome} (done : state.dup fd = some (outcome, after)) :
    Sound after ∧ (∀ other, openFile after other = openFile state other) ∧
      ((openFile state fd).isSome → outcome = .library state.files.freeSlot) := by
  rw [BypassState.dup] at done
  obtain ⟨virtualFd, found, done⟩ := Option.bind_eq_some_iff.mp done
  split at done
  next named =>
    obtain ⟨-, -, entry, reaches⟩ := openFile_get found named
    rw [← entry] at named
    obtain ⟨range, file, slot, -⟩ := sound.live _ named
    obtain ⟨⟨ret, files⟩, library, result⟩ := Option.bind_eq_some_iff.mp done
    cases result
    have some : (openFile state fd).isSome := by
      rw [reaches, entryFile, if_pos ⟨named, range⟩, slot]
      rfl
    rw [← entry] at library
    obtain ⟨rfl, larger⟩ := dup_spec (free some) range slot library
    exact ⟨sound.extends larger, sound.openFile_extends larger, fun _ => rfl⟩
  next other =>
    cases done
    refine ⟨sound, fun _ => rfl, fun reaches => ?_⟩
    obtain ⟨file, reaches⟩ := Option.isSome_iff_exists.mp reaches
    exact absurd (get_openFile found reaches) other

private theorem Sound.dup2 (sound : Sound state) {fd fd2 : Int} (refused : (openFile state fd).isSome →
      (plusXpn : Int) ≤ fd2 ∨ fd2 < 0 ∨ state.files.slots fd2.toNat ≠ none) {outcome : Outcome}
    (done : state.dup2 fd fd2 = some (outcome, after)) : after = state ∧ (outcome = .library (-1) ∨ outcome = .system) := by
  rw [BypassState.dup2] at done
  obtain ⟨virtualFd, found, done⟩ := Option.bind_eq_some_iff.mp done
  obtain ⟨virtualFd2, found2, done⟩ := Option.bind_eq_some_iff.mp done
  split at done
  next named =>
    obtain ⟨-, -, entry, reaches⟩ := openFile_get found named
    have named' := named
    rw [← entry] at named'
    obtain ⟨range, file, slot, -⟩ := sound.live _ named'
    have some : (openFile state fd).isSome := by
      rw [reaches, entryFile, if_pos ⟨named', range⟩, slot]
      rfl
    have taken : InRange virtualFd2.realFd → state.files.slots virtualFd2.realFd.toNat ≠ none := by
      intro range2
      rw [FdsTable.fdstableGet] at found2
      split at found2
      next virtual =>
        dsimp only at found2
        split at found2
        next inside =>
          cases found2
          rcases sound.kinds (fd2 - plusXpn).toNat with unused | named2
          · rw [unused] at range2
            exact absurd range2 (by decide)
          · obtain ⟨-, other, slot2, -⟩ := sound.live _ named2
            rw [slot2]
            exact Option.some_ne_none other
        next => cases found2
      next number =>
        cases found2
        rcases refused some with virtual | negative | used
        · exact absurd virtual number
        · exact absurd range2.1 (not_le.mpr negative)
        · exact used
    obtain ⟨⟨ret, files⟩, library, result⟩ := Option.bind_eq_some_iff.mp done
    rw [dup2_refused taken] at library
    cases library
    cases result
    exact ⟨rfl, Or.inl rfl⟩
  next =>
    cases done
    exact ⟨rfl, Or.inr rfl⟩

private theorem Sound.dup2_system (sound : Sound state) {fd fd2 : Int} {file : Nat} (reaches : openFile state fd = some file)
    (system : fd2 < plusXpn) (low : 0 ≤ fd2) (free : state.files.slots fd2.toNat = none) {outcome : Outcome}
    (done : state.dup2 fd fd2 = some (outcome, after)) : outcome = .library 0 := by
  rw [BypassState.dup2] at done
  obtain ⟨virtualFd, found, done⟩ := Option.bind_eq_some_iff.mp done
  have named := get_openFile found reaches
  obtain ⟨-, -, entry, -⟩ := openFile_get found named
  rw [FdsTable.fdstableGet, if_neg (by omega), Option.bind_eq_bind, Option.bind_some, if_pos named] at done
  rw [← entry] at named
  obtain ⟨range, address, slot, -⟩ := sound.live _ named
  obtain ⟨⟨ret, files⟩, library, result⟩ := Option.bind_eq_some_iff.mp done
  have range2 : InRange fd2 := by
    unfold plusXpn at system
    simp only [InRange, xpnMaxFile]
    omega
  rw [← entry, xpnSimpleDup2, if_pos ⟨range, range2⟩, slot, free] at library
  obtain ⟨shared, -, pair⟩ := Option.map_eq_some_iff.mp library
  cases pair
  cases result
  rfl

private theorem Sound.remove (sound : Sound state) {v file : Nat} {fds : FdsTable} {desc : FileDesc} (inside : v < state.fds.size)
    (named : (state.fds.entries v).type = .xpn) (slot : state.files.slots (state.fds.entries v).realFd.toNat = some file)
    (present : state.files.heap file = some desc) (size : fds.size = state.fds.size)
    (entries : fds.entries = Function.update state.fds.entries v unusedFd)
    (slots : ∀ i, i ≠ (state.fds.entries v).realFd.toNat → files.slots i = state.files.slots i)
    (heap : ∀ other, other ≠ file → files.heap other = state.files.heap other)
    (last : files.heap file = none ∧ desc.links ≤ 1 ∨ ∃ found, files.heap file = some found ∧ found.links = desc.links - 1) :
    Sound ⟨fds, files⟩ ∧ entryFile ⟨fds, files⟩ = Function.update (entryFile state) v none := by
  have here : fds.entries v = unusedFd := by rw [entries, Function.update_self]
  have elsewhere : ∀ w, w ≠ v → fds.entries w = state.fds.entries w := by
    intro w different
    rw [entries, Function.update_of_ne different]
  have other : ∀ w, (fds.entries w).type = .xpn → w ≠ v := by
    rintro w namedW rfl
    rw [here] at namedW
    cases namedW
  have range := (sound.live v named).1
  have own : ∀ w, w ≠ v → (state.fds.entries w).type = .xpn → InRange (state.fds.entries w).realFd →
      files.slots (state.fds.entries w).realFd.toNat = state.files.slots (state.fds.entries w).realFd.toNat := by
    intro w different namedW rangeW
    apply slots
    intro same
    obtain ⟨low, -⟩ := range
    obtain ⟨lowW, -⟩ := rangeW
    exact different (sound.apart w v namedW named (by omega))
  have first : entryFile state v = some file := by rw [entryFile, if_pos ⟨named, range⟩, slot]
  have reaches : entryFile ⟨fds, files⟩ = Function.update (entryFile state) v none := by
    funext w
    by_cases same : w = v
    · subst same
      rw [Function.update_self, entryFile, here]
      rfl
    · rw [Function.update_of_ne same, entryFile, entryFile, elsewhere w same]
      dsimp only
      split
      next valid => exact own w same valid.1 valid.2
      next => rfl
  have count : ∀ target n, state.fds.size ≤ n → references n (entryFile ⟨fds, files⟩) target + (if file = target then 1 else 0) =
      references n (entryFile state) target := by
    intro target n above
    have changed := references_update (entryFile state) target (lt_of_lt_of_le inside above) none
    rw [first] at changed
    rw [reaches]
    by_cases same : file = target
    · subst same
      rw [if_pos rfl] at changed ⊢
      rw [if_neg (Option.some_ne_none _).symm] at changed
      exact changed
    · rw [if_neg (fun equal => same (Option.some.inj equal)), if_neg (Option.some_ne_none _).symm] at changed
      rw [if_neg same]
      exact changed
  refine ⟨⟨?_, fun w past => ?_, fun w => ?_, fun w namedW => ?_, fun w u namedW namedU same => ?_,
    fun target found n listed above => ?_, fun w u target reachesW reachesU => ?_⟩, reaches⟩
  · exact le_of_le_of_eq sound.room size.symm
  · change fds.size ≤ w at past
    exact (elsewhere w (by omega)).trans (sound.beyond w (by omega))
  · by_cases same : w = v
    · subst same
      exact Or.inl here
    · change fds.entries w = unusedFd ∨ (fds.entries w).type = .xpn
      rw [elsewhere w same]
      exact sound.kinds w
  · change (fds.entries w).type = .xpn at namedW
    have different := other w namedW
    change InRange (fds.entries w).realFd ∧ ∃ found, files.slots (fds.entries w).realFd.toNat = some found ∧ (files.heap found).isSome
    rw [elsewhere w different] at namedW ⊢
    obtain ⟨rangeW, target, slotW, live⟩ := sound.live w namedW
    refine ⟨rangeW, target, (own w different namedW rangeW).trans slotW, ?_⟩
    by_cases same : target = file
    · subst same
      rcases last with ⟨-, single⟩ | ⟨found, kept, -⟩
      · have bound := sound.counted target desc (max state.fds.size (w + 1)) present (le_max_left _ _)
        have changed := count target (max state.fds.size (w + 1)) (le_max_left _ _)
        rw [if_pos rfl] at changed
        have second : entryFile ⟨fds, files⟩ w = some target := by
          rw [reaches, Function.update_of_ne different, entryFile, if_pos ⟨namedW, rangeW⟩, slotW]
        have below : w < max state.fds.size (w + 1) := by omega
        have more := references_pos below second
        omega
      · rw [kept]
        rfl
    · rw [heap target same]
      exact live
  · change (fds.entries w).type = .xpn at namedW
    change (fds.entries u).type = .xpn at namedU
    change (fds.entries w).realFd = (fds.entries u).realFd at same
    have differentW := other w namedW
    have differentU := other u namedU
    rw [elsewhere w differentW] at namedW same
    rw [elsewhere u differentU] at namedU same
    exact sound.apart w u namedW namedU same
  · change fds.size ≤ n at above
    rw [size] at above
    have changed := count target n above
    by_cases same : file = target
    · subst same
      rw [if_pos rfl] at changed
      have bound := sound.counted file desc n present above
      rcases last with ⟨gone, -⟩ | ⟨kept, stays, links⟩
      · rw [show files.heap file = some found from listed] at gone
        cases gone
      · rw [show files.heap file = some found from listed] at stays
        cases stays
        omega
    · rw [if_neg same, Nat.add_zero] at changed
      rw [changed]
      apply sound.counted target found n _ above
      rw [← heap target (fun equal => same equal.symm)]
      exact listed
  · have differentW := other w (entryFile_xpn reachesW)
    have differentU := other u (entryFile_xpn reachesU)
    rw [reaches, Function.update_of_ne differentW] at reachesW
    rw [reaches, Function.update_of_ne differentU] at reachesU
    exact sound.distinct w u target reachesW reachesU

private theorem Sound.close (sound : Sound state) {fd : Int} {outcome : Outcome} (done : state.close fd = some (outcome, after)) :
    Sound after ∧ ∀ other file, other ≠ fd → openFile state other = some file → openFile after other = some file := by
  rw [BypassState.close] at done
  obtain ⟨virtualFd, found, done⟩ := Option.bind_eq_some_iff.mp done
  split at done
  next named =>
    obtain ⟨virtual, inside, entry, -⟩ := openFile_get found named
    rw [← entry] at named
    obtain ⟨range, file, slot, live⟩ := sound.live _ named
    obtain ⟨desc, present⟩ := Option.isSome_iff_exists.mp live
    obtain ⟨⟨ret, files⟩, library, result⟩ := Option.bind_eq_some_iff.mp done
    cases result
    have removed : state.fds.fdstableRemove fd = { state.fds with
        entries := Function.update state.fds.entries (fd - plusXpn).toNat unusedFd
        firstFree := if (fd - plusXpn).toNat < state.fds.firstFree then (fd - plusXpn).toNat else state.fds.firstFree } := by
      rw [FdsTable.fdstableRemove, if_neg (by omega)]
    have spec : Sound ⟨state.fds.fdstableRemove fd, files⟩ ∧
        entryFile ⟨state.fds.fdstableRemove fd, files⟩ = Function.update (entryFile state) (fd - plusXpn).toNat none := by
      rw [← entry, xpnSimpleClose, FileTable.release, if_pos range] at library
      simp only [slot, present, Option.map_some, Option.some.injEq] at library
      split at library
      next single =>
        cases library
        apply sound.remove inside named slot present (by rw [removed]) (by rw [removed])
        · exact fun i different => Function.update_of_ne different _ _
        · exact fun other different => Function.update_of_ne different _ _
        · exact Or.inl ⟨Function.update_self _ _ _, by omega⟩
      next =>
        cases library
        apply sound.remove inside named slot present (by rw [removed]) (by rw [removed])
        · exact fun _ _ => rfl
        · exact fun other different => Function.update_of_ne different _ _
        · exact Or.inr ⟨_, Function.update_self _ _ _, rfl⟩
    refine ⟨spec.1, fun other target different reaches => ?_⟩
    apply openFile_kept _ reaches (by rw [removed])
    intro virtualOther before
    rw [spec.2, Function.update_of_ne]
    · exact before
    · intro same
      exact different (by omega)
  next =>
    cases done
    exact ⟨sound, fun _ _ _ reaches => reaches⟩

/-! ### Main result -/

private theorem sound_step {before later : DescriptorState} {call : BypassCall} (sound : Sound before.tables) (inside : Inside before)
    (allowed : StaysInside before call) (taken : BypassStep before call later) : Sound later.tables ∧ Inside later := by
  obtain ⟨allocates, outcome, done, made⟩ := taken
  cases call with
  | «open» path opens address =>
    have unused : ∀ a, address = some a → before.tables.files.heap a = none := by
      rintro a rfl
      exact Option.isNone_iff_eq_none.mp allocates
    obtain ⟨soundAfter, kept⟩ := sound.open allowed unused done
    refine ⟨soundAfter, fun fd file member => kept fd file (inside fd file ?_)⟩
    rwa [made] at member
  | dup fd =>
    have first (some : (openFile before.tables fd).isSome) : before.tables.files.freeSlot = fd.toNat ∧ fd.toNat < xpnMaxFile := by
      obtain ⟨range, used, free⟩ := allowed some
      simp only [InRange] at range
      exact ⟨freeSlot_eq (by omega) free fun j earlier => used j (by omega), by omega⟩
    have free (some : (openFile before.tables fd).isSome) : ∃ i, i < xpnMaxFile ∧ before.tables.files.slots i = none :=
      ⟨fd.toNat, (first some).2, (allowed some).2.2⟩
    obtain ⟨soundAfter, kept, number⟩ := sound.dup free done
    refine ⟨soundAfter, fun other file member => ?_⟩
    rw [kept]
    rw [made] at member
    cases outcome with
    | system => exact inside other file member
    | library ret =>
      dsimp only [madeAfter] at member
      split at member
      next =>
        rcases List.mem_append.mp member with old | new
        · exact inside other file old
        · -- It is the number of the original.
          obtain ⟨original, reaches, same⟩ := List.mem_map.mp new
          cases same
          have some : (openFile before.tables fd).isSome := Option.isSome_iff_exists.mpr ⟨file, Option.mem_toList.mp reaches⟩
          have low := (allowed some).1.1
          obtain rfl := Outcome.library.inj (number some)
          rw [(first some).1, Int.toNat_of_nonneg low]
          exact Option.mem_toList.mp reaches
      next => exact inside other file member
  | dup2 fd fd2 =>
    obtain ⟨same, refused⟩ := sound.dup2 allowed done
    have unchanged : later.made = before.made := by
      rw [made]
      rcases refused with rfl | rfl
      · rfl
      · rfl
    rw [same]
    refine ⟨sound, fun other file member => ?_⟩
    rw [unchanged] at member
    rw [same]
    exact inside other file member
  | close fd =>
    obtain ⟨soundAfter, kept⟩ := sound.close done
    refine ⟨soundAfter, fun other file member => ?_⟩
    rw [made] at member
    obtain ⟨old, different⟩ := List.mem_filter.mp member
    exact kept other file (of_decide_eq_true different) (inside other file old)

private theorem run_inside {state : DescriptorState} (run : Reachable BypassStep StaysInside noDescriptors state) :
    Sound state.tables ∧ Inside state := by
  apply run.invariant fun state => Sound state.tables ∧ Inside state
  · exact ⟨sound_initial, fun _ _ member => absurd member List.not_mem_nil⟩
  · intro before call after kept allowed taken
    exact sound_step kept.1 kept.2 allowed taken

private theorem stays_of_inside {before later : DescriptorState} {call : BypassCall} (sound : Sound before.tables)
    (free : ∃ i, i < xpnMaxFile ∧ before.tables.files.slots i = none) (taken : BypassStep before call later) (inside : Inside later) :
    StaysInside before call := by
  obtain ⟨-, outcome, done, made⟩ := taken
  cases call with
  | «open» path opens address => exact free
  | close fd => trivial
  | dup fd =>
    intro some
    obtain ⟨file, reaches⟩ := Option.isSome_iff_exists.mp some
    obtain ⟨soundAfter, kept, number⟩ := sound.dup (fun _ => free) done
    rw [number some] at made
    have member : ((before.tables.files.freeSlot : Int), file) ∈ later.made := by
      rw [made, madeAfter, if_pos (Int.natCast_nonneg _), reaches]
      simp
    have here := inside _ _ member
    rw [kept] at here
    have same : (before.tables.files.freeSlot : Int) = fd := openFile_distinct sound here reaches
    obtain ⟨i, below, none⟩ := free
    obtain ⟨bound, stops⟩ := Proofs.FileTable.freeSlot_free below none
    obtain ⟨-, -, full, -⟩ := Proofs.FileTable.searchSlot_spec before.tables.files (xpnMaxFile - 1) 0
    rw [← same]
    refine ⟨?_, fun j earlier => full j (Nat.zero_le j) (by exact_mod_cast earlier), by rwa [Int.toNat_natCast]⟩
    simp only [InRange]
    omega
  | dup2 fd fd2 =>
    intro some
    obtain ⟨file, reaches⟩ := Option.isSome_iff_exists.mp some
    by_contra outside
    simp only [not_or, not_le, not_lt, ne_eq, not_not] at outside
    obtain ⟨system, low, unused⟩ := outside
    have result := sound.dup2_system reaches system low unused done
    rw [result] at made
    have member : (fd2, file) ∈ later.made := by
      rw [made, madeAfter, if_pos le_rfl, reaches]
      simp
    have here := inside _ _ member
    rw [openFile, if_neg fun virtual => absurd virtual.1 (not_le.mpr system)] at here
    cases here

/-- Where `dup` is only asked for a descriptor whose own number is the library's first free slot, and
`dup2` never for a free number of the system, every duplicate reaches the open file of its original
for as long as it is not closed. While the library has a free slot, any other call of them breaks it. -/
theorem duplicates_inside {state : DescriptorState} (run : Reachable BypassStep StaysInside noDescriptors state) :
    Inside state ∧ ∀ call later, (∃ i, i < xpnMaxFile ∧ state.tables.files.slots i = none) → BypassStep state call later →
      (Inside later ↔ StaysInside state call) :=
  ⟨(run_inside run).2, fun _ _ free taken =>
    ⟨stays_of_inside (run_inside run).1 free taken, fun allowed => (run_inside (run.next allowed taken)).2⟩⟩

def next (before : DescriptorState) (call : BypassCall) : DescriptorState :=
  match call.perform before.tables with
  | some (outcome, tables) => ⟨tables, madeAfter before outcome call⟩
  | none => before

private theorem next_step (before : DescriptorState) (call : BypassCall) (allocates : call.Allocates before.tables)
    (defined : (call.perform before.tables).isSome) : BypassStep before call (next before call) := by
  obtain ⟨⟨outcome, tables⟩, done⟩ := Option.isSome_iff_exists.mp defined
  have after : next before call = ⟨tables, madeAfter before outcome call⟩ := by rw [next, done]
  rw [after]
  exact ⟨allocates, outcome, done, rfl⟩

private def oneOpen : DescriptorState := next noDescriptors (.open (some 2) true (some 7))

private theorem oneOpen_step : BypassStep noDescriptors (.open (some 2) true (some 7)) oneOpen :=
  next_step _ _ rfl (by decide)

/-- The duplicate of the virtual descriptor 1000 is 1, a number of the system. -/
theorem dup_leaves_bypass : ¬∀ state, Reachable BypassStep (fun _ _ => True) noDescriptors state → Inside state := by
  intro always
  have duplicated : BypassStep oneOpen (.dup 1000) (next oneOpen (.dup 1000)) := next_step _ _ trivial (by decide)
  have inside := always _ (.next (.next .start trivial oneOpen_step) trivial duplicated)
  exact absurd (inside 1 7 (by decide)) (by decide)

private theorem front_update {β : Type} (f : Nat → β) (none : β) (k : Nat) :
    Function.update (fun i => if i < k then f i else none) k (f k) = fun i => if i < k + 1 then f i else none := by
  funext i
  by_cases same : i = k
  · rw [same, Function.update_self, if_pos (Nat.lt_succ_self k)]
  · rw [Function.update_of_ne same]
    by_cases before : i < k
    · rw [if_pos before, if_pos (by omega)]
    · rw [if_neg before, if_neg (by omega)]

private def manyOpen (k : Nat) : BypassState :=
  ⟨⟨maxFds, fun v => if v < k then ⟨.xpn, v⟩ else unusedFd, k⟩,
    ⟨fun i => if i < k then some i else none, fun address => if address < k then some ⟨address, 1⟩ else none, 0⟩⟩

private theorem manyOpen_freeSlot {k : Nat} (room : k < xpnMaxFile) : (manyOpen k).files.freeSlot = k := by
  refine freeSlot_eq room (if_neg (lt_irrefl k)) fun j before => ?_
  simp [manyOpen, before]

private theorem manyOpen_open {k : Nat} (below : k < plusXpn) :
    (manyOpen k).open (some 2) true (some k) = some (.library ((k : Int) + plusXpn), manyOpen (k + 1)) := by
  unfold plusXpn at below
  have opened : (manyOpen k).files.xpnSimpleOpen (some 2) true (some k) = ((k : Int), (manyOpen (k + 1)).files) := by
    have short : ¬pathMax < 2 := by decide
    simp only [xpnSimpleOpen, if_neg short, if_true, xpnSearchSlotFile]
    rw [manyOpen_freeSlot (by unfold xpnMaxFile; omega)]
    dsimp only [manyOpen]
    rw [front_update fun i => some i, front_update fun address => some (FileDesc.mk address 1)]
  have put : (manyOpen k).fds.fdstablePut ⟨.xpn, k⟩ = ((k : Int) + plusXpn, (manyOpen (k + 1)).fds) := by
    obtain ⟨fuel, enough⟩ : ∃ fuel, maxFds - k = fuel + 1 := ⟨maxFds - k - 1, by unfold maxFds; omega⟩
    have found : (manyOpen k).fds.searchFree (maxFds - k) k = some k := by
      rw [enough, FdsTable.searchFree, if_pos]
      simp [manyOpen, unusedFd]
    rw [FdsTable.fdstablePut, show (manyOpen k).fds.size - (manyOpen k).fds.firstFree = maxFds - k from rfl,
      show (manyOpen k).fds.firstFree = k from rfl, found]
    dsimp only [manyOpen]
    rw [front_update fun v => GenericFd.mk .xpn v]
  have nonneg : ¬(k : Int) < 0 := by omega
  have made : ¬(k : Int) + plusXpn < 0 := by omega
  rw [BypassState.open, opened]
  have number : (manyOpen (k + 1)).fds.fdstableGet k = some ⟨.sys, k⟩ := if_neg (by unfold plusXpn; omega)
  have entry : (manyOpen (k + 1)).fds.fdstableGet ((k : Int) + plusXpn) = some ⟨.xpn, k⟩ := by
    have index : ((k : Int) + plusXpn - plusXpn).toNat = k := by omega
    rw [FdsTable.fdstableGet, if_pos (by omega), index]
    dsimp only
    rw [if_pos (show k < (manyOpen (k + 1)).fds.size by change k < 10000; omega)]
    exact congrArg some (if_pos (Nat.lt_succ_self k))
  have trick : BypassState.dup2 ⟨(manyOpen (k + 1)).fds, (manyOpen (k + 1)).files⟩ k ((k : Int) + plusXpn) =
      some (.system, manyOpen (k + 1)) := by
    rw [BypassState.dup2]
    dsimp only
    rw [number, entry]
    rfl
  simp only [Option.bind_eq_bind, Option.bind_some, BypassState.addXpnFileToFdstable, if_neg nonneg, put, if_neg made, trick]

private theorem manyOpen_reachable : ∀ k ≤ plusXpn, Reachable BypassStep StaysInside noDescriptors ⟨manyOpen k, []⟩
  | 0, _ => by
    have none : noDescriptors = ⟨manyOpen 0, []⟩ := by
      simp [noDescriptors, manyOpen, BypassState.initial, FdsTable.fdstableInit, FdsTable.fdstableRealloc, FileTable.empty]
    exact none ▸ .start
  | k + 1, below => by
    have room : k < xpnMaxFile := Nat.lt_of_lt_of_le below (by decide)
    have free : StaysInside ⟨manyOpen k, []⟩ (.open (some 2) true (some k)) := ⟨k, room, if_neg (lt_irrefl k)⟩
    have unused : (manyOpen k).files.heap k = none := if_neg (lt_irrefl k)
    exact (manyOpen_reachable k (by omega)).next free ⟨by simp [BypassCall.Allocates, unused], _, manyOpen_open below, rfl⟩

/-- With 1000 files open the first of them is duplicated onto its own number. -/
theorem duplicates_inside_itself : ∃ state : DescriptorState, (1000, 0) ∈ state.made ∧ Inside state := by
  have free : (manyOpen plusXpn).files.freeSlot = 1000 := manyOpen_freeSlot (by decide)
  have found : (manyOpen plusXpn).fds.fdstableGet 1000 = some ⟨.xpn, 0⟩ := rfl
  have reaches : openFile (manyOpen plusXpn) 1000 = some 0 := rfl
  obtain ⟨shared, done⟩ : ∃ shared, (manyOpen plusXpn).dup 1000 = some (.library 1000, shared) := by
    have slot : (manyOpen plusXpn).files.slots 0 = some 0 := rfl
    have present : (manyOpen plusXpn).files.heap 0 = some ⟨0, 1⟩ := rfl
    have range : InRange 0 := by decide
    simp only [BypassState.dup, found, Option.bind_eq_bind, Option.bind_some, if_true, xpnSimpleDup, if_pos range, Int.toNat_zero, slot,
      share, present, free, Option.map_some]
    exact ⟨_, rfl⟩
  have allowed : StaysInside ⟨manyOpen plusXpn, []⟩ (.dup 1000) := fun _ => by
    refine ⟨by decide, fun i below => ?_, rfl⟩
    have inside : i < plusXpn := by
      unfold plusXpn
      omega
    simp [manyOpen, inside]
  have taken : BypassStep ⟨manyOpen plusXpn, []⟩ (.dup 1000) ⟨shared, [(1000, 0)]⟩ :=
    ⟨trivial, _, done, by rw [madeAfter, reaches]; rfl⟩
  exact ⟨_, List.mem_singleton.mpr rfl, (duplicates_inside ((manyOpen_reachable plusXpn le_rfl).next allowed taken)).1⟩

end Xpn.Proofs.BypassTables
