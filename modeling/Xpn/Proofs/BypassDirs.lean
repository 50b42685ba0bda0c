import Xpn.BypassDirs
import Xpn.Proofs.BypassTables

/-! The two tables of the bypass over whole runs. What goes wrong is bound to four kinds of
calls: a number past the table, a directory table that is full while the other one is larger,
`close` of a directory, and `closedir`, which tells the library the slot instead of its
descriptor. In runs without them the tables agree with each other and with the library. -/

namespace Xpn.Proofs.BypassDirs
open Xpn.BypassTables Xpn.BypassDirs Lib.Runs

/-! ### Runs -/

/-- The tables, the descriptors that the library has handed out and was not told to close,
and the descriptor that it stored in each DIR. -/
structure LibraryState where
  tables : DirTables
  live : List Int
  stored : Nat → Int

def liveAfter (live : List Int) (answer : Answer) : DirCall → List Int
  | .open fd => if fd < 0 then live else fd :: live
  | .opendir none => live
  | .opendir (some (_, fd)) => fd :: live
  | .close _ | .closedir _ =>
    match answer with
    | .closes fd => live.filter fun other => other ≠ fd
    | _ => live

def storedAfter (stored : Nat → Int) : DirCall → Nat → Int
  | .opendir (some (dir, fd)) => Function.update stored dir fd
  | _ => stored

/-- The library hands out no descriptor that is live, and a DIR is at an address of its own. -/
def Fresh (state : LibraryState) : DirCall → Prop
  | .open fd => 0 ≤ fd → fd ∉ state.live
  | .opendir (some (dir, fd)) => 0 ≤ fd ∧ fd ∉ state.live ∧ ∀ i, i < state.tables.dirs.size → state.tables.dirs.entries i ≠ some dir
  | _ => True

def TableStep (before : LibraryState) (call : DirCall) (after : LibraryState) : Prop :=
  Fresh before call ∧ ∃ answer, call.perform before.tables = some (answer, after.tables) ∧
    after.live = liveAfter before.live answer call ∧ after.stored = storedAfter before.stored call

def noTables : LibraryState := ⟨DirTables.initial, [], fun _ => -1⟩

/-- A number of the system, or one inside the table as it is when the descriptor has been
put there. -/
def Reached (fds : FdsTable) (fd : Int) : Prop :=
  fd < plusXpn + fds.size ∨ (∀ i, i < fds.size → (fds.entries i).type ≠ .free) ∧ fd < plusXpn + fds.size * 2

def Regular (state : LibraryState) : DirCall → Prop
  | .open fd => Reached state.tables.fds fd
  | .opendir none => True
  | .opendir (some (_, fd)) => Reached state.tables.fds fd ∧
      ((∃ i, i < state.tables.dirs.size ∧ state.tables.dirs.entries i = none) ∨ state.tables.dirs.size = state.tables.fds.size)
  | .close fd => fd < plusXpn + state.tables.fds.size ∧
      ∀ i dir, i < state.tables.dirs.size → state.tables.dirs.entries i = some dir → state.tables.dirFd dir ≠ fd
  | .closedir dir => ∀ i, i < state.tables.dirs.size → state.tables.dirs.entries i = some dir →
      state.tables.dirFd dir = plusXpn + state.stored dir

/-- No free slot is below a hint, and no two live descriptors are one of the library. -/
structure Kept (tables : DirTables) : Prop where
  descriptors : ∀ v, v < tables.fds.firstFree → (tables.fds.entries v).type ≠ .free
  directories : ∀ i, i < tables.dirs.firstFree → tables.dirs.entries i ≠ none
  injective : ∀ v w, (tables.fds.entries v).type = .xpn → (tables.fds.entries w).type = .xpn →
    (tables.fds.entries v).realFd = (tables.fds.entries w).realFd → v = w

def IsLive (fds : FdsTable) (vfd : Int) : Prop := ∃ v, v < fds.size ∧ vfd = (v : Int) + plusXpn ∧ (fds.entries v).type = .xpn

/-- What is opened was not live before and is so now; a directory is closed with the
descriptor that the library stored in it. -/
def Answers (before : LibraryState) (answer : Answer) (after : DirTables) : DirCall → Prop
  | .open _ | .opendir _ => ∀ vfd, answer = .opened vfd → ¬IsLive before.tables.fds vfd ∧ IsLive after.fds vfd
  | .close _ => True
  | .closedir dir => ∀ i, i < before.tables.dirs.size → before.tables.dirs.entries i = some dir → answer = .closes (before.stored dir)

/-! ### The invariant -/

/-- A live descriptor is one that the library has handed out, and a directory has a slot of
its own in the table of descriptors, with what the library stored in it. -/
structure Sound (state : LibraryState) : Prop extends Kept state.tables where
  room : maxFds ≤ state.tables.fds.size
  dirRoom : state.tables.dirs.size ≠ 0
  beyond : ∀ v, state.tables.fds.size ≤ v → state.tables.fds.entries v = unusedFd
  dirsBeyond : ∀ i, state.tables.dirs.size ≤ i → state.tables.dirs.entries i = none
  held : ∀ v, (state.tables.fds.entries v).type = .xpn → (state.tables.fds.entries v).realFd ∈ state.live
  listed : ∀ i dir, state.tables.dirs.entries i = some dir → ∃ v : Nat, state.tables.dirFd dir = (v : Int) + plusXpn ∧
    state.tables.fds.entries v = ⟨.xpn, state.stored dir⟩
  apart : ∀ i j dir other, state.tables.dirs.entries i = some dir → state.tables.dirs.entries j = some other →
    state.tables.dirFd dir = state.tables.dirFd other → i = j

theorem sound_initial : Sound noTables := by
  have unused : ∀ v, FdsTable.fdstableInit.entries v = unusedFd := by
    intro v
    unfold FdsTable.fdstableInit FdsTable.fdstableRealloc
    exact ite_self _
  have empty : ∀ i, FdsdirTable.fdsdirtableInit.entries i = none := by
    intro i
    unfold FdsdirTable.fdsdirtableInit FdsdirTable.fdsdirtableRealloc
    exact ite_self _
  have notXpn : ∀ v, (FdsTable.fdstableInit.entries v).type ≠ .xpn := by
    intro v
    rw [unused]
    exact FdType.noConfusion
  exact {
    descriptors := fun v below => absurd below (Nat.not_lt_zero v)
    directories := fun i below => absurd below (Nat.not_lt_zero i)
    injective := fun v _ named => absurd named (notXpn v)
    room := le_rfl
    dirRoom := by decide
    beyond := fun v _ => unused v
    dirsBeyond := fun i _ => empty i
    held := fun v named => absurd named (notXpn v)
    listed := fun i _ here => nomatch (empty i).symm.trans here
    apart := fun i _ _ _ here => nomatch (empty i).symm.trans here }

/-! ### The table of descriptors -/

private theorem searchFree_first (table : FdsTable) : ∀ fuel start,
    (∀ i, table.searchFree fuel start = some i → ∀ j, start ≤ j → j < i → (table.entries j).type ≠ .free) ∧
      (table.searchFree fuel start = none → ∀ j, start ≤ j → j < start + fuel → (table.entries j).type ≠ .free) := by
  intro fuel
  induction fuel with
  | zero =>
    intro start
    constructor
    · intro i impossible
      cases impossible
    · intro _ j above below
      omega
  | succ fuel ih =>
    intro start
    rw [FdsTable.searchFree]
    split
    next free =>
      constructor
      · intro i found j above below
        cases found
        omega
      · intro impossible
        cases impossible
    next taken =>
      obtain ⟨first, none⟩ := ih (start + 1)
      constructor
      · intro i found j above below
        rcases Nat.eq_or_lt_of_le above with rfl | later
        · exact taken
        · exact first i found j later below
      · intro missing j above below
        rcases Nat.eq_or_lt_of_le above with rfl | later
        · exact taken
        · exact none missing j later (by omega)

variable {table after : FdsTable} {fd : Int} {v : Nat}

/-- A free slot has taken the descriptor of the library. -/
structure Taken (table after : FdsTable) (fd : Int) (v : Nat) : Prop where
  free : (table.entries v).type = .free
  inside : v < after.size
  grows : table.size ≤ after.size
  entries : after.entries = Function.update table.entries v ⟨.xpn, fd⟩
  hint : ∀ w, w < after.firstFree → (after.entries w).type ≠ .free

private theorem realloc_entries (room : maxFds ≤ table.size) (beyond : ∀ v, table.size ≤ v → table.entries v = unusedFd) :
    table.fdstableRealloc.entries = table.entries := by
  have some : table.size ≠ 0 := by
    unfold maxFds at room
    omega
  funext v
  unfold FdsTable.fdstableRealloc
  simp only [if_neg some]
  split
  next new => exact (beyond v new.1).symm
  next => rfl

private theorem put_hint (room : maxFds ≤ table.size) (beyond : ∀ v, table.size ≤ v → table.entries v = unusedFd)
    (hint : ∀ w, w < table.firstFree → (table.entries w).type ≠ .free) (fd : Int) :
    ∀ w, w < (table.fdstablePut ⟨.xpn, fd⟩).2.firstFree → ((table.fdstablePut ⟨.xpn, fd⟩).2.entries w).type ≠ .free := by
  have updated : ∀ v w, (table.entries w).type ≠ .free ∨ w = v → (Function.update table.entries v ⟨.xpn, fd⟩ w).type ≠ .free := by
    intro v w taken
    by_cases here : w = v
    · rw [here, Function.update_self]
      exact FdType.noConfusion
    · rw [Function.update_of_ne here]
      exact taken.resolve_right here
  rw [FdsTable.fdstablePut]
  cases found : table.searchFree (table.size - table.firstFree) table.firstFree with
  | some v =>
    dsimp only
    intro w below
    apply updated
    rcases Nat.eq_or_lt_of_le (Nat.le_of_lt_succ below) with here | earlier
    · exact Or.inr here
    · left
      rcases Nat.lt_or_ge w table.firstFree with before | later
      · exact hint w before
      · exact (searchFree_first table _ _).1 v found w later earlier
  | none =>
    dsimp only
    split
    next =>
      rw [realloc_entries room beyond]
      exact fun w below => updated _ w (Or.inl (hint w below))
    next =>
      rw [realloc_entries room beyond]
      exact hint

private theorem put_size (room : maxFds ≤ table.size) (full : ∀ i, i < table.size → (table.entries i).type ≠ .free) (fd : Int) :
    (table.fdstablePut ⟨.xpn, fd⟩).2.size = table.size * 2 := by
  have some : table.size ≠ 0 := by
    unfold maxFds at room
    omega
  have grown : table.fdstableRealloc.size = table.size * 2 := if_neg some
  rw [FdsTable.fdstablePut]
  cases found : table.searchFree (table.size - table.firstFree) table.firstFree with
  | some v =>
    obtain ⟨free, below⟩ := BypassTables.searchFree_spec table _ _ found
    rcases Nat.lt_or_ge v table.size with inside | outside
    · exact absurd free (full v inside)
    · rw [show table.size - table.firstFree = 0 by omega] at found
      cases found
  | none =>
    dsimp only
    split
    · exact grown
    · exact grown

theorem fdstablePut_spec (room : maxFds ≤ table.size) (beyond : ∀ v, table.size ≤ v → table.entries v = unusedFd)
    (hint : ∀ w, w < table.firstFree → (table.entries w).type ≠ .free) (reached : Reached table fd) :
    ∃ (v : Nat) (after : FdsTable), fdstablePut table ⟨.xpn, fd⟩ = some ((v : Int) + plusXpn, after) ∧ Taken table after fd v := by
  obtain ⟨v, ret, free, inside, grows, entries⟩ := BypassTables.put_spec room beyond ⟨.xpn, fd⟩
  have bound : fd < plusXpn + (table.fdstablePut ⟨.xpn, fd⟩).2.size := by
    rcases reached with before | ⟨full, behind⟩
    · omega
    · rw [put_size room full fd]
      omega
  have found : ((table.fdstablePut ⟨.xpn, fd⟩).2.fdstableGet fd).isSome := by
    rw [FdsTable.fdstableGet]
    split
    next virtual =>
      dsimp only
      rw [if_pos (by omega)]
      rfl
    next => rfl
  obtain ⟨entry, found⟩ := Option.isSome_iff_exists.mp found
  refine ⟨v, _, ?_, free, inside, grows, entries, put_hint room beyond hint fd⟩
  rw [fdstablePut]
  dsimp only
  rw [ret, if_neg (by omega), found]
  rfl

/-! ### What a call changes -/

variable {state : LibraryState}

theorem Sound.descriptor (sound : Sound state) {fds : FdsTable} (taken : Taken state.tables.fds fds fd v) (fresh : fd ∉ state.live) :
    Sound { state with tables := { state.tables with fds }, live := fd :: state.live } := by
  have here : fds.entries v = ⟨.xpn, fd⟩ := by rw [taken.entries, Function.update_self]
  have elsewhere : ∀ w, w ≠ v → fds.entries w = state.tables.fds.entries w := by
    intro w different
    rw [taken.entries, Function.update_of_ne different]
  have new : ∀ w, w ≠ v → (fds.entries w).type = .xpn → (fds.entries w).realFd ≠ fd := by
    intro w different named same
    rw [elsewhere w different] at named same
    exact fresh (same ▸ sound.held w named)
  constructor
  · constructor
    · exact taken.hint
    · exact sound.directories
    · intro w u named other same
      by_cases first : w = v
      · by_cases second : u = v
        · rw [first, second]
        · rw [first, here] at same
          exact absurd same.symm (new u second other)
      · by_cases second : u = v
        · rw [second, here] at same
          exact absurd same (new w first named)
        · apply sound.injective w u
          · rwa [← elsewhere w first]
          · rwa [← elsewhere u second]
          · rwa [← elsewhere w first, ← elsewhere u second]
  · exact le_trans sound.room taken.grows
  · exact sound.dirRoom
  · intro w past
    have inside := taken.inside
    exact (elsewhere w (by dsimp only at past; omega)).trans (sound.beyond w (le_trans taken.grows past))
  · exact sound.dirsBeyond
  · intro w named
    by_cases first : w = v
    · rw [first, show (fds.entries v).realFd = fd by rw [here]]
      exact List.mem_cons_self
    · dsimp only at named ⊢
      rw [elsewhere w first] at named ⊢
      exact List.mem_cons_of_mem _ (sound.held w named)
  · intro i dir entry
    obtain ⟨w, number, slot⟩ := sound.listed i dir entry
    refine ⟨w, number, (elsewhere w ?_).trans slot⟩
    rintro rfl
    have free := taken.free
    rw [slot] at free
    cases free
  · exact sound.apart

/-- A slot of no directory is given up. -/
theorem Sound.remove (sound : Sound state) (free : ∀ i dir, state.tables.dirs.entries i = some dir → state.tables.dirFd dir ≠ (v : Int) + plusXpn)
    (named : (state.tables.fds.entries v).type = .xpn) :
    Sound { state with
      tables := { state.tables with fds := state.tables.fds.fdstableRemove ((v : Int) + plusXpn) }
      live := state.live.filter fun other => other ≠ (state.tables.fds.entries v).realFd } := by
  have removed : state.tables.fds.fdstableRemove ((v : Int) + plusXpn) = { state.tables.fds with
      entries := Function.update state.tables.fds.entries v unusedFd
      firstFree := if v < state.tables.fds.firstFree then v else state.tables.fds.firstFree } := by
    rw [FdsTable.fdstableRemove, if_neg (by omega), Int.add_sub_cancel, Int.toNat_natCast]
  have still : ∀ w, (Function.update state.tables.fds.entries v unusedFd w).type = .xpn → w ≠ v ∧
      Function.update state.tables.fds.entries v unusedFd w = state.tables.fds.entries w := by
    intro w xpn
    by_cases here : w = v
    · rw [here, Function.update_self] at xpn
      cases xpn
    · exact ⟨here, Function.update_of_ne here _ _⟩
  rw [removed]
  constructor
  · constructor
    · intro w below
      dsimp only at below ⊢
      have earlier : w ≠ v ∧ w < state.tables.fds.firstFree := by
        split at below
        · omega
        · omega
      rw [Function.update_of_ne earlier.1]
      exact sound.descriptors w earlier.2
    · exact sound.directories
    · intro w u first second same
      obtain ⟨-, left⟩ := still w first
      obtain ⟨-, right⟩ := still u second
      dsimp only at first second same
      rw [left] at first same
      rw [right] at second same
      exact sound.injective w u first second same
  · exact sound.room
  · exact sound.dirRoom
  · intro w past
    by_cases here : w = v
    · exact here ▸ Function.update_self _ _ _
    · exact (Function.update_of_ne here _ _).trans (sound.beyond w past)
  · exact sound.dirsBeyond
  · intro w xpn
    obtain ⟨different, same⟩ := still w xpn
    dsimp only at xpn ⊢
    rw [same] at xpn ⊢
    rw [List.mem_filter]
    exact ⟨sound.held w xpn, decide_eq_true fun equal => different (sound.injective w v xpn named equal)⟩
  · intro i dir entry
    obtain ⟨w, number, slot⟩ := sound.listed i dir entry
    refine ⟨w, number, (Function.update_of_ne ?_ _ _).trans slot⟩
    rintro rfl
    exact free i dir entry number
  · exact sound.apart

/-- A slot of the descriptors that is no directory's becomes one's. -/
theorem Sound.directory (sound : Sound state) {dirs : FdsdirTable} {i dir : Nat} (slot : state.tables.fds.entries v = ⟨.xpn, fd⟩)
    (other : ∀ j d, state.tables.dirs.entries j = some d → state.tables.dirFd d ≠ (v : Int) + plusXpn)
    (unlisted : ∀ j, state.tables.dirs.entries j ≠ some dir) (inside : i < dirs.size) (grows : state.tables.dirs.size ≤ dirs.size)
    (entries : dirs.entries = Function.update state.tables.dirs.entries i (some dir)) (hint : ∀ j, j < dirs.firstFree → dirs.entries j ≠ none) :
    Sound { state with
      tables := { state.tables with dirs, dirFd := Function.update state.tables.dirFd dir ((v : Int) + plusXpn) }
      stored := Function.update state.stored dir fd } := by
  have cases_entry : ∀ j d, dirs.entries j = some d → (j = i ∧ d = dir) ∨ (d ≠ dir ∧ state.tables.dirs.entries j = some d) := by
    intro j d entry
    rw [entries] at entry
    by_cases here : j = i
    · rw [here, Function.update_self] at entry
      cases entry
      exact Or.inl ⟨here, rfl⟩
    · rw [Function.update_of_ne here] at entry
      right
      refine ⟨?_, entry⟩
      rintro rfl
      exact unlisted j entry
  constructor
  · exact ⟨sound.descriptors, hint, sound.injective⟩
  · exact sound.room
  · have some := sound.dirRoom
    dsimp only
    omega
  · exact sound.beyond
  · intro j past
    dsimp only at past ⊢
    rw [entries, Function.update_of_ne (by omega)]
    exact sound.dirsBeyond j (le_trans grows past)
  · exact sound.held
  · intro j d entry
    dsimp only
    rcases cases_entry j d entry with ⟨-, rfl⟩ | ⟨different, before⟩
    · rw [Function.update_self, Function.update_self]
      exact ⟨v, rfl, slot⟩
    · rw [Function.update_of_ne different, Function.update_of_ne different]
      exact sound.listed j d before
  · intro j k d e first second same
    dsimp only at same
    rcases cases_entry j d first with ⟨left, rfl⟩ | ⟨leftOther, leftBefore⟩
    · rcases cases_entry k e second with ⟨right, rfl⟩ | ⟨rightOther, rightBefore⟩
      · rw [left, right]
      · rw [Function.update_self, Function.update_of_ne rightOther] at same
        exact absurd same.symm (other k e rightBefore)
    · rcases cases_entry k e second with ⟨right, rfl⟩ | ⟨rightOther, rightBefore⟩
      · rw [Function.update_self, Function.update_of_ne leftOther] at same
        exact absurd same (other j d leftBefore)
      · rw [Function.update_of_ne leftOther, Function.update_of_ne rightOther] at same
        exact sound.apart j k d e leftBefore rightBefore same

/-- A directory leaves its table; its slot of the descriptors stays. -/
theorem Sound.forget (sound : Sound state) {i dir : Nat} (here : state.tables.dirs.entries i = some dir) (left : Int) :
    Sound { state with tables := { state.tables with
      dirs := { state.tables.dirs with
        entries := Function.update state.tables.dirs.entries i none
        firstFree := if i < state.tables.dirs.firstFree then i else state.tables.dirs.firstFree }
      dirFd := Function.update state.tables.dirFd dir left } } ∧
    ∀ j d, Function.update state.tables.dirs.entries i none j = some d →
      j ≠ i ∧ d ≠ dir ∧ state.tables.dirs.entries j = some d := by
  have others : ∀ j d, Function.update state.tables.dirs.entries i none j = some d →
      j ≠ i ∧ d ≠ dir ∧ state.tables.dirs.entries j = some d := by
    intro j d entry
    by_cases same : j = i
    · rw [same, Function.update_self] at entry
      cases entry
    · rw [Function.update_of_ne same] at entry
      refine ⟨same, ?_, entry⟩
      rintro rfl
      exact same (sound.apart j i d d entry here rfl)
  refine ⟨?_, others⟩
  constructor
  · refine ⟨sound.descriptors, ?_, sound.injective⟩
    intro j below
    dsimp only at below ⊢
    have earlier : j ≠ i ∧ j < state.tables.dirs.firstFree := by
      split at below
      · omega
      · omega
    rw [Function.update_of_ne earlier.1]
    exact sound.directories j earlier.2
  · exact sound.room
  · exact sound.dirRoom
  · exact sound.beyond
  · intro j past
    by_cases same : j = i
    · exact same ▸ Function.update_self _ _ _
    · exact (Function.update_of_ne same _ _).trans (sound.dirsBeyond j past)
  · exact sound.held
  · intro j d entry
    obtain ⟨-, different, before⟩ := others j d entry
    dsimp only
    rw [Function.update_of_ne different]
    exact sound.listed j d before
  · intro j k d e first second same
    obtain ⟨-, leftOther, leftBefore⟩ := others j d first
    obtain ⟨-, rightOther, rightBefore⟩ := others k e second
    dsimp only at same
    rw [Function.update_of_ne leftOther, Function.update_of_ne rightOther] at same
    exact sound.apart j k d e leftBefore rightBefore same

/-! ### The directory table -/

private theorem search_spec (dirs : FdsdirTable) (entry : Option Nat) : ∀ fuel start,
    (∀ i, dirs.search entry fuel start = some i → dirs.entries i = entry ∧ start ≤ i ∧ i < start + fuel ∧
        ∀ j, start ≤ j → j < i → dirs.entries j ≠ entry) ∧
      (dirs.search entry fuel start = none → ∀ j, start ≤ j → j < start + fuel → dirs.entries j ≠ entry) := by
  intro fuel
  induction fuel with
  | zero =>
    intro start
    constructor
    · intro i impossible
      cases impossible
    · intro _ j above below
      omega
  | succ fuel ih =>
    intro start
    rw [FdsdirTable.search]
    split
    next same =>
      constructor
      · intro i found
        cases found
        exact ⟨same, le_rfl, by omega, fun j above below => by omega⟩
      · intro impossible
        cases impossible
    next different =>
      obtain ⟨first, none⟩ := ih (start + 1)
      constructor
      · intro i found
        obtain ⟨same, above, below, earlier⟩ := first i found
        refine ⟨same, by omega, by omega, fun j after before => ?_⟩
        rcases Nat.eq_or_lt_of_le after with rfl | later
        · exact different
        · exact earlier j later before
      · intro missing j above below
        rcases Nat.eq_or_lt_of_le above with rfl | later
        · exact different
        · exact none missing j later (by omega)

/-- The place that a new directory gets. -/
theorem Sound.place (sound : Sound state) (dir : Nat) (tables : DirTables) (same : tables.fds = state.tables.fds ∧ tables.dirs = state.tables.dirs)
    (room : (∃ i, i < state.tables.dirs.size ∧ state.tables.dirs.entries i = none) ∨ state.tables.dirs.size = state.tables.fds.size) :
    ∃ (i : Nat) (dirs : FdsdirTable), tables.fdsdirtablePut dir = (tables.insert dirs i dir).map (fun after => (0, after)) ∧
      dirs.entries = state.tables.dirs.entries ∧ i < dirs.size ∧ state.tables.dirs.size ≤ dirs.size ∧
        ∀ j, j < i → dirs.entries j ≠ none := by
  have grown : state.tables.dirs.fdsdirtableRealloc.entries = state.tables.dirs.entries := by
    funext j
    unfold FdsdirTable.fdsdirtableRealloc
    simp only [if_neg sound.dirRoom]
    split
    next new => exact (sound.dirsBeyond j new.1).symm
    next => rfl
  have size : state.tables.dirs.fdsdirtableRealloc.size = state.tables.dirs.size * 2 := if_neg sound.dirRoom
  obtain ⟨first, missing⟩ := search_spec state.tables.dirs none (state.tables.dirs.size - state.tables.dirs.firstFree) state.tables.dirs.firstFree
  rw [DirTables.fdsdirtablePut, same.1, same.2]
  cases found : state.tables.dirs.search none (state.tables.dirs.size - state.tables.dirs.firstFree) state.tables.dirs.firstFree with
  | some i =>
    obtain ⟨-, above, below, earlier⟩ := first i found
    refine ⟨i, state.tables.dirs, rfl, rfl, by omega, le_rfl, fun j before => ?_⟩
    rcases Nat.lt_or_ge j state.tables.dirs.firstFree with hinted | later
    · exact sound.directories j hinted
    · exact earlier j later before
  | none =>
    have full : ∀ j, j < state.tables.dirs.size → state.tables.dirs.entries j ≠ none := by
      intro j inside
      rcases Nat.lt_or_ge j state.tables.dirs.firstFree with hinted | later
      · exact sound.directories j hinted
      · exact missing found j later (by omega)
    have equal : state.tables.fds.size = state.tables.dirs.size := by
      rcases room with ⟨i, inside, free⟩ | equal
      · exact absurd free (full i inside)
      · exact equal.symm
    have some := sound.dirRoom
    refine ⟨state.tables.dirs.size, state.tables.dirs.fdsdirtableRealloc, ?_, grown, by omega, by omega, ?_⟩
    · dsimp only
      rw [equal, if_pos (by omega), grown, if_pos (sound.dirsBeyond _ le_rfl)]
    · rw [grown]
      exact full

private theorem get_listed (state : LibraryState) (dir : Nat) :
    (∃ i, state.tables.dirs.fdsdirtableGet dir = some i ∧ i < state.tables.dirs.size ∧ state.tables.dirs.entries i = some dir) ∨
      state.tables.dirs.fdsdirtableGet dir = none ∧ ∀ i, i < state.tables.dirs.size → state.tables.dirs.entries i ≠ some dir := by
  obtain ⟨first, missing⟩ := search_spec state.tables.dirs (some dir) state.tables.dirs.size 0
  cases found : state.tables.dirs.fdsdirtableGet dir with
  | some i =>
    obtain ⟨here, -, below, -⟩ := first i found
    exact Or.inl ⟨i, rfl, by omega, here⟩
  | none => exact Or.inr ⟨rfl, fun i inside => missing found i (Nat.zero_le i) (by omega)⟩

/-! ### Main result -/

def LibraryState.later (state : LibraryState) (call : DirCall) (answer : Answer) (after : DirTables) : LibraryState :=
  ⟨after, liveAfter state.live answer call, storedAfter state.stored call⟩

private theorem Taken.answers (taken : Taken table after fd v) {vfd : Int} (number : vfd = (v : Int) + plusXpn) :
    ¬IsLive table vfd ∧ IsLive after vfd := by
  constructor
  · rintro ⟨w, -, same, named⟩
    obtain rfl : w = v := by omega
    exact absurd (named.symm.trans taken.free) FdType.noConfusion
  · refine ⟨v, taken.inside, number, ?_⟩
    rw [taken.entries, Function.update_self]

private theorem regular_step (sound : Sound state) {call : DirCall} (fresh : Fresh state call) (regular : Regular state call) :
    ∃ answer after, call.perform state.tables = some (answer, after) ∧ Sound (state.later call answer after) ∧ Answers state answer after call := by
  cases call with
  | «open» fd =>
    by_cases failed : fd < 0
    · refine ⟨.failed, state.tables, if_pos failed, ?_, fun vfd impossible => Answer.noConfusion impossible⟩
      simp only [LibraryState.later, liveAfter, storedAfter, if_pos failed]
      exact sound
    · obtain ⟨v, fds, done, taken⟩ := fdstablePut_spec sound.room sound.beyond sound.descriptors regular
      refine ⟨.opened ((v : Int) + plusXpn), { state.tables with fds }, ?_, ?_, ?_⟩
      · rw [DirCall.perform, if_neg failed, done]
        rfl
      · simp only [LibraryState.later, liveAfter, storedAfter, if_neg failed]
        exact sound.descriptor taken (fresh (by omega))
      · intro vfd same
        cases same
        exact taken.answers rfl
  | opendir opened =>
    cases opened with
    | none => exact ⟨.failed, state.tables, rfl, sound, fun vfd impossible => Answer.noConfusion impossible⟩
    | some opened =>
      obtain ⟨dir, fd⟩ := opened
      obtain ⟨reached, room⟩ := regular
      obtain ⟨-, unused, unlisted⟩ := fresh
      obtain ⟨v, fds, done, taken⟩ := fdstablePut_spec sound.room sound.beyond sound.descriptors reached
      obtain ⟨i, dirs, put, entries, inside, grows, before⟩ := sound.place dir { state.tables with dirFd := Function.update state.tables.dirFd dir fd }
        ⟨rfl, rfl⟩ room
      refine ⟨.opened ((v : Int) + plusXpn), ⟨fds, { dirs with entries := Function.update dirs.entries i (some dir), firstFree := i + 1 },
        Function.update state.tables.dirFd dir ((v : Int) + plusXpn)⟩, ?_, ?_, ?_⟩
      · rw [DirCall.perform, put, DirTables.insert]
        dsimp only
        rw [Function.update_self, done]
        simp only [Option.bind_eq_bind, Option.bind_some, Option.map_some, Function.update_idem, Function.update_self]
      · apply (sound.descriptor taken unused).directory
        · exact (congrFun taken.entries v).trans (Function.update_self _ _ _)
        · intro j d entry number
          obtain ⟨w, same, slot⟩ := sound.listed j d entry
          obtain rfl : w = v := by
            have equal := same.symm.trans number
            omega
          have free := taken.free
          rw [slot] at free
          cases free
        · intro j
          rcases Nat.lt_or_ge j state.tables.dirs.size with here | past
          · exact unlisted j here
          · exact ne_of_eq_of_ne (sound.dirsBeyond j past) (Option.some_ne_none dir).symm
        · exact inside
        · exact grows
        · dsimp only
          rw [entries]
        · intro j below
          dsimp only at below ⊢
          by_cases here : j = i
          · rw [here, Function.update_self]
            exact Option.some_ne_none dir
          · rw [Function.update_of_ne here]
            exact before j (by omega)
      · intro vfd same
        cases same
        exact taken.answers rfl
  | close fd =>
    obtain ⟨bound, separate⟩ := regular
    by_cases virtual : (plusXpn : Int) ≤ fd
    · obtain ⟨v, rfl⟩ : ∃ v : Nat, fd = (v : Int) + plusXpn := ⟨(fd - plusXpn).toNat, by omega⟩
      have inside : v < state.tables.fds.size := by omega
      have slot : ((v : Int) + plusXpn - plusXpn).toNat = v := by omega
      have found : state.tables.fds.fdstableGet ((v : Int) + plusXpn) = some (state.tables.fds.entries v) := by
        rw [FdsTable.fdstableGet, if_pos virtual, slot]
        exact if_pos inside
      have removed : fdstableRemove state.tables.fds ((v : Int) + plusXpn) = some (state.tables.fds.fdstableRemove ((v : Int) + plusXpn)) := by
        rw [fdstableRemove, slot, if_pos (Or.inr inside)]
      by_cases named : (state.tables.fds.entries v).type = .xpn
      · refine ⟨.closes (state.tables.fds.entries v).realFd, _, ?_, sound.remove ?_ named, trivial⟩
        · rw [DirCall.perform, found, Option.bind_eq_bind, Option.bind_some, if_pos named, removed]
          rfl
        · intro i dir entry
          rcases Nat.lt_or_ge i state.tables.dirs.size with here | past
          · exact separate i dir here entry
          · exact nomatch (sound.dirsBeyond i past).symm.trans entry
      · refine ⟨.system, state.tables, ?_, sound, trivial⟩
        rw [DirCall.perform, found, Option.bind_eq_bind, Option.bind_some, if_neg named]
    · refine ⟨.system, state.tables, ?_, sound, trivial⟩
      rw [DirCall.perform, FdsTable.fdstableGet, if_neg virtual]
      rfl
  | closedir dir =>
    rcases get_listed state dir with ⟨i, found, inside, here⟩ | ⟨missing, unlisted⟩
    · obtain ⟨v, number, slot⟩ := sound.listed i dir here
      have equal := regular i inside here
      have within : v < state.tables.fds.size := by
        by_contra past
        have unused := sound.beyond v (by omega)
        rw [slot] at unused
        cases unused
      have removed : fdstableRemove state.tables.fds (state.tables.dirFd dir) =
          some (state.tables.fds.fdstableRemove ((v : Int) + plusXpn)) := by
        rw [fdstableRemove, number, if_pos (by omega)]
      have passed : (v : Int) + plusXpn - plusXpn = state.stored dir := by omega
      obtain ⟨left, others⟩ := sound.forget here ((v : Int) + plusXpn - plusXpn)
      have own : ∀ j d, Function.update state.tables.dirs.entries i none j = some d →
          Function.update state.tables.dirFd dir ((v : Int) + plusXpn - plusXpn) d ≠ (v : Int) + plusXpn := by
        intro j d entry
        obtain ⟨different, other, before⟩ := others j d entry
        rw [Function.update_of_ne other, ← number]
        exact fun same => different (sound.apart j i d dir before here same)
      have kept := left.remove (v := v) own (congrArg GenericFd.type slot)
      dsimp only at kept
      rw [slot] at kept
      refine ⟨.closes (state.stored dir), _, ?_, kept, fun _ _ _ => rfl⟩
      rw [DirCall.perform, found, DirTables.fdsdirtableRemove, found]
      dsimp only
      rw [removed, number, ← passed]
      simp only [Option.isSome_some, if_true, Option.bind_eq_bind, Option.bind_some, Function.update_self]
    · refine ⟨.system, state.tables, ?_, sound, fun i inside entry => absurd entry (unlisted i inside)⟩
      rw [DirCall.perform, missing]
      rfl

/-- In a run of regular calls every access is inside its table, the hints and the numbers are
kept, what is opened was not live, and a directory is closed with its own descriptor. -/
theorem tables_kept {state : LibraryState} (run : Reachable TableStep Regular noTables state) :
    Kept state.tables ∧ ∀ call, Fresh state call → Regular state call →
      ∃ answer after, call.perform state.tables = some (answer, after) ∧ Answers state answer after call := by
  have sound : Sound state := by
    apply run.invariant Sound sound_initial
    intro before call later sound regular taken
    obtain ⟨fresh, answer, done, live, stored⟩ := taken
    obtain ⟨answer', after, result, kept, -⟩ := regular_step sound fresh regular
    obtain ⟨rfl, rfl⟩ := Prod.mk.inj (Option.some.inj (result.symm.trans done))
    have shape : later = before.later call answer' later.tables := by
      rw [LibraryState.later, ← live, ← stored]
    rw [shape]
    exact kept
  refine ⟨sound.toKept, fun call fresh regular => ?_⟩
  obtain ⟨answer, after, done, -, answers⟩ := regular_step sound fresh regular
  exact ⟨answer, after, done, answers⟩

def LibraryState.next (before : LibraryState) (call : DirCall) : LibraryState :=
  match call.perform before.tables with
  | some (answer, after) => before.later call answer after
  | none => before

private theorem next_step (before : LibraryState) (call : DirCall) (fresh : Fresh before call)
    (defined : (call.perform before.tables).isSome) : TableStep before call (before.next call) := by
  obtain ⟨⟨answer, after⟩, done⟩ := Option.isSome_iff_exists.mp defined
  have same : before.next call = before.later call answer after := by rw [LibraryState.next, done]
  rw [same]
  exact ⟨fresh, answer, done, rfl, rfl⟩

private def oneDirectory (fd : Int) : LibraryState := noTables.next (.opendir (some (7, fd)))

private theorem fresh_directory (fd : Int) (natural : 0 ≤ fd) : Fresh noTables (.opendir (some (7, fd))) := by
  refine ⟨natural, List.not_mem_nil, fun i _ => ?_⟩
  exact ne_of_eq_of_ne (ite_self _) (Option.some_ne_none 7).symm

/-- The library has stored 3 in the DIR, and is told to close 0, the slot. -/
theorem closedir_closes_slot : ¬∀ state, Reachable TableStep (fun _ _ => True) noTables state →
    Kept state.tables ∧ ∀ call, Fresh state call →
      ∃ answer after, call.perform state.tables = some (answer, after) ∧ Answers state answer after call := by
  intro always
  have opened : TableStep noTables (.opendir (some (7, 3))) (oneDirectory 3) := next_step _ _ (fresh_directory 3 (by decide)) (by decide)
  obtain ⟨answer, after, done, answers⟩ := (always _ (.next .start trivial opened)).2 (.closedir 7) trivial
  have passed : ((DirCall.closedir 7).perform (oneDirectory 3).tables).map Prod.fst = some (.closes 0) := by decide
  rw [done, answers 0 (by decide) (by decide)] at passed
  cases passed

/-- A directory whose slot is numbered as the library's descriptor is closed. -/
theorem tables_kept_directory : ∃ answer after, (DirCall.closedir 7).perform (oneDirectory 0).tables = some (answer, after) ∧
    Answers (oneDirectory 0) answer after (.closedir 7) := by
  have opened : TableStep noTables (.opendir (some (7, 0))) (oneDirectory 0) := next_step _ _ (fresh_directory 0 (by decide)) (by decide)
  have allowed : Regular noTables (.opendir (some (7, 0))) := ⟨Or.inl (by decide), Or.inr rfl⟩
  have closed : Regular (oneDirectory 0) (.closedir 7) := fun _ _ _ => by decide
  exact (tables_kept (.next .start allowed opened)).2 (.closedir 7) trivial closed

end Xpn.Proofs.BypassDirs
