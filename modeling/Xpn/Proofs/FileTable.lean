import Xpn.FileTable
import Xpn.Lib.References
import Xpn.Lib.Runs

/-! The descriptor table over runs. A descriptor counts the slots that refer to it;
that stays true as long as a descriptor with several slots is never closed. -/

namespace Xpn.Proofs.FileTable
open Xpn.FileTable FileCall Lib.References Lib.Runs

/-- Every slot refers to a descriptor in use, and descriptors count their slots. -/
structure Valid (table : FileTable) : Prop where
  outside : ∀ i, xpnMaxFile ≤ i → table.slots i = none
  live : ∀ i address, table.slots i = some address → (table.heap address).isSome
  counted : ∀ address desc, table.heap address = some desc → desc.links = references xpnMaxFile table.slots address

def FileStep (before : FileTable) (call : FileCall) (after : FileTable) : Prop :=
  call.Allocates before ∧ ∃ ret, call.perform before = some (ret, after)

/-- A slot is free when a call takes one. -/
def HasFreeSlot (table : FileTable) : FileCall → Prop
  | .open _ _ _ | .opendir _ _ _ _ _ | .dup _ => ∃ i, i < xpnMaxFile ∧ table.slots i = none
  | _ => True

/-- And what is closed has no other slot. -/
def SingleLink (table : FileTable) (call : FileCall) : Prop :=
  HasFreeSlot table call ∧
    match call with
    | .close fd | .closedir fd => InRange fd → ∀ address desc, table.slots fd.toNat = some address →
        table.heap address = some desc → desc.links = 1
    | _ => True

variable {table : FileTable}

theorem valid_empty : Valid FileTable.empty :=
  ⟨fun _ _ => rfl, fun _ _ impossible => (nomatch impossible), fun _ _ impossible => (nomatch impossible)⟩

theorem searchSlot_spec (table : FileTable) : ∀ fuel i, i ≤ table.searchSlot fuel i ∧ table.searchSlot fuel i ≤ i + fuel ∧
    (∀ j, i ≤ j → j < table.searchSlot fuel i → table.slots j ≠ none) ∧
    (table.searchSlot fuel i < i + fuel → table.slots (table.searchSlot fuel i) = none) := by
  intro fuel
  induction fuel with
  | zero =>
    intro i
    exact ⟨le_rfl, le_rfl, fun j above below => absurd above (Nat.not_le_of_lt below), fun below => absurd below (by simp [searchSlot])⟩
  | succ fuel ih =>
    intro i
    rw [searchSlot]
    split
    next taken =>
      obtain ⟨above, below, full, free⟩ := ih (i + 1)
      refine ⟨by omega, by omega, ?_, fun early => free (by omega)⟩
      intro j after before
      rcases Nat.lt_or_eq_of_le after with later | rfl
      · exact full j later before
      · exact Option.isSome_iff_ne_none.mp taken
    next free =>
      refine ⟨le_rfl, Nat.le_add_right _ _, fun j above below => absurd above (Nat.not_le_of_lt below), fun _ => ?_⟩
      simpa using free

/-- With a free slot anywhere, the search ends at a free one. -/
theorem freeSlot_free {i : Nat} (inside : i < xpnMaxFile) (free : table.slots i = none) :
    table.freeSlot < xpnMaxFile ∧ table.slots table.freeSlot = none := by
  obtain ⟨-, below, full, stops⟩ := searchSlot_spec table (xpnMaxFile - 1) 0
  have last : i ≥ table.freeSlot := by
    apply Nat.le_of_not_lt
    intro earlier
    exact full i (Nat.zero_le _) earlier free
  have bound : table.freeSlot ≤ 0 + (xpnMaxFile - 1) := below
  refine ⟨by omega, ?_⟩
  rcases Nat.lt_or_eq_of_le bound with early | late
  · exact stops early
  · rwa [show table.freeSlot = i by omega]

theorem Valid.allocate (valid : Valid table) {i address : Nat} (inside : i < xpnMaxFile) (free : table.slots i = none)
    (unused : (table.heap address).isNone) :
    Valid { table with
      slots := Function.update table.slots i (some address)
      heap := Function.update table.heap address (some ⟨i, 1⟩) } := by
  have absent : ∀ j, j < xpnMaxFile → table.slots j ≠ some address := by
    intro j _ refers
    have present := valid.live j address refers
    simp [Option.isNone_iff_eq_none.mp unused] at present
  constructor
  · intro j past
    exact (Function.update_of_ne (by omega) _ _).trans (valid.outside j past)
  · intro j other refers
    by_cases same : other = address
    · simp [same]
    · by_cases here : j = i
      · simp [here] at refers
        exact absurd refers.symm same
      · simp only [Function.update_of_ne here] at refers
        simp only [Function.update_of_ne same]
        exact valid.live j other refers
  · intro other desc present
    have count := references_update table.slots other inside (some address)
    by_cases same : other = address
    · subst same
      simp only [Function.update_self, Option.some.injEq] at present
      simp only [free, reduceCtorEq, if_false, if_true, references_eq_zero absent] at count
      rw [← present]
      dsimp only
      omega
    · simp only [Function.update_of_ne same] at present
      simp only [free, reduceCtorEq, if_false, Option.some.injEq, Ne.symm same] at count
      rw [valid.counted other desc present]
      dsimp only
      omega

theorem Valid.share (valid : Valid table) {fd slot address : Nat} {after : FileTable} (inside : slot < xpnMaxFile)
    (free : table.slots slot = none) (refers : table.slots fd = some address)
    (shared : table.share address slot = some after) : Valid after := by
  obtain ⟨desc, present, rfl⟩ := Option.map_eq_some_iff.mp shared
  constructor
  · intro j past
    exact (Function.update_of_ne (by omega) _ _).trans (valid.outside j past)
  · intro j other holds
    by_cases same : other = address
    · simp [same]
    · by_cases here : j = slot
      · simp [here] at holds
        exact absurd holds.symm same
      · simp only [Function.update_of_ne here] at holds
        simp only [Function.update_of_ne same]
        exact valid.live j other holds
  · intro other found holds
    have count := references_update table.slots other inside (some address)
    by_cases same : other = address
    · subst same
      simp only [Function.update_self, Option.some.injEq] at holds
      simp only [free, reduceCtorEq, if_false, if_true] at count
      have links := valid.counted other desc present
      rw [← holds]
      dsimp only
      omega
    · simp only [Function.update_of_ne same] at holds
      simp only [free, reduceCtorEq, if_false, Option.some.injEq, Ne.symm same] at count
      rw [valid.counted other found holds]
      dsimp only
      omega

theorem Valid.free (valid : Valid table) {fd address : Nat} {desc : FileDesc} (refers : table.slots fd = some address)
    (present : table.heap address = some desc) (single : desc.links = 1) :
    Valid { table with
      slots := Function.update table.slots fd none
      heap := Function.update table.heap address none } := by
  have inside : fd < xpnMaxFile := by
    apply Nat.lt_of_not_le
    intro past
    simp [valid.outside fd past] at refers
  have one : references xpnMaxFile table.slots address = 1 := by
    have counted := valid.counted address desc present
    omega
  constructor
  · intro j past
    exact (Function.update_of_ne (by omega) _ _).trans (valid.outside j past)
  · intro j other holds
    by_cases here : j = fd
    · simp [here] at holds
    · simp only [Function.update_of_ne here] at holds
      have different : other ≠ address := by
        rintro rfl
        have inside' : j < xpnMaxFile := by
          apply Nat.lt_of_not_le
          intro past
          simp [valid.outside j past] at holds
        exact here (only_reference one inside inside' refers holds)
      simp only [Function.update_of_ne different]
      exact valid.live j other holds
  · intro other found holds
    have different : other ≠ address := by
      rintro rfl
      simp at holds
    have count := references_update table.slots other inside none
    simp only [refers, Option.some.injEq, Ne.symm different, if_false, reduceCtorEq] at count
    simp only [Function.update_of_ne different] at holds
    rw [valid.counted other found holds]
    dsimp only
    omega

theorem Valid.errno (valid : Valid table) (errno : Int) : Valid { table with errno } :=
  ⟨valid.outside, valid.live, valid.counted⟩

theorem Valid.search (valid : Valid table) (free : ∃ i, i < xpnMaxFile ∧ table.slots i = none) (address : Option Nat)
    (unused : ∀ a, address = some a → (table.heap a).isNone) : Valid (table.xpnSearchSlotFile address).2 := by
  obtain ⟨i, inside, unusedSlot⟩ := free
  obtain ⟨bound, slotFree⟩ := freeSlot_free inside unusedSlot
  cases address with
  | none =>
    have same : Function.update table.slots table.freeSlot none = table.slots := by
      rw [← slotFree, Function.update_eq_self]
    simp only [xpnSearchSlotFile, same]
    exact valid
  | some a => exact valid.allocate bound slotFree (unused a rfl)

theorem Valid.open (valid : Valid table) (free : ∃ i, i < xpnMaxFile ∧ table.slots i = none) (path : Option Nat) (opens : Bool)
    (address : Option Nat) (unused : ∀ a, address = some a → (table.heap a).isNone) :
    Valid (table.xpnSimpleOpen path opens address).2 := by
  cases path with
  | none => exact valid.errno einval
  | some length =>
    simp only [xpnSimpleOpen]
    split
    · exact valid.errno einval
    · split
      · exact valid.search free address unused
      · exact valid

theorem Valid.opendir (valid : Valid table) (free : ∃ i, i < xpnMaxFile ∧ table.slots i = none) (path : Option Nat)
    (slashed opens : Bool) (address : Option Nat) (stream : Bool) (unused : ∀ a, address = some a → (table.heap a).isNone) :
    Valid (table.xpnSimpleOpendir path slashed opens address stream).2 := by
  cases path with
  | none => exact valid.errno einval
  | some length =>
    simp only [xpnSimpleOpendir]
    split
    · exact valid.errno einval
    · exact valid.open free _ opens address unused

theorem Valid.dup (valid : Valid table) (free : ∃ i, i < xpnMaxFile ∧ table.slots i = none) {fd ret : Int} {after : FileTable}
    (done : table.xpnSimpleDup fd = some (ret, after)) : Valid after := by
  obtain ⟨i, inside, unusedSlot⟩ := free
  obtain ⟨bound, slotFree⟩ := freeSlot_free inside unusedSlot
  simp only [xpnSimpleDup] at done
  split at done
  · split at done
    · cases done
      exact valid
    next address refers =>
      obtain ⟨shared, same, pair⟩ := Option.map_eq_some_iff.mp done
      cases pair
      exact valid.share bound slotFree refers same
  · cases done
    exact valid

theorem Valid.dup2 (valid : Valid table) {fd fd2 ret : Int} {after : FileTable}
    (done : table.xpnSimpleDup2 fd fd2 = some (ret, after)) : Valid after := by
  simp only [xpnSimpleDup2] at done
  split at done
  next ranges =>
    split at done
    next address refers free =>
      obtain ⟨shared, same, pair⟩ := Option.map_eq_some_iff.mp done
      cases pair
      have inside : fd2.toNat < xpnMaxFile := by
        obtain ⟨-, low, high⟩ := ranges
        omega
      exact valid.share inside free refers same
    · cases done
      exact valid
  · cases done
    exact valid

/-- Closing a descriptor with one slot: the call succeeds only by clearing the slot. -/
theorem Valid.release (valid : Valid table) {fd ret outOfRange unused : Int} {after : FileTable}
    (single : InRange fd → ∀ address desc, table.slots fd.toNat = some address → table.heap address = some desc → desc.links = 1)
    (done : table.release fd outOfRange unused = some (ret, after)) :
    Valid after ∧ (ret = 0 → InRange fd ∧ after.slots fd.toNat = none) := by
  simp only [FileTable.release] at done
  split at done
  next range =>
    split at done
    · cases done
      exact ⟨valid.errno unused, fun impossible => absurd impossible (by decide)⟩
    next address refers =>
      obtain ⟨desc, present, pair⟩ := Option.map_eq_some_iff.mp done
      have one := single range address desc refers present
      rw [if_pos (by omega)] at pair
      cases pair
      exact ⟨valid.free refers present one, fun _ => ⟨range, Function.update_self _ _ _⟩⟩
  · cases done
    exact ⟨valid.errno outOfRange, fun impossible => absurd impossible (by decide)⟩

theorem Valid.step {call : FileCall} {after : FileTable} (valid : Valid table) (allowed : SingleLink table call)
    (taken : FileStep table call after) : Valid after := by
  obtain ⟨free, single⟩ := allowed
  obtain ⟨allocates, ret, done⟩ := taken
  cases call with
  | «open» path opens address =>
    obtain rfl : _ = after := congrArg Prod.snd (Option.some.inj done)
    refine valid.open free path opens address ?_
    rintro a rfl
    exact allocates
  | opendir path slashed opens address stream =>
    obtain rfl : _ = after := congrArg Prod.snd (Option.some.inj done)
    refine valid.opendir free path slashed opens address stream ?_
    rintro a rfl
    exact allocates
  | dup fd => exact valid.dup free done
  | dup2 fd fd2 => exact valid.dup2 done
  | close fd => exact (valid.release single done).1
  | closedir fd => exact (valid.release single done).1

/-- A call on a valid table never touches a freed descriptor. -/
theorem Valid.defined (valid : Valid table) (call : FileCall) : (call.perform table).isSome := by
  have shares : ∀ fd address slot, table.slots fd = some address → (table.share address slot).isSome := by
    intro fd address slot refers
    simpa [FileTable.share] using valid.live fd address refers
  have releases : ∀ fd outOfRange unused, (table.release fd outOfRange unused).isSome := by
    intro fd outOfRange unused
    simp only [FileTable.release]
    split
    · split
      · rfl
      next address refers => simpa using valid.live _ address refers
    · rfl
  cases call with
  | «open» path opens address => rfl
  | opendir path slashed opens address stream => rfl
  | dup fd =>
    simp only [perform, xpnSimpleDup]
    split
    · split
      · rfl
      next address refers => simpa using shares _ address _ refers
    · rfl
  | dup2 fd fd2 =>
    simp only [perform, xpnSimpleDup2]
    split
    · split
      next address refers _ => simpa using shares _ address _ refers
      · rfl
    · rfl
  | close fd => exact releases fd _ _
  | closedir fd => exact releases fd _ _

/-- In every run that closes only descriptors with one slot: slots refer to live
descriptors, descriptors count their slots, no call touches freed memory, and a
close that succeeds frees its slot, so that the next one fails with `EBADF`. -/
theorem descriptor_table_consistent (run : Reachable FileStep SingleLink FileTable.empty table) :
    (∀ fd address, table.slots fd = some address → (table.heap address).isSome) ∧
    (∀ address desc, table.heap address = some desc → desc.links = references xpnMaxFile table.slots address) ∧
    (∀ call : FileCall, (call.perform table).isSome) ∧
    (∀ fd after, SingleLink table (.close fd) → table.xpnSimpleClose fd = some (0, after) →
      after.slots fd.toNat = none ∧ after.xpnSimpleClose fd = some (-1, { after with errno := ebadf }) ∧
        ∀ other address, after.slots other = some address → (after.heap address).isSome) := by
  have valid : Valid table := run.invariant Valid valid_empty fun _ _ _ valid allowed taken => valid.step allowed taken
  refine ⟨valid.live, valid.counted, valid.defined, fun fd after allowed closed => ?_⟩
  obtain ⟨validAfter, cleared⟩ := valid.release allowed.2 closed
  obtain ⟨range, free⟩ := cleared rfl
  refine ⟨free, ?_, validAfter.live⟩
  simp only [xpnSimpleClose, FileTable.release, if_pos range, free, fail]

def next (table : FileTable) (call : FileCall) : FileTable := ((call.perform table).getD (0, table)).2

theorem next_step (table : FileTable) (call : FileCall) (allocates : call.Allocates table) (defined : (call.perform table).isSome) :
    FileStep table call (next table call) := by
  obtain ⟨⟨ret, after⟩, done⟩ := Option.isSome_iff_exists.mp defined
  refine ⟨allocates, ret, ?_⟩
  rw [next, done]
  rfl

def duplicated : FileTable := next (next FileTable.empty (.open (some 2) true (some 7))) (.dup 0)

theorem duplicated_run (guard : FileTable → FileCall → Prop)
    (opens : guard FileTable.empty (.open (some 2) true (some 7)))
    (dups : guard (next FileTable.empty (.open (some 2) true (some 7))) (.dup 0)) :
    Reachable FileStep guard FileTable.empty duplicated :=
  .next (.next .start opens (next_step _ _ rfl rfl)) dups (next_step _ _ trivial (by decide))

/-- Closing the first slot twice frees the descriptor under the second. -/
theorem double_close_dangles : ¬∀ table, Reachable FileStep HasFreeSlot FileTable.empty table →
    ∀ fd address, table.slots fd = some address → (table.heap address).isSome := by
  intro live
  have opened : Reachable FileStep HasFreeSlot FileTable.empty duplicated :=
    duplicated_run HasFreeSlot ⟨5, by decide, by decide⟩ ⟨5, by decide, by decide⟩
  have once : FileStep duplicated (.close 0) (next duplicated (.close 0)) := next_step _ _ trivial (by decide)
  have twice : FileStep (next duplicated (.close 0)) (.close 0) (next (next duplicated (.close 0)) (.close 0)) :=
    next_step _ _ trivial (by decide)
  have closed := Reachable.next (.next opened (show HasFreeSlot duplicated (.close 0) from trivial) once)
    (show HasFreeSlot _ (.close 0) from trivial) twice
  exact absurd (live _ closed 1 7 (by decide)) (by decide)

theorem descriptor_table_consistent_duplicated :
    duplicated.slots 1 = some 7 ∧ (duplicated.heap 7).isSome ∧ ∀ call : FileCall, (call.perform duplicated).isSome := by
  have run : Reachable FileStep SingleLink FileTable.empty duplicated :=
    duplicated_run SingleLink ⟨⟨5, by decide, by decide⟩, trivial⟩ ⟨⟨5, by decide, by decide⟩, trivial⟩
  obtain ⟨live, -, defined, -⟩ := descriptor_table_consistent run
  exact ⟨by decide, live 1 7 (by decide), defined⟩

end Xpn.Proofs.FileTable
