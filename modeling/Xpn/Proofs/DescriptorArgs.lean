import Xpn.DescriptorArgs
import Xpn.Proofs.FileTable

/-! Which arguments the calls on a descriptor let through to the table. -/

namespace Xpn.Proofs.DescriptorArgs
open Xpn.FileTable OpenFiles

variable {files : OpenFiles} {fd : Int}

/-- The table is used inside its bounds and only where it is not NULL. -/
def Checked {α : Type} (outcome : Except Fault α) : Prop :=
  outcome ≠ .error .outOfBounds ∧ outcome ≠ .error .nullDescriptor

/-- And no descriptor is used that was released, as one that a slot still refers to may be. -/
def Defined {α : Type} (outcome : Except Fault α) : Prop := ∃ value, outcome = .ok value

def Open (files : OpenFiles) (fd : Int) : Prop := InRange fd ∧ (files.table.slots fd.toNat).isSome

/-- The descriptor of the slot, if there is one, was not released. -/
def Live (files : OpenFiles) (fd : Int) : Prop :=
  InRange fd → ∀ address, files.table.slots fd.toNat = some address → (files.table.heap address).isSome

/-- So it is with all slots before the first unused one. -/
def Leading (files : OpenFiles) : Prop :=
  ∀ i : Nat, i < xpnMaxFile → (∀ j ≤ i, (files.table.slots j).isSome) → Live files i

/-- The exact conditions for the one and for the other. -/
def Behaves {α : Type} (outcome : Except Fault α) (checked live : Prop) : Prop :=
  (Checked outcome ↔ checked) ∧ (Defined outcome ↔ checked ∧ live)

section
variable {α : Type} {outcome : Except Fault α} {checked checked' live live' : Prop}

theorem behaves_ok (value : α) (fine : checked) (sound : live) : Behaves (.ok value) checked live :=
  ⟨⟨fun _ => fine, fun _ => ⟨fun impossible => (nomatch impossible), fun impossible => (nomatch impossible)⟩⟩,
    ⟨fun _ => ⟨fine, sound⟩, fun _ => ⟨value, rfl⟩⟩⟩

theorem behaves_released (fine : checked) (dangling : ¬live) : Behaves (.error .released : Except Fault α) checked live :=
  ⟨⟨fun _ => fine, fun _ => ⟨fun impossible => (nomatch impossible), fun impossible => (nomatch impossible)⟩⟩,
    ⟨fun defined => (nomatch defined), fun both => absurd both.2 dangling⟩⟩

theorem behaves_unchecked (bad : outcome = .error .outOfBounds ∨ outcome = .error .nullDescriptor) (wrong : ¬checked) :
    Behaves outcome checked live := by
  rcases bad with rfl | rfl
  · exact ⟨iff_of_false (fun same => same.1 rfl) wrong, iff_of_false nofun fun both => wrong both.1⟩
  · exact ⟨iff_of_false (fun same => same.2 rfl) wrong, iff_of_false nofun fun both => wrong both.1⟩

theorem Behaves.congr (behaves : Behaves outcome checked live) (first : checked ↔ checked') (second : checked → (live ↔ live')) :
    Behaves outcome checked' live' :=
  ⟨behaves.1.trans first, behaves.2.trans ((and_congr_right second).trans (and_congr_left' first))⟩

end

theorem slot_inside (range : InRange fd) : files.slot fd = .ok (files.table.slots fd.toNat) := if_pos range

theorem slot_outside (outside : ¬InRange fd) : files.slot fd = .error .outOfBounds := if_neg outside

theorem descriptor_cases (files : OpenFiles) (fd : Int) :
    (Open files fd ∧ Live files fd ∧ ∃ address, files.descriptor fd = .ok address) ∨
      (Open files fd ∧ ¬Live files fd ∧ files.descriptor fd = .error .released) ∨
      (¬Open files fd ∧ (files.descriptor fd = .error .outOfBounds ∨ files.descriptor fd = .error .nullDescriptor)) := by
  by_cases range : InRange fd
  case neg =>
    refine Or.inr (Or.inr ⟨fun used => range used.1, Or.inl ?_⟩)
    rw [OpenFiles.descriptor, slot_outside range]
    rfl
  case pos =>
    rw [Open, Live, OpenFiles.descriptor, slot_inside range]
    cases found : files.table.slots fd.toNat with
    | none => exact Or.inr (Or.inr ⟨fun used => absurd used.2 (by simp), Or.inr rfl⟩)
    | some address =>
      cases here : (files.table.heap address).isSome with
      | true => exact Or.inl ⟨⟨range, rfl⟩, fun _ _ same => Option.some.inj same ▸ here, address, if_pos here⟩
      | false =>
        refine Or.inr (Or.inl ⟨⟨range, rfl⟩, fun live => ?_, if_neg (by simp [here])⟩)
        exact absurd (live range address rfl) (by simp [here])

/-- What is done with a descriptor is checked exactly when there is one. -/
theorem descriptor_behaves {α : Type} (rest : Nat → Except Fault α) (fine : ∀ address, Defined (rest address)) :
    Behaves (files.descriptor fd >>= rest) (Open files fd) (Live files fd) := by
  rcases descriptor_cases files fd with ⟨used, live, address, found⟩ | ⟨used, dangling, found⟩ | ⟨unused, bad⟩
  · obtain ⟨value, ends⟩ := fine address
    rw [found]
    change Behaves (rest address) _ _
    rw [ends]
    exact behaves_ok value used live
  · rw [found]
    exact behaves_released used dangling
  · refine behaves_unchecked ?_ unused
    rcases bad with bad | bad
    · exact Or.inl (by rw [bad]; rfl)
    · exact Or.inr (by rw [bad]; rfl)

private theorem show_loop (files : OpenFiles) : ∀ fuel i, i + fuel = xpnMaxFile →
    Behaves (files.showLoop fuel i) True
      (∀ k, i ≤ k → k < xpnMaxFile → (∀ j, i ≤ j → j ≤ k → (files.table.slots j).isSome) → Live files k)
  | 0, i, ends => behaves_ok () trivial fun k above below => absurd below (by omega)
  | fuel + 1, i, ends => by
    have range : InRange i := by
      simp only [InRange]
      omega
    rw [showLoop, slot_inside range]
    simp only [Int.toNat_natCast]
    cases found : files.table.slots i with
    | none =>
      refine behaves_ok () trivial fun k above below used => ?_
      have first := used i le_rfl above
      rw [found] at first
      cases first
    | some address =>
      have opened : Open files i := ⟨range, by simp [found]⟩
      rcases descriptor_cases files i with ⟨-, live, other, valid⟩ | ⟨-, dangling, valid⟩ | ⟨unused, -⟩
      · simp only [valid, bind, Except.bind]
        refine (show_loop files fuel (i + 1) (by omega)).congr Iff.rfl fun _ => ?_
        constructor
        · intro later k above below used
          rcases Nat.eq_or_lt_of_le above with rfl | after
          · exact live
          · exact later k after below fun j first last => used j (by omega) last
        · intro all k above below used
          refine all k (by omega) below fun j first last => ?_
          rcases Nat.eq_or_lt_of_le first with rfl | after
          · simp [found]
          · exact used j after last
      · simp only [valid, bind, Except.bind]
        refine behaves_released trivial fun all => dangling (all i le_rfl (by omega) fun j above below => ?_)
        obtain rfl := Nat.le_antisymm above below
        simp [found]
      · exact absurd opened unused

theorem refused_behaves {α : Type} (rest : Except Fault α) (fine : Defined rest) :
    Behaves (files.xpnShowFileTable >>= fun _ => rest) True (Leading files) := by
  obtain ⟨value, ends⟩ := fine
  have walk : Behaves (files.showLoop xpnMaxFile 0) True (Leading files) :=
    (show_loop files xpnMaxFile 0 (Nat.zero_add _)).congr Iff.rfl fun _ => by simp only [Leading, Nat.zero_le, true_implies]
  rw [xpnShowFileTable]
  cases outcome : files.showLoop xpnMaxFile 0 with
  | ok _ =>
    rw [outcome] at walk
    change Behaves rest _ _
    rw [ends]
    exact behaves_ok value trivial (walk.2.mp ⟨_, rfl⟩).2
  | error fault =>
    rw [outcome] at walk
    have dangling : ¬Leading files := fun leading => nomatch walk.2.mpr ⟨trivial, leading⟩
    obtain ⟨inside, there⟩ := walk.1.mpr trivial
    cases fault with
    | outOfBounds => exact absurd rfl inside
    | nullDescriptor => exact absurd rfl there
    | released => exact behaves_released trivial dangling

private theorem ended_behaves {outcome : Outcome} (files : OpenFiles) (fd : Int) (debug : Bool) (fine : Defined outcome) :
    Behaves (do
      if debug then let _ ← files.descriptor fd
      outcome) (debug = true → Open files fd) (debug = true → Live files fd) := by
  cases debug with
  | false =>
    obtain ⟨value, ends⟩ := fine
    simp only [Bool.false_eq_true, if_false, ends]
    exact behaves_ok value nofun nofun
  | true =>
    simp only [if_true, true_implies]
    exact descriptor_behaves _ fun _ => fine

/-- A message or a transfer reads the descriptor. -/
def Uses (debug : Bool) (buffer : Option (List Byte)) (size : Nat) : Prop := debug = true ∨ (buffer.isSome ∧ size ≠ 0)

theorem read_behaves (debug : Bool) (buffer : Option (List Byte)) (size : Nat) : Behaves (files.xpnRead debug fd buffer size)
    (fd ≠ xpnMaxFile) ((¬Open files fd → Leading files) ∧ (Uses debug buffer size → Live files fd)) := by
  have refused : Behaves (files.xpnShowFileTable >>= fun _ => files.fail ebadf) True (Leading files) :=
    refused_behaves _ ⟨_, rfl⟩
  simp only [OpenFiles.xpnRead]
  by_cases range : InRange fd
  case neg =>
    have unused : ¬Open files fd := fun used => range used.1
    have vacuous : Live files fd := fun inside => absurd inside range
    split
    next outside =>
      have past : fd ≠ xpnMaxFile := by omega
      exact refused.congr (by simp [past]) fun _ => by simp [unused, vacuous]
    next passed =>
      have last : fd = xpnMaxFile := by
        simp only [InRange] at range
        omega
      exact behaves_unchecked (Or.inl (by rw [slot_outside range]; rfl)) fun different => different last
  case pos =>
    have inside : fd ≠ xpnMaxFile ∧ ¬(fd < 0 ∨ (xpnMaxFile : Int) < fd) := by
      simp only [InRange] at range
      omega
    rw [if_neg inside.2, slot_inside range]
    cases found : files.table.slots fd.toNat with
    | none =>
      have unused : ¬Open files fd := fun used => absurd used.2 (by simp [found])
      have vacuous : Live files fd := fun _ address same => by simp [found] at same
      exact refused.congr (by simp [inside.1]) fun _ => by simp [unused, vacuous]
    | some address =>
      have used : Open files fd := ⟨range, by simp [found]⟩
      have ended {outcome : Outcome} (fine : Defined outcome) := ended_behaves files fd debug fine
      cases buffer with
      | none => exact (ended ⟨_, rfl⟩).congr (by simp [inside.1, used]) fun _ => by simp [used, Uses]
      | some buffer =>
        by_cases empty : size = 0
        · simp only [bind, Except.bind, empty, if_true]
          exact (ended ⟨_, rfl⟩).congr (by simp [inside.1, used]) fun _ => by simp [used, Uses]
        · simp only [bind, Except.bind, empty, if_false]
          exact (descriptor_behaves _ fun _ => ⟨_, rfl⟩).congr (by simp [inside.1, used]) fun _ => by simp [used, Uses, empty]

theorem write_behaves (debug : Bool) (buffer : Option (List Byte)) (size : Nat) : Behaves (files.xpnWrite debug fd buffer size)
    (fd ≠ xpnMaxFile ∧ (debug = true → InRange fd → Open files fd))
    ((¬InRange fd → Leading files) ∧ (Uses debug buffer size → Live files fd)) := by
  simp only [OpenFiles.xpnWrite]
  by_cases range : InRange fd
  case neg =>
    have vacuous : Live files fd := fun inside => absurd inside range
    split
    next outside =>
      have past : fd ≠ xpnMaxFile := by omega
      exact (refused_behaves (files.fail ebadf) ⟨_, rfl⟩).congr (by simp [past, range]) fun _ => by simp [range, vacuous]
    next passed =>
      have last : fd = xpnMaxFile := by
        simp only [InRange] at range
        omega
      exact behaves_unchecked (Or.inl (by rw [slot_outside range]; rfl)) fun both => both.1 last
  case pos =>
    have inside : fd ≠ xpnMaxFile ∧ ¬(fd < 0 ∨ (xpnMaxFile : Int) < fd) := by
      simp only [InRange] at range
      omega
    rw [if_neg inside.2, slot_inside range]
    have ended {outcome : Outcome} (fine : Defined outcome) := ended_behaves files fd debug fine
    cases found : files.table.slots fd.toNat with
    | none =>
      have vacuous : Live files fd := fun _ address same => by simp [found] at same
      exact (ended ⟨_, rfl⟩).congr (by simp [inside.1, range]) fun _ => by simp [range, vacuous]
    | some address =>
      have used : Open files fd := ⟨range, by simp [found]⟩
      cases buffer with
      | none => exact (ended ⟨_, rfl⟩).congr (by simp [inside.1, used]) fun _ => by simp [range, Uses]
      | some buffer =>
        by_cases empty : size = 0
        · simp only [bind, Except.bind, empty, if_true]
          exact (ended ⟨_, rfl⟩).congr (by simp [inside.1, used]) fun _ => by simp [range, Uses]
        · simp only [bind, Except.bind, empty, if_false]
          exact (descriptor_behaves _ fun _ => ⟨_, rfl⟩).congr (by simp [inside.1, used]) fun _ => by simp [range, Uses, empty]

theorem seek_behaves (offset flag : Int) (size : Option Int) :
    Behaves (files.seek fd offset flag size) (Open files fd) (Live files fd) :=
  descriptor_behaves _ fun _ => ⟨_, rfl⟩

theorem fstat_behaves (attributes : Nat → Option Int) :
    Behaves (files.xpnFstat attributes fd) (fd < 0 ∨ Open files fd) (Live files fd) := by
  rw [OpenFiles.xpnFstat]
  split
  next negative =>
    refine behaves_ok _ (Or.inl negative) fun range => ?_
    simp only [InRange] at range
    omega
  next natural =>
    simp only [OpenFiles.xpnGetAtribFd, bind_assoc]
    exact (descriptor_behaves _ fun _ => ⟨_, rfl⟩).congr (by simp [natural]) fun _ => Iff.rfl

/-- The seek ends before it uses the descriptor. -/
def Refused (fd offset flag : Int) : Prop :=
  (flag = seekSet ∧ offset < 0) ∨ (flag = seekEnd ∧ fd < 0) ∨ (flag ≠ seekSet ∧ flag ≠ seekCur ∧ flag ≠ seekEnd)

theorem lseek_behaves (attributes : Nat → Option Int) (offset flag : Int) : Behaves (files.xpnLseek attributes fd offset flag)
    (Refused fd offset flag ∨ Open files fd) (¬Refused fd offset flag → Live files fd) := by
  have settle {outcome : Outcome} (early : Refused fd offset flag) (fine : Defined outcome) :
      Behaves outcome (Refused fd offset flag ∨ Open files fd) (¬Refused fd offset flag → Live files fd) := by
    obtain ⟨value, rfl⟩ := fine
    exact behaves_ok value (Or.inl early) fun late => absurd early late
  have goes {outcome : Outcome} (late : ¬Refused fd offset flag) (behaves : Behaves outcome (Open files fd) (Live files fd)) :
      Behaves outcome (Refused fd offset flag ∨ Open files fd) (¬Refused fd offset flag → Live files fd) :=
    behaves.congr (by simp [late]) fun _ => by simp [late]
  have apart : seekSet ≠ seekEnd ∧ seekCur ≠ seekEnd ∧ seekCur ≠ seekSet := by decide
  rw [OpenFiles.xpnLseek]
  by_cases absolute : flag = seekSet
  case pos =>
    rw [if_pos absolute]
    split
    next negative => exact settle (Or.inl ⟨absolute, negative⟩) ⟨_, rfl⟩
    next natural =>
      refine goes ?_ (seek_behaves _ _ _)
      simp [Refused, absolute, natural, apart.1]
  case neg =>
    rw [if_neg absolute]
    by_cases relative : flag = seekCur
    case pos =>
      rw [if_pos relative]
      refine goes ?_ (seek_behaves _ _ _)
      simp [Refused, relative, apart.2]
    case neg =>
      rw [if_neg relative]
      by_cases fromEnd : flag = seekEnd
      case neg =>
        rw [if_neg fromEnd]
        exact settle (Or.inr (Or.inr ⟨absolute, relative, fromEnd⟩)) ⟨_, rfl⟩
      case pos =>
        rw [if_pos fromEnd, OpenFiles.xpnFstat]
        by_cases negative : fd < 0
        case pos =>
          rw [if_pos negative]
          exact settle (Or.inr (Or.inl ⟨fromEnd, negative⟩)) ⟨_, rfl⟩
        case neg =>
          have late : ¬Refused fd offset flag := by simp [Refused, fromEnd, negative, apart.1.symm]
          rw [if_neg negative]
          simp only [OpenFiles.xpnGetAtribFd, bind_assoc]
          -- The seek reads the descriptor again.
          rcases descriptor_cases files fd with ⟨used, live, address, found⟩ | ⟨used, dangling, found⟩ | ⟨unused, bad⟩
          · rw [found]
            simp only [bind, Except.bind]
            cases attributes address with
            | none => exact behaves_ok _ (Or.inr used) fun _ => live
            | some size => exact goes late (seek_behaves _ _ _)
          · rw [found]
            exact goes late (behaves_released used dangling)
          · refine goes late (behaves_unchecked ?_ unused)
            rcases bad with bad | bad
            · exact Or.inl (by rw [bad]; rfl)
            · exact Or.inr (by rw [bad]; rfl)

private theorem onTable_behaves {result : Option (Int × FileTable)} {live : Prop} (there : result.isSome ↔ live) :
    Behaves (files.onTable result) True live := by
  cases result with
  | none => exact behaves_released trivial fun sound => absurd (there.mpr sound) (by simp)
  | some outcome => exact behaves_ok _ trivial (there.mp rfl)

private theorem range_of_passed (passed : ¬((xpnMaxFile : Int) - 1 < fd ∨ fd < 0)) : InRange fd := by
  simp only [InRange]
  omega

theorem close_eq (files : OpenFiles) (fd : Int) : files.xpnClose fd = files.onTable (files.table.xpnSimpleClose fd) := by
  rw [OpenFiles.xpnClose]
  split
  next outside =>
    have refused : ¬InRange fd := by
      simp only [InRange]
      omega
    rw [xpnSimpleClose, FileTable.release, if_neg refused]
    rfl
  next passed =>
    have range : InRange fd := range_of_passed fun outside => passed outside.symm
    rw [slot_inside range, xpnSimpleClose]
    cases found : files.table.slots fd.toNat with
    | none =>
      rw [FileTable.release, if_pos range, found]
      rfl
    | some address => rfl

theorem dup_eq (files : OpenFiles) (fd : Int) : files.xpnDup fd = files.onTable (files.table.xpnSimpleDup fd) := by
  rw [OpenFiles.xpnDup, xpnSimpleDup]
  split
  next outside =>
    have refused : ¬InRange fd := by
      simp only [InRange]
      omega
    rw [if_neg refused]
    rfl
  next passed =>
    have range := range_of_passed passed
    rw [slot_inside range, if_pos range]
    cases files.table.slots fd.toNat with
    | none => rfl
    | some address => rfl

theorem dup2_eq (files : OpenFiles) (fd fd2 : Int) : files.xpnDup2 fd fd2 = files.onTable (files.table.xpnSimpleDup2 fd fd2) := by
  rw [OpenFiles.xpnDup2, xpnSimpleDup2]
  split
  next outside =>
    have refused : ¬(InRange fd ∧ InRange fd2) := by
      simp only [InRange]
      omega
    rw [if_neg refused]
    rfl
  next passed =>
    have range := range_of_passed fun outside => passed (Or.inl outside)
    have range2 := range_of_passed fun outside => passed (Or.inr outside)
    rw [slot_inside range, slot_inside range2, if_pos ⟨range, range2⟩]
    cases files.table.slots fd.toNat with
    | none => rfl
    | some address =>
      cases files.table.slots fd2.toNat with
      | none => rfl
      | some _ => rfl

private theorem live_of_found {address : Nat} (range : InRange fd) (found : files.table.slots fd.toNat = some address) :
    (files.table.heap address).isSome ↔ Live files fd := by
  constructor
  · intro here _ other same
    obtain rfl := Option.some.inj (found.symm.trans same)
    exact here
  · intro live
    exact live range address found

private theorem live_of_missing (missing : files.table.slots fd.toNat = none) : Live files fd :=
  fun _ address same => absurd (missing.symm.trans same) (by simp)

theorem close_behaves (files : OpenFiles) (fd : Int) : Behaves (files.xpnClose fd) True (Live files fd) := by
  rw [close_eq]
  apply onTable_behaves
  rw [xpnSimpleClose, FileTable.release]
  split
  next range =>
    cases found : files.table.slots fd.toNat with
    | none => exact iff_of_true rfl (live_of_missing found)
    | some address =>
      rw [Option.isSome_map]
      exact live_of_found range found
  next outside => exact iff_of_true rfl fun range => absurd range outside

theorem dup_behaves (files : OpenFiles) (fd : Int) : Behaves (files.xpnDup fd) True (Live files fd) := by
  rw [dup_eq]
  apply onTable_behaves
  rw [xpnSimpleDup]
  split
  next range =>
    cases found : files.table.slots fd.toNat with
    | none => exact iff_of_true rfl (live_of_missing found)
    | some address =>
      rw [Option.isSome_map, share, Option.isSome_map]
      exact live_of_found range found
  next outside => exact iff_of_true rfl fun range => absurd range outside

theorem dup2_behaves (files : OpenFiles) (fd fd2 : Int) :
    Behaves (files.xpnDup2 fd fd2) True (InRange fd2 → files.table.slots fd2.toNat = none → Live files fd) := by
  rw [dup2_eq]
  apply onTable_behaves
  rw [xpnSimpleDup2]
  split
  next ranges =>
    cases found : files.table.slots fd.toNat with
    | none => exact iff_of_true rfl fun _ _ => live_of_missing found
    | some address =>
      cases free : files.table.slots fd2.toNat with
      | some _ => exact iff_of_true rfl fun _ impossible => absurd impossible (Option.some_ne_none _)
      | none =>
        rw [Option.isSome_map, share, Option.isSome_map, live_of_found ranges.1 found]
        exact ⟨fun live _ _ => live, fun live => live ranges.2 rfl⟩
  next outside => exact iff_of_true rfl fun range2 _ range => absurd ⟨range, range2⟩ outside

/-- For every table and every argument: when a call keeps to the slots of the table that are not NULL, and
when it does not use a released descriptor either. -/
theorem arguments_checked_iff (files : OpenFiles) (debug : Bool) (fd fd2 offset flag : Int) (buffer : Option (List Byte)) (size : Nat)
    (attributes : Nat → Option Int) :
    Behaves (files.xpnRead debug fd buffer size) (fd ≠ xpnMaxFile)
      ((¬Open files fd → Leading files) ∧ (Uses debug buffer size → Live files fd)) ∧
    Behaves (files.xpnWrite debug fd buffer size) (fd ≠ xpnMaxFile ∧ (debug = true → InRange fd → Open files fd))
      ((¬InRange fd → Leading files) ∧ (Uses debug buffer size → Live files fd)) ∧
    Behaves (files.xpnLseek attributes fd offset flag) (Refused fd offset flag ∨ Open files fd)
      (¬Refused fd offset flag → Live files fd) ∧
    Behaves (files.xpnFstat attributes fd) (fd < 0 ∨ Open files fd) (Live files fd) ∧
    Behaves (files.xpnClose fd) True (Live files fd) ∧ Behaves (files.xpnDup fd) True (Live files fd) ∧
    Behaves (files.xpnDup2 fd fd2) True (InRange fd2 → files.table.slots fd2.toNat = none → Live files fd) :=
  ⟨read_behaves debug buffer size, write_behaves debug buffer size, lseek_behaves attributes offset flag, fstat_behaves attributes,
    close_behaves files fd, dup_behaves files fd, dup2_behaves files fd fd2⟩

/-- Index 1024 passes the check of a read. -/
theorem read_past_table : ¬∀ (files : OpenFiles) (fd : Int), Checked (files.xpnRead false fd (some [0]) 1) := by
  intro checked
  exact (read_behaves false _ _).1.mp (checked ⟨FileTable.empty, fun _ => Client.mk ⟨0, 0, ⟨0, 0, 0, 0⟩, XpnMetadata.zero, 0, 0⟩
    (fun _ => ⟨[], 0⟩) (fun _ => 0) (fun _ => 0) 0⟩ xpnMaxFile) rfl

end Xpn.Proofs.DescriptorArgs
