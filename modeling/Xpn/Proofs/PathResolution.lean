import Mathlib.Tactic.Linarith
import Xpn.PathResolution

/-! What becomes of a path on its way to a server. The number of a name is in range unless
its signed bytes add up to less than zero, a path is cut by what the working directory puts
before it, and the first component of an absolute path is split off whole. -/

namespace Xpn.Proofs.PathResolution
open Lib.ByteFile Xpn.PathResolution

theorem charToInt_bounds (c : Byte) : -128 ≤ charToInt c ∧ charToInt c ≤ 127 := by
  have byte := c.toNat_lt
  rw [charToInt]
  split <;> omega

theorem charSum_bounds : ∀ name : Path,
    -128 * (name.length : Int) ≤ (name.map charToInt).sum ∧ (name.map charToInt).sum ≤ 127 * name.length
  | [] => by simp
  | c :: name => by
    obtain ⟨low, high⟩ := charSum_bounds name
    obtain ⟨here, there⟩ := charToInt_bounds c
    simp only [List.map_cons, List.sum_cons, List.length_cons]
    push_cast
    constructor <;> omega

theorem length_dropTrailing_le (p : Byte → Bool) (path : Path) : (dropTrailing p path).length ≤ path.length := by
  rw [dropTrailing, List.length_reverse]
  have kept := (List.dropWhile_sublist p (l := path.reverse)).length_le
  rwa [List.length_reverse] at kept

theorem length_basename_le (path : Path) : (basename path).length ≤ path.length + 1 := by
  have trimmed := length_dropTrailing_le (· == slash) path
  rw [basename]
  split
  · simp
  · dsimp only
    split
    · simp
    · rw [List.length_reverse]
      have taken := (List.takeWhile_sublist (· != slash) (l := (dropTrailing (· == slash) path).reverse)).length_le
      rw [List.length_reverse] at taken
      omega

theorem length_dirname_le (path : Path) : (dirname path).length ≤ path.length + 1 := by
  have trimmed := length_dropTrailing_le (· == slash) path
  have parent := length_dropTrailing_le (· != slash) (dropTrailing (· == slash) path)
  have kept := length_dropTrailing_le (· == slash) (dropTrailing (· != slash) (dropTrailing (· == slash) path))
  rw [dirname]
  dsimp only
  split
  · split <;> simp
  · split
    · simp
    · split
      · simp
      · omega

theorem length_hashedName_le (path : Path) (isfile : Int) : (hashedName path isfile).length ≤ path.length + 2 := by
  rw [hashedName]
  split
  · exact (length_basename_le path).trans (Nat.le_succ _)
  · exact (length_basename_le _).trans (Nat.succ_le_succ (length_dirname_le path))

/-- A sum of so few bytes is the same as an `unsigned` and back. -/
theorem hash_eq {path : Path} (short : path.length < pathMax) (nServ isfile : Int) :
    hash path nServ isfile = ((hashedName path isfile).map charToInt).sum.tmod nServ := by
  have few := length_hashedName_le path isfile
  have bound : pathMax = 4096 := rfl
  obtain ⟨low, high⟩ := charSum_bounds (hashedName path isfile)
  change (toCInt ((hashedName path isfile).map charToInt).sum).tmod nServ = _
  rw [toCInt, Int.bmod_eq_of_le] <;> omega

theorem tmod_in_range_iff {value n : Int} (positive : 0 < n) : 0 ≤ value.tmod n ∧ value.tmod n < n ↔ 0 ≤ value ∨ n ∣ value := by
  constructor
  · rintro ⟨nonneg, -⟩
    rcases Int.le_total 0 value with above | below
    · exact Or.inl above
    · right
      have mirrored := Int.tmod_nonneg n (show 0 ≤ -value by omega)
      rw [Int.neg_tmod] at mirrored
      exact Int.dvd_of_tmod_eq_zero (by omega)
  · rintro (above | divides)
    · exact ⟨Int.tmod_nonneg n above, Int.tmod_lt_of_pos value positive⟩
    · rw [Int.tmod_eq_zero_of_dvd divides]
      exact ⟨le_rfl, positive⟩

/-- The name has room for its terminator, and its bytes do not add up to less than zero or add
up to a multiple of the number of servers. -/
def PlacesInRange (path : Path) (nServ isfile : Int) : Prop :=
  path.length < pathMax - 1 ∧
    (0 ≤ ((hashedName path isfile).map charToInt).sum ∨ nServ ∣ ((hashedName path isfile).map charToInt).sum)

theorem hash_in_range_iff {path : Path} {nServ : Int} (positive : 0 < nServ) (isfile : Int) :
    (∃ server, hashFile path nServ isfile = some server ∧ 0 ≤ server ∧ server < nServ) ↔ PlacesInRange path nServ isfile := by
  rw [PlacesInRange, hashFile]
  split
  next room =>
    rw [← tmod_in_range_iff positive, ← hash_eq (room.trans_le (Nat.sub_le _ _))]
    simp only [Option.some.injEq, exists_eq_left', room, true_and]
  next full => simp only [full, reduceCtorEq, false_and, exists_false]

/-- The name `é` in UTF-8 among five servers. -/
theorem hash_out_of_range : ¬∀ (path : Path) (nServ isfile : Int), path.length < pathMax → 0 ∉ path → 0 < nServ →
    (isfile = 0 ∨ isfile = 1) → ∃ server, hashFile path nServ isfile = some server ∧ 0 ≤ server ∧ server < nServ := by
  intro always
  obtain ⟨server, placed, nonneg, -⟩ := always [47, 195, 169] 5 1 (by decide) (by decide) (by decide) (Or.inr rfl)
  have negative : hashFile [47, 195, 169] 5 1 = some (-3) := by decide
  rw [negative, Option.some.injEq] at placed
  omega

/-- The name `ab`, and the name `é` among four servers, a number that divides its negative sum. -/
theorem hash_in_range_divides : (∃ server, hashFile [47, 97, 98] 5 1 = some server ∧ 0 ≤ server ∧ server < 5) ∧
    ∃ server, hashFile [47, 195, 169] 4 1 = some server ∧ 0 ≤ server ∧ server < 4 :=
  ⟨(hash_in_range_iff (by decide) 1).mpr ⟨by decide, Or.inl (by decide)⟩,
    (hash_in_range_iff (by decide) 1).mpr ⟨by decide, Or.inr (by decide)⟩⟩

/-- The bytes before the terminator. -/
theorem cString_terminated {text : Path} (clean : 0 ∉ text) (rest : List Byte) : cString (text ++ 0 :: rest) = text := by
  rw [cString, List.takeWhile_append_of_pos, List.takeWhile_cons_of_neg (by decide), List.append_nil]
  intro b member
  exact decide_eq_true fun zero => clean (zero ▸ member)

theorem cString_chdir {memory : List Byte} {path : Path} (clean : 0 ∉ path) : cString (xpnSimpleChdir memory path) = path := by
  rw [xpnSimpleChdir, overwrite_front, List.append_assoc]
  exact cString_terminated clean _

/-- A terminator inside a string cuts it. -/
theorem cString_cut {text : Path} {n : Nat} (clean : 0 ∉ text) (rest : List Byte) :
    cString (overwrite (text ++ 0 :: rest) n [0]) = text.take n := by
  have taken : 0 ∉ text.take n := fun member => clean (List.mem_of_mem_take member)
  rcases Nat.lt_or_ge text.length n with beyond | inside
  · have kept : (text ++ 0 :: rest).take n = text ++ 0 :: rest.take (n - text.length - 1) := by
      obtain ⟨k, rfl⟩ := Nat.exists_eq_add_of_lt beyond
      rw [List.take_append, List.take_of_length_le (by omega), show text.length + k + 1 - text.length = k + 1 by omega,
        List.take_succ_cons, Nat.add_sub_cancel]
    rw [overwrite, kept, List.append_assoc, List.append_assoc, List.cons_append, List.take_of_length_le beyond.le]
    exact cString_terminated clean _
  · rw [overwrite, List.take_append_of_le_length inside, List.append_assoc]
    exact cString_terminated taken _

section
variable {cwd path : Path}

def resolved (cwd path : Path) : Path := if path.head? = some slash then path else slash :: (cwd ++ path)

theorem resolved_clean (cwdClean : 0 ∉ cwd) (clean : 0 ∉ path) : 0 ∉ resolved cwd path := by
  rw [resolved]
  split
  · exact clean
  · simp only [List.mem_cons, List.mem_append, not_or]
    exact ⟨by decide, cwdClean, clean⟩

theorem starts_iff (given : path ≠ []) : byteAt (path ++ [0]) 0 = slash ↔ path.head? = some slash := by
  cases path with
  | nil => exact absurd rfl given
  | cons c path => simp [byteAt]

/-- The terminator goes where the path alone would end after one more byte. -/
theorem absolutePath_eq (cwdClean : 0 ∉ cwd) (clean : 0 ∉ path) (given : path ≠ []) (memory pathPart : List Byte) :
    cString (xpnGetAbsolutePath (xpnSimpleChdir memory cwd) path pathPart) = (resolved cwd path).take (path.length + 1) := by
  have whole := resolved_clean cwdClean clean
  rw [xpnGetAbsolutePath, cString_chdir cwdClean]
  simp only [ne_eq, starts_iff given]
  rw [resolved] at whole ⊢
  by_cases absolute : path.head? = some slash
  · rw [if_pos absolute] at whole ⊢
    rw [if_neg (not_not.mpr absolute), overwrite_front, List.append_assoc]
    exact cString_cut whole _
  · have text : [slash] ++ cwd ++ path ++ [0] = slash :: (cwd ++ path) ++ [0] := by simp
    rw [if_neg absolute] at whole ⊢
    rw [if_pos absolute, overwrite_front, text, List.append_assoc]
    exact cString_cut whole _

theorem resolved_kept_iff : (resolved cwd path).take (path.length + 1) = resolved cwd path ↔
    path.head? = some slash ∨ cwd = [] := by
  rw [List.take_eq_self_iff, resolved]
  split
  next absolute => simp [absolute]
  next relative => simp [relative]

end

theorem byteAt_append (front rest : List Byte) : byteAt (front ++ rest) front.length = byteAt rest 0 := by
  rw [byteAt, byteAt, List.getD_eq_getElem?_getD, List.getElem?_append_right le_rfl, Nat.sub_self, List.getD_eq_getElem?_getD]

theorem partEnd_spec {part tail : Path} (head : Path) (plain : ∀ b ∈ part, b ≠ 0 ∧ b ≠ slash)
    (ends : byteAt tail 0 = 0 ∨ byteAt tail 0 = slash) : ∀ fuel, part.length < fuel →
      partEnd (head ++ (part ++ tail)) fuel head.length = head.length + part.length := by
  induction part generalizing head with
  | nil =>
    intro fuel enough
    obtain ⟨fuel, rfl⟩ := Nat.exists_eq_succ_of_ne_zero (Nat.ne_of_gt enough)
    rw [partEnd, byteAt_append, List.nil_append, if_neg fun inside => ends.elim inside.1 inside.2]
    rfl
  | cons c part ih =>
    intro fuel enough
    obtain ⟨fuel, rfl⟩ := Nat.exists_eq_succ_of_ne_zero (Nat.ne_of_gt (Nat.zero_lt_of_lt enough))
    have here : byteAt (head ++ (c :: part ++ tail)) head.length = c := byteAt_append head _
    have next := ih (head ++ [c]) (fun b member => plain b (List.mem_cons_of_mem c member)) fuel (Nat.lt_of_succ_lt_succ enough)
    rw [partEnd, here, if_pos (plain c List.mem_cons_self)]
    simpa [Nat.add_assoc, Nat.add_comm 1] using next

/-- The rest moves over the gap before it, one byte at a time. -/
theorem shiftDown_spec {rest : Path} (junk : List Byte) (clean : 0 ∉ rest) : ∀ (fuel : Nat) (front gap : List Byte),
    rest.length < fuel → gap ≠ [] → ∃ left, shiftDown fuel (front ++ (gap ++ (rest ++ 0 :: junk))) (front.length + gap.length) front.length =
      (front ++ (rest ++ left), front.length + rest.length) ∧ left ≠ [] := by
  induction rest with
  | nil =>
    intro fuel front gap enough some
    obtain ⟨fuel, rfl⟩ := Nat.exists_eq_succ_of_ne_zero (Nat.ne_of_gt enough)
    have here : byteAt (front ++ (gap ++ ([] ++ 0 :: junk))) (front.length + gap.length) = 0 := by
      rw [← List.append_assoc, ← List.length_append, byteAt_append]
      rfl
    refine ⟨gap ++ 0 :: junk, ?_, by simp⟩
    rw [shiftDown, here, if_neg (by simp)]
    rfl
  | cons c rest ih =>
    intro fuel front gap enough some
    obtain ⟨fuel, rfl⟩ := Nat.exists_eq_succ_of_ne_zero (Nat.ne_of_gt (Nat.zero_lt_of_lt enough))
    obtain ⟨g, gap, rfl⟩ := List.exists_cons_of_ne_nil some
    have here : byteAt (front ++ (g :: gap ++ (c :: rest ++ 0 :: junk))) (front.length + (g :: gap).length) = c := by
      rw [← List.append_assoc, ← List.length_append, byteAt_append]
      rfl
    have apart : c ≠ 0 := fun zero => clean (zero ▸ List.mem_cons_self)
    obtain ⟨left, moved, more⟩ := ih (fun member => clean (List.mem_cons_of_mem c member)) fuel (front ++ [c]) (gap ++ [c])
      (Nat.lt_of_succ_lt_succ enough) (by simp)
    refine ⟨left, ?_, more⟩
    rw [shiftDown, here, if_pos apart, overwrite_append, overwrite_front]
    simpa [Nat.add_assoc, Nat.add_comm 1] using moved

/-- The first component and the rest of an absolute path. -/
theorem getNamePart_spec {part rest : Path} (plain : ∀ b ∈ part, b ≠ 0 ∧ b ≠ slash) (clean : 0 ∉ rest)
    (starts : rest = [] ∨ rest.head? = some slash) (buffer junk : List Byte) :
    ∃ partBuffer dirBuffer, getNamePart buffer (slash :: (part ++ rest) ++ 0 :: junk) = (0, partBuffer, dirBuffer) ∧
      cString partBuffer = part ∧ cString dirBuffer = rest := by
  have tail : byteAt (rest ++ 0 :: junk) 0 = 0 ∨ byteAt (rest ++ 0 :: junk) 0 = slash := by
    rcases starts with rfl | starts
    · exact Or.inl rfl
    · cases rest with
      | nil => cases starts
      | cons c rest => exact Or.inr (Option.some.inj starts)
  have text : slash :: (part ++ rest) ++ 0 :: junk = slash :: part ++ (rest ++ 0 :: junk) := by simp
  have size : part.length + rest.length < (slash :: part ++ (rest ++ 0 :: junk)).length := by
    simp only [List.length_append, List.length_cons]
    omega
  have found : partEnd (slash :: part ++ (rest ++ 0 :: junk)) (slash :: part ++ (rest ++ 0 :: junk)).length 1 = 1 + part.length :=
    partEnd_spec [slash] plain tail _ (by omega)
  obtain ⟨left, moved, more⟩ := shiftDown_spec junk clean (slash :: part ++ (rest ++ 0 :: junk)).length [] (slash :: part)
    (by omega) (by simp)
  have named : 0 ∉ part := fun member => (plain 0 member).1 rfl
  have copied : pread (slash :: part ++ (rest ++ 0 :: junk)) 1 part.length = part := by simp [pread]
  obtain ⟨l, left, rfl⟩ := List.exists_cons_of_ne_nil more
  simp only [List.nil_append, List.length_nil, Nat.zero_add] at moved
  rw [List.length_cons] at moved
  rw [text, getNamePart, if_neg (by simp [byteAt])]
  dsimp only
  rw [found, Nat.add_sub_cancel_left, copied, Nat.add_comm 1, moved]
  refine ⟨_, _, rfl, ?_, ?_⟩
  · rw [overwrite_front, overwrite_append, overwrite_front]
    exact cString_terminated named _
  · rw [overwrite_append, overwrite_front]
    exact cString_terminated clean _

/-- The path is resolved whole, and whatever absolute path a buffer holds is split into its
first component and the rest. -/
def ResolvesAndSplits (cwd path : Path) : Prop :=
  (∀ memory pathPart, cString (xpnGetAbsolutePath (xpnSimpleChdir memory cwd) path pathPart) = resolved cwd path) ∧
    ∀ part rest : Path, (∀ b ∈ part, b ≠ 0 ∧ b ≠ slash) → 0 ∉ rest → (rest = [] ∨ rest.head? = some slash) →
      ∀ buffer junk, ∃ partBuffer dirBuffer, getNamePart buffer (slash :: (part ++ rest) ++ 0 :: junk) = (0, partBuffer, dirBuffer) ∧
        cString partBuffer = part ∧ cString dirBuffer = rest

theorem resolves_and_splits_iff {cwd path : Path} (cwdClean : 0 ∉ cwd) (clean : 0 ∉ path) (given : path ≠ []) :
    ResolvesAndSplits cwd path ↔ path.head? = some slash ∨ cwd = [] := by
  rw [← resolved_kept_iff]
  constructor
  · rintro ⟨resolves, -⟩
    rw [← absolutePath_eq cwdClean clean given [] []]
    exact resolves [] []
  · intro kept
    refine ⟨fun memory pathPart => ?_, fun part rest plain restClean starts => getNamePart_spec plain restClean starts⟩
    rw [absolutePath_eq cwdClean clean given, kept]

/-- In directory `/P1` the name `ab` becomes `//P`. -/
theorem relative_path_cut : ¬∀ cwd path : Path, 0 ∉ cwd → 0 ∉ path → path ≠ [] → 1 + cwd.length + path.length < pathMax →
    ResolvesAndSplits cwd path := by
  intro always
  obtain ⟨resolves, -⟩ := always [47, 80, 49] [97, 98] (by decide) (by decide) (by decide) (by decide)
  have cut : cString (xpnGetAbsolutePath (xpnSimpleChdir [] [47, 80, 49]) [97, 98] []) = [47, 47, 80] := by decide
  have whole := resolves [] []
  rw [cut] at whole
  revert whole
  decide

/-- The path `/a/b` in `/P1`, and the relative path `a/b` where no directory is set. -/
theorem absolute_path_kept : ResolvesAndSplits [47, 80, 49] [47, 97, 47, 98] ∧ ResolvesAndSplits [] [97, 47, 98] :=
  ⟨(resolves_and_splits_iff (by decide) (by decide) (by decide)).mpr (Or.inl rfl),
    (resolves_and_splits_iff (by decide) (by decide) (by decide)).mpr (Or.inr rfl)⟩

end Xpn.Proofs.PathResolution
