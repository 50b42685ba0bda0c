import Xpn.FileTable
import Xpn.Proofs.Namespace

/-! A directory is listed from a server on which the entries of its files are created:
the name of the directory hashes as the directory of any of its files does. -/

namespace Xpn.Proofs.Namespace

section
variable {p : Byte → Bool} {path rest : Path} {c : Byte}

@[simp] theorem dropTrailing_nil : dropTrailing p [] = [] := rfl

theorem dropTrailing_append_of_true (drops : p c = true) : dropTrailing p (path ++ [c]) = dropTrailing p path := by
  simp [dropTrailing, drops]

theorem dropTrailing_append_of_false (keeps : p c = false) : dropTrailing p (path ++ [c]) = path ++ [c] := by
  simp [dropTrailing, keeps]

theorem dropTrailing_append (drops : ∀ c ∈ rest, p c = true) : dropTrailing p (path ++ rest) = dropTrailing p path := by
  induction rest using List.reverseRecOn with
  | nil => rw [List.append_nil]
  | append_singleton rest c ih =>
    rw [← List.append_assoc, dropTrailing_append_of_true (drops c (by simp))]
    exact ih fun other member => drops other (by simp [member])

theorem dropTrailing_dropTrailing : dropTrailing p (dropTrailing p path) = dropTrailing p path := by
  induction path using List.reverseRecOn with
  | nil => rfl
  | append_singleton path c ih =>
    cases keeps : p c with
    | true => rw [dropTrailing_append_of_true keeps, ih]
    | false => rw [dropTrailing_append_of_false keeps, dropTrailing_append_of_false keeps]

end

theorem opendirPath_trimmed (d : Path) : dropTrailing (· == slash) (opendirPath d) = dropTrailing (· == slash) d := by
  unfold opendirPath
  split
  · rfl
  · exact dropTrailing_append_of_true (by decide)

theorem opendirPath_ne_nil (d : Path) : opendirPath d ≠ [] := by
  unfold opendirPath
  split
  next ends =>
    rintro rfl
    simp at ends
  next => simp

variable {d f : Path}

theorem dropTrailing_file (named : f ≠ []) (plain : slash ∉ f) :
    dropTrailing (· == slash) (d ++ slash :: f) = d ++ slash :: f := by
  obtain ⟨front, c, rfl⟩ := List.eq_nil_or_concat' f |>.resolve_left named
  have last : (c == slash) = false := by
    simp only [List.mem_append, List.mem_singleton, not_or] at plain
    exact beq_eq_false_iff_ne.mpr (Ne.symm plain.2)
  have shape : d ++ slash :: (front ++ [c]) = (d ++ slash :: front) ++ [c] := by simp
  rw [shape]
  exact dropTrailing_append_of_false last

/-- The directory part of a file's path, without the slashes at its end. -/
theorem dirname_file (named : f ≠ []) (plain : slash ∉ f) :
    dirname (d ++ slash :: f) =
      if (dropTrailing (· == slash) d).isEmpty then [slash] else dropTrailing (· == slash) d := by
  have whole := dropTrailing_file (d := d) named plain
  have parent : dropTrailing (· != slash) (d ++ slash :: f) = d ++ [slash] := by
    have shape : d ++ slash :: f = (d ++ [slash]) ++ f := by simp
    rw [shape, dropTrailing_append]
    · exact dropTrailing_append_of_false (by decide)
    · intro other member
      simp only [bne_iff_ne, ne_eq]
      rintro rfl
      exact plain member
  have kept : dropTrailing (· == slash) (d ++ [slash]) = dropTrailing (· == slash) d := dropTrailing_append_of_true (by decide)
  simp [dirname, whole, parent, kept]

theorem basename_file (named : f ≠ []) (plain : slash ∉ f) : basename (d ++ slash :: f) = f := by
  have none_inside : ∀ c ∈ f.reverse, (c != slash) = true := by
    intro c member
    rw [bne_iff_ne]
    rintro rfl
    exact plain (List.mem_reverse.mp member)
  have tail : (d ++ slash :: f).reverse = f.reverse ++ slash :: d.reverse := by simp
  simp only [basename, dropTrailing_file named plain, tail, List.takeWhile_append_of_pos none_inside]
  simp

theorem hash_file (named : f ≠ []) (plain : slash ∉ f) (n : Int) :
    hash (d ++ slash :: f) n 1 = (toCInt (f.map charToInt).sum).tmod n := by
  simp only [hash, if_true, basename_file named plain]

theorem basename_directory (named : f ≠ []) (plain : slash ∉ f) :
    basename (opendirPath d) = basename (dirname (d ++ slash :: f)) := by
  have some_path : (opendirPath d).isEmpty = false := by simpa using opendirPath_ne_nil d
  rw [dirname_file named plain, basename, some_path, if_neg (by decide), opendirPath_trimmed]
  cases trimmed : dropTrailing (· == slash) d with
  | nil => decide
  | cons c rest =>
    have again : dropTrailing (· == slash) (c :: rest) = c :: rest := by rw [← trimmed, dropTrailing_dropTrailing]
    simp [basename, again]

theorem dropTrailing_sublist (p : Byte → Bool) (path : Path) : (dropTrailing p path).Sublist path := by
  rw [← List.reverse_sublist, dropTrailing, List.reverse_reverse]
  exact List.dropWhile_sublist _

theorem basename_cases (path : Path) :
    basename path = [dot] ∨ basename path = [slash] ∨ (basename path).Sublist path := by
  unfold basename
  split
  · exact Or.inl rfl
  · dsimp only
    split
    · exact Or.inr (Or.inl rfl)
    · refine Or.inr (Or.inr ?_)
      rw [← List.reverse_sublist, List.reverse_reverse]
      exact (List.takeWhile_sublist _).trans (List.reverse_sublist.mpr (dropTrailing_sublist _ _))

/-- The sum over a name of plain characters that fits a path buffer is no more than an
`int` holds, and not negative. -/
theorem sum_chars {name : Path} (ascii : ∀ c ∈ name, c.toNat < 128) :
    0 ≤ (name.map charToInt).sum ∧ (name.map charToInt).sum ≤ 127 * name.length := by
  induction name with
  | nil => simp
  | cons c name ih =>
    have small := ascii c List.mem_cons_self
    obtain ⟨low, high⟩ := ih fun other member => ascii other (List.mem_cons_of_mem _ member)
    simp only [List.map_cons, List.sum_cons, charToInt, if_pos small, List.length_cons]
    push_cast
    omega

theorem hash_nonneg {path : Path} (ascii : ∀ c ∈ path, c.toNat < 128) (short : path.length ≤ pathMax) (n : Nat) :
    0 ≤ hash path n 1 := by
  have name : (∀ c ∈ basename path, c.toNat < 128) ∧ (basename path).length ≤ pathMax := by
    rcases basename_cases path with same | same | inside
    · rw [same]
      exact ⟨by simp [dot], by decide⟩
    · rw [same]
      exact ⟨by simp [slash], by decide⟩
    · exact ⟨fun c member => ascii c (inside.subset member), inside.length_le.trans short⟩
  obtain ⟨low, high⟩ := sum_chars name.1
  have bound : ((basename path).length : Int) ≤ 4096 := by exact_mod_cast name.2
  have fits : toCInt (((basename path).map charToInt).sum) = ((basename path).map charToInt).sum := by
    apply Int.bmod_eq_of_le_mul_two
    · omega
    · omega
  simp only [hash, if_true, fits]
  exact Int.tmod_nonneg _ low

/-- From `start`, the loop ends on the first of the servers `start`, `start + 1`, ... that
has no error. -/
theorem skipErrors_eq {error : Nat → Bool} {n start : Nat} : ∀ i fuel, i < fuel → start < n →
    (∀ j, j < i → error ((start + j) % n) = true) → error ((start + i) % n) = false →
    skipErrors error n fuel start = some ((start + i) % n)
  | _, 0, room, _, _, _ => absurd room (Nat.not_lt_zero _)
  | 0, fuel + 1, _, inside, _, up => by
    rw [Nat.add_zero, Nat.mod_eq_of_lt inside] at up
    rw [skipErrors, up, if_neg (by decide), Nat.add_zero, Nat.mod_eq_of_lt inside]
  | i + 1, fuel + 1, room, inside, down, up => by
    have here := down 0 (Nat.succ_pos i)
    rw [Nat.add_zero, Nat.mod_eq_of_lt inside] at here
    have shift : ∀ j, ((start + 1) % n + j) % n = (start + (j + 1)) % n := by
      intro j
      rw [Nat.mod_add_mod]
      congr 1
      omega
    rw [skipErrors, here, if_pos rfl, skipErrors_eq i fuel (Nat.lt_of_succ_lt_succ room) (Nat.mod_lt _ (by omega)), shift]
    · intro j below
      rw [shift]
      exact down (j + 1) (Nat.succ_lt_succ below)
    · rw [shift]
      exact up

/-- One of `level + 1` neighbouring servers is up when at most `level` are down. -/
theorem first_up {error : Nat → Bool} {n level : Nat} (start : Nat) (fits : level + 1 ≤ n)
    (few : {serv ∈ Finset.range n | error serv = true}.card ≤ level) :
    ∃ i, i ≤ level ∧ error ((start + i) % n) = false ∧ ∀ j, j < i → error ((start + j) % n) = true := by
  have some_up : ∃ i, i ≤ level ∧ error ((start + i) % n) = false := by
    by_contra all_down
    push Not at all_down
    have inside : (Finset.range (level + 1)).image (fun i => (start + i) % n) ⊆ {serv ∈ Finset.range n | error serv = true} := by
      intro serv member
      obtain ⟨i, below, rfl⟩ := Finset.mem_image.mp member
      have small : i ≤ level := Nat.lt_succ_iff.mp (Finset.mem_range.mp below)
      have down := all_down i small
      simp only [Bool.not_eq_false] at down
      exact Finset.mem_filter.mpr ⟨Finset.mem_range.mpr (Nat.mod_lt _ (by omega)), down⟩
    have apart : Set.InjOn (fun i => (start + i) % n) (Finset.range (level + 1) : Finset Nat) := by
      intro i left j right same
      have left := Finset.mem_range.mp left
      have right := Finset.mem_range.mp right
      have close := Nat.ModEq.add_left_cancel' start (show Nat.ModEq n (start + i) (start + j) from same)
      unfold Nat.ModEq at close
      rwa [Nat.mod_eq_of_lt (by omega), Nat.mod_eq_of_lt (by omega)] at close
    have count := Finset.card_le_card inside
    rw [Finset.card_image_of_injOn apart, Finset.card_range] at count
    omega
  refine ⟨Nat.find some_up, (Nat.find_spec some_up).1, (Nat.find_spec some_up).2, fun j below => ?_⟩
  have down := Nat.find_min some_up below
  have small : j ≤ level := (Nat.le_of_lt below).trans (Nat.find_spec some_up).1
  simpa [small] using down

theorem hash_directory (named : f ≠ []) (plain : slash ∉ f) (n : Nat) :
    hash (opendirPath d) n 1 = hash (d ++ slash :: f) n 0 := by
  simp only [hash, if_true, basename_directory named plain]
  rw [if_neg (by decide)]

/-- An open that creates a file creates it on every server of its directory window. -/
theorem created_entry {part : XpnPartition} {cluster created : Cluster} {path : Path} {flags serv : Nat}
    (creates : hasFlag flags oCreat = true) (absent : ∀ other, cluster.files other path = none)
    (opened : cluster.xpnInternalOpen part path flags = some created) (inside : serv < part.dataNserv)
    (window : inDir part path serv = true) : (created.files serv path).isSome = true := by
  have fresh : cluster.xpnReadMetadata part path = (-1, XpnMetadata.zero) := by
    simp only [Cluster.xpnReadMetadata, absent]
  have unmarked : xpnCheckMagicNumber XpnMetadata.zero = false := by decide
  simp only [Cluster.xpnInternalOpen, fresh, creates, unmarked, Bool.not_true, and_false, if_false, if_true,
    Option.ite_none_right_eq_some, Option.some.injEq, Bool.false_eq_true] at opened
  obtain ⟨-, rfl⟩ := opened
  have selected : affected part (xpnCreateMetadataExtern path part.dataNserv part.blockSize part.replicationLevel) path serv = true := by
    have marked : xpnCheckMagicNumber (xpnCreateMetadataExtern path part.dataNserv part.blockSize part.replicationLevel) = true := rfl
    have level : (xpnCreateMetadataExtern path part.dataNserv part.blockSize part.replicationLevel).replicationLevel =
        part.replicationLevel := rfl
    simp only [affected, xpnCheckServAffectedByOp, marked, level, window, inside, decide_true, Bool.true_and, Bool.not_true,
      if_true, Bool.false_eq_true, if_false]
  simp only [Cluster.xpnUpdateMetadata, Cluster.onServers, selected, if_true, Function.update_self, absent, filesystemOpen, creates]
  split
  · simp
  · simp

/-- The search for a server to list the directory from ends on one that is up and that
the entry of the file is created on. -/
theorem listing_finds_entries (part : XpnPartition) (fits : part.replicationLevel + 1 ≤ part.dataNserv)
    (ascii : ∀ c ∈ d ++ slash :: f, c.toNat < 128) (short : (d ++ slash :: f).length < pathMax)
    (named : f ≠ []) (plain : slash ∉ f) (error : Nat → Bool)
    (few : {serv ∈ Finset.range part.dataNserv | error serv = true}.card ≤ part.replicationLevel) :
    ∃ i, i ≤ part.replicationLevel ∧
      (∀ fuel, part.replicationLevel < fuel →
        xpnGetEntry error part.dataNserv fuel (opendirPath d) = some (dirServer part (d ++ slash :: f) i)) ∧
      error (dirServer part (d ++ slash :: f) i) = false ∧
      ∀ (cluster created : Cluster) (flags : Nat), hasFlag flags oCreat = true → (∀ serv, cluster.files serv (d ++ slash :: f) = none) →
        cluster.xpnInternalOpen part (d ++ slash :: f) flags = some created →
        (created.files (dirServer part (d ++ slash :: f) i) (d ++ slash :: f)).isSome = true := by
  have positive : 0 < part.dataNserv := by omega
  have subpath : ∀ c ∈ opendirPath d, c ∈ d ++ slash :: f := by
    intro c member
    unfold opendirPath at member
    split at member
    · simp [member]
    · simp only [List.mem_append, List.mem_singleton] at member
      simp only [List.mem_append, List.mem_cons]
      tauto
  have shorter : (opendirPath d).length ≤ pathMax := by
    simp only [List.length_append, List.length_cons] at short
    unfold opendirPath
    split
    · omega
    · simp only [List.length_append, List.length_singleton]
      omega
  have natural := hash_nonneg (fun c member => ascii c (subpath c member)) shorter part.dataNserv
  obtain ⟨start, hashed⟩ := Int.eq_ofNat_of_zero_le natural
  have below : start < part.dataNserv := by
    have := Int.tmod_lt_of_pos (toCInt ((basename (opendirPath d)).map charToInt).sum) (Int.natCast_pos.mpr positive)
    simp only [hash, if_true] at hashed
    omega
  have places : ∀ i, dirServer part (d ++ slash :: f) i = (start + i) % part.dataNserv := by
    intro i
    rw [dirServer, ← hash_directory named plain, hashed]
    exact_mod_cast rfl
  obtain ⟨i, small, up, down⟩ := first_up start fits few
  rw [← places] at up
  refine ⟨i, small, fun fuel room => ?_, up, fun cluster created flags creates absent opened => ?_⟩
  · rw [xpnGetEntry, hashed, places]
    exact skipErrors_eq i fuel (by omega) below down (places i ▸ up)
  · refine created_entry creates absent opened ?_ ?_
    · rw [places]
      exact Nat.mod_lt _ positive
    · simp only [inDir, inWindow, List.any_eq_true, List.mem_range, beq_iff_eq]
      refine ⟨i, by omega, ?_⟩
      rw [places, ← hash_directory named plain, hashed]
      push_cast
      rw [Int.add_comm]
      rfl

/-- `/a` with a file `b` on three servers and two copies, of which the server of `/a`
itself, number 1, is down: the listing comes from server 2. -/
theorem listing_finds_entries_next :
    let part : XpnPartition := ⟨3, 512, 1, -1⟩
    xpnGetEntry (· == 1) 3 2 (opendirPath [47, 97]) = some 2 ∧
      ∃ i, i ≤ 1 ∧ dirServer part ([47, 97] ++ slash :: [98]) i = 2 := by
  intro part
  obtain ⟨i, small, found, -⟩ := listing_finds_entries part (d := [47, 97]) (f := [98]) (by decide) (by simp [slash]) (by decide)
    (by decide) (by decide) (· == 1) (by decide)
  have server : xpnGetEntry (· == 1) 3 2 (opendirPath [47, 97]) = some 2 := by decide
  refine ⟨server, i, small, ?_⟩
  have same := (found 2 (by decide)).symm.trans server
  exact Option.some.inj same

end Xpn.Proofs.Namespace
