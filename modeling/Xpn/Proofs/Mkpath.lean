import Xpn.Filesystem
import Mathlib.Tactic.Linarith

/-! Which directories are made above a path. Each pass collapses the path again and looks for
one slash more than the pass before. -/

namespace Xpn.Filesystem

def collapse : Path → Path
  | [] => []
  | [c] => [c]
  | c :: d :: path => if c = slash ∧ d = slash then collapse (d :: path) else c :: collapse (d :: path)

def spell (components : List Path) : Path := components.flatMap (slash :: ·)

def IsName (component : Path) : Prop := component ≠ [] ∧ slash ∉ component

def tail (trailing : Bool) : Path := if trailing then [slash] else []

/-- What is stored behind a character. -/
def squeeze : Byte → Path → Path
  | _, [] => []
  | ant, c :: path => if c = slash ∧ ant = slash then squeeze ant path else c :: squeeze c path

theorem foldl_clear (path : Path) (ant : Byte) (s : Path) :
    (path.foldl auxClearDirsStep (ant, s)).2 = s ++ squeeze ant path := by
  induction path generalizing ant s with
  | nil => simp [squeeze]
  | cons c path ih =>
    rw [List.foldl_cons, squeeze]
    by_cases isSlash : c = slash
    · by_cases again : ant = slash
      · rw [if_pos ⟨isSlash, again⟩, ← ih]
        simp [auxClearDirsStep, isSlash, again]
      · rw [if_neg (fun both => again both.2)]
        simp [auxClearDirsStep, isSlash, again, ih]
    · rw [if_neg (fun both => isSlash both.1)]
      simp [auxClearDirsStep, isSlash, ih]

theorem collapse_cons (c : Byte) (path : Path) : collapse (c :: path) = c :: squeeze c path := by
  induction path generalizing c with
  | nil => rfl
  | cons d path ih =>
    rw [collapse, squeeze, ih]
    by_cases both : c = slash ∧ d = slash
    · rw [if_pos both, if_pos both.symm, both.1, both.2]
    · rw [if_neg both, if_neg (fun swapped => both swapped.symm)]

theorem length_squeeze (path : Path) (ant : Byte) : (squeeze ant path).length ≤ path.length := by
  induction path generalizing ant with
  | nil => exact le_rfl
  | cons c path ih =>
    rw [squeeze]
    split
    · exact (ih ant).trans (by simp)
    · exact Nat.succ_le_succ (ih c)

theorem squeeze_start {path : Path} (present : path ≠ []) : squeeze 0 path = collapse path := by
  cases path with
  | nil => contradiction
  | cons c path =>
    rw [collapse_cons, squeeze, if_neg]
    rintro ⟨-, impossible⟩
    exact absurd impossible (by decide)

theorem auxClearDirs_eq {path : Path} (present : path ≠ []) (short : path.length < pathMax) :
    auxClearDirs path = some (collapse path) := by
  have bound := length_squeeze path 0
  simp only [auxClearDirs, foldl_clear, List.nil_append]
  rw [if_neg, squeeze_start present]
  rintro (empty | long)
  · exact present empty
  · omega

theorem head?_collapse (path : Path) : (collapse path).head? = path.head? := by
  cases path with
  | nil => rfl
  | cons c path => rw [collapse_cons, List.head?_cons, List.head?_cons]

theorem collapse_behind (c : Byte) (path : Path) :
    collapse (c :: path) = if c = slash ∧ path.head? = some slash then collapse path else c :: collapse path := by
  cases path with
  | nil => simp [collapse]
  | cons d path => simp [collapse]

theorem head?_spell (components : List Path) (trailing : Bool) :
    (spell components ++ tail trailing).head? = if components = [] ∧ trailing = false then none else some slash := by
  cases components with
  | nil => cases trailing <;> simp [spell, tail]
  | cons component components => simp [spell]

/-- Every path collapses to a component, which may be empty, and further ones behind slashes. -/
theorem collapse_split (path : Path) :
    ∃ first components trailing, slash ∉ first ∧ (∀ c ∈ components, IsName c)
      ∧ collapse path = first ++ (spell components ++ tail trailing) := by
  induction path with
  | nil => exact ⟨[], [], false, List.not_mem_nil, fun c member => absurd member List.not_mem_nil, rfl⟩
  | cons c path ih =>
    obtain ⟨first, components, trailing, clean, names, form⟩ := ih
    rw [collapse_behind]
    by_cases isSlash : c = slash
    · subst isSlash
      by_cases again : path.head? = some slash
      · rw [if_pos ⟨rfl, again⟩]
        exact ⟨first, components, trailing, clean, names, form⟩
      · rw [if_neg (fun both => again both.2), form]
        rw [← head?_collapse, form] at again
        cases first with
        | nil =>
          -- a collapsed rest that does not start with a slash is empty
          rw [List.nil_append, head?_spell] at again
          by_cases empty : components = [] ∧ trailing = false
          · refine ⟨[], [], true, List.not_mem_nil, fun c member => absurd member List.not_mem_nil, ?_⟩
            rw [empty.1, empty.2]
            rfl
          · rw [if_neg empty] at again
            contradiction
        | cons d first =>
          refine ⟨[], (d :: first) :: components, trailing, List.not_mem_nil, ?_, by simp [spell]⟩
          rintro name (_ | ⟨_, member⟩)
          · exact ⟨List.cons_ne_nil _ _, clean⟩
          · exact names name member
    · rw [if_neg (fun both => isSlash both.1), form]
      refine ⟨c :: first, components, trailing, ?_, names, rfl⟩
      rintro (_ | ⟨_, member⟩)
      · exact isSlash rfl
      · exact clean member

theorem collapse_form {path : Path} (absolute : path.head? = some slash) :
    ∃ components trailing, (∀ c ∈ components, IsName c) ∧ collapse path = spell components ++ tail trailing := by
  obtain ⟨first, components, trailing, clean, names, form⟩ := collapse_split path
  cases first with
  | nil => exact ⟨components, trailing, names, form⟩
  | cons c first =>
    rw [← head?_collapse, form] at absolute
    cases absolute
    exact absurd List.mem_cons_self clean

/-- Short of its slash the scan only counts, once the first slash is behind it. -/
theorem dirScan_short (n : Int) (first rest : Path) (i pos : Int) {cont : Int}
    (short : cont + first.count slash < n + 1) :
    ∃ pos', dirScan n (first ++ rest) i { ant := 0, pos, cont }
      = dirScan n rest (i + first.length) { ant := 0, pos := pos', cont := cont + first.count slash } := by
  induction first generalizing i pos cont with
  | nil => exact ⟨pos, by simp⟩
  | cons c first ih =>
    rw [List.cons_append, dirScan]
    by_cases isSlash : c = slash
    · subst isSlash
      rw [List.count_cons_self] at short ⊢
      obtain ⟨pos', scanned⟩ := ih (i + 1) i (show cont + 1 + first.count slash < n + 1 by omega)
      refine ⟨pos', ?_⟩
      rw [if_pos (show cont < n + 1 by omega), if_pos rfl, if_neg (show ¬ (0 : Int) < 0 by omega), scanned]
      congr 1
      · rw [List.length_cons]
        omega
      · congr 1
        omega
    · rw [List.count_cons_of_ne isSlash] at short ⊢
      obtain ⟨pos', scanned⟩ := ih (i + 1) pos short
      refine ⟨pos', ?_⟩
      rw [if_pos (show cont < n + 1 by omega), if_neg isSlash, scanned, List.length_cons]
      congr 1
      omega

theorem dirScan_stop {n : Int} (path : Path) (i : Int) {scan : DirScan} (reached : ¬ scan.cont < n + 1) :
    dirScan n path i scan = scan := by
  cases path with
  | nil => rfl
  | cons c path => rw [dirScan, if_neg reached]

/-- At its slash the scan stops. -/
theorem dirScan_reached (n : Int) (first rest : Path) (i pos : Int) {cont : Int}
    (count : cont + first.count slash = n) :
    dirScan n (first ++ slash :: rest) i { ant := 0, pos, cont }
      = { ant := 0, pos := i + first.length, cont := n + 1 } := by
  obtain ⟨pos', scanned⟩ := dirScan_short n first (slash :: rest) i pos
    (show cont + first.count slash < n + 1 by omega)
  rw [scanned, count, dirScan, if_pos (show n < n + 1 by omega), if_pos rfl, dirScan_stop]
  · rfl
  · exact fun below => lt_irrefl _ below

variable {path : Path} {n : Nat}

/-- The first slash of an absolute path starts the prefix. -/
theorem dirScan_start (n : Nat) (rest : Path) :
    dirScan n (slash :: rest) 0 { ant := -1, pos := -1, cont := -1 }
      = dirScan n rest 1 { ant := 0, pos := 0, cont := 0 } := by
  rw [dirScan, if_pos (show (-1 : Int) < n + 1 by omega), if_pos rfl]
  rfl

theorem auxGetDirs_prefix (short : path.length < pathMax) {first rest : Path}
    (form : collapse path = slash :: first ++ slash :: rest)
    (count : first.count slash = n) : auxGetDirs path n = some (slash :: first) := by
  have present : path ≠ [] := by
    rintro rfl
    contradiction
  have cut : ((1 : Int) + first.length).toNat = (slash :: first).length := by
    rw [List.length_cons]
    omega
  rw [auxGetDirs, if_pos short]
  simp only [Option.bind_eq_bind, Option.bind_some, auxClearDirs_eq present short, form]
  rw [List.cons_append, dirScan_start, dirScan_reached n first rest 1 0 (show (0 : Int) + first.count slash = n by omega),
    if_neg (fun below => lt_irrefl _ below), if_neg (fun below => lt_irrefl _ below)]
  simp only [cut]
  rw [← List.cons_append, List.take_left]

theorem auxGetDirs_none (short : path.length < pathMax) {rest : Path} (form : collapse path = slash :: rest)
    (count : rest.count slash ≤ n) :
    auxGetDirs path n = some [] := by
  have present : path ≠ [] := by
    rintro rfl
    contradiction
  obtain ⟨pos, scanned⟩ := dirScan_short n rest [] 1 0 (show (0 : Int) + rest.count slash < n + 1 by omega)
  rw [List.append_nil, dirScan] at scanned
  rw [auxGetDirs, if_pos short]
  simp only [Option.bind_eq_bind, Option.bind_some, auxClearDirs_eq present short, form]
  rw [dirScan_start, scanned, if_pos (by simp only; omega)]

/-- Passes that give a directory, followed by one that gives none. -/
theorem mkpathLoop_passes {dir : Nat → Path} {total : Nat}
    (given : ∀ i < total, dir i ≠ [] ∧ auxGetDirs path i = some (dir i)) (last : auxGetDirs path total = some [])
    (count i : Nat) (reach : i + count = total) {passes : Nat} (enough : count < passes) :
    mkpathLoop path passes i = some ((List.range' i count).map dir) := by
  induction count generalizing i passes with
  | zero =>
    obtain ⟨passes, rfl⟩ := Nat.exists_eq_succ_of_ne_zero (show passes ≠ 0 by omega)
    rw [add_zero] at reach
    rw [mkpathLoop, reach, last]
    rfl
  | succ count ih =>
    obtain ⟨passes, rfl⟩ := Nat.exists_eq_succ_of_ne_zero (show passes ≠ 0 by omega)
    obtain ⟨present, got⟩ := given i (by omega)
    have later := ih (i + 1) (by omega) (show count < passes by omega)
    rw [mkpathLoop, got]
    simp only [Option.bind_eq_bind, Option.bind_some]
    rw [if_pos (fun empty => present (List.length_eq_zero_iff.mp empty)), later]
    rfl

theorem count_spell {components : List Path} (names : ∀ c ∈ components, IsName c) :
    (spell components).count slash = components.length := by
  induction components with
  | nil => rfl
  | cons component components ih =>
    have clean := List.count_eq_zero_of_not_mem (names component List.mem_cons_self).2
    have others := ih fun c member => names c (List.mem_cons_of_mem _ member)
    unfold spell at others ⊢
    rw [List.flatMap_cons, List.count_append, List.count_cons_self, clean, others, List.length_cons]
    omega

theorem spell_take_drop (components : List Path) (k : Nat) :
    spell (components.take k) ++ spell (components.drop k) = spell components := by
  unfold spell
  rw [← List.flatMap_append, List.take_append_drop]

section
variable {components : List Path} {trailing : Bool} (names : ∀ c ∈ components, IsName c)
  (form : collapse path = spell components ++ tail trailing) (short : path.length < pathMax)
include names form

theorem count_form : (collapse path).count slash = components.length + if trailing then 1 else 0 := by
  rw [form, List.count_append, count_spell names]
  cases trailing <;> rfl

include short

/-- The pass for an ancestor gives it. -/
theorem auxGetDirs_ancestor (below : n + 1 < (collapse path).count slash) :
    auxGetDirs path n = some (spell (components.take (n + 1))) := by
  have count := count_form names form
  have depth : n + 1 ≤ components.length := by
    cases trailing <;> simp at count <;> omega
  have taken : (components.take (n + 1)).length = n + 1 := List.length_take_of_le depth
  have counted : (spell (components.take (n + 1))).count slash = _ :=
    count_spell fun c member => names c (List.mem_of_mem_take member)
  rw [taken] at counted
  -- the ancestor starts with a slash, and so does what is behind it
  obtain ⟨first, start⟩ : ∃ first, spell (components.take (n + 1)) = slash :: first := by
    cases components with
    | nil => simp at depth
    | cons component components => exact ⟨_, rfl⟩
  obtain ⟨rest, behind⟩ : ∃ rest, spell (components.drop (n + 1)) ++ tail trailing = slash :: rest := by
    cases left : components.drop (n + 1) with
    | nil =>
      have whole := List.drop_eq_nil_iff.mp left
      cases trailing with
      | true => exact ⟨[], rfl⟩
      | false =>
        simp at count
        omega
    | cons component others => exact ⟨_, rfl⟩
  rw [start, List.count_cons_self] at counted
  rw [start]
  refine auxGetDirs_prefix short (?_ : _ = slash :: first ++ slash :: rest) (by omega)
  rw [form, ← spell_take_drop components (n + 1), List.append_assoc, behind, start]

theorem mkpathLoop_ancestors (absolute : path.head? = some slash) {passes : Nat}
    (enough : (collapse path).count slash - 1 < passes) :
    mkpathLoop path passes 0
      = some ((List.range ((collapse path).count slash - 1)).map fun i => spell (components.take (i + 1))) := by
  rw [List.range_eq_range']
  refine mkpathLoop_passes ?_ ?_ _ _ (Nat.zero_add _) enough
  · intro i below
    refine ⟨?_, auxGetDirs_ancestor names form short (by omega)⟩
    cases components with
    | nil =>
      have count := count_form names form
      cases trailing <;> simp at count <;> omega
    | cons component components => simp [spell]
  · have start := head?_collapse path
    rw [absolute] at start
    obtain ⟨rest, split⟩ := List.head?_eq_some_iff.mp start
    apply auxGetDirs_none short split
    rw [split, List.count_cons_self]
    omega

end

theorem mkpath_ancestors (path : Path) (absolute : path.head? = some slash) (short : path.length < pathMax) :
    (∃ components trailing, (∀ c ∈ components, IsName c) ∧ collapse path = spell components ++ tail trailing)
    ∧ ∀ components trailing, (∀ c ∈ components, IsName c) → collapse path = spell components ++ tail trailing →
      ∃ enough, ∀ passes, enough ≤ passes → filesystemMkpath path passes
        = some ((List.range ((collapse path).count slash - 1)).map fun i => spell (components.take (i + 1))) := by
  refine ⟨collapse_form absolute, ?_⟩
  intro components trailing names form
  exact ⟨_, fun passes enough => mkpathLoop_ancestors names form short absolute (Nat.lt_of_succ_le enough)⟩

/-- `//a/b/` -/
theorem mkpath_ancestors_double :
    ∃ enough, ∀ passes, enough ≤ passes →
      filesystemMkpath [47, 47, 97, 47, 98, 47] passes = some [[47, 97], [47, 97, 47, 98]] :=
  (mkpath_ancestors [47, 47, 97, 47, 98, 47] (by decide) (by decide)).2 [[97], [98]] true
    (List.forall_mem_cons.mpr ⟨⟨by decide, by decide⟩, List.forall_mem_singleton.mpr ⟨by decide, by decide⟩⟩)
    (by decide)

end Xpn.Filesystem
