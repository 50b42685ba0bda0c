import Xpn.Proofs.InitPartition

/-! What a call that fails leaves in the table. Entries that were never written have id 0 and an
empty name, which is the first component of `/`, and an array that was freed stays where it was. -/

namespace Xpn.Proofs.InitLeftovers
open Xpn.ConfReader Xpn.PathResolution Xpn.InitPartition Proofs.InitPartition

theorem getPartition_eq {path : Path} (clean : 0 ∉ path) (table : Table) (buffer junk : List Byte) :
    xpnGetPartition table buffer (slash :: path ++ 0 :: junk) =
      (table.find? (·.name = path.takeWhile (· ≠ slash))).elim (-1) Entry.id := by
  have plain : ∀ b ∈ path.takeWhile (· ≠ slash), b ≠ 0 ∧ b ≠ slash := by
    intro b inside
    refine ⟨fun zero => clean (zero ▸ List.takeWhile_subset _ inside), ?_⟩
    simpa using List.mem_takeWhile_imp inside
  have starts : path.dropWhile (· ≠ slash) = [] ∨ (path.dropWhile (· ≠ slash)).head? = some slash := by
    cases left : path.dropWhile (· ≠ slash) with
    | nil => exact Or.inl rfl
    | cons b rest =>
      have stops : (decide (b ≠ slash)) = false := by
        have := List.head?_dropWhile_not (fun b : Byte => decide (b ≠ slash)) path
        rw [left] at this
        exact this
      refine Or.inr ?_
      rw [List.head?_cons, not_not.mp (of_decide_eq_false stops)]
  have rest : 0 ∉ path.dropWhile (· ≠ slash) := fun zero => clean (List.dropWhile_subset _ zero)
  obtain ⟨partBuffer, dirBuffer, split, named, -⟩ := PathResolution.getNamePart_spec plain rest starts buffer junk
  rw [List.takeWhile_append_dropWhile] at split
  rw [xpnGetPartition, split]
  simp only [named]
  cases table.find? (·.name = path.takeWhile (· ≠ slash)) with
  | none => rfl
  | some entry => rfl

theorem resolves_of_plain {table : Table} (ids : ∀ entry ∈ table, 0 ≤ entry.id) {entry : Entry}
    (inside : entry ∈ table) (clean : 0 ∉ entry.name)
    (plain : slash ∉ entry.name) : 0 ≤ xpnGetPartition table [] (slash :: entry.name ++ [0]) := by
  have whole : entry.name.takeWhile (· ≠ slash) = entry.name := by
    rw [List.takeWhile_eq_self_iff]
    intro b member
    exact decide_eq_true fun same => plain (same ▸ member)
  rw [getPartition_eq clean, whole]
  cases found : table.find? (·.name = entry.name) with
  | none => exact absurd (List.find?_eq_none.mp found entry inside) (by simp)
  | some other => exact ids other (List.mem_of_find?_eq_some found)

theorem unresolved_of_slash {table : Table} (marked : ∀ entry ∈ table, slash ∈ entry.name) {path : Path}
    (clean : 0 ∉ path) (buffer junk : List Byte) :
    xpnGetPartition table buffer (slash :: path ++ 0 :: junk) = -1 := by
  rw [getPartition_eq clean]
  cases found : table.find? (·.name = path.takeWhile (· ≠ slash)) with
  | none => rfl
  | some entry =>
    have same : entry.name = path.takeWhile (· ≠ slash) := by simpa using List.find?_some found
    have inside := marked entry (List.mem_of_find?_eq_some found)
    rw [same] at inside
    exact absurd (List.mem_takeWhile_imp inside) (by simp)

/-- No absolute path leads to a partition, and the table points to nothing that was freed. -/
structure NothingLeft (table : Table) : Prop where
  unresolved : ∀ buffer path junk, 0 ∉ path → xpnGetPartition table buffer (slash :: path ++ 0 :: junk) < 0
  unfreed : ∀ entry ∈ table, entry.dataServ ≠ .freed

/-- The configured partitions in order and an entry with id -1. -/
def Contains (around : Around) (confData : List Partition) (table : Table) : Prop :=
  ∃ last rest, table = entriesFrom around 0 confData ++ last :: rest ∧ last.id = -1

/-- The first call of a process stays inside the table, and leaves nothing or all of the
configuration. -/
def Clean (around : Around) (conf : Option (List Byte)) : Prop :=
  ∃ res table, xpnInitPartition around conf staticTable = .ok (res, table) ∧ (res = -1 → NothingLeft table) ∧
    (res = 0 → ∃ confData, conf.map xpnConfReaderLoad = some (.ok confData) ∧ Contains around confData table)

/-- Every name in the table has a slash, which no component of a path has, and the partition of
the last entry is refused before anything is freed. -/
def FullOfSlashes (around : Around) (confData : List Partition) : Prop :=
  ∃ pre bad post name, confData = pre ++ bad :: post ∧ pre.length + 1 = xpnMaxPart ∧ AllAdmitted around pre ∧
    bad.partitionName = some name ∧
    (bad.servers = [] ∨ around.allocates pre.length = false) ∧ slash ∈ cString name ∧
    ∀ part ∈ pre, slash ∈ cString (part.partitionName.getD [])

/-- What the environment and the configuration have to be. -/
def Fits (around : Around) (confData : List Partition) : Prop :=
  confData ≠ [] ∧ (confData.length < xpnMaxPart ∧ AllAdmitted around confData ∨ FullOfSlashes around confData)

theorem not_nothingLeft {table : Table} (ids : ∀ entry ∈ table, 0 ≤ entry.id) {entry : Entry}
    (inside : entry ∈ table) (clean : 0 ∉ entry.name)
    (plain : slash ∉ entry.name) : ¬NothingLeft table := by
  rintro ⟨unresolved, -⟩
  have resolved := resolves_of_plain ids inside clean plain
  exact absurd (unresolved [] entry.name [] clean) (by omega)

theorem static_ids : ∀ entry ∈ staticTable, 0 ≤ entry.id := by
  intro entry inside
  rw [List.eq_of_mem_replicate inside]
  exact le_rfl

theorem not_nothingLeft_static : ¬NothingLeft staticTable := by
  have inside : Entry.zero ∈ staticTable := List.mem_replicate.mpr ⟨by decide, rfl⟩
  exact not_nothingLeft static_ids inside List.not_mem_nil List.not_mem_nil

section
variable {around : Around} {pre : List Partition}

theorem ids_entriesFrom {i : Nat} : ∀ entry ∈ entriesFrom around i pre, 0 ≤ entry.id := by
  intro entry inside
  obtain ⟨k, part, -, rfl⟩ := mem_entriesFrom.mp inside
  exact Int.natCast_nonneg (i + k)

theorem cString_clean (text : List Byte) : 0 ∉ cString text := by
  intro inside
  rw [cString] at inside
  exact absurd (List.mem_takeWhile_imp inside) (by simp)

theorem drop_static {k : Nat} {entry : Entry} {rest : Table} (cut : staticTable.drop k = entry :: rest) :
    entry = Entry.zero ∧ rest = List.replicate (xpnMaxPart - k - 1) Entry.zero := by
  rw [staticTable, List.drop_replicate] at cut
  cases count : xpnMaxPart - k with
  | zero =>
    rw [count] at cut
    cases cut
  | succ n =>
    rw [count, List.replicate_succ] at cut
    exact ⟨(List.cons.inj cut).1.symm, (List.cons.inj cut).2.symm⟩

theorem leftover_iff {bad : Entry} {others : Nat} (id : 0 ≤ bad.id) (clean : 0 ∉ bad.name)
    (kept : bad.dataServ ≠ .freed) :
    NothingLeft (entriesFrom around 0 pre ++ bad :: List.replicate others Entry.zero) ↔
      others = 0 ∧ slash ∈ bad.name ∧ ∀ part ∈ pre, slash ∈ cString (part.partitionName.getD []) := by
  have ids : ∀ entry ∈ entriesFrom around 0 pre ++ bad :: List.replicate others Entry.zero, 0 ≤ entry.id := by
    intro entry inside
    rcases List.mem_append.mp inside with written | behind
    · exact ids_entriesFrom entry written
    rcases List.mem_cons.mp behind with rfl | unwritten
    · exact id
    · rw [List.eq_of_mem_replicate unwritten]
      exact le_rfl
  constructor
  · intro nothing
    refine ⟨?_, ?_, fun part inside => ?_⟩
    · by_contra some
      have unwritten : Entry.zero ∈ List.replicate others Entry.zero := List.mem_replicate.mpr ⟨some, rfl⟩
      have inside := List.mem_append_right (entriesFrom around 0 pre) (List.mem_cons_of_mem bad unwritten)
      exact not_nothingLeft ids inside List.not_mem_nil List.not_mem_nil nothing
    · by_contra plain
      exact not_nothingLeft ids (List.mem_append_right _ List.mem_cons_self) clean plain nothing
    · by_contra plain
      obtain ⟨k, found⟩ := List.mem_iff_getElem?.mp inside
      have written : entryAt around (0 + k) part ∈ entriesFrom around 0 pre := mem_entriesFrom.mpr ⟨k, part, found, rfl⟩
      exact not_nothingLeft ids (List.mem_append_left _ written) (cString_clean _) plain nothing
  · rintro ⟨rfl, marked, names⟩
    constructor
    · intro buffer path junk clean
      rw [unresolved_of_slash _ clean buffer junk]
      · decide
      · intro entry inside
        rcases List.mem_append.mp inside with written | last
        · obtain ⟨k, part, found, rfl⟩ := mem_entriesFrom.mp written
          exact names part (List.mem_of_getElem? found)
        · rw [List.mem_singleton.mp last]
          exact marked
    · intro entry inside
      rcases List.mem_append.mp inside with written | last
      · obtain ⟨k, part, -, rfl⟩ := mem_entriesFrom.mp written
        exact fun freed => by cases freed
      · rw [List.mem_singleton.mp last]
        exact kept

/-- Once the arrays were given back, the table still points to one. -/
theorem not_nothingLeft_destroyed {before rest : Table} {entry : Entry} {errors : List Int}
    (live : entry.dataServ = .live errors) :
    ¬NothingLeft ((before ++ entry :: rest).map xpnDestroyServers) := by
  rintro ⟨-, unfreed⟩
  have inside : entry ∈ before ++ entry :: rest := List.mem_append_right _ List.mem_cons_self
  refine unfreed (xpnDestroyServers entry) (List.mem_map.mpr ⟨entry, inside, rfl⟩) ?_
  rw [xpnDestroyServers, live]
  rfl

end

theorem clean_of_returned {around : Around} {conf : Option (List Byte)} {table : Table}
    (returns : xpnInitPartition around conf staticTable = .ok (-1, table)) :
    Clean around conf ↔ NothingLeft table := by
  constructor
  · rintro ⟨res, left, returned, fails, -⟩
    obtain ⟨rfl, rfl⟩ := Prod.mk.inj (Except.ok.inj (returns.symm.trans returned))
    exact fails rfl
  · intro nothing
    exact ⟨-1, table, returns, fun _ => nothing, fun same => by cases same⟩

theorem not_clean_of_stop {around : Around} {conf : Option (List Byte)} {stop : Stop}
    (stops : xpnInitPartition around conf staticTable = .error stop) :
    ¬Clean around conf := by
  rintro ⟨res, table, returned, -⟩
  rw [stops] at returned
  cases returned

section
variable {around : Around} {conf : List Byte} {confData : List Partition}

/-- Two ways to a first refused partition are one. -/
theorem refused_unique {pre pre' post post' : List Partition} {bad bad' : Partition}
    (same : pre ++ bad :: post = pre' ++ bad' :: post')
    (admitted : AllAdmitted around pre) (refused : ¬Admitted around pre.length bad)
      (admitted' : AllAdmitted around pre')
    (refused' : ¬Admitted around pre'.length bad') : pre = pre' ∧ bad = bad' := by
  have atBad : (pre ++ bad :: post)[pre.length]? = some bad := getElem?_middle pre bad post
  have atBad' : (pre' ++ bad' :: post')[pre'.length]? = some bad' := getElem?_middle pre' bad' post'
  rcases Nat.lt_trichotomy pre.length pre'.length with less | same_ | more
  · rw [same, List.getElem?_append_left less] at atBad
    exact absurd (admitted' _ bad atBad) refused
  · obtain ⟨heads, tails⟩ := List.append_inj same same_
    exact ⟨heads, (List.cons.inj tails).1⟩
  · rw [← same, List.getElem?_append_left more] at atBad'
    exact absurd (admitted _ bad' atBad') refused'

theorem clean_iff_of_refused {pre post : List Partition} {bad : Partition}
    (loads : xpnConfReaderLoad conf = .ok confData)
    (parts : confData = pre ++ bad :: post) (room : pre.length < xpnMaxPart) (admitted : AllAdmitted around pre)
    (refused : ¬Admitted around pre.length bad) :
    Clean around (some conf) ↔ ∃ name, pre.length + 1 = xpnMaxPart ∧ bad.partitionName = some name ∧
      (bad.servers = [] ∨ around.allocates pre.length = false) ∧ slash ∈ cString name ∧ ∀ part ∈ pre,
        slash ∈ cString (part.partitionName.getD []) := by
  obtain ⟨entry, rest, cut, ends⟩ := init_refuses loads parts List.length_replicate room admitted refused
  obtain ⟨rfl, rfl⟩ := drop_static cut
  have last : xpnMaxPart - pre.length - 1 = 0 ↔ pre.length + 1 = xpnMaxPart := by omega
  cases named : bad.partitionName with
  | none =>
    rw [named] at ends
    refine iff_of_false (not_clean_of_stop ends) ?_
    rintro ⟨name, -, some, -⟩
    cases some
  | some name =>
    rw [named] at ends
    have returned : ∀ servers : DataServ, servers ≠ .freed → (bad.servers = [] ∨ around.allocates pre.length = false) →
        xpnInitPartition around (some conf) staticTable =
          .ok (-1, entriesFrom around 0 pre ++
            filled pre.length bad name servers :: List.replicate (xpnMaxPart - pre.length - 1) Entry.zero) →
        (Clean around (some conf) ↔ ∃ other, pre.length + 1 = xpnMaxPart ∧ some name = some other ∧
          (bad.servers = [] ∨ around.allocates pre.length = false) ∧ slash ∈ cString other ∧
          ∀ part ∈ pre, slash ∈ cString (part.partitionName.getD [])) := by
      intro servers kept early ends
      rw [clean_of_returned ends, leftover_iff (Int.natCast_nonneg _) (cString_clean name) kept, last]
      constructor
      · rintro ⟨count, marked, names⟩
        exact ⟨name, count, rfl, early, marked, names⟩
      · rintro ⟨other, count, same, -, marked, names⟩
        obtain rfl := Option.some.inj same
        exact ⟨count, marked, names⟩
    dsimp only at ends
    by_cases none : bad.servers = []
    · rw [if_pos none] at ends
      exact returned .null (fun freed => by cases freed) (Or.inl none) ends
    rw [if_neg none] at ends
    by_cases fails : around.allocates pre.length = false
    · rw [if_pos fails] at ends
      exact returned .null (fun freed => by cases freed) (Or.inr fails) ends
    rw [if_neg fails] at ends
    refine iff_of_false (fun clean => ?_) ?_
    · by_cases null : nullUrl around pre.length bad.servers.length = true
      · rw [if_pos null] at ends
        exact not_clean_of_stop ends clean
      rw [if_neg null] at ends
      exact not_nothingLeft_destroyed rfl ((clean_of_returned ends).mp clean)
    · rintro ⟨_, -, -, early, -⟩
      exact early.elim none fails

end

theorem not_admitted_early {around : Around} {i : Nat} {part : Partition}
    (early : part.servers = [] ∨ around.allocates i = false) :
    ¬Admitted around i part := by
  rintro ⟨-, served, allocated, -, -⟩
  rcases early with none | fails
  · exact served none
  · rw [allocated] at fails
    cases fails

/-- A first call is clean exactly if every partition is admitted and one more entry has room, or
if it is refused at the last entry of a table that no path can name. -/
theorem clean_iff (around : Around) (conf : Option (List Byte)) :
    Clean around conf ↔ ∃ confData, conf.map xpnConfReaderLoad = some (.ok confData) ∧ Fits around confData := by
  have rejected : xpnInitPartition around conf staticTable = .ok (-1, staticTable) → ¬Clean around conf := by
    intro returns clean
    exact not_nothingLeft_static ((clean_of_returned returns).mp clean)
  cases conf with
  | none =>
    refine iff_of_false (rejected rfl) ?_
    rintro ⟨confData, none, -⟩
    cases none
  | some conf =>
    rw [Option.map_some]
    cases loads : xpnConfReaderLoad conf with
    | error failure =>
      refine iff_of_false ?_ ?_
      · cases failure with
        | rejected =>
          apply rejected
          rw [xpnInitPartition, Option.map_some, loads]
        | overrun =>
          have stops : xpnInitPartition around (some conf) staticTable = .error .undefined := by
            rw [xpnInitPartition, Option.map_some, loads]
          exact not_clean_of_stop stops
      · rintro ⟨confData, same, -⟩
        cases same
    | ok confData =>
      have named : (∃ other, some (Except.ok confData : Except Failure (List Partition)) = some (.ok other) ∧
        Fits around other) ↔
          Fits around confData := by
        constructor
        · rintro ⟨other, same, fits⟩
          exact Except.ok.inj (Option.some.inj same) ▸ fits
        · exact fun fits => ⟨confData, rfl, fits⟩
      rw [named]
      by_cases given : confData = []
      · subst given
        refine iff_of_false (rejected ?_) fun fits => fits.1 rfl
        rw [xpnInitPartition, Option.map_some, loads]
        rfl
      rcases init_outcome around loads given List.length_replicate with ⟨room, admitted, last, rest, ends, closes⟩ | ⟨many, admitted, ends⟩ |
        ⟨pre, bad, post, parts, room, admitted, refused⟩
      · refine iff_of_true ⟨0, _, ends, fun same => (by cases same), fun _ => ?_⟩ ⟨given, Or.inl ⟨room, admitted⟩⟩
        exact ⟨confData, by rw [Option.map_some, loads], last, rest, rfl, closes⟩
      · refine iff_of_false (not_clean_of_stop ends) ?_
        rintro ⟨-, ⟨room, -⟩ | ⟨pre, bad, post, name, parts, count, -, -, early, -⟩⟩
        · omega
        · have inside : (confData.take xpnMaxPart)[pre.length]? = some bad := by
            rw [List.getElem?_take_of_lt (by omega), parts]
            exact getElem?_middle pre bad post
          exact not_admitted_early early (admitted _ bad inside)
      · rw [clean_iff_of_refused loads parts room admitted refused]
        constructor
        · rintro ⟨name, count, some, early, marked, names⟩
          exact ⟨given, Or.inr ⟨pre, bad, post, name, parts, count, admitted, some, early, marked, names⟩⟩
        · rintro ⟨-, ⟨-, all⟩ | ⟨first, other, others, name, again, count, admitted', some, early, marked, names⟩⟩
          · have inside : confData[pre.length]? = some bad := by
              rw [parts]
              exact getElem?_middle pre bad post
            exact absurd (all _ bad inside) refused
          · obtain ⟨rfl, rfl⟩ := refused_unique (parts.symm.trans again) admitted refused admitted'
              (not_admitted_early early)
            exact ⟨name, count, some, early, marked, names⟩

def silent : Around := ⟨fun _ => true, fun _ _ => (-1, true)⟩

/-- The one server of partition `P` does not answer: the call fails, `/P` still leads to a
partition, and the table points to the array that was freed. -/
theorem failed_call_leaves : ∃ table,
    xpnInitPartition silent (some (oneSection tagBlocksize [56])) staticTable = .ok (-1, table) ∧
    xpnGetPartition table [] (slash :: [80] ++ 0 :: []) = 0 ∧ ∃ entry ∈ table, entry.dataServ = .freed ∧
      entry.dataNserv = 1 := by
  have loads : xpnConfReaderLoad (oneSection tagBlocksize [56]) = .ok [⟨some [80], 8, 0, [serverUrl]⟩] := rfl
  have many : ¬Admitted silent ([] : List Partition).length ⟨some [80], 8, 0, [serverUrl]⟩ :=
    fun admitted => admitted.few (by decide)
  obtain ⟨entry, rest, -, ends⟩ := init_refuses loads (List.nil_append _).symm List.length_replicate
    (by decide) (fun _ _ inside => by cases inside) many
  refine ⟨_, ends, ?_, _, List.mem_cons_self, rfl, rfl⟩
  rw [getPartition_eq (by decide)]
  rfl

end Xpn.Proofs.InitLeftovers
