import Xpn.InitPartition
import Xpn.Proofs.ConfNumbers
import Xpn.Proofs.ConfReader
import Xpn.Proofs.PathResolution

/-! What a call of the initialisation makes of a configuration. Each partition is written whole
or the call ends with it, so a table is the entries of the partitions so far in front of what
it held before. -/

namespace Xpn.Proofs.InitPartition
open Xpn.ConfReader Xpn.PathResolution Xpn.InitPartition ConfNumbers Proofs.ConfReader

def filled (i : Nat) (part : Partition) (name : List Byte) (servers : DataServ) : Entry where
  id := i
  replicationLevel := replicationLevel (some (decimal part.replicationLevel))
  name := cString name
  blockSize := blockSize (some (decimal part.bsize))
  dataNserv := part.servers.length
  dataServ := servers

def configured (around : Around) (i : Nat) (part : Partition) (name : List Byte) : Entry :=
  filled i part name (.live (serverErrors around i part.servers.length))

/-- More servers of the partition fail than its level permits. -/
def TooManyErrors (around : Around) (i : Nat) (part : Partition) : Prop :=
  replicationLevel (some (decimal part.replicationLevel)) < (serverErrors around i part.servers.length).countP (· ≠ 0)

instance (around : Around) (i : Nat) (part : Partition) : Decidable (TooManyErrors around i part) :=
    inferInstanceAs (Decidable (_ < _))

theorem put_at {table : Table} {i : Nat} {entry : Entry} (here : table[i]? = some entry) (f : Entry → Entry) :
    put table i f = .ok (table.set i (f entry)) := by
  rw [put, here]

theorem put_set {table : Table} {i : Nat} (inside : i < table.length) (entry : Entry) (f : Entry → Entry) :
    put (table.set i entry) i f = .ok (table.set i (f entry)) := by
  rw [put_at (List.getElem?_set_self inside), List.set_set]

theorem put_behind {table : Table} {i : Nat} (behind : table.length ≤ i) (f : Entry → Entry) :
    put table i f = .error .overrun := by
  rw [put, List.getElem?_eq_none behind]

theorem getElem?_middle {α : Type} (before : List α) (entry : α) (rest : List α) :
    (before ++ entry :: rest)[before.length]? = some entry := by
  rw [List.getElem?_append_right le_rfl, Nat.sub_self]
  rfl

theorem set_middle (before : Table) (entry next : Entry) (rest : Table) :
    (before ++ entry :: rest).set before.length next = before ++ next :: rest := by
  rw [List.set_append_right _ _ le_rfl, Nat.sub_self, List.set_cons_zero]

section
variable {around : Around} {confData : List Partition} {i : Nat} {part : Partition} {table : Table}

theorem configure_behind (behind : table.length ≤ i) : configure around confData i table = .error .overrun := by
  rw [configure, put_behind behind]
  rfl

theorem configure_eq (found : confData[i]? = some part) {entry : Entry} (here : table[i]? = some entry)
    (room : i < xpnMaxPart) :
    configure around confData i table = match part.partitionName with
      | none => .error .undefined
      | some name =>
        if part.servers = [] then .ok (false, table.set i (filled i part name entry.dataServ))
        else if around.allocates i = false then .ok (false, table.set i (filled i part name .null))
        else if nullUrl around i part.servers.length = true then .error .undefined
        else if TooManyErrors around i part then
          .ok (false, (table.set i (configured around i part name)).map xpnDestroyServers)
        else .ok (true, table.set i (configured around i part name)) := by
  have inside : i < table.length := (List.getElem?_eq_some_iff.mp here).1
  have named : xpnConfReaderGetValue confData i tagPartitionName = part.partitionName := by
    rw [xpnConfReaderGetValue, found]
    rfl
  have sized : xpnConfReaderGetValue confData i tagBlocksize = some (decimal part.bsize) := by
    rw [xpnConfReaderGetValue, found]
    rfl
  have levelled : xpnConfReaderGetValue confData i tagReplicationLevel = some (decimal part.replicationLevel) := by
    rw [xpnConfReaderGetValue, found]
    rfl
  have served : xpnConfReaderGetNumServers confData i = part.servers.length := by rw [xpnConfReaderGetNumServers, found]
  rw [configure, put_at here, named, sized, levelled, served]
  cases part.partitionName with
  | none => rfl
  | some name =>
    change (put (table.set i { entry with id := i }) i _ >>= _) = _
    rw [put_set inside]
    change (if ((part.servers.length : Nat) : Int) ≤ 0 then
        Except.ok (false, table.set i (filled i part name entry.dataServ))
      else if around.allocates i = false then put (table.set i (filled i part name entry.dataServ)) i _ >>= _
      else put (table.set i (filled i part name entry.dataServ)) i _ >>= _) = _
    rw [put_set inside, put_set inside]
    by_cases none : part.servers = []
    · rw [if_pos (by simp [none])]
      exact (if_pos none).symm
    rw [if_neg (by simpa using none)]
    refine Eq.trans ?_ (if_neg none).symm
    by_cases fails : around.allocates i = false
    · rw [if_pos fails]
      exact (if_pos fails).symm
    rw [if_neg fails]
    refine Eq.trans ?_ (if_neg fails).symm
    change (if nullUrl around i part.servers.length = true then Except.error Stop.undefined else _) = _
    by_cases null : nullUrl around i part.servers.length = true
    · rw [if_pos null]
      exact (if_pos null).symm
    rw [if_neg null]
    refine Eq.trans ?_ (if_neg null).symm
    change (if TooManyErrors around i part then
        Except.ok (false, (table.set i (configured around i part name)).map xpnDestroyServers)
      else if i = xpnMaxPart then _ else _) = _
    rw [if_neg (Nat.ne_of_lt room)]
    rfl

end

/-- What the loop asks of a partition before it goes on. -/
structure Admitted (around : Around) (i : Nat) (part : Partition) : Prop where
  named : part.partitionName ≠ none
  served : part.servers ≠ []
  allocated : around.allocates i = true
  urls : nullUrl around i part.servers.length = false
  few : ¬ TooManyErrors around i part

def entryAt (around : Around) (i : Nat) (part : Partition) : Entry :=
    configured around i part (part.partitionName.getD [])

def entriesFrom (around : Around) : Nat → List Partition → List Entry
  | _, [] => []
  | i, part :: parts => entryAt around i part :: entriesFrom around (i + 1) parts

section
variable {around : Around} {confData : List Partition}

@[simp] theorem length_entriesFrom : ∀ (i : Nat) (parts : List Partition),
  (entriesFrom around i parts).length = parts.length
  | _, [] => rfl
  | i, _ :: parts => congrArg Nat.succ (length_entriesFrom (i + 1) parts)

theorem configure_admitted {i : Nat} {part : Partition} (admitted : Admitted around i part)
    (found : confData[i]? = some part) (before : Table)
    (entry : Entry) (rest : Table) (place : before.length = i) (room : i < xpnMaxPart) :
    configure around confData i (before ++ entry :: rest) = .ok (true, before ++ entryAt around i part :: rest) := by
  have here : (before ++ entry :: rest)[i]? = some entry := place ▸ getElem?_middle before entry rest
  obtain ⟨name, named⟩ := Option.ne_none_iff_exists'.mp admitted.named
  have set : (before ++ entry :: rest).set i (configured around i part name) =
    before ++ configured around i part name :: rest :=
    place ▸ set_middle before entry _ rest
  rw [configure_eq found here room, named]
  change (if part.servers = [] then _ else _) = _
  rw [if_neg admitted.served, if_neg (by simp [admitted.allocated]), if_neg (by simp [admitted.urls]), if_neg admitted.few, set, entryAt, named]
  rfl

theorem configureAll_admitted : ∀ (parts others : List Partition) (before room rest : Table) (n : Nat),
    before.length + room.length ≤ xpnMaxPart →
    room.length = parts.length → confData.drop before.length = parts ++ others →
    (∀ (k : Nat) (part : Partition), parts[k]? = some part → Admitted around (before.length + k) part) →
    configureAll around confData (parts.length + n) before.length (before ++ (room ++ rest)) =
      configureAll around confData n (before.length + parts.length)
        (before ++ (entriesFrom around before.length parts ++ rest))
  | [], others, before, room, rest, n, _, size, _, _ => by
    obtain rfl := List.eq_nil_of_length_eq_zero size
    rw [List.length_nil, Nat.zero_add, Nat.add_zero]
    rfl
  | part :: parts, others, before, [], rest, n, _, size, _, _ => by cases size
  | part :: parts, others, before, entry :: room, rest, n, enough, size, left, admitted => by
    have found : confData[before.length]? = some part := by
      rw [← Nat.add_zero before.length, ← List.getElem?_drop, left]
      rfl
    have after : confData.drop (before ++ [entryAt around before.length part]).length = parts ++ others := by
      rw [List.length_append, ← List.drop_drop, left]
      rfl
    have more := configureAll_admitted parts others (before ++ [entryAt around before.length part]) room rest n
      (by simpa [Nat.add_assoc, Nat.add_comm 1] using enough) (Nat.succ.inj size) after fun k other inside => by
        have this := admitted (k + 1) other inside
        rw [List.length_append, List.length_singleton, Nat.add_assoc, Nat.add_comm 1]
        exact this
    have here : Admitted around before.length part := admitted 0 part rfl
    have first := configure_admitted here found before entry (room ++ rest) rfl
      (by rw [List.length_cons] at enough; omega)
    have count : (part :: parts).length + n = parts.length + n + 1 := by rw [List.length_cons]; omega
    rw [count, configureAll, List.cons_append]
    rw [first]
    simp only [List.length_append, List.length_singleton, List.append_assoc, List.singleton_append] at more
    refine Eq.trans more ?_
    rw [List.length_cons, Nat.add_assoc before.length 1, Nat.add_comm 1]
    rfl

theorem terminate_at (before : Table) (rest : Table) : ∀ (j : Nat) (entry : Entry),
    terminate before.length (j + 1) (before ++ entry :: rest) = .ok (before ++ { entry with id := -1 } :: rest)
  | j, entry => by
    rw [terminate, put_at (getElem?_middle before entry rest), set_middle]
    cases j with
    | zero => rfl
    | succ j => exact terminate_at before rest j { entry with id := -1 }

theorem terminate_behind {table : Table} {i : Nat} (behind : table.length ≤ i) (j : Nat) :
    terminate i (j + 1) table = .error .overrun := by
  rw [terminate, put_behind behind]
  rfl

def AllAdmitted (around : Around) (parts : List Partition) : Prop :=
  ∀ (k : Nat) (part : Partition), parts[k]? = some part → Admitted around k part

variable {conf : List Byte} {table : Table}

theorem init_eq (loads : xpnConfReaderLoad conf = .ok confData) (given : confData ≠ []) :
    xpnInitPartition around (some conf) table = configureAll around confData confData.length 0 table >>= fun reached =>
      if reached.1 = true then terminate confData.length confData.length reached.2 >>= fun table => .ok (0, table)
      else .ok (-1, reached.2) := by
  have number : ¬xpnConfReaderGetNumPartitions confData ≤ 0 := by
    rw [xpnConfReaderGetNumPartitions]
    have := List.length_pos_of_ne_nil given
    omega
  rw [xpnInitPartition, Option.map_some, loads]
  exact if_neg number

theorem configureAll_from {pre post : List Partition} (parts : confData = pre ++ post)
    (size : table.length = xpnMaxPart)
    (room : pre.length ≤ xpnMaxPart) (admitted : AllAdmitted around pre) :
    configureAll around confData confData.length 0 table =
      configureAll around confData post.length pre.length (entriesFrom around 0 pre ++ table.drop pre.length) := by
  have taken : (table.take pre.length).length = pre.length := by rw [List.length_take, size, min_eq_left room]
  have starts : ∀ (k : Nat) (part : Partition), pre[k]? = some part →
    Admitted around (([] : Table).length + k) part := by
    intro k part inside
    rw [List.length_nil, Nat.zero_add]
    exact admitted k part inside
  have whole : configureAll around confData _ _ _ = _ := configureAll_admitted pre post []
    (table.take pre.length) (table.drop pre.length) post.length
    (by rw [List.length_nil, Nat.zero_add, taken]; exact room) taken (by rw [List.length_nil, List.drop_zero, parts]) starts
  simp only [List.length_nil, List.nil_append, Nat.zero_add, List.take_append_drop] at whole
  rw [← whole, parts, List.length_append]

theorem init_succeeds (loads : xpnConfReaderLoad conf = .ok confData) (given : confData ≠ [])
    (size : table.length = xpnMaxPart)
    (room : confData.length < xpnMaxPart) (admitted : AllAdmitted around confData) :
    ∃ last rest, xpnInitPartition around (some conf) table =
      .ok (0, entriesFrom around 0 confData ++ last :: rest) ∧ last.id = -1 := by
  have run : configureAll around confData _ _ _ = _ := configureAll_from
    (List.append_nil confData).symm size room.le admitted
  have left : table.drop confData.length ≠ [] := by
    intro empty
    have := List.drop_eq_nil_iff.mp empty
    omega
  obtain ⟨entry, rest, cut⟩ := List.exists_cons_of_ne_nil left
  obtain ⟨j, count⟩ := Nat.exists_eq_succ_of_ne_zero (List.length_pos_of_ne_nil given).ne'
  have ends := terminate_at (entriesFrom around 0 confData) rest j entry
  rw [length_entriesFrom, ← Nat.succ_eq_add_one, ← count] at ends
  refine ⟨{ entry with id := -1 }, rest, ?_, rfl⟩
  rw [init_eq loads given, run, cut]
  change (terminate confData.length confData.length _ >>= _) = _
  rw [ends]
  rfl

/-- More partitions than the table holds. -/
theorem init_overruns {pre post : List Partition} (loads : xpnConfReaderLoad conf = .ok confData)
    (parts : confData = pre ++ post)
    (size : table.length = xpnMaxPart) (room : pre.length = xpnMaxPart) (admitted : AllAdmitted around pre) :
    xpnInitPartition around (some conf) table = .error .overrun := by
  have given : confData ≠ [] := by
    rintro rfl
    have := congrArg List.length parts
    rw [List.length_append, room, List.length_nil] at this
    exact absurd this (by unfold xpnMaxPart; omega)
  have run : configureAll around confData _ _ _ = _ := configureAll_from parts size room.le admitted
  have filledUp : (entriesFrom around 0 pre ++ table.drop pre.length).length = xpnMaxPart := by
    rw [List.length_append, length_entriesFrom, List.length_drop, size, room, Nat.sub_self, Nat.add_zero]
  rw [init_eq loads given, run]
  cases post with
  | nil =>
    obtain ⟨j, count⟩ := Nat.exists_eq_succ_of_ne_zero (List.length_pos_of_ne_nil given).ne'
    have same : confData.length = xpnMaxPart := by rw [parts, List.append_nil, room]
    change (terminate confData.length confData.length _ >>= _) = _
    rw [count, terminate_behind (by rw [filledUp, ← same, count])]
    rfl
  | cons part post =>
    rw [List.length_cons, configureAll, configure_behind (by rw [filledUp, room])]
    rfl

/-- A partition that is refused while there is room. -/
theorem init_refuses {pre post : List Partition} {bad : Partition} (loads : xpnConfReaderLoad conf = .ok confData)
    (parts : confData = pre ++ bad :: post) (size : table.length = xpnMaxPart) (room : pre.length < xpnMaxPart)
      (admitted : AllAdmitted around pre)
    (refused : ¬Admitted around pre.length bad) :
    ∃ entry rest, table.drop pre.length = entry :: rest ∧ xpnInitPartition around (some conf) table =
      match bad.partitionName with
      | none => .error .undefined
      | some name =>
        if bad.servers = [] then .ok (-1, entriesFrom around 0 pre ++ filled pre.length bad name entry.dataServ :: rest)
        else if around.allocates pre.length = false then
          .ok (-1, entriesFrom around 0 pre ++ filled pre.length bad name .null :: rest)
        else if nullUrl around pre.length bad.servers.length = true then .error .undefined
        else
          .ok (-1, (entriesFrom around 0 pre ++ configured around pre.length bad name :: rest).map xpnDestroyServers) := by
  have given : confData ≠ [] := by
    rw [parts]
    exact List.append_ne_nil_of_right_ne_nil pre (List.cons_ne_nil bad post)
  have left : table.drop pre.length ≠ [] := by
    intro empty
    have := List.drop_eq_nil_iff.mp empty
    omega
  obtain ⟨entry, rest, cut⟩ := List.exists_cons_of_ne_nil left
  have run : configureAll around confData _ _ _ = _ := configureAll_from parts size room.le admitted
  have place : (entriesFrom around 0 pre).length = pre.length := length_entriesFrom 0 pre
  have here : (entriesFrom around 0 pre ++ entry :: rest)[pre.length]? = some entry :=
    place ▸ getElem?_middle _ entry rest
  have found : confData[pre.length]? = some bad := parts ▸ getElem?_middle pre bad post
  have set : ∀ next : Entry, (entriesFrom around 0 pre ++ entry :: rest).set pre.length next =
    entriesFrom around 0 pre ++ next :: rest := by
    intro next
    exact place ▸ set_middle _ entry next rest
  refine ⟨entry, rest, cut, ?_⟩
  rw [init_eq loads given, run, cut, List.length_cons, configureAll, configure_eq found here room]
  simp only [set]
  cases named : bad.partitionName with
  | none => rfl
  | some name =>
    dsimp only
    by_cases none : bad.servers = []
    · rw [if_pos none, if_pos none]
      rfl
    rw [if_neg none, if_neg none]
    by_cases fails : around.allocates pre.length = false
    · rw [if_pos fails, if_pos fails]
      rfl
    rw [if_neg fails, if_neg fails]
    by_cases null : nullUrl around pre.length bad.servers.length = true
    · rw [if_pos null, if_pos null]
      rfl
    rw [if_neg null, if_neg null, if_pos]
    · rfl
    · by_contra few
      exact refused ⟨by rw [named]; exact Option.some_ne_none name, none, by simpa using fails, by simpa using null, few⟩

/-- The first partition that is refused, if any. -/
theorem firstRefused (around : Around) : ∀ (parts : List Partition) (i : Nat),
    (∀ (k : Nat) (part : Partition), parts[k]? = some part → Admitted around (i + k) part) ∨
    ∃ pre bad post, parts = pre ++ bad :: post ∧
      (∀ (k : Nat) (part : Partition), pre[k]? = some part → Admitted around (i + k) part) ∧
      ¬Admitted around (i + pre.length) bad
  | [], _ => Or.inl fun _ _ inside => by cases inside
  | part :: parts, i => by
    by_cases first : Admitted around i part
    · have shift : ∀ list : List Partition,
          (∀ (k : Nat) (other : Partition), list[k]? = some other → Admitted around (i + 1 + k) other) →
          ∀ (k : Nat) (other : Partition), (part :: list)[k]? = some other → Admitted around (i + k) other := by
        intro list admitted k other inside
        cases k with
        | zero => exact Option.some.inj inside ▸ first
        | succ k =>
          rw [Nat.add_comm k 1, ← Nat.add_assoc]
          exact admitted k other inside
      rcases firstRefused around parts (i + 1) with all | ⟨pre, bad, post, rfl, admitted, refused⟩
      · exact Or.inl (shift parts all)
      · refine Or.inr ⟨part :: pre, bad, post, rfl, shift pre admitted, ?_⟩
        rw [List.length_cons, Nat.add_comm pre.length 1, ← Nat.add_assoc]
        exact refused
    · exact Or.inr ⟨[], part, parts, rfl, fun k other inside => (by cases inside), first⟩

/-- A call ends in one of three ways. -/
theorem init_outcome (around : Around) (loads : xpnConfReaderLoad conf = .ok confData) (given : confData ≠ [])
    (size : table.length = xpnMaxPart) :
    (confData.length < xpnMaxPart ∧ AllAdmitted around confData ∧
      ∃ last rest, xpnInitPartition around (some conf) table =
        .ok (0, entriesFrom around 0 confData ++ last :: rest) ∧ last.id = -1) ∨
    (xpnMaxPart ≤ confData.length ∧ AllAdmitted around (confData.take xpnMaxPart) ∧
      xpnInitPartition around (some conf) table = .error .overrun) ∨
    ∃ pre bad post, confData = pre ++ bad :: post ∧ pre.length < xpnMaxPart ∧ AllAdmitted around pre ∧
      ¬Admitted around pre.length bad := by
  rcases firstRefused around (confData.take xpnMaxPart) 0 with all | ⟨pre, bad, post, parts, admitted, refused⟩
  · have admitted : AllAdmitted around (confData.take xpnMaxPart) := by
      intro k part inside
      have this := all k part inside
      rwa [Nat.zero_add] at this
    by_cases room : confData.length < xpnMaxPart
    · rw [List.take_of_length_le room.le] at admitted
      exact Or.inl ⟨room, admitted, init_succeeds loads given size room admitted⟩
    · refine Or.inr (Or.inl ⟨Nat.le_of_not_lt room, admitted, ?_⟩)
      refine init_overruns loads (List.take_append_drop xpnMaxPart confData).symm size ?_ admitted
      rw [List.length_take, min_eq_left (Nat.le_of_not_lt room)]
  · refine Or.inr (Or.inr ⟨pre, bad, post ++ confData.drop xpnMaxPart, ?_, ?_, ?_, ?_⟩)
    · rw [← List.cons_append, ← List.append_assoc, ← parts, List.take_append_drop]
    · have fewer : (confData.take xpnMaxPart).length ≤ xpnMaxPart := List.length_take_le _ _
      rw [parts, List.length_append, List.length_cons] at fewer
      omega
    · intro k part inside
      have this := admitted k part inside
      rwa [Nat.zero_add] at this
    · rwa [Nat.zero_add] at refused

/-- A refused partition is no success. -/
theorem not_zero_of_refused {pre post : List Partition} {bad : Partition}
    (loads : xpnConfReaderLoad conf = .ok confData)
    (parts : confData = pre ++ bad :: post) (size : table.length = xpnMaxPart) (room : pre.length < xpnMaxPart)
      (admitted : AllAdmitted around pre)
    (refused : ¬Admitted around pre.length bad) (left : Table) :
      xpnInitPartition around (some conf) table ≠ .ok (0, left) := by
  obtain ⟨entry, rest, -, ends⟩ := init_refuses loads parts size room admitted refused
  rw [ends]
  cases bad.partitionName with
  | none => exact fun same => by cases same
  | some name =>
    dsimp only
    split
    · exact fun same => by cases same
    split
    · exact fun same => by cases same
    split
    · exact fun same => by cases same
    · exact fun same => by cases same

end

/-- The block size divides, and the copies of a block have servers of their own. -/
structure Usable (entry : Entry) : Prop where
  block : 1 ≤ entry.blockSize
  served : 1 ≤ entry.dataNserv
  level : 0 ≤ entry.replicationLevel
  apart : entry.replicationLevel < entry.dataNserv

def listed (table : Table) : List Entry := table.takeWhile fun entry => entry.id ≠ -1

theorem listed_entriesFrom (around : Around) {last : Entry} (ends : last.id = -1) (rest : Table) :
    ∀ (i : Nat) (parts : List Partition),
    listed (entriesFrom around i parts ++ last :: rest) = entriesFrom around i parts
  | _, [] => List.takeWhile_cons_of_neg (by simp [ends])
  | i, part :: parts => by
    have tail := listed_entriesFrom around ends rest (i + 1) parts
    have kept : (decide ((entryAt around i part).id ≠ -1)) = true := by
      rw [decide_eq_true_iff]
      change (i : Int) ≠ -1
      omega
    rw [entriesFrom, List.cons_append]
    exact (List.takeWhile_cons_of_pos (p := fun entry : Entry => decide (entry.id ≠ -1)) kept).trans (congrArg _ tail)

theorem entryAt_usable_iff {around : Around} {i : Nat} {part : Partition} (fields : IntFields part)
    (served : part.servers ≠ []) :
    Usable (entryAt around i part) ↔ 1 ≤ part.bsize ∧ part.replicationLevel < part.servers.length := by
  have size : (entryAt around i part).blockSize = if part.bsize = 1 then 512 * kb else part.bsize := by
    change blockSize (some (decimal part.bsize)) = _
    rw [blockSize, getSizeFactor_decimal fields.1.1 fields.1.2]
  have level : (entryAt around i part).replicationLevel =
    if part.replicationLevel < 0 then 0 else part.replicationLevel := by
    change replicationLevel (some (decimal part.replicationLevel)) = _
    rw [replicationLevel, atoi_decimal fields.2.1 fields.2.2]
  have number : (entryAt around i part).dataNserv = part.servers.length := rfl
  have some := List.length_pos_of_ne_nil served
  have big : 1 ≤ 512 * kb := by decide
  constructor
  · rintro ⟨block, -, -, apart⟩
    rw [size] at block
    rw [level, number] at apart
    constructor
    · split at block <;> omega
    · split at apart <;> omega
  · rintro ⟨block, apart⟩
    refine ⟨?_, ?_, ?_, ?_⟩
    · rw [size]
      split
      · exact big
      · exact block
    · rw [number]
      omega
    · rw [level]
      split <;> omega
    · rw [level, number]
      split <;> omega

theorem mem_entriesFrom {around : Around} {entry : Entry} : ∀ {i : Nat} {parts : List Partition},
    entry ∈ entriesFrom around i parts ↔ ∃ k part, parts[k]? = some part ∧ entry = entryAt around (i + k) part
  | i, [] => by simp [entriesFrom]
  | i, part :: parts => by
    rw [entriesFrom, List.mem_cons, mem_entriesFrom]
    constructor
    · rintro (rfl | ⟨k, other, inside, rfl⟩)
      · exact ⟨0, part, rfl, rfl⟩
      · exact ⟨k + 1, other, inside, by rw [Nat.add_assoc, Nat.add_comm 1]⟩
    · rintro ⟨k, other, inside, rfl⟩
      cases k with
      | zero => exact Or.inl (by rw [← Option.some.inj inside]; rfl)
      | succ k => exact Or.inr ⟨k, other, inside, by rw [Nat.add_assoc, Nat.add_comm 1]⟩

/-- A table that the call fills has usable partitions exactly if no block size is below 1 and no
replication level reaches the number of servers. -/
theorem usable_iff {around : Around} {conf : List Byte} {table filledTable : Table} {confData : List Partition}
    (size : table.length = xpnMaxPart)
    (loads : xpnConfReaderLoad conf = .ok confData) (returns : xpnInitPartition around (some conf) table =
      .ok (0, filledTable)) :
    (∀ entry ∈ listed filledTable, Usable entry) ↔ ∀ part ∈ confData, 1 ≤ part.bsize ∧
      part.replicationLevel < part.servers.length := by
  have fields := xpnConfReaderLoad_all new_intFields setValue_intFields loads
  have given : confData ≠ [] := by
    rintro rfl
    rw [xpnInitPartition, Option.map_some, loads] at returns
    cases returns
  rcases init_outcome around loads given size with ⟨-, admitted, last, rest, ends, closes⟩ | ⟨-, -, ends⟩ | ⟨pre, bad, post, parts, room, admitted, refused⟩
  · obtain rfl : _ = filledTable := (Prod.mk.inj (Except.ok.inj (ends.symm.trans returns))).2
    rw [listed_entriesFrom around closes]
    have each : ∀ (k : Nat) (part : Partition), confData[k]? = some part →
        (Usable (entryAt around k part) ↔ 1 ≤ part.bsize ∧ part.replicationLevel < part.servers.length) := by
      intro k part inside
      exact entryAt_usable_iff (fields part (List.mem_of_getElem? inside)) (admitted k part inside).served
    constructor
    · intro usable part inside
      obtain ⟨k, found⟩ := List.mem_iff_getElem?.mp inside
      refine (each k part found).mp (usable _ (mem_entriesFrom.mpr ⟨k, part, found, ?_⟩))
      rw [Nat.zero_add]
    · intro fine entry inside
      obtain ⟨k, part, found, rfl⟩ := mem_entriesFrom.mp inside
      rw [Nat.zero_add]
      exact (each k part found).mpr (fine part (List.mem_of_getElem? found))
  · rw [ends] at returns
    cases returns
  · exact absurd returns (not_zero_of_refused loads parts size room admitted refused _)

def calm : Around := ⟨fun _ => true, fun _ _ => (1, true)⟩

def serverUrl : List Byte := text ['s', 'c', 'k', '_', 's', 'e', 'r', 'v', 'e', 'r', ':', '/', '/', 'h', '/', 'd']

/-- One section: partition `P` with a server and one more entry. -/
def oneSection (key value : List Byte) : List Byte :=
  91 :: (tagPartition ++ 93 :: 10 :: (tagPartitionName ++ 61 :: 80 :: 10 ::
    (tagServerUrl ++ 61 :: (serverUrl ++ 10 :: (key ++ 61 :: (value ++ [10]))))))

theorem calm_succeeds {key value : List Byte} {size level : Int}
    (loads : xpnConfReaderLoad (oneSection key value) = .ok [⟨some [80], size, level, [serverUrl]⟩])
    (zero : replicationLevel (some (decimal level)) = 0) :
    ∃ last rest, xpnInitPartition calm (some (oneSection key value)) staticTable =
      .ok (0, entriesFrom calm 0 [⟨some [80], size, level, [serverUrl]⟩] ++ last :: rest) ∧ last.id = -1 := by
  have room : 1 < xpnMaxPart := by decide
  refine init_succeeds loads (List.cons_ne_nil _ _) List.length_replicate room fun k part inside => ?_
  cases k with
  | zero =>
    obtain rfl := Option.some.inj inside
    refine ⟨Option.some_ne_none _, List.cons_ne_nil _ _, rfl, rfl, fun many => ?_⟩
    rw [TooManyErrors, zero] at many
    have none : ¬(0 : Int) < ((serverErrors calm 0 1).countP (· ≠ 0) : Nat) := by decide
    exact none many
  | succ k => cases inside

theorem usable_iff_once : ∃ filledTable, xpnInitPartition calm (some
    (oneSection tagBlocksize [56])) staticTable = .ok (0, filledTable) ∧
    ∀ entry ∈ listed filledTable, Usable entry := by
  have loads : xpnConfReaderLoad (oneSection tagBlocksize [56]) = .ok [⟨some [80], 8, 0, [serverUrl]⟩] := rfl
  obtain ⟨last, rest, returns, -⟩ := calm_succeeds loads rfl
  exact ⟨_, returns, (usable_iff List.length_replicate loads returns).mpr
    (List.forall_mem_singleton.mpr ⟨by decide, by decide⟩)⟩

/-- A block size of 0 is taken. -/
theorem block_size_zero_accepted : ¬∀ (around : Around) (conf : List Byte) (filledTable : Table),
    xpnInitPartition around (some conf) staticTable = .ok (0, filledTable) → ∀ entry ∈ listed filledTable,
      Usable entry := by
  intro always
  have loads : xpnConfReaderLoad (oneSection tagBlocksize [48]) = .ok [⟨some [80], 0, 0, [serverUrl]⟩] := rfl
  obtain ⟨last, rest, returns, ends⟩ := calm_succeeds loads rfl
  have usable := always calm (oneSection tagBlocksize [48]) _ returns
  rw [listed_entriesFrom calm ends] at usable
  exact absurd (usable _ List.mem_cons_self).block (by decide)

end Xpn.Proofs.InitPartition
