import Mathlib.Data.List.Perm.Basic
import Xpn.Proofs.ConfNumbers
import Xpn.Proofs.ConfReader

/-! Configurations written out: sections with their entries in some order, and any white space
between the tokens. Reading one gives back what it was written from. -/

namespace Xpn.Proofs.ConfRoundTrip
open Xpn.ConfReader Proofs.ConfReader ConfNumbers

/-- A value that is one token. -/
structure Value where
  text : List Byte
  nonempty : text ≠ []
  short : text.length < maxTokenLen
  solid : ∀ c ∈ text, isSpace c = false
  plain : ∀ c ∈ text, c ∉ ([0, 91, 93, 61, 35] : List Byte)

structure Given where
  name : Value
  bsize : Nat
  positive : 1 ≤ bsize
  bsizeFits : bsize < 2 ^ 31
  replicationLevel : Nat
  levelFits : replicationLevel < 2 ^ 31
  servers : List Value
  served : servers ≠ []

inductive Entry where
  | partitionName (value : Value)
  | bsize (size : Nat)
  | replicationLevel (level : Nat)
  | serverUrl (value : Value)

def Entry.key : Entry → List Byte
  | .partitionName _ => tagPartitionName
  | .bsize _ => tagBlocksize
  | .replicationLevel _ => tagReplicationLevel
  | .serverUrl _ => tagServerUrl

def Entry.value : Entry → List Byte
  | .partitionName value => value.text
  | .bsize size => decimalNat size
  | .replicationLevel level => decimalNat level
  | .serverUrl value => value.text

def Entry.server? : Entry → Option Value
  | .serverUrl value => some value
  | _ => none

/-- The entries of a section, in any order that keeps the servers in theirs. -/
structure Arranges (given : Given) (entries : List Entry) : Prop where
  all : entries.Perm (.partitionName given.name :: .bsize given.bsize :: .replicationLevel given.replicationLevel ::
    given.servers.map .serverUrl)
  ordered : entries.filterMap Entry.server? = given.servers

def White (gap : List Byte) : Prop := ∀ c ∈ gap, c ∈ ([32, 9, 13, 10] : List Byte)

inductive RendersHeader : List Byte → Prop
  | header {first second third : List Byte} : White first → White second → White third →
      RendersHeader (91 :: (first ++ (tagPartition ++ (second ++ 93 :: third))))

/-- Entries and the white space after each. At the end of the file the last value needs none. -/
inductive RendersEntries (atEnd : Bool) : List Entry → List Byte → Prop
  | none : RendersEntries atEnd [] []
  | entry {e : Entry} {entries : List Entry} {first second third text : List Byte} : White first →
    White second → White third →
      (third ≠ [] ∨ atEnd = true ∧ entries = []) → RendersEntries atEnd entries text →
      RendersEntries atEnd (e :: entries) (e.key ++ (first ++ 61 :: (second ++ (e.value ++ (third ++ text)))))

inductive Renders : List Given → List Byte → Prop
  | last {given : Given} {entries : List Entry} {header text : List Byte} : RendersHeader header →
    Arranges given entries →
      RendersEntries true entries text → Renders [given] (header ++ text)
  | more {given : Given} {others : List Given} {entries : List Entry} {header text rest : List Byte} :
    RendersHeader header →
      Arranges given entries → RendersEntries false entries text → Renders others rest →
        Renders (given :: others) (header ++ (text ++ rest))

def Entry.set (part : Partition) : Entry → Partition
  | .partitionName value => { part with partitionName := some value.text }
  | .bsize size => { part with bsize := size }
  | .replicationLevel level => { part with replicationLevel := level }
  | .serverUrl value => { part with servers := part.servers ++ [value.text] }

def Entry.Fits : Entry → Prop
  | .bsize size => size < 2 ^ 31
  | .replicationLevel level => level < 2 ^ 31
  | _ => True

theorem setValue_entry (part : Partition) {e : Entry} (fits : e.Fits) :
    setValue part e.key e.value = .ok (e.set part) := by
  cases e with
  | partitionName value => rfl
  | bsize size =>
    change Except.ok { part with bsize := getSizeFactor (decimalNat size) } = _
    rw [getSizeFactor_decimalNat fits]
    rfl
  | replicationLevel level =>
    change Except.ok { part with replicationLevel := atoi (decimalNat level) } = _
    rw [atoi_decimalNat fits]
    rfl
  | serverUrl value => rfl

theorem foldl_field {β γ : Type} (field : Partition → β) (pick : Entry → Option γ) (put : β → γ → β)
    (sets : ∀ part e, field (e.set part) = (pick e).elim (field part) (put (field part))) :
    ∀ (entries : List Entry) (part : Partition), field (entries.foldl Entry.set part) =
      (entries.filterMap pick).foldl put (field part)
  | [], _ => rfl
  | e :: entries, part => by
    rw [List.foldl_cons, foldl_field field pick put sets entries (e.set part), sets, List.filterMap_cons]
    cases pick e with
    | none => rfl
    | some value => rfl

def Given.partition (given : Given) : Partition :=
  ⟨some given.name.text, given.bsize, given.replicationLevel, given.servers.map Value.text⟩

def Entry.name? : Entry → Option Value
  | .partitionName value => some value
  | _ => none

def Entry.size? : Entry → Option Nat
  | .bsize size => some size
  | _ => none

def Entry.level? : Entry → Option Nat
  | .replicationLevel level => some level
  | _ => none

theorem filterMap_servers {γ : Type} (pick : Entry → Option γ)
    (other : ∀ value, pick (.serverUrl value) = none) (servers : List Value) :
    (servers.map Entry.serverUrl).filterMap pick = [] := by
  rw [List.filterMap_map, List.filterMap_eq_nil_iff]
  intro value _
  exact other value

theorem Arranges.partition {given : Given} {entries : List Entry} (arranges : Arranges given entries) :
    entries.foldl Entry.set Partition.new = given.partition := by
  have names : entries.filterMap Entry.name? = [given.name] := by
    apply List.perm_singleton.mp
    have all := arranges.all.filterMap Entry.name?
    simpa only [List.filterMap_cons, Entry.name?, filterMap_servers Entry.name? (fun _ => rfl)] using all
  have sizes : entries.filterMap Entry.size? = [given.bsize] := by
    apply List.perm_singleton.mp
    have all := arranges.all.filterMap Entry.size?
    simpa only [List.filterMap_cons, Entry.size?, filterMap_servers Entry.size? (fun _ => rfl)] using all
  have levels : entries.filterMap Entry.level? = [given.replicationLevel] := by
    apply List.perm_singleton.mp
    have all := arranges.all.filterMap Entry.level?
    simpa only [List.filterMap_cons, Entry.level?, filterMap_servers Entry.level? (fun _ => rfl)] using all
  have name := foldl_field Partition.partitionName Entry.name? (fun _ value => some value.text)
    (fun _ e => by cases e <;> rfl) entries Partition.new
  have size := foldl_field Partition.bsize Entry.size? (fun _ size => (size : Int))
    (fun _ e => by cases e <;> rfl) entries Partition.new
  have level := foldl_field Partition.replicationLevel Entry.level? (fun _ level => (level : Int))
    (fun _ e => by cases e <;> rfl) entries
    Partition.new
  have servers := foldl_field Partition.servers Entry.server? (fun servers value => servers ++ [value.text])
    (fun _ e => by cases e <;> rfl)
    entries Partition.new
  rw [names] at name
  rw [sizes] at size
  rw [levels] at level
  rw [arranges.ordered, List.foldl_append_eq_append] at servers
  generalize entries.foldl Entry.set Partition.new = part at name size level servers
  obtain ⟨foundName, foundSize, foundLevel, foundServers⟩ := part
  obtain rfl : foundName = some given.name.text := name
  obtain rfl : foundSize = given.bsize := size
  obtain rfl : foundLevel = given.replicationLevel := level
  obtain rfl : foundServers = given.servers.map Value.text := by
    rw [show foundServers = _ from servers, ← List.flatMap_def]
    exact List.map_eq_flatMap.symm
  rfl

theorem Arranges.fits {given : Given} {entries : List Entry} (arranges : Arranges given entries) :
    ∀ e ∈ entries, e.Fits := by
  intro e inside
  have listed := arranges.all.mem_iff.mp inside
  rw [List.mem_cons, List.mem_cons, List.mem_cons, List.mem_map] at listed
  rcases listed with rfl | rfl | rfl | ⟨server, -, rfl⟩
  · exact trivial
  · exact given.bsizeFits
  · exact given.levelFits
  · exact trivial

def Plain (c : Byte) : Prop := inSet delimiters c = false ∧ inSet lineEnds c = false

theorem plain_iff (c : Byte) : Plain c ↔ c ∉ ([0, 91, 93, 61, 35, 32, 9, 10, 13] : List Byte) := by
  simp only [Plain, inSet, delimiters, lineEnds, Bool.or_eq_false_iff, List.contains_cons, List.contains_nil,
    beq_eq_false_iff_ne, List.mem_cons,
    List.not_mem_nil]
  tauto

theorem Value.plainText (value : Value) : ∀ c ∈ value.text, Plain c := by
  intro c inside
  rw [plain_iff]
  intro listed
  have ordinary := value.plain c inside
  have solid := value.solid c inside
  simp only [List.mem_cons, List.not_mem_nil, or_false] at listed ordinary
  rcases listed with rfl | rfl | rfl | rfl | rfl | rfl | rfl | rfl | rfl
  all_goals first | exact ordinary (by decide) | exact absurd solid (by decide)

theorem decimalNat_plain (n : Nat) : ∀ c ∈ decimalNat n, Plain c := by
  intro c inside
  have range := (isDigit_iff c).mp (decimalNat_digits n c inside)
  rw [plain_iff]
  intro listed
  simp only [List.mem_cons, List.not_mem_nil, or_false] at listed
  rcases listed with rfl | rfl | rfl | rfl | rfl | rfl | rfl | rfl | rfl
  all_goals exact absurd range (by decide)

theorem scan_white {gap : List Byte} (white : White gap) (s : State) (rest : List Byte) :
    scan s .idle (gap ++ rest) = scan s .idle rest := by
  induction gap with
  | nil => rfl
  | cons c gap ih =>
    have blank : inSet blanks c = true := by
      have listed := white c List.mem_cons_self
      simp only [List.mem_cons, List.not_mem_nil, or_false] at listed
      rcases listed with rfl | rfl | rfl | rfl <;> rfl
    rw [List.cons_append, scan_blank blank]
    exact ih fun c inside => white c (List.mem_cons_of_mem _ inside)

def Ends (rest : List Byte) : Prop := ∃ c after, rest = c :: after ∧ ¬ Plain c

theorem scan_inWord : ∀ (more tok : List Byte) (s : State) (rest : List Byte), (∀ c ∈ more, Plain c) →
    scan s (.word tok) (more ++ rest) = scan s (.word (tok ++ more)) rest
  | [], tok, s, rest, _ => by rw [List.nil_append, List.append_nil]
  | c :: more, tok, s, rest, plain => by
    obtain ⟨inside, same⟩ := plain c List.mem_cons_self
    rw [List.cons_append, scan, feed, if_neg (by simp [inside]), if_neg (by simp [same])]
    have goes := scan_inWord more (tok ++ [c]) s rest fun c listed => plain c (List.mem_cons_of_mem _ listed)
    rw [List.append_assoc] at goes
    exact goes

theorem scan_startWord {word : List Byte} (some : word ≠ []) (plain : ∀ c ∈ word, Plain c) (s : State)
    (rest : List Byte) :
    scan s .idle (word ++ rest) = scan s (.word word) rest := by
  obtain ⟨c, more, rfl⟩ := List.exists_cons_of_ne_nil some
  have first := (plain_iff c).mp (plain c List.mem_cons_self)
  simp only [List.mem_cons, List.not_mem_nil, or_false, not_or] at first
  have solid : inSet blanks c = false := by
    simp only [inSet, blanks, Bool.or_eq_false_iff, List.contains_cons, List.contains_nil, beq_eq_false_iff_ne]
    tauto
  rw [List.cons_append, scan, feed, start, if_neg (by simp [solid]), if_neg (by tauto), if_neg (by tauto),
    if_neg (by tauto), if_neg (by tauto)]
  exact scan_inWord more [c] s rest fun c listed => plain c (List.mem_cons_of_mem _ listed)

theorem scan_endWord {rest : List Byte} (ends : Ends rest) (s : State) (tok : List Byte) :
    scan s (.word tok) rest = (bounded tok (step s (.word tok))).bind (scan · .idle rest) := by
  obtain ⟨c, after, rfl, breaks⟩ := ends
  rw [scan, feed]
  by_cases inside : inSet delimiters c = true
  · rw [if_pos inside]
    cases bounded tok (step s (.word tok)) with
    | error failure => rfl
    | ok s => rfl
  · have same : inSet lineEnds c = true := by
      by_contra other
      exact breaks ⟨Bool.eq_false_iff.mpr inside, Bool.eq_false_iff.mpr other⟩
    have blank : inSet blanks c = true := by
      simp only [inSet, lineEnds, blanks, Bool.or_eq_true, beq_iff_eq, List.contains_cons, List.contains_nil] at same ⊢
      tauto
    rw [if_neg inside, if_pos same]
    cases bounded tok (step s (.word tok)) with
    | error failure => rfl
    | ok s => exact (scan_blank blank s after).symm

theorem scan_word {word : List Byte} (some : word ≠ []) (short : word.length < maxTokenLen)
    (plain : ∀ c ∈ word, Plain c) (s : State)
    {rest : List Byte} (ends : Ends rest) : scan s .idle (word ++ rest) =
      (step s (.word word)).bind (scan · .idle rest) := by
  rw [scan_startWord some plain, scan_endWord ends, bounded, if_pos short]

theorem ends_white {gap rest : List Byte} (white : White gap) (ends : gap ≠ [] ∨ Ends rest) : Ends (gap ++ rest) := by
  cases gap with
  | nil => exact ends.resolve_left fun some => some rfl
  | cons c gap =>
    refine ⟨c, gap ++ rest, rfl, fun plain => ?_⟩
    have listed := white c List.mem_cons_self
    have outside := (plain_iff c).mp plain
    simp only [List.mem_cons, List.not_mem_nil, or_false] at listed outside
    tauto

theorem ends_mark (c : Byte) (mark : c ∈ ([91, 93, 61] : List Byte)) (rest : List Byte) : Ends (c :: rest) := by
  refine ⟨c, rest, rfl, fun plain => ?_⟩
  have outside := (plain_iff c).mp plain
  simp only [List.mem_cons, List.not_mem_nil, or_false] at mark outside
  tauto

theorem tag_words : ∀ tag ∈ [tagPartition, tagPartitionName, tagBlocksize, tagReplicationLevel, tagServerUrl],
    tag ≠ [] ∧ tag.length < maxTokenLen ∧ tag.all (fun c => !inSet delimiters c && !inSet lineEnds c) = true := by
  decide

theorem tag_word {tag : List Byte}
    (known : tag ∈ [tagPartition, tagPartitionName, tagBlocksize, tagReplicationLevel, tagServerUrl]) :
    tag ≠ [] ∧ tag.length < maxTokenLen ∧ ∀ c ∈ tag, Plain c := by
  obtain ⟨some, short, plain⟩ := tag_words tag known
  refine ⟨some, short, fun c inside => ?_⟩
  have apart := List.all_eq_true.mp plain c inside
  rw [Bool.and_eq_true, Bool.not_eq_true', Bool.not_eq_true'] at apart
  exact apart

theorem Entry.key_word (e : Entry) : e.key ≠ [] ∧ e.key.length < maxTokenLen ∧ ∀ c ∈ e.key, Plain c := by
  apply tag_word
  cases e <;> simp [Entry.key]

theorem decimalNat_short {n : Nat} (small : n < 2 ^ 31) : (decimalNat n).length < maxTokenLen := by
  rw [decimalNat]
  split
  · decide
  · rw [List.length_map, List.length_reverse]
    have few : (Nat.digits 10 n).length ≤ 10 := by
      rw [Nat.digits_length_le_iff (by decide)]
      omega
    exact few.trans_lt (by decide)

theorem Entry.value_word (e : Entry) (fits : e.Fits) : e.value ≠ [] ∧ e.value.length < maxTokenLen ∧
    ∀ c ∈ e.value, Plain c := by
  cases e with
  | partitionName value => exact ⟨value.nonempty, value.short, value.plainText⟩
  | bsize size => exact ⟨decimalNat_ne_nil size, decimalNat_short fits, decimalNat_plain size⟩
  | replicationLevel level => exact ⟨decimalNat_ne_nil level, decimalNat_short fits, decimalNat_plain level⟩
  | serverUrl value => exact ⟨value.nonempty, value.short, value.plainText⟩

theorem scan_assigned (e : Entry) {first second : List Byte} (white : White first) (blank : White second)
    (done : List Partition) (part : Partition)
    (settled : Bool) (rest : List Byte) :
    scan ⟨done, .between part settled⟩ .idle (e.key ++ (first ++ 61 :: (second ++ rest))) =
      scan ⟨done, .assigned part e.key⟩ .idle rest := by
  obtain ⟨some, short, plain⟩ := e.key_word
  rw [scan_word some short plain _ (ends_white white (Or.inr (ends_mark 61 (by decide) _)))]
  calc scan ⟨done, .keyed part e.key⟩ .idle (first ++ 61 :: (second ++ rest))
      = scan ⟨done, .keyed part e.key⟩ .idle (61 :: (second ++ rest)) := scan_white white _ _
    _ = scan ⟨done, .assigned part e.key⟩ .idle (second ++ rest) := rfl
    _ = scan ⟨done, .assigned part e.key⟩ .idle rest := scan_white blank _ _

theorem step_value (e : Entry) (fits : e.Fits) (done : List Partition) (part : Partition) :
    step ⟨done, .assigned part e.key⟩ (.word e.value) = .ok ⟨done, .between (e.set part) true⟩ := by
  change (setValue part e.key e.value).map _ = _
  rw [setValue_entry part fits]
  rfl

theorem entries_scan {atEnd : Bool} {entries : List Entry} {text : List Byte}
    (renders : RendersEntries atEnd entries text)
    (fits : ∀ e ∈ entries, e.Fits) (done : List Partition) {rest : List Byte}
      (ended : atEnd = true → rest = []) (part : Partition)
    (settled : Bool) : scan ⟨done, .between part settled⟩ .idle (text ++ rest) =
      scan ⟨done, .between (entries.foldl Entry.set part) (settled || !entries.isEmpty)⟩ .idle rest := by
  induction renders generalizing part settled with
  | none => simp only [List.nil_append, List.foldl_nil, List.isEmpty_nil, Bool.not_true, Bool.or_false]
  | @entry e entries first second third text white blank gap last renders ih =>
    have fit : e.Fits := fits e List.mem_cons_self
    obtain ⟨some, short, plain⟩ := e.value_word fit
    have others := ih (fun e inside => fits e (List.mem_cons_of_mem _ inside)) (e.set part) true
    simp only [List.append_assoc, List.cons_append, List.foldl_cons, List.isEmpty_cons, Bool.not_false,
      Bool.or_true, Bool.true_or] at others ⊢
    rw [scan_assigned e white blank, ← others]
    by_cases spaced : third = []
    · -- the value ends with the file
      obtain ⟨final, rfl⟩ := last.resolve_left fun some => some spaced
      obtain rfl : rest = [] := ended final
      cases renders
      subst spaced
      simp only [List.nil_append]
      rw [scan_startWord some plain]
      change bounded e.value ((step ⟨done, .assigned part e.key⟩ (.word e.value)).bind accept) = _
      rw [bounded, if_pos short, step_value e fit]
      rfl
    · rw [scan_word some short plain _ (ends_white gap (Or.inl spaced)), step_value e fit]
      exact scan_white gap _ _

theorem scan_openBracket {s : State} {done : List Partition}
    (opens : step s .openBracket = .ok ⟨done, .opened⟩) (rest : List Byte) :
    scan s .idle (91 :: rest) = scan ⟨done, .opened⟩ .idle rest := by
  change ((step s .openBracket).map fun s => (s, Reading.idle)).bind _ = _
  rw [opens]
  rfl

theorem header_scan {header : List Byte} (renders : RendersHeader header) {s : State} {done : List Partition}
    (opens : step s .openBracket = .ok ⟨done, .opened⟩) (rest : List Byte) :
    scan s .idle (header ++ rest) = scan ⟨done, .between Partition.new false⟩ .idle rest := by
  obtain ⟨white, blank, gap⟩ := renders
  rename_i first second third
  obtain ⟨some, short, plain⟩ := tag_word (show tagPartition ∈ _ from List.mem_cons_self)
  simp only [List.append_assoc, List.cons_append]
  have ends : Ends (second ++ 93 :: (third ++ rest)) := ends_white blank (Or.inr (ends_mark 93 (by decide) _))
  rw [scan_openBracket opens, scan_white white, scan_word some short plain _ ends]
  calc scan ⟨done, .named⟩ .idle (second ++ 93 :: (third ++ rest))
      = scan ⟨done, .named⟩ .idle (93 :: (third ++ rest)) := scan_white blank _ _
    _ = scan ⟨done, .between Partition.new false⟩ .idle (third ++ rest) := rfl
    _ = scan ⟨done, .between Partition.new false⟩ .idle rest := scan_white gap _ _

theorem Arranges.isEmpty {given : Given} {entries : List Entry} (arranges : Arranges given entries) :
    entries.isEmpty = false := by
  cases entries with
  | nil => exact absurd arranges.all.length_eq (by simp)
  | cons e entries => rfl

theorem section_scan {given : Given} {entries : List Entry} {header text rest : List Byte} {atEnd : Bool}
    (heads : RendersHeader header)
    (arranges : Arranges given entries) (renders : RendersEntries atEnd entries text)
      (ended : atEnd = true → rest = []) {s : State}
    {done : List Partition} (opens : step s .openBracket = .ok ⟨done, .opened⟩) :
    scan s .idle (header ++ (text ++ rest)) = scan ⟨done, .between given.partition true⟩ .idle rest := by
  rw [header_scan heads opens, entries_scan renders arranges.fits done ended, arranges.partition, arranges.isEmpty]
  rfl

theorem renders_scan {givens : List Given} {text : List Byte} (renders : Renders givens text) {s : State}
    {done : List Partition}
    (opens : step s .openBracket = .ok ⟨done, .opened⟩) :
    scan s .idle text = .ok (done ++ givens.map Given.partition) := by
  induction renders generalizing s done with
  | @last given entries header text heads arranges renders =>
    rw [← List.append_nil text, section_scan heads arranges renders (fun _ => rfl) opens]
    rfl
  | @more given others entries header text rest heads arranges renders _ ih =>
    rw [section_scan heads arranges renders (fun final => absurd final Bool.false_ne_true) opens, ih rfl,
      List.append_assoc]
    rfl

/-- A configuration that is written out is read as what was written. -/
theorem rendering_reads_back {givens : List Given} {text : List Byte} (renders : Renders givens text)
    {gap : List Byte} (white : White gap) :
    ∃ partitions, xpnConfReaderLoad (gap ++ text) = .ok partitions ∧ xpnConfReaderGetNumPartitions partitions =
      givens.length ∧
      ∀ (i : Nat) (given : Given), givens[i]? = some given →
        xpnConfReaderGetNumServers partitions i = given.servers.length ∧
        (∀ server, xpnConfReaderGetServer partitions i server = given.servers[server]?.map Value.text) ∧
        xpnConfReaderGetValue partitions i tagPartitionName = some given.name.text ∧
        xpnConfReaderGetValue partitions i tagBlocksize = some (decimalNat given.bsize) ∧
        xpnConfReaderGetValue partitions i tagReplicationLevel = some (decimalNat given.replicationLevel) := by
  have loads : xpnConfReaderLoad (gap ++ text) = .ok (givens.map Given.partition) := by
    rw [xpnConfReaderLoad_scan, scan_white white]
    exact renders_scan renders (show step ⟨[], .outside⟩ .openBracket = .ok ⟨[], .opened⟩ from rfl)
  refine ⟨givens.map Given.partition, loads, ?_, fun i given found => ?_⟩
  · rw [xpnConfReaderGetNumPartitions, List.length_map]
  have listed : (givens.map Given.partition)[i]? = some given.partition := by
    rw [List.getElem?_map, found]
    rfl
  refine ⟨?_, fun server => ?_, ?_, ?_, ?_⟩
  · rw [xpnConfReaderGetNumServers, listed]
    exact congrArg Nat.cast (List.length_map Value.text)
  · rw [xpnConfReaderGetServer, listed]
    exact List.getElem?_map
  · rw [xpnConfReaderGetValue, listed]
    rfl
  · rw [xpnConfReaderGetValue, listed, ← decimal_natCast]
    rfl
  · rw [xpnConfReaderGetValue, listed, ← decimal_natCast]
    rfl

theorem rendering_reads_back_once : ∃ partitions, xpnConfReaderLoad
    ([10] ++ 91 :: (tagPartition ++ 93 :: 10 :: (tagBlocksize ++ 61 :: 49 :: 10 ::
      (tagPartitionName ++ 61 :: 80 :: 10 ::
      (tagReplicationLevel ++ 61 :: 48 :: 10 :: (tagServerUrl ++ [61, 97])))))) = .ok partitions ∧
    xpnConfReaderGetNumPartitions partitions = 1 ∧ xpnConfReaderGetServer partitions 0 0 = some [97] ∧
    xpnConfReaderGetValue partitions 0 tagPartitionName = some [80] := by
  have none : White [] := fun _ inside => absurd inside List.not_mem_nil
  have line : White [10] := List.forall_mem_singleton.mpr (by decide)
  let name : Value := ⟨[80],
    by decide, by decide, List.forall_mem_singleton.mpr (by decide), List.forall_mem_singleton.mpr (by decide)⟩
  let server : Value := ⟨[97],
    by decide, by decide, List.forall_mem_singleton.mpr (by decide), List.forall_mem_singleton.mpr (by decide)⟩
  let given : Given := ⟨name, 1, by decide, by decide, 0, by decide, [server], List.cons_ne_nil server []⟩
  have arranges : Arranges given [.bsize 1, .partitionName name, .replicationLevel 0, .serverUrl server] :=
    ⟨List.Perm.swap _ _ _, rfl⟩
  have entry : ∀ (e : Entry) {entries : List Entry} {text : List Byte}, RendersEntries true entries text →
      RendersEntries true (e :: entries) (e.key ++ ([] ++ 61 :: ([] ++ (e.value ++ ([10] ++ text))))) :=
        fun e _ _ renders =>
    .entry none none line (Or.inl (List.cons_ne_nil 10 [])) renders
  have last : RendersEntries true [.serverUrl server] (tagServerUrl ++ ([] ++ 61 :: ([] ++ ([97] ++ ([] ++ []))))) :=
    .entry none none none (Or.inr ⟨rfl, rfl⟩) .none
  have header : RendersHeader (91 :: ([] ++ (tagPartition ++ ([] ++ 93 :: [10])))) := .header none none line
  have renders := Renders.last header arranges (entry (.bsize 1) (entry (.partitionName name) (entry
    (.replicationLevel 0) last)))
  obtain ⟨partitions, loads, number, answers⟩ := rendering_reads_back renders line
  obtain ⟨-, servers, named, -, -⟩ := answers 0 given rfl
  exact ⟨partitions, loads, number, servers 0, named⟩

end Xpn.Proofs.ConfRoundTrip
