import Mathlib.Logic.Relation
import Xpn.Proofs.ConfRoundTrip

/-! Comments put into a configuration. The machine says where in the grammar one lands: in front
of the sections it is skipped, between the entries of one it has to be followed by something, and
nowhere else may it stand. -/

namespace Xpn.Proofs.ConfComments
open Xpn.ConfReader Proofs.ConfReader ConfRoundTrip

def run (s : State) (reading : Reading) : List Byte → Except Failure (State × Reading)
  | [] => .ok (s, reading)
  | ch :: rest => (feed s reading ch).bind fun after => run after.1 after.2 rest

theorem scan_append (s : State) (reading : Reading) (before after : List Byte) :
    scan s reading (before ++ after) = (run s reading before).bind fun reached => scan reached.1 reached.2 after := by
  induction before generalizing s reading with
  | nil => rfl
  | cons ch before ih =>
    rw [List.cons_append, scan, run]
    cases feed s reading ch with
    | error failure => rfl
    | ok reached => exact ih reached.1 reached.2

theorem run_append (s : State) (reading : Reading) (before after : List Byte) :
    run s reading (before ++ after) = (run s reading before).bind fun reached => run reached.1 reached.2 after := by
  induction before generalizing s reading with
  | nil => rfl
  | cons ch before ih =>
    rw [List.cons_append, run, run]
    cases feed s reading ch with
    | error failure => rfl
    | ok reached => exact ih reached.1 reached.2

/-- A newline ends whatever is being read. -/
theorem feed_newline {s after : State} {reading left : Reading} (fed : feed s reading 10 = .ok (after, left)) :
    left = .idle := by
  cases reading with
  | idle => exact (congrArg Prod.snd (Except.ok.inj fed)).symm
  | word tok =>
    have ended : (bounded tok (step s (.word tok))).map (·, Reading.idle) = .ok (after, left) := fed
    cases reached : bounded tok (step s (.word tok)) with
    | error failure =>
      rw [reached] at ended
      cases ended
    | ok next =>
      rw [reached] at ended
      exact (congrArg Prod.snd (Except.ok.inj ended)).symm
  | comment tok =>
    have ended : (bounded tok (step s (.comment tok))).map (·, Reading.idle) = .ok (after, left) := fed
    cases reached : bounded tok (step s (.comment tok)) with
    | error failure =>
      rw [reached] at ended
      cases ended
    | ok next =>
      rw [reached] at ended
      exact (congrArg Prod.snd (Except.ok.inj ended)).symm

def LineStart (before : List Byte) : Prop := before = [] ∨ ∃ line, before = line ++ [10]

/-- What the machine has read when the line that a text ends in is over. -/
def stateAfter (before : List Byte) : Except Failure State := (run ⟨[], .outside⟩ .idle (before ++ [10])).map (·.1)

theorem scan_newline (before after : List Byte) :
    scan ⟨[], .outside⟩ .idle (before ++ 10 :: after) = (stateAfter before).bind (scan · .idle after) := by
  have cut : before ++ 10 :: after = (before ++ [10]) ++ after := by rw [List.append_assoc, List.singleton_append]
  rw [cut, scan_append, stateAfter, run_append]
  cases reached : run ⟨[], .outside⟩ .idle before with
  | error failure => rfl
  | ok state =>
    change ((run state.1 state.2 [10]).bind _) = ((run state.1 state.2 [10]).map _).bind _
    rw [run]
    cases fed : feed state.1 state.2 10 with
    | error failure => rfl
    | ok next =>
      obtain ⟨s, left⟩ := next
      obtain rfl := feed_newline fed
      rfl

theorem scan_lineStart {before : List Byte} (starts : LineStart before) (after : List Byte) :
    scan ⟨[], .outside⟩ .idle (before ++ after) = (stateAfter before).bind (scan · .idle after) := by
  rw [← scan_newline]
  rcases starts with rfl | ⟨line, rfl⟩
  · exact (scan_blank (show inSet blanks 10 = true from rfl) _ _).symm
  · rw [List.append_assoc, List.append_assoc, List.singleton_append, List.singleton_append, scan_newline, scan_newline]
    cases stateAfter line with
    | error failure => rfl
    | ok s => exact (scan_blank (show inSet blanks 10 = true from rfl) s after).symm

def Blank (text : List Byte) : Prop := ∀ ch ∈ text, inSet blanks ch = true

theorem scan_of_blank {text : List Byte} (blank : Blank text) (s : State) : scan s .idle text = accept s := by
  induction text with
  | nil => rfl
  | cons ch text ih =>
    rw [scan_blank (blank ch List.mem_cons_self)]
    exact ih fun ch inside => blank ch (List.mem_cons_of_mem _ inside)

theorem solid_of_not_blank : ∀ {text : List Byte}, ¬ Blank text →
    ∃ ch rest, inSet blanks ch = false ∧ ∀ s, scan s .idle text = scan s .idle (ch :: rest)
  | [], not => absurd (fun _ inside => absurd inside List.not_mem_nil) not
  | ch :: text, not => by
    cases blank : inSet blanks ch with
    | false => exact ⟨ch, text, blank, fun _ => rfl⟩
    | true =>
      have more : ¬ Blank text := by
        intro rest
        exact not (List.forall_mem_cons.mpr ⟨blank, rest⟩)
      obtain ⟨first, rest, solid, scans⟩ := solid_of_not_blank more
      exact ⟨first, rest, solid, fun s => (scan_blank blank s text).trans (scans s)⟩

/-- What may follow an open bracket is nothing that may follow the name of the section. -/
theorem named_of_opened {done : List Partition} {tail : List Byte} {partitions : List Partition}
    (opened : scan ⟨done, .opened⟩ .idle tail = .ok partitions) : scan ⟨done, .named⟩ .idle tail ≠ .ok partitions := by
  have fails : ∀ (tok : List Byte) (rest : List Byte),
      ((bounded tok (.error .rejected)).bind (scan · .idle rest)) ≠ .ok partitions := by
    intro tok rest
    rw [bounded]
    split <;> exact fun same => by cases same
  have ends : ∀ tok : List Byte, bounded tok (.error .rejected) ≠ .ok partitions := by
    intro tok
    rw [bounded]
    split <;> exact fun same => by cases same
  by_cases blank : Blank tail
  · rw [scan_of_blank blank] at opened
    cases opened
  obtain ⟨ch, rest, solid, scans⟩ := solid_of_not_blank blank
  rw [scans] at opened ⊢
  have reads := readToken_reads solid rest
  generalize readToken (ch :: rest) = read at reads
  cases reads with
  | openBracket scans _ =>
    rw [scans] at opened
    cases opened
  | closeBracket scans _ =>
    rw [scans] at opened
    cases opened
  | equal scans _ =>
    rw [scans] at opened
    cases opened
  | word scans _ =>
    rw [scans]
    exact fails _ _
  | lastWord scans _ =>
    rw [scans]
    exact ends _
  | comment scans _ =>
    rw [scans]
    exact fails _ _
  | lastComment scans _ _ =>
    rw [scans]
    exact ends _
  | hash scans =>
    rw [scans]
    exact ends _

def Outside (s : State) : Prop := s.place = .outside

def Inside (s : State) : Prop := ∃ part settled, s.place = .between part settled

theorem scan_inComment : ∀ (more tok : List Byte) (s : State) (rest : List Byte),
    (∀ ch ∈ more, inSet lineEnds ch = false) →
    scan s (.comment tok) (more ++ rest) = scan s (.comment (tok ++ more)) rest
  | [], tok, s, rest, _ => by rw [List.nil_append, List.append_nil]
  | ch :: more, tok, s, rest, plain => by
    have same := plain ch List.mem_cons_self
    rw [List.cons_append, scan, feed, if_neg (by simp [same])]
    have goes := scan_inComment more (tok ++ [ch]) s rest fun ch inside => plain ch (List.mem_cons_of_mem _ inside)
    rw [List.append_assoc] at goes
    exact goes

section
variable {c : List Byte} (plain : ∀ ch ∈ c, inSet lineEnds ch = false)
include plain

theorem scan_comment (s : State) (rest : List Byte) : scan s .idle (35 :: (c ++ rest)) = scan s (.comment c) rest :=
  scan_inComment c [] s rest plain

theorem scan_commentLine {ch : Byte} (ends : inSet lineEnds ch = true) (s : State) (tail : List Byte) :
    scan s .idle (35 :: (c ++ ch :: tail)) = (bounded c (step s (.comment c))).bind (scan · .idle tail) := by
  rw [scan_comment plain, scan, feed, if_pos ends]
  cases bounded c (step s (.comment c)) with
  | error failure => rfl
  | ok s => rfl

/-- A comment between two texts that the reader accepts together. -/
theorem commentLine_iff (short : c.length < maxTokenLen) {ch : Byte} (ends : inSet lineEnds ch = true)
    {s : State} {tail : List Byte}
    {partitions : List Partition} (loads : scan s .idle tail = .ok partitions) :
    scan s .idle (35 :: (c ++ ch :: tail)) = .ok partitions ↔ Outside s ∨ Inside s ∧ ¬ Blank tail := by
  rw [scan_commentLine plain ends, bounded, if_pos short]
  obtain ⟨done, place⟩ := s
  cases place with
  | outside => exact ⟨fun _ => Or.inl rfl, fun _ => loads⟩
  | between part settled =>
    change scan ⟨done, .between part false⟩ .idle tail = .ok partitions ↔ _
    by_cases blank : Blank tail
    · rw [scan_of_blank blank]
      refine ⟨fun same => ?_, ?_⟩
      · cases same
      · rintro (outside | ⟨-, solid⟩)
        · cases outside
        · exact absurd blank solid
    · obtain ⟨first, rest, solid, scans⟩ := solid_of_not_blank blank
      have unsettled : scan ⟨done, .between part settled⟩ .idle tail = scan ⟨done, .between part false⟩ .idle tail := by
        cases settled with
        | false => rfl
        | true => rw [scans, scans, scan_settled done part solid]
      exact ⟨fun _ => Or.inr ⟨⟨part, settled, rfl⟩, blank⟩, fun _ => unsettled.symm.trans loads⟩
  | opened =>
    refine ⟨fun same => ?_, ?_⟩
    · obtain ⟨after, stepped, same⟩ := ok_of_bind same
      obtain rfl := named_of_step (Or.inr stepped)
      exact absurd same (named_of_opened loads)
    · rintro (outside | ⟨⟨_, _, inside⟩, -⟩)
      · cases outside
      · cases inside
  | named =>
    refine ⟨fun same => (by cases same), ?_⟩
    rintro (outside | ⟨⟨_, _, inside⟩, -⟩)
    · cases outside
    · cases inside
  | keyed part key =>
    refine ⟨fun same => (by cases same), ?_⟩
    rintro (outside | ⟨⟨_, _, inside⟩, -⟩)
    · cases outside
    · cases inside
  | assigned part key =>
    refine ⟨fun same => (by cases same), ?_⟩
    rintro (outside | ⟨⟨_, _, inside⟩, -⟩)
    · cases outside
    · cases inside

end

def Gap (gap : List Byte) : Prop := ∀ ch ∈ gap, ch ∈ ([32, 9, 13] : List Byte)

theorem Gap.white {gap : List Byte} (blank : Gap gap) : White gap := by
  intro ch inside
  have listed := blank ch inside
  simp only [List.mem_cons, List.not_mem_nil, or_false] at listed ⊢
  tauto

/-- A `key = value` line up to its end. -/
inductive IsEntry : List Byte → Prop
  | entry {first second third fourth key value : List Byte} : Gap first → Gap second → Gap third → Gap fourth →
    key ≠ [] → value ≠ [] →
      (∀ ch ∈ key, Plain ch) → (∀ ch ∈ value, Plain ch) →
      IsEntry (first ++ (key ++ (second ++ 61 :: (third ++ (value ++ fourth)))))

theorem scan_value {value gap rest : List Byte} (blank : Gap gap) (ends : rest = [] ∨ Ends rest)
    (done : List Partition) (part : Partition)
    (key : List Byte) : scan ⟨done, .assigned part key⟩ (.word value) (gap ++ rest) =
      (bounded value (step ⟨done, .assigned part key⟩ (.word value))).bind (scan · .idle rest) := by
  by_cases nothing : gap = [] ∧ rest = []
  · obtain ⟨rfl, rfl⟩ := nothing
    change bounded value ((step ⟨done, .assigned part key⟩ (.word value)).bind accept) = _
    rw [bounded, bounded]
    split <;> rfl
  · have reaches : gap ≠ [] ∨ Ends rest := by
      by_cases some : gap = []
      · exact Or.inr (ends.resolve_left fun empty => nothing ⟨some, empty⟩)
      · exact Or.inl some
    rw [scan_endWord (ends_white blank.white reaches)]
    cases bounded value (step ⟨done, .assigned part key⟩ (.word value)) with
    | error failure => rfl
    | ok s => exact scan_white blank.white s rest

/-- Only between the entries of a section may a word have an equal sign behind it. -/
theorem keyed_of_ok {s after : State} {key : List Byte} (word : step s (.word key) = .ok after) {assigned : State}
    (equal : step after .equal = .ok assigned) :
    ∃ done part, after = ⟨done, .keyed part key⟩ ∧ assigned = ⟨done, .assigned part key⟩ := by
  obtain ⟨done, place⟩ := s
  cases place with
  | outside => cases word
  | named => cases word
  | keyed _ _ => cases word
  | between part settled =>
    obtain rfl := Except.ok.inj word
    exact ⟨done, part, rfl, (Except.ok.inj equal).symm⟩
  | opened =>
    obtain rfl := named_of_step (Or.inl word)
    cases equal
  | assigned part first =>
    obtain ⟨_, -, rfl⟩ := set_of_step word
    cases equal

/-- An entry of an accepted text stands between two others, and leads to the same place whatever
comes behind it. -/
theorem entry_scan {line : List Byte} (entry : IsEntry line) {s : State} {rest : List Byte}
    (ends : rest = [] ∨ Ends rest)
    {partitions : List Partition} (loads : scan s .idle (line ++ rest) = .ok partitions) :
    ∃ done part, ∀ rest, rest = [] ∨ Ends rest →
      scan s .idle (line ++ rest) = scan ⟨done, .between part true⟩ .idle rest := by
  obtain ⟨first, second, third, fourth, someKey, someValue, plainKey, plainValue⟩ := entry
  rename_i gap1 gap2 gap3 gap4 key value
  have reads : ∀ text, scan s .idle (gap1 ++ (key ++ (gap2 ++ 61 :: text))) =
      (bounded key (step s (.word key))).bind fun s => (step s .equal).bind (scan · .idle text) := by
    intro text
    rw [scan_white first.white, scan_startWord someKey plainKey,
      scan_endWord (ends_white second.white (Or.inr (ends_mark 61 (by decide) _)))]
    refine congrArg (bounded key (step s (.word key))).bind (funext fun s => ?_)
    rw [scan_white second.white]
    change ((step s .equal).map fun s => (s, Reading.idle)).bind _ = _
    cases step s .equal with
    | error failure => rfl
    | ok s => rfl
  simp only [List.append_assoc, List.cons_append] at loads ⊢
  rw [reads] at loads
  obtain ⟨keyed, wordly, loads⟩ := ok_of_bind loads
  obtain ⟨assigned, equal, loads⟩ := ok_of_bind loads
  obtain ⟨done, part, rfl, rfl⟩ := keyed_of_ok (ok_of_bounded wordly) equal
  have goes : ∀ rest, rest = [] ∨ Ends rest →
      scan ⟨done, .assigned part key⟩ .idle (gap3 ++ (value ++ (gap4 ++ rest))) =
      (bounded value (step ⟨done, .assigned part key⟩ (.word value))).bind (scan · .idle rest) := by
    intro rest ends
    rw [scan_white third.white, scan_startWord someValue plainValue, scan_value fourth ends]
  rw [goes rest ends] at loads
  obtain ⟨after, valued, loads⟩ := ok_of_bind loads
  obtain ⟨set, -, rfl⟩ := set_of_step (ok_of_bounded valued)
  refine ⟨done, set, fun rest ends => ?_⟩
  rw [reads, wordly]
  have reached := goes rest ends
  rw [valued] at reached
  exact reached

/-- A comment put into a text: on a line of its own in front of any line, under a last line that
had no newline, or behind an entry, at the end of the file with a newline or without. The last
index is what has to hold for the text to mean the same. -/
inductive Inserts (c : List Byte) : List Byte → List Byte → Prop → Prop
  | line {before after : List Byte} : LineStart before → Inserts c (before ++ after)
    (before ++ 35 :: (c ++ 10 :: after))
      (∃ s, stateAfter before = .ok s ∧ (Outside s ∨ Inside s ∧ ¬ Blank after))
  | below {conf : List Byte} : ¬ LineStart conf → Inserts c conf (conf ++ 10 :: 35 :: (c ++ [10]))
    (∃ s, stateAfter conf = .ok s ∧ Outside s)
  | behind {before entry after : List Byte} {ch : Byte} : LineStart before → IsEntry entry → ch ∈ lineEnds →
      Inserts c (before ++ (entry ++ ch :: after)) (before ++ (entry ++ 35 :: (c ++ ch :: after))) (¬ Blank after)
  | last {before entry : List Byte} : LineStart before → IsEntry entry → Inserts c (before ++ entry)
    (before ++ (entry ++ 35 :: c)) (c ≠ [])
  | lastLine {before entry : List Byte} : LineStart before → IsEntry entry →
      Inserts c (before ++ entry) (before ++ (entry ++ 35 :: (c ++ [10]))) False

/-- What a comment may be. -/
structure IsComment (c : List Byte) : Prop where
  short : c.length < maxTokenLen
  plain : ∀ ch ∈ c, ch ≠ 10 ∧ ch ≠ 13

theorem inComment {c : List Byte} (comment : IsComment c) (proper : 0 ∉ c) : ∀ ch ∈ c, inSet lineEnds ch = false := by
  intro ch inside
  have nonzero : ch ≠ 0 := fun zero => proper (zero ▸ inside)
  have same := comment.plain ch inside
  simp only [inSet, lineEnds, Bool.or_eq_false_iff, List.contains_cons, List.contains_nil, beq_eq_false_iff_ne]
  tauto

theorem not_outside_of_word {s after : State} {tok : List Byte} (word : step s (.word tok) = .ok after) :
    ¬ Outside after := by
  obtain ⟨done, place⟩ := s
  cases place with
  | outside => cases word
  | named => cases word
  | keyed _ _ => cases word
  | between part settled =>
    obtain rfl := Except.ok.inj word
    exact fun outside => by cases outside
  | opened =>
    obtain rfl := named_of_step (Or.inl word)
    exact fun outside => by cases outside
  | assigned part key =>
    obtain ⟨_, -, rfl⟩ := set_of_step word
    exact fun outside => by cases outside

theorem outside_of_comment {s after : State} {tok : List Byte} (comment : step s (.comment tok) = .ok after)
    (outside : Outside after) :
    s = after ∧ Outside s := by
  obtain ⟨done, place⟩ := s
  cases place with
  | outside => exact ⟨Except.ok.inj comment, rfl⟩
  | named => cases comment
  | keyed _ _ => cases comment
  | assigned _ _ => cases comment
  | between part settled =>
    obtain rfl := Except.ok.inj comment
    cases outside
  | opened =>
    obtain rfl := named_of_step (Or.inr comment)
    cases outside

/-- In front of the first section there is nothing to lose at the end of the file. -/
theorem done_of_outside {conf : List Byte} {partitions : List Partition}
    (loads : scan ⟨[], .outside⟩ .idle conf = .ok partitions) {s : State}
    (reached : stateAfter conf = .ok s) (outside : Outside s) : partitions = s.done := by
  rw [← List.append_nil conf, scan_append] at loads
  rw [stateAfter, run_append] at reached
  obtain ⟨⟨before, reading⟩, ran, loads⟩ := ok_of_bind loads
  rw [ran] at reached
  have fed : ((feed before reading 10).bind fun after => .ok (after.1, after.2)).map Prod.fst = .ok s := reached
  cases reading with
  | idle =>
    obtain rfl : before = s := Except.ok.inj fed
    obtain ⟨done, place⟩ := before
    obtain rfl : place = .outside := outside
    exact (Except.ok.inj loads).symm
  | word tok =>
    have fed : (((bounded tok (step before (.word tok))).map fun s => (s, Reading.idle)).bind fun after =>
      .ok (after.1, after.2)).map Prod.fst = .ok s := fed
    cases word : bounded tok (step before (.word tok)) with
    | error failure =>
      rw [word] at fed
      cases fed
    | ok after =>
      rw [word] at fed
      obtain rfl : after = s := Except.ok.inj fed
      exact absurd outside (not_outside_of_word (ok_of_bounded word))
  | comment tok =>
    have fed : (((bounded tok (step before (.comment tok))).map fun s => (s, Reading.idle)).bind fun after =>
      .ok (after.1, after.2)).map Prod.fst = .ok s := fed
    cases comment : bounded tok (step before (.comment tok)) with
    | error failure =>
      rw [comment] at fed
      cases fed
    | ok after =>
      rw [comment] at fed
      obtain rfl : after = s := Except.ok.inj fed
      obtain ⟨rfl, -⟩ := outside_of_comment (ok_of_bounded comment) outside
      obtain ⟨done, place⟩ := before
      obtain rfl : place = .outside := outside
      exact (Except.ok.inj (ok_of_bounded loads)).symm

/-- Under a comment the file may end in front of the first section only. -/
theorem outside_of_accept {s after : State} {tok : List Byte} (comment : step s (.comment tok) = .ok after)
    {partitions : List Partition}
    (accepts : accept after = .ok partitions) : Outside s := by
  obtain ⟨done, place⟩ := s
  cases place with
  | outside => rfl
  | named => cases comment
  | keyed _ _ => cases comment
  | assigned _ _ => cases comment
  | between part settled =>
    obtain rfl := Except.ok.inj comment
    cases accepts
  | opened =>
    obtain rfl := named_of_step (Or.inr comment)
    cases accepts

theorem blank_of_lineEnd {ch : Byte} (ends : inSet lineEnds ch = true) : inSet blanks ch = true := by
  simp only [inSet, lineEnds, blanks, Bool.or_eq_true, beq_iff_eq, List.contains_cons, List.contains_nil] at ends ⊢
  tauto

theorem ends_line {ch : Byte} (same : ch ∈ lineEnds) (rest : List Byte) : Ends (ch :: rest) := by
  refine ⟨ch, rest, rfl, fun plain => ?_⟩
  have other := plain.2
  rw [inSet, List.contains_iff_mem.mpr same, Bool.or_true] at other
  cases other

theorem ends_comment (rest : List Byte) : Ends (35 :: rest) := ⟨35, rest, rfl, fun plain => absurd plain.1 (by decide)⟩

theorem inserts_iff {c : List Byte} (comment : IsComment c) (proper : 0 ∉ c) {conf edited : List Byte} {harmless : Prop}
    (inserts : Inserts c conf edited harmless) {partitions : List Partition}
      (loads : xpnConfReaderLoad conf = .ok partitions) :
    xpnConfReaderLoad edited = .ok partitions ↔ harmless := by
  have plain := inComment comment proper
  have newline : inSet lineEnds 10 = true := rfl
  rw [xpnConfReaderLoad_scan] at loads ⊢
  cases inserts with
  | @line before after starts =>
    rw [scan_lineStart starts] at loads ⊢
    obtain ⟨s, reached, loads⟩ := ok_of_bind loads
    rw [reached]
    refine (commentLine_iff plain comment.short newline loads).trans ⟨fun place => ⟨s, rfl, place⟩, ?_⟩
    rintro ⟨other, same, place⟩
    exact Except.ok.inj same ▸ place
  | below unfinished =>
    rw [scan_newline]
    constructor
    · intro kept
      obtain ⟨s, reached, kept⟩ := ok_of_bind kept
      rw [scan_commentLine plain newline] at kept
      obtain ⟨after, stepped, kept⟩ := ok_of_bind kept
      exact ⟨s, reached, outside_of_accept (ok_of_bounded stepped) kept⟩
    · rintro ⟨s, reached, outside⟩
      obtain rfl := done_of_outside loads reached outside
      rw [reached]
      change scan s .idle (35 :: (c ++ 10 :: [])) = _
      rw [scan_commentLine plain newline, bounded, if_pos comment.short]
      obtain ⟨done, place⟩ := s
      obtain rfl : place = .outside := outside
      rfl
  | @behind before entry after ch starts isEntry ends =>
    rw [scan_lineStart starts] at loads ⊢
    obtain ⟨s, reached, loads⟩ := ok_of_bind loads
    obtain ⟨done, part, goes⟩ := entry_scan isEntry (Or.inr (ends_line ends after)) loads
    have lineEnd : inSet lineEnds ch = true := by rw [inSet, List.contains_iff_mem.mpr ends, Bool.or_true]
    rw [goes _ (Or.inr (ends_line ends after)), scan_blank (blank_of_lineEnd lineEnd)] at loads
    rw [reached]
    change scan s .idle (entry ++ 35 :: (c ++ ch :: after)) = _ ↔ _
    rw [goes _ (Or.inr (ends_comment _)), commentLine_iff plain comment.short lineEnd loads]
    refine ⟨?_, fun more => Or.inr ⟨⟨part, true, rfl⟩, more⟩⟩
    rintro (outside | ⟨-, more⟩)
    · cases outside
    · exact more
  | @last before entry starts isEntry =>
    rw [scan_lineStart starts] at loads ⊢
    obtain ⟨s, reached, loads⟩ := ok_of_bind loads
    rw [← List.append_nil entry] at loads
    obtain ⟨done, part, goes⟩ := entry_scan isEntry (Or.inl rfl) loads
    rw [goes _ (Or.inl rfl)] at loads
    rw [reached, ← List.append_nil c]
    change scan s .idle (entry ++ 35 :: (c ++ [])) = _ ↔ _
    rw [goes _ (Or.inr (ends_comment _)), scan_comment plain, List.append_nil]
    cases c with
    | nil =>
      change (bounded [] (.error .rejected) : Except Failure (List Partition)) = _ ↔ _
      rw [bounded, if_pos comment.short]
      exact ⟨fun same => (by cases same), fun some => absurd rfl some⟩
    | cons ch c =>
      change bounded (ch :: c) (.ok (done ++ [part])) = _ ↔ _
      rw [bounded, if_pos comment.short]
      exact ⟨fun _ => List.cons_ne_nil ch c, fun _ => loads⟩
  | @lastLine before entry starts isEntry =>
    rw [scan_lineStart starts] at loads ⊢
    obtain ⟨s, reached, loads⟩ := ok_of_bind loads
    rw [← List.append_nil entry] at loads
    obtain ⟨done, part, goes⟩ := entry_scan isEntry (Or.inl rfl) loads
    rw [goes _ (Or.inl rfl)] at loads
    rw [reached]
    change scan s .idle (entry ++ 35 :: (c ++ 10 :: [])) = _ ↔ _
    rw [goes _ (Or.inr (ends_comment _)), commentLine_iff plain comment.short newline loads]
    refine ⟨?_, False.elim⟩
    rintro (outside | ⟨-, more⟩)
    · cases outside
    · exact more fun _ inside => absurd inside List.not_mem_nil

/-- Texts that come from one another by comments that are harmless where they are put. -/
def Commented : List Byte → List Byte → Prop :=
  Relation.ReflTransGen fun conf edited => ∃ c harmless, IsComment c ∧ 0 ∉ c ∧ Inserts c conf edited harmless ∧ harmless

/-- A comment without a null byte changes nothing exactly where it is harmless, and so do any
number of them. -/
theorem comments_change_nothing_iff {conf : List Byte} {partitions : List Partition}
    (loads : xpnConfReaderLoad conf = .ok partitions) :
    (∀ c edited harmless, IsComment c → 0 ∉ c → Inserts c conf edited harmless →
      (xpnConfReaderLoad edited = .ok partitions ↔ harmless)) ∧
      ∀ edited, Commented conf edited → xpnConfReaderLoad edited = .ok partitions := by
  refine ⟨fun c edited harmless comment proper inserts => inserts_iff comment proper inserts loads,
    fun edited commented => ?_⟩
  induction commented with
  | refl => exact loads
  | tail _ step ih =>
    obtain ⟨c, harmless, comment, proper, inserts, holds⟩ := step
    exact (inserts_iff comment proper inserts ih).mpr holds

theorem comments_change_nothing_between : xpnConfReaderLoad
    ((91 :: (tagPartition ++ [93, 10])) ++ 35 :: ([99] ++ 10 :: (tagPartitionName ++ [61, 80, 10]))) =
      .ok [⟨some [80], 512 * kb, 0, []⟩] := by
  have loads : xpnConfReaderLoad ((91 :: (tagPartition ++ [93, 10])) ++ (tagPartitionName ++ [61, 80, 10])) =
      .ok [⟨some [80], 512 * kb, 0, []⟩] := rfl
  have comment : IsComment [99] := ⟨by decide, List.forall_mem_singleton.mpr (by decide)⟩
  have starts : LineStart (91 :: (tagPartition ++ [93, 10])) := Or.inr ⟨91 :: (tagPartition ++ [93]), rfl⟩
  refine ((comments_change_nothing_iff loads).1 [99] _ _ comment (by decide) (.line starts)).mpr ?_
  refine ⟨⟨[], .between Partition.new false⟩, rfl, Or.inr ⟨⟨Partition.new, false, rfl⟩, fun blank => ?_⟩⟩
  exact absurd (blank 112 (by decide)) (by decide)

/-- A comment line at the end of a configuration with a section. -/
theorem last_comment_rejected : IsComment [99] ∧
    (∃ harmless, Inserts [99] (91 :: (tagPartition ++ 93 :: 10 :: (tagPartitionName ++ [61, 80, 10])))
      (91 :: (tagPartition ++ 93 :: 10 :: (tagPartitionName ++ [61, 80, 10, 35, 99, 10]))) harmless) ∧
    xpnConfReaderLoad (91 :: (tagPartition ++ 93 :: 10 :: (tagPartitionName ++ [61, 80, 10]))) =
      .ok [⟨some [80], 512 * kb, 0, []⟩] ∧
    xpnConfReaderLoad (91 :: (tagPartition ++ 93 :: 10 :: (tagPartitionName ++ [61, 80, 10, 35, 99, 10]))) =
      .error .rejected := by
  have starts : LineStart (91 :: (tagPartition ++ 93 :: 10 :: (tagPartitionName ++ [61, 80, 10]))) :=
    Or.inr ⟨91 :: (tagPartition ++ 93 :: 10 :: (tagPartitionName ++ [61, 80])), rfl⟩
  have inserts := @Inserts.line [99] _ [] starts
  exact ⟨⟨by decide, List.forall_mem_singleton.mpr (by decide)⟩, ⟨_, inserts⟩, rfl, rfl⟩

end Xpn.Proofs.ConfComments
