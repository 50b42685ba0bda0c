import Xpn.ConfReader

/-! The reader as a machine that takes one byte after the other. The two loops and the push-back
come down to a place in the grammar and a token that is being read, so that what a text means
can be followed through any way to cut it in two. -/

namespace Xpn.Proofs.ConfReader
open Xpn.ConfReader

inductive Token where
  | openBracket
  | closeBracket
  | equal
  | word (text : List Byte)
  | comment (text : List Byte)

/-- Where the machine is in a configuration. Between the entries of a section it remembers
whether the file may end. -/
inductive Place where
  | outside
  | opened
  | named
  | between (part : Partition) (settled : Bool)
  | keyed (part : Partition) (key : List Byte)
  | assigned (part : Partition) (key : List Byte)

structure State where
  done : List Partition
  place : Place

/-- What a token does. A comment counts as the name of a section. -/
def step (s : State) (token : Token) : Except Failure State :=
  match s.place, token with
  | .outside, .comment _ => .ok s
  | .outside, .openBracket => .ok ⟨s.done, .opened⟩
  | .opened, .word name => if sameTag name tagPartition then .ok ⟨s.done, .named⟩ else .error .rejected
  | .opened, .comment name => if sameTag name tagPartition then .ok ⟨s.done, .named⟩ else .error .rejected
  | .named, .closeBracket => .ok ⟨s.done, .between Partition.new false⟩
  | .between part _, .comment _ => .ok ⟨s.done, .between part false⟩
  | .between part _, .openBracket => .ok ⟨s.done ++ [part], .opened⟩
  | .between part _, .word key => .ok ⟨s.done, .keyed part key⟩
  | .keyed part key, .equal => .ok ⟨s.done, .assigned part key⟩
  | .assigned part key, .word value => (setValue part key value).map fun part => ⟨s.done, .between part true⟩
  | _, _ => .error .rejected

def bounded {α : Type} (tok : List Byte) (after : Except Failure α) : Except Failure α :=
  if tok.length < maxTokenLen then after else .error .overrun

inductive Reading where
  | idle
  | word (tok : List Byte)
  | comment (tok : List Byte)

/-- A byte where a token may start. -/
def start (s : State) (ch : Byte) : Except Failure (State × Reading) :=
  if inSet blanks ch then .ok (s, .idle)
  else if ch = 91 then (step s .openBracket).map (·, .idle)
  else if ch = 93 then (step s .closeBracket).map (·, .idle)
  else if ch = 61 then (step s .equal).map (·, .idle)
  else if ch = 35 then .ok (s, .comment [])
  else .ok (s, .word [ch])

def feed (s : State) (reading : Reading) (ch : Byte) : Except Failure (State × Reading) :=
  match reading with
  | .idle => start s ch
  | .word tok =>
    if inSet delimiters ch then (bounded tok (step s (.word tok))).bind (start · ch)
    else if inSet lineEnds ch then (bounded tok (step s (.word tok))).map (·, .idle)
    else .ok (s, .word (tok ++ [ch]))
  | .comment tok =>
    if inSet lineEnds ch then (bounded tok (step s (.comment tok))).map (·, .idle)
    else .ok (s, .comment (tok ++ [ch]))

/-- The file ends between two tokens. -/
def accept (s : State) : Except Failure (List Partition) :=
  match s.place with
  | .outside => .ok s.done
  | .between part true => .ok (s.done ++ [part])
  | _ => .error .rejected

/-- The file ends. A token that it ends sets `feof`, which the loops see before the token. -/
def finish (s : State) : Reading → Except Failure (List Partition)
  | .idle => accept s
  | .word tok => bounded tok (match s.place with
    | .outside => .ok s.done
    | _ => (step s (.word tok)).bind accept)
  | .comment tok => bounded tok (match s.place, tok with
    | .outside, _ => .ok s.done
    | .between part _, _ :: _ => .ok (s.done ++ [part])
    | _, _ => .error .rejected)

def scan (s : State) (reading : Reading) : List Byte → Except Failure (List Partition)
  | [] => finish s reading
  | ch :: rest => (feed s reading ch).bind fun after => scan after.1 after.2 rest

/-- A token that starts with the first byte, and what the machine makes of it. -/
inductive ReadsToken (text : List Byte) : Elto × List Byte × File → Prop
  | openBracket {rest} (scans : ∀ s, scan s .idle text = (step s .openBracket).bind (scan · .idle rest))
    (shorter : rest.length < text.length) :
      ReadsToken text (.openBracket, [91], ⟨rest, false⟩)
  | closeBracket {rest} (scans : ∀ s, scan s .idle text = (step s .closeBracket).bind (scan · .idle rest))
    (shorter : rest.length < text.length) :
      ReadsToken text (.closeBracket, [93], ⟨rest, false⟩)
  | equal {rest} (scans : ∀ s, scan s .idle text = (step s .equal).bind (scan · .idle rest))
    (shorter : rest.length < text.length) :
      ReadsToken text (.equal, [61], ⟨rest, false⟩)
  | word {tok rest} (scans : ∀ s, scan s .idle text = (bounded tok (step s (.word tok))).bind (scan · .idle rest))
      (shorter : rest.length < text.length) : ReadsToken text (.token, tok, ⟨rest, false⟩)
  | lastWord {tok} (scans : ∀ s, scan s .idle text = finish s (.word tok)) (some : text ≠ []) :
    ReadsToken text (.token, tok, ⟨[], true⟩)
  | comment {tok rest} (scans : ∀ s, scan s .idle text = (bounded tok (step s (.comment tok))).bind (scan · .idle rest))
      (shorter : rest.length < text.length) : ReadsToken text (.comment, tok, ⟨rest, false⟩)
  | lastComment {tok} (scans : ∀ s, scan s .idle text = finish s (.comment tok)) (some : tok ≠ [])
    (nonempty : text ≠ []) :
      ReadsToken text (.comment, tok, ⟨[], true⟩)
  | hash (scans : ∀ s, scan s .idle text = finish s (.comment [])) : ReadsToken text (.eof, [], ⟨[], true⟩)

theorem readWord_scan : ∀ (text tok : List Byte), tok ≠ [] →
    (∃ last, readWord tok text = (.token, last, ⟨[], true⟩) ∧ ∀ s, scan s (.word tok) text = finish s (.word last)) ∨
      ∃ word rest, readWord tok text = (.token, word, ⟨rest, false⟩) ∧ rest.length ≤ text.length ∧
        ∀ s, scan s (.word tok) text = (bounded word (step s (.word word))).bind (scan · .idle rest)
  | [], tok, given => by
    left
    refine ⟨tok, ?_, fun s => rfl⟩
    rw [readWord, if_neg (by simpa using given)]
  | ch :: rest, tok, _ => by
    rw [readWord]
    by_cases delimited : inSet delimiters ch = true
    · right
      rw [if_pos delimited]
      refine ⟨tok, ch :: rest, rfl, le_rfl, fun s => ?_⟩
      rw [scan, feed, if_pos delimited]
      cases bounded tok (step s (.word tok)) with
      | error failure => rfl
      | ok s => rfl
    · rw [if_neg delimited]
      by_cases ends : inSet lineEnds ch = true
      · right
        rw [if_pos ends]
        refine ⟨tok, rest, rfl, Nat.le_succ _, fun s => ?_⟩
        rw [scan, feed, if_neg delimited, if_pos ends]
        cases bounded tok (step s (.word tok)) with
        | error failure => rfl
        | ok s => rfl
      · rw [if_neg ends]
        have goes : ∀ s, scan s (.word tok) (ch :: rest) = scan s (.word (tok ++ [ch])) rest := fun s => by
          rw [scan, feed, if_neg delimited, if_neg ends]
          rfl
        rcases readWord_scan rest (tok ++ [ch]) (by simp) with ⟨last, read, scans⟩ | ⟨word, left, read, shorter, scans⟩
        · exact Or.inl ⟨last, read, fun s => (goes s).trans (scans s)⟩
        · exact Or.inr ⟨word, left, read, Nat.le_succ_of_le shorter, fun s => (goes s).trans (scans s)⟩

theorem readComment_scan : ∀ (text tok : List Byte),
    (∃ last, readComment tok text = (if last.isEmpty then .eof else .comment, last, ⟨[], true⟩) ∧
        ∀ s, scan s (.comment tok) text = finish s (.comment last)) ∨
      ∃ comment rest, readComment tok text = (.comment, comment, ⟨rest, false⟩) ∧ rest.length ≤ text.length ∧
        ∀ s, scan s (.comment tok) text = (bounded comment (step s (.comment comment))).bind (scan · .idle rest)
  | [], tok => Or.inl ⟨tok, rfl, fun _ => rfl⟩
  | ch :: rest, tok => by
    rw [readComment]
    by_cases ends : inSet lineEnds ch = true
    · right
      rw [if_pos ends]
      refine ⟨tok, rest, rfl, Nat.le_succ _, fun s => ?_⟩
      rw [scan, feed, if_pos ends]
      cases bounded tok (step s (.comment tok)) with
      | error failure => rfl
      | ok s => rfl
    · rw [if_neg ends]
      have goes : ∀ s, scan s (.comment tok) (ch :: rest) = scan s (.comment (tok ++ [ch])) rest := fun s => by
        rw [scan, feed, if_neg ends]
        rfl
      rcases readComment_scan rest (tok ++ [ch]) with ⟨last, read, scans⟩ | ⟨comment, left, read, shorter, scans⟩
      · exact Or.inl ⟨last, read, fun s => (goes s).trans (scans s)⟩
      · exact Or.inr ⟨comment, left, read, Nat.le_succ_of_le shorter, fun s => (goes s).trans (scans s)⟩

theorem delimiters_of_blank {ch : Byte} (solid : inSet blanks ch = false)
    (other : ch ≠ 91 ∧ ch ≠ 93 ∧ ch ≠ 61 ∧ ch ≠ 35) :
    inSet delimiters ch = false ∧ inSet lineEnds ch = false := by
  simp only [inSet, blanks, delimiters, lineEnds, Bool.or_eq_false_iff, List.contains_cons, List.contains_nil,
    beq_eq_false_iff_ne, ne_eq] at solid ⊢
  tauto

theorem readToken_reads {ch : Byte} (solid : inSet blanks ch = false) (rest : List Byte) :
    ReadsToken (ch :: rest) (readToken (ch :: rest)) := by
  have starts : ∀ s, scan s .idle (ch :: rest) = (start s ch).bind fun after => scan after.1 after.2 rest :=
    fun _ => rfl
  have shorter : rest.length < (ch :: rest).length := Nat.lt_succ_self _
  have marked : ∀ (s : State) (token : Token),
      ((step s token).map fun s => (s, Reading.idle)).bind (fun after => scan after.1 after.2 rest) =
      (step s token).bind (scan · .idle rest) := by
    intro s token
    cases step s token with
    | error failure => rfl
    | ok s => rfl
  rw [readToken]
  by_cases opens : ch = 91
  · rw [if_pos opens]
    refine .openBracket (fun s => ?_) shorter
    rw [starts, start, if_neg (by simp [solid]), if_pos opens, marked]
  rw [if_neg opens]
  by_cases closes : ch = 93
  · rw [if_pos closes]
    refine .closeBracket (fun s => ?_) shorter
    rw [starts, start, if_neg (by simp [solid]), if_neg opens, if_pos closes, marked]
  rw [if_neg closes]
  by_cases equals : ch = 61
  · rw [if_pos equals]
    refine .equal (fun s => ?_) shorter
    rw [starts, start, if_neg (by simp [solid]), if_neg opens, if_neg closes, if_pos equals, marked]
  rw [if_neg equals]
  by_cases comments : ch = 35
  · rw [if_pos comments]
    have goes : ∀ s, scan s .idle (ch :: rest) = scan s (.comment []) rest := fun s => by
      rw [starts, start, if_neg (by simp [solid]), if_neg opens, if_neg closes, if_neg equals, if_pos comments]
      rfl
    rcases readComment_scan rest [] with ⟨last, read, scans⟩ | ⟨comment, left, read, fewer, scans⟩
    · rw [read]
      cases last with
      | nil => exact .hash fun s => (goes s).trans (scans s)
      | cons c last =>
        exact .lastComment (fun s => (goes s).trans (scans s)) (List.cons_ne_nil c last) (List.cons_ne_nil ch rest)
    · rw [read]
      exact .comment (fun s => (goes s).trans (scans s)) (Nat.lt_succ_of_le fewer)
  rw [if_neg comments]
  obtain ⟨inside, same⟩ := delimiters_of_blank solid ⟨opens, closes, equals, comments⟩
  have goes : ∀ s, scan s .idle (ch :: rest) = scan s (.word [ch]) rest := fun s => by
    rw [starts, start, if_neg (by simp [solid]), if_neg opens, if_neg closes, if_neg equals, if_neg comments]
    rfl
  rw [readWord, if_neg (by simp [inside]), if_neg (by simp [same])]
  rcases readWord_scan rest [ch] (List.cons_ne_nil ch []) with ⟨last, read, scans⟩ | ⟨word, left, read, fewer, scans⟩
  · rw [List.nil_append, read]
    exact .lastWord (fun s => (goes s).trans (scans s)) (List.cons_ne_nil ch rest)
  · rw [List.nil_append, read]
    exact .word (fun s => (goes s).trans (scans s)) (Nat.lt_succ_of_le fewer)

theorem scan_blank {ch : Byte} (blank : inSet blanks ch = true) (s : State) (rest : List Byte) :
    scan s .idle (ch :: rest) = scan s .idle rest := by
  rw [scan, feed, start, if_pos blank]
  rfl

theorem skipSpaces_scan : ∀ text : List Byte,
    skipSpaces text = (.eof, ⟨[], true⟩) ∧ (∀ s, scan s .idle text = accept s) ∨
      ∃ ch rest, skipSpaces text = (.token, ⟨ch :: rest, false⟩) ∧ inSet blanks ch = false ∧
        (ch :: rest).length ≤ text.length ∧
        ∀ s, scan s .idle text = scan s .idle (ch :: rest)
  | [] => Or.inl ⟨rfl, fun _ => rfl⟩
  | ch :: rest => by
    rw [skipSpaces]
    cases blank : inSet blanks ch with
    | false => exact Or.inr ⟨ch, rest, rfl, blank, le_rfl, fun _ => rfl⟩
    | true =>
      rw [if_pos rfl]
      rcases skipSpaces_scan rest with ⟨skipped, scans⟩ | ⟨first, left, skipped, solid, fewer, scans⟩
      · exact Or.inl ⟨skipped, fun s => (scan_blank blank s rest).trans (scans s)⟩
      · exact Or.inr ⟨first, left, skipped, solid, Nat.le_succ_of_le fewer, fun s =>
          (scan_blank blank s rest).trans (scans s)⟩

/-- What the next token is, blanks and the end of the file included. -/
theorem nextToken_reads (text : List Byte) :
    nextToken text = (.eof, [], ⟨[], true⟩) ∧ (∀ s, scan s .idle text = accept s) ∨
      ∃ left, left.length ≤ text.length ∧ left ≠ [] ∧ (∀ s, scan s .idle text = scan s .idle left) ∧
        ReadsToken left (nextToken text) := by
  rw [nextToken]
  rcases skipSpaces_scan text with ⟨skipped, scans⟩ | ⟨ch, rest, skipped, solid, fewer, scans⟩
  · rw [skipped]
    exact Or.inl ⟨rfl, scans⟩
  · rw [skipped]
    exact Or.inr ⟨ch :: rest, fewer, List.cons_ne_nil ch rest, scans, readToken_reads solid rest⟩

/-- A continuation of the reader that does for each token what the machine does. -/
structure Follows (s : State) (after : Elto → List Byte → File → Except Failure (List Partition)) : Prop where
  blank : after .eof [] ⟨[], true⟩ = accept s
  hash : after .eof [] ⟨[], true⟩ = finish s (.comment [])
  openBracket : ∀ rest, after .openBracket [91] ⟨rest, false⟩ = (step s .openBracket).bind (scan · .idle rest)
  closeBracket : ∀ rest, after .closeBracket [93] ⟨rest, false⟩ = (step s .closeBracket).bind (scan · .idle rest)
  equal : ∀ rest, after .equal [61] ⟨rest, false⟩ = (step s .equal).bind (scan · .idle rest)
  word : ∀ tok rest, after .token tok ⟨rest, false⟩ = (step s (.word tok)).bind (scan · .idle rest)
  lastWord : ∀ tok, tok.length < maxTokenLen → after .token tok ⟨[], true⟩ = finish s (.word tok)
  comment : ∀ tok rest, after .comment tok ⟨rest, false⟩ = (step s (.comment tok)).bind (scan · .idle rest)
  lastComment : ∀ tok, tok ≠ [] → tok.length < maxTokenLen → after .comment tok ⟨[], true⟩ = finish s (.comment tok)

theorem next_eq (file : File) : next file = bounded (nextToken file.rest).2.1 (.ok (nextToken file.rest)) := rfl

theorem scan_next {s : State} {after : Elto → List Byte → File → Except Failure (List Partition)}
    (follows : Follows s after) (file : File) :
    (next file).bind (fun read => after read.1 read.2.1 read.2.2) = scan s .idle file.rest := by
  rw [next_eq]
  rcases nextToken_reads file.rest with ⟨read, scans⟩ | ⟨left, -, -, skipped, reads⟩
  · rw [read, scans]
    exact follows.blank
  rw [skipped]
  generalize nextToken file.rest = read at reads
  cases reads with
  | openBracket scans shorter => exact (follows.openBracket _).trans (scans s).symm
  | closeBracket scans shorter => exact (follows.closeBracket _).trans (scans s).symm
  | equal scans shorter => exact (follows.equal _).trans (scans s).symm
  | @word tok rest scans shorter =>
    rw [scans, bounded, bounded]
    split
    · exact follows.word tok rest
    · rfl
  | @lastWord tok scans some =>
    rw [scans, bounded]
    split
    next short => exact follows.lastWord tok short
    next long =>
      simp only [finish, bounded, if_neg long]
      rfl
  | @comment tok rest scans shorter =>
    rw [scans, bounded, bounded]
    split
    · exact follows.comment tok rest
    · rfl
  | @lastComment tok scans some nonempty =>
    rw [scans, bounded]
    split
    next short => exact follows.lastComment tok some short
    next long =>
      simp only [finish, bounded, if_neg long]
      rfl
  | hash scans => exact follows.hash.trans (scans s).symm

theorem scan_reads {s : State} {after : Elto → List Byte → File → Except Failure (List Partition)}
    (follows : Follows s after) (file : File)
    (then_ : Elto × List Byte × File → Except Failure (List Partition))
    (same : ∀ elto tok left, next file = .ok (elto, tok, left) → then_ (elto, tok, left) = after elto tok left) :
    (next file >>= then_) = scan s .idle file.rest := by
  rw [← scan_next follows]
  cases read : next file with
  | error failure => rfl
  | ok token => exact same token.1 token.2.1 token.2.2 read

theorem expect_bind {α : Type} (elto : Elto) (file : File) (then_ : List Byte × File → Except Failure α) :
    (expect elto file >>= then_) =
      next file >>= fun read => if read.1 = elto then then_ (read.2.1, read.2.2) else .error .rejected := by
  rw [expect, bind_assoc]
  refine congrArg (next file >>= ·) (funext fun read => ?_)
  by_cases same : read.1 = elto
  · simp only [if_pos same]
    rfl
  · simp only [if_neg same]
    rfl

/-- Reading a token takes at least one byte off the file, and only a word or a comment can meet
its end. -/
theorem next_shorter {file left : File} {elto : Elto} {tok : List Byte} (read : next file = .ok (elto, tok, left)) :
    elto = .eof ∧ left = ⟨[], true⟩ ∨ left.rest.length < file.rest.length ∧
      (left.feof = false ∨ left = ⟨[], true⟩ ∧ (elto = .token ∨ elto = .comment)) := by
  rw [next_eq] at read
  rcases nextToken_reads file.rest with ⟨ended, -⟩ | ⟨text, fewer, nonempty, -, reads⟩
  · rw [ended] at read
    obtain ⟨rfl, -, rfl⟩ : .eof = elto ∧ [] = tok ∧ ⟨[], true⟩ = left := by simpa using Except.ok.inj read
    exact Or.inl ⟨rfl, rfl⟩
  · have ended : ([] : List Byte).length < file.rest.length := (List.length_pos_of_ne_nil nonempty).trans_le fewer
    generalize nextToken file.rest = token at read reads
    rw [bounded] at read
    split at read
    · obtain rfl := Except.ok.inj read
      cases reads with
      | openBracket _ shorter => exact Or.inr ⟨shorter.trans_le fewer, Or.inl rfl⟩
      | closeBracket _ shorter => exact Or.inr ⟨shorter.trans_le fewer, Or.inl rfl⟩
      | equal _ shorter => exact Or.inr ⟨shorter.trans_le fewer, Or.inl rfl⟩
      | word _ shorter => exact Or.inr ⟨shorter.trans_le fewer, Or.inl rfl⟩
      | comment _ shorter => exact Or.inr ⟨shorter.trans_le fewer, Or.inl rfl⟩
      | lastWord _ _ => exact Or.inr ⟨ended, Or.inr ⟨rfl, Or.inl rfl⟩⟩
      | lastComment _ _ _ => exact Or.inr ⟨ended, Or.inr ⟨rfl, Or.inr rfl⟩⟩
      | hash _ => exact Or.inl ⟨rfl, rfl⟩
    · cases read

theorem next_fewer {file left : File} {elto : Elto} {tok : List Byte} (read : next file = .ok (elto, tok, left)) :
    left.rest.length ≤ file.rest.length := by
  rcases next_shorter read with ⟨-, rfl⟩ | ⟨shorter, -⟩
  · exact Nat.zero_le _
  · exact shorter.le

section
variable (done : List Partition) (part : Partition) (key : List Byte)

theorem follows_outside : Follows ⟨done, .outside⟩ fun elto _ file =>
    if file.feof then .ok done
    else if elto = .comment then scan ⟨done, .outside⟩ .idle file.rest
    else if elto ≠ .openBracket then .error .rejected
    else scan ⟨done, .opened⟩ .idle file.rest where
  blank := rfl
  hash := rfl
  openBracket _ := rfl
  closeBracket _ := rfl
  equal _ := rfl
  word _ _ := rfl
  lastWord _ short := (if_pos short).symm
  comment _ _ := rfl
  lastComment _ _ short := (if_pos short).symm

theorem follows_opened : Follows ⟨done, .opened⟩ fun _ tok file =>
    if sameTag tok tagPartition then scan ⟨done, .named⟩ .idle file.rest else .error .rejected where
  blank := rfl
  hash := rfl
  openBracket _ := rfl
  closeBracket _ := rfl
  equal _ := rfl
  word tok rest := by
    simp only [step]
    split <;> rfl
  lastWord tok short := by
    simp only [finish, bounded, if_pos short, step]
    split <;> rfl
  comment tok rest := by
    simp only [step]
    split <;> rfl
  lastComment tok some short := by
    simp only [finish, bounded, if_pos short]
    split <;> rfl

theorem follows_named : Follows ⟨done, .named⟩ fun elto _ file =>
    if elto = .closeBracket then scan ⟨done, .between Partition.new false⟩ .idle file.rest else .error .rejected where
  blank := rfl
  hash := rfl
  openBracket _ := rfl
  closeBracket _ := rfl
  equal _ := rfl
  word _ _ := rfl
  lastWord _ short := (if_pos short).symm
  comment _ _ := rfl
  lastComment _ _ short := (if_pos short).symm

theorem follows_between : Follows ⟨done, .between part false⟩ fun elto tok file =>
    if elto = .openBracket then scan ⟨done ++ [part], .opened⟩ .idle file.rest
    else if elto = .comment then
      if file.feof then .ok (done ++ [part]) else scan ⟨done, .between part false⟩ .idle file.rest
    else if elto ≠ .token then .error .rejected
    else scan ⟨done, .keyed part tok⟩ .idle file.rest where
  blank := rfl
  hash := rfl
  openBracket _ := rfl
  closeBracket _ := rfl
  equal _ := rfl
  word _ _ := rfl
  lastWord _ short := (if_pos short).symm
  comment _ _ := rfl
  lastComment tok some short := by
    obtain ⟨c, tok, rfl⟩ := List.exists_cons_of_ne_nil some
    exact (if_pos short).symm

theorem follows_keyed : Follows ⟨done, .keyed part key⟩ fun elto _ file =>
    if elto = .equal then scan ⟨done, .assigned part key⟩ .idle file.rest else .error .rejected where
  blank := rfl
  hash := rfl
  openBracket _ := rfl
  closeBracket _ := rfl
  equal _ := rfl
  word _ _ := rfl
  lastWord _ short := (if_pos short).symm
  comment _ _ := rfl
  lastComment _ _ short := (if_pos short).symm

theorem follows_assigned : Follows ⟨done, .assigned part key⟩ fun elto tok file =>
    if elto = .token then (setValue part key tok).bind fun part => scan ⟨done, .between part true⟩ .idle file.rest
    else .error .rejected where
  blank := rfl
  hash := rfl
  openBracket _ := rfl
  closeBracket _ := rfl
  equal _ := rfl
  word tok rest := by
    simp only [step, if_true]
    cases setValue part key tok with
    | error failure => rfl
    | ok part => rfl
  lastWord tok short := by
    simp only [finish, bounded, if_pos short, step, if_true]
    cases setValue part key tok with
    | error failure => rfl
    | ok part => rfl
  comment _ _ := rfl
  lastComment _ _ short := (if_pos short).symm

/-- A token after a value is read as one after a comment or a header. -/
theorem scan_settled {ch : Byte} (solid : inSet blanks ch = false) (rest : List Byte) :
    scan ⟨done, .between part true⟩ .idle (ch :: rest) = scan ⟨done, .between part false⟩ .idle (ch :: rest) := by
  have reads := readToken_reads solid rest
  generalize readToken (ch :: rest) = read at reads
  cases reads with
  | openBracket scans _ => exact (scans ⟨done, .between part true⟩).trans (scans ⟨done, .between part false⟩).symm
  | closeBracket scans _ => exact (scans ⟨done, .between part true⟩).trans (scans ⟨done, .between part false⟩).symm
  | equal scans _ => exact (scans ⟨done, .between part true⟩).trans (scans ⟨done, .between part false⟩).symm
  | word scans _ => exact (scans ⟨done, .between part true⟩).trans (scans ⟨done, .between part false⟩).symm
  | lastWord scans _ => exact (scans ⟨done, .between part true⟩).trans (scans ⟨done, .between part false⟩).symm
  | comment scans _ => exact (scans ⟨done, .between part true⟩).trans (scans ⟨done, .between part false⟩).symm
  | lastComment scans some _ =>
    obtain ⟨c, tok, rfl⟩ := List.exists_cons_of_ne_nil some
    exact (scans ⟨done, .between part true⟩).trans (scans ⟨done, .between part false⟩).symm
  | hash scans => exact (scans ⟨done, .between part true⟩).trans (scans ⟨done, .between part false⟩).symm

theorem fields_scan (then_ : Partition × Elto × File → Except Failure (List Partition))
    (ended : ∀ part elto left, then_ (part, elto, ⟨left, true⟩) = .ok (done ++ [part])) :
    ∀ (fuel : Nat) (rest : List Byte) (elto : Elto) (part : Partition), rest.length < fuel →
      (∀ part left, left.length < rest.length → then_ (part, .openBracket, ⟨left, false⟩) =
        scan ⟨done ++ [part], .opened⟩ .idle left) →
      (fields fuel ⟨rest, false⟩ elto part >>= then_) = scan ⟨done, .between part false⟩ .idle rest
  | fuel + 1, rest, elto, part, enough, opened => by
    rw [fields, if_neg Bool.false_ne_true, bind_assoc]
    refine scan_reads (follows_between done part) ⟨rest, false⟩ _ fun elto tok left read => ?_
    have stops : ∀ (part : Partition) (elto : Elto) (left : List Byte), 0 < fuel →
        (fields fuel ⟨left, true⟩ elto part >>= then_) = .ok (done ++ [part]) := by
      intro part elto left some
      obtain ⟨fuel, rfl⟩ := Nat.exists_eq_succ_of_ne_zero some.ne'
      exact ended part elto left
    rcases next_shorter read with ⟨rfl, rfl⟩ | ⟨shorter, goes⟩
    · rfl
    have some : 0 < fuel := by
      have := Nat.lt_of_lt_of_le shorter (Nat.le_of_lt_succ enough)
      omega
    obtain ⟨left, feof⟩ := left
    have again : ∀ (part : Partition) (elto : Elto) (text : List Byte), text.length ≤ left.length →
        (fields fuel ⟨text, false⟩ elto part >>= then_) = scan ⟨done, .between part false⟩ .idle text := by
      intro part elto text fewer
      have inside : text.length < rest.length := fewer.trans_lt shorter
      have room : text.length < fuel := inside.trans_le (Nat.le_of_lt_succ enough)
      refine fields_scan then_ ended fuel text elto part room fun part left less => ?_
      exact opened part left (less.trans inside)
    cases elto with
    | openBracket =>
      obtain rfl : feof = false := by simpa using goes
      exact opened part left shorter
    | comment =>
      cases feof with
      | true => exact stops part .comment left some
      | false => exact again part .comment left le_rfl
    | token =>
      change ((expect .equal ⟨left, feof⟩ >>= fun _ => _) >>= then_) = scan ⟨done, .keyed part tok⟩ .idle left
      rw [bind_assoc, expect_bind]
      refine scan_reads (follows_keyed done part tok) ⟨left, feof⟩ _ fun elto mark valued readMark => ?_
      by_cases equals : elto = .equal
      · simp only [if_pos equals]
        rw [bind_assoc, expect_bind]
        refine scan_reads (follows_assigned done part tok) valued _ fun elto value after readValue => ?_
        by_cases word : elto = .token
        · simp only [if_pos word]
          cases setValue part tok value with
          | error failure => rfl
          | ok part =>
            change (fields fuel (skipSpaces after.rest).2 (skipSpaces after.rest).1 part >>= then_) =
              scan ⟨done, .between part true⟩ .idle after.rest
            rcases skipSpaces_scan after.rest with ⟨skipped, scans⟩ | ⟨ch, rest, skipped, solid, fewer, scans⟩
            · rw [skipped, scans]
              exact stops part .eof [] some
            · rw [skipped, scans, scan_settled done part solid]
              exact again part .token (ch :: rest) (fewer.trans ((next_fewer readValue).trans (next_fewer readMark)))
        · simp only [if_neg word]
      · simp only [if_neg equals]
    | eof => rfl
    | closeBracket => rfl
    | equal => rfl

end

theorem sections_scan : ∀ (fuel : Nat) (rest : List Byte) (done : List Partition), rest.length < fuel →
    sections fuel ⟨rest, false⟩ .openBracket done = scan ⟨done, .opened⟩ .idle rest
  | fuel + 1, rest, done, enough => by
    change (next ⟨rest, false⟩ >>= fun _ => _) = scan ⟨done, .opened⟩ .idle rest
    refine scan_reads (follows_opened done) ⟨rest, false⟩ _ fun elto name named readName => ?_
    by_cases same : sameTag name tagPartition = true
    · simp only [if_pos same]
      rw [expect_bind]
      refine scan_reads (follows_named done) named _ fun elto mark left readMark => ?_
      by_cases closes : elto = .closeBracket
      · subst closes
        simp only [if_true]
        rcases next_shorter readMark with ⟨marked, -⟩ | ⟨shorter, goes⟩
        · cases marked
        obtain ⟨left, feof⟩ := left
        obtain rfl : feof = false := by simpa using goes
        have inside : left.length < fuel := shorter.trans_le ((next_fewer readName).trans (Nat.le_of_lt_succ enough))
        refine fields_scan done _ ?_ (left.length + 1) left .closeBracket Partition.new
          (Nat.lt_succ_self _) fun part text less => ?_
        · intro part elto text
          obtain ⟨fuel, rfl⟩ := Nat.exists_eq_succ_of_ne_zero (Nat.ne_zero_of_lt inside)
          rfl
        · exact sections_scan fuel text (done ++ [part]) (less.trans inside)
      · simp only [if_neg closes]
    · simp only [if_neg same]

theorem comments_scan : ∀ (fuel : Nat) (file : File), file.rest.length < fuel →
    (next file >>= fun read => sections fuel read.2.2 read.1 []) = scan ⟨[], .outside⟩ .idle file.rest
  | fuel + 1, file, enough => by
    refine scan_reads (follows_outside []) file _ fun elto tok left read => ?_
    obtain ⟨left, feof⟩ := left
    rcases next_shorter read with ⟨rfl, ended⟩ | ⟨shorter, goes⟩
    · obtain rfl : feof = true := congrArg File.feof ended
      rfl
    have inside : left.length < fuel := shorter.trans_le (Nat.le_of_lt_succ enough)
    cases feof with
    | true => rfl
    | false =>
      cases elto with
      | comment => exact comments_scan fuel ⟨left, false⟩ inside
      | openBracket => exact sections_scan (fuel + 1) left [] (inside.trans (Nat.lt_succ_self _))
      | eof => rfl
      | token => rfl
      | closeBracket => rfl
      | equal => rfl

/-- The reader is the machine. -/
theorem xpnConfReaderLoad_scan (conf : List Byte) : xpnConfReaderLoad conf = scan ⟨[], .outside⟩ .idle conf :=
  comments_scan (conf.length + 1) ⟨conf, false⟩ (Nat.lt_succ_self _)

theorem ok_of_bind {α β : Type} {x : Except Failure α} {f : α → Except Failure β} {b : β} (loads : x.bind f = .ok b) :
    ∃ a, x = .ok a ∧ f a = .ok b := by
  cases x with
  | error failure => cases loads
  | ok a => exact ⟨a, rfl, loads⟩

theorem ok_of_bounded {α : Type} {tok : List Byte} {x : Except Failure α} {a : α}
    (loads : bounded tok x = .ok a) : x = .ok a := by
  rw [bounded] at loads
  split at loads
  · exact loads
  · cases loads

theorem ok_of_map {α β : Type} {x : Except Failure α} {f : α → β} {b : β} (loads : x.map f = .ok b) :
    ∃ a, x = .ok a ∧ f a = b := by
  cases x with
  | error failure => cases loads
  | ok a => exact ⟨a, rfl, Except.ok.inj loads⟩

/-- Behind an open bracket a word or a comment can only be the name of a section. -/
theorem named_of_step {done : List Partition} {name : List Byte} {after : State}
    (stepped : step ⟨done, .opened⟩ (.word name) = .ok after ∨ step ⟨done, .opened⟩ (.comment name) = .ok after) :
    after = ⟨done, .named⟩ := by
  have named : (if sameTag name tagPartition then (Except.ok ⟨done, .named⟩) else .error Failure.rejected) =
      .ok after := stepped.elim id id
  split at named
  · exact (Except.ok.inj named).symm
  · cases named

/-- A value closes its entry. -/
theorem set_of_step {done : List Partition} {part : Partition} {key value : List Byte} {after : State}
    (stepped : step ⟨done, .assigned part key⟩ (.word value) = .ok after) :
    ∃ next, setValue part key value = .ok next ∧ after = ⟨done, .between next true⟩ := by
  obtain ⟨next, made, same⟩ := ok_of_map stepped
  exact ⟨next, made, same.symm⟩

def Place.part? : Place → Option Partition
  | .between part _ => some part
  | .keyed part _ => some part
  | .assigned part _ => some part
  | _ => none

def State.All (p : Partition → Prop) (s : State) : Prop :=
  (∀ part ∈ s.done, p part) ∧ ∀ part, s.place.part? = some part → p part

theorem State.All.close {p : Partition → Prop} {done : List Partition} {part : Partition} {settled : Bool}
    (all : State.All p ⟨done, .between part settled⟩) : ∀ other ∈ done ++ [part], p other := by
  intro other inside
  rcases List.mem_append.mp inside with before | last
  · exact all.1 other before
  · rw [List.mem_singleton.mp last]
    exact all.2 part rfl

theorem accept_all {p : Partition → Prop} {s : State} {partitions : List Partition} (all : s.All p)
    (accepts : accept s = .ok partitions) : ∀ part ∈ partitions, p part := by
  obtain ⟨done, place⟩ := s
  cases place with
  | outside =>
    obtain rfl := Except.ok.inj accepts
    exact all.1
  | between part settled =>
    cases settled with
    | false => cases accepts
    | true =>
      obtain rfl := Except.ok.inj accepts
      exact all.close
  | _ => cases accepts

section
variable {p : Partition → Prop} (fresh : p Partition.new)
  (sets : ∀ {part key value after}, p part → setValue part key value = .ok after → p after)
include fresh sets

theorem step_all {s after : State} {token : Token} (all : s.All p) (stepped : step s token = .ok after) :
    after.All p := by
  obtain ⟨done, place⟩ := s
  have closed : State.All p ⟨done, .opened⟩ ∧ State.All p ⟨done, .named⟩ :=
    ⟨⟨all.1, fun _ none => by cases none⟩, all.1, fun _ none => by cases none⟩
  cases place with
  | outside =>
    cases token with
    | comment _ =>
      obtain rfl := Except.ok.inj stepped
      exact all
    | openBracket =>
      obtain rfl := Except.ok.inj stepped
      exact closed.1
    | _ => cases stepped
  | opened =>
    cases token with
    | word name =>
      obtain rfl := named_of_step (Or.inl stepped)
      exact closed.2
    | comment name =>
      obtain rfl := named_of_step (Or.inr stepped)
      exact closed.2
    | _ => cases stepped
  | named =>
    cases token with
    | closeBracket =>
      obtain rfl := Except.ok.inj stepped
      exact ⟨all.1, fun part same => Option.some.inj same ▸ fresh⟩
    | _ => cases stepped
  | between part settled =>
    cases token with
    | comment _ =>
      obtain rfl := Except.ok.inj stepped
      exact ⟨all.1, all.2⟩
    | openBracket =>
      obtain rfl := Except.ok.inj stepped
      exact ⟨all.close, fun _ none => by cases none⟩
    | word key =>
      obtain rfl := Except.ok.inj stepped
      exact ⟨all.1, all.2⟩
    | _ => cases stepped
  | keyed part key =>
    cases token with
    | equal =>
      obtain rfl := Except.ok.inj stepped
      exact ⟨all.1, all.2⟩
    | _ => cases stepped
  | assigned part key =>
    cases token with
    | word value =>
      obtain ⟨next, made, rfl⟩ := set_of_step stepped
      exact ⟨all.1, fun part same => Option.some.inj same ▸ sets (all.2 _ rfl) made⟩
    | _ => cases stepped

theorem start_all {s : State} {ch : Byte} {after : State × Reading} (all : s.All p)
    (started : start s ch = .ok after) : after.1.All p := by
  have marked : ∀ token, (step s token).map (·, Reading.idle) = .ok after → after.1.All p := by
    intro token mapped
    obtain ⟨next, stepped, rfl⟩ := ok_of_map mapped
    exact step_all fresh sets all stepped
  rw [start] at started
  split at started
  · obtain rfl := Except.ok.inj started
    exact all
  split at started
  · exact marked _ started
  split at started
  · exact marked _ started
  split at started
  · exact marked _ started
  split at started
  · obtain rfl := Except.ok.inj started
    exact all
  · obtain rfl := Except.ok.inj started
    exact all

theorem feed_all {s : State} {reading : Reading} {ch : Byte} {after : State × Reading} (all : s.All p)
    (fed : feed s reading ch = .ok after) :
    after.1.All p := by
  cases reading with
  | idle => exact start_all fresh sets all fed
  | word tok =>
    rw [feed] at fed
    split at fed
    · obtain ⟨next, stepped, started⟩ := ok_of_bind fed
      exact start_all fresh sets (step_all fresh sets all (ok_of_bounded stepped)) started
    split at fed
    · obtain ⟨next, stepped, rfl⟩ := ok_of_map fed
      exact step_all fresh sets all (ok_of_bounded stepped)
    · obtain rfl := Except.ok.inj fed
      exact all
  | comment tok =>
    rw [feed] at fed
    split at fed
    · obtain ⟨next, stepped, rfl⟩ := ok_of_map fed
      exact step_all fresh sets all (ok_of_bounded stepped)
    · obtain rfl := Except.ok.inj fed
      exact all

theorem finish_all {s : State} {reading : Reading} {partitions : List Partition} (all : s.All p)
    (finished : finish s reading = .ok partitions) :
    ∀ part ∈ partitions, p part := by
  cases reading with
  | idle => exact accept_all all finished
  | word tok =>
    have ended := ok_of_bounded finished
    split at ended
    · obtain rfl := Except.ok.inj ended
      exact all.1
    · obtain ⟨next, stepped, accepts⟩ := ok_of_bind ended
      exact accept_all (step_all fresh sets all stepped) accepts
  | comment tok =>
    have ended := ok_of_bounded finished
    obtain ⟨done, place⟩ := s
    cases place with
    | outside =>
      obtain rfl := Except.ok.inj ended
      exact all.1
    | between part settled =>
      cases tok with
      | nil => cases ended
      | cons c tok =>
        obtain rfl := Except.ok.inj ended
        exact all.close
    | _ => cases ended

theorem scan_all {s : State} {reading : Reading} {text : List Byte} {partitions : List Partition} (all : s.All p)
    (loads : scan s reading text = .ok partitions) : ∀ part ∈ partitions, p part := by
  induction text generalizing s reading with
  | nil => exact finish_all fresh sets all loads
  | cons ch text ih =>
    obtain ⟨after, fed, loads⟩ := ok_of_bind loads
    exact ih (feed_all fresh sets all fed) loads

theorem xpnConfReaderLoad_all {conf : List Byte} {partitions : List Partition}
    (loads : xpnConfReaderLoad conf = .ok partitions) :
    ∀ part ∈ partitions, p part := by
  rw [xpnConfReaderLoad_scan] at loads
  exact scan_all fresh sets ⟨fun _ inside => absurd inside List.not_mem_nil, fun _ none => by cases none⟩ loads

end

end Xpn.Proofs.ConfReader
