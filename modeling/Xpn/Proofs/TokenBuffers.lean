import Xpn.TokenBuffers
import Xpn.Proofs.ConfReader

/-! Which files overrun a token buffer: those in which the reader comes to a token that is too
long. How a file falls into tokens does not depend on the grammar; how far the reader gets does. -/

namespace Xpn.Proofs.TokenBuffers
open Xpn.ConfReader Xpn.Proofs.ConfReader

def Escapes (writes : List Nat) : Prop := ∃ i ∈ writes, maxTokenLen ≤ i

theorem escapes_nil : ¬ Escapes [] := by
  rintro ⟨i, impossible, -⟩
  cases impossible

theorem escapes_append {first second : List Nat} : Escapes (first ++ second) ↔ Escapes first ∨ Escapes second := by
  simp only [Escapes, List.mem_append, or_and_right, exists_or]

theorem wordWrites_le (text tok : List Byte) : ∀ i ∈ wordWrites tok.length text, i ≤
    (readWord tok text).2.1.length := by
  induction text generalizing tok with
  | nil => exact List.forall_mem_singleton.mpr le_rfl
  | cons ch rest ih =>
    rw [wordWrites, readWord]
    split
    · exact List.forall_mem_singleton.mpr le_rfl
    split
    · exact List.forall_mem_singleton.mpr le_rfl
    · have later := ih (tok ++ [ch])
      have grown : tok.length ≤ (readWord (tok ++ [ch]) rest).2.1.length := by
        have first := later (tok.length + 1) (by rw [List.length_append]; cases rest <;> simp [wordWrites])
        omega
      rw [List.length_append] at later
      exact List.forall_mem_cons.mpr ⟨grown, List.forall_mem_cons.mpr ⟨grown, later⟩⟩

/-- The terminator of a token is written behind it. -/
theorem wordWrites_last (text tok : List Byte) : (readWord tok text).2.1.length ∈ wordWrites tok.length text := by
  induction text generalizing tok with
  | nil => exact List.mem_cons_self
  | cons ch rest ih =>
    rw [wordWrites, readWord]
    split
    · exact List.mem_cons_self
    split
    · exact List.mem_cons_self
    · have later := ih (tok ++ [ch])
      rw [List.length_append] at later
      exact List.mem_cons_of_mem _ (List.mem_cons_of_mem _ later)

theorem commentWrites_le (text tok : List Byte) :
    ∀ i ∈ commentWrites tok.length text, i ≤ (readComment tok text).2.1.length := by
  induction text generalizing tok with
  | nil => exact List.forall_mem_singleton.mpr le_rfl
  | cons ch rest ih =>
    rw [commentWrites, readComment]
    split
    · exact List.forall_mem_singleton.mpr le_rfl
    · have later := ih (tok ++ [ch])
      have grown : tok.length ≤ (readComment (tok ++ [ch]) rest).2.1.length := by
        have first := later (tok.length + 1) (by rw [List.length_append]; cases rest <;> simp [commentWrites])
        omega
      rw [List.length_append] at later
      exact List.forall_mem_cons.mpr ⟨grown, List.forall_mem_cons.mpr ⟨grown, later⟩⟩

theorem commentWrites_last (text tok : List Byte) :
    (readComment tok text).2.1.length ∈ commentWrites tok.length text := by
  induction text generalizing tok with
  | nil => exact List.mem_cons_self
  | cons ch rest ih =>
    rw [commentWrites, readComment]
    split
    · exact List.mem_cons_self
    · have later := ih (tok ++ [ch])
      rw [List.length_append] at later
      exact List.mem_cons_of_mem _ (List.mem_cons_of_mem _ later)

/-- Writes that go up to a length leave the buffer if the length does not fit. -/
theorem escapes_iff_of_last {writes : List Nat} {length : Nat} (last : length ∈ writes)
    (most : ∀ i ∈ writes, i ≤ length) :
    Escapes writes ↔ maxTokenLen ≤ length := by
  constructor
  · rintro ⟨i, member, beyond⟩
    exact beyond.trans (most i member)
  · exact fun beyond => ⟨length, last, beyond⟩

theorem escapes_token (text : List Byte) : Escapes (tokenWrites text) ↔ maxTokenLen ≤
    (readToken text).2.1.length := by
  have mark : ∀ i ∈ [0, 1], i ≤ 1 := by decide
  have second : 1 ∈ [0, 1] := by decide
  cases text with
  | nil => exact escapes_iff_of_last List.mem_cons_self (List.forall_mem_singleton.mpr le_rfl)
  | cons ch rest =>
    rw [tokenWrites, readToken]
    split
    · exact escapes_iff_of_last second mark
    split
    · exact escapes_iff_of_last second mark
    split
    · exact escapes_iff_of_last second mark
    split
    · exact escapes_iff_of_last (commentWrites_last rest []) (commentWrites_le rest [])
    · exact escapes_iff_of_last (wordWrites_last (ch :: rest) []) (wordWrites_le (ch :: rest) [])

theorem escapes_next (file : File) : Escapes (nextWrites file.rest) ↔ next file = .error .overrun := by
  have long : next file = .error .overrun ↔ maxTokenLen ≤ (nextToken file.rest).2.1.length := by
    unfold next
    split
    next elto tok left read =>
      rw [read]
      split
      next fits => exact iff_of_false (fun impossible => by cases impossible) (not_le.mpr fits)
      next beyond => exact iff_of_true rfl (not_lt.mp beyond)
  rw [long, nextWrites, nextToken]
  rcases skipSpaces_scan file.rest with ⟨skipped, -⟩ | ⟨ch, rest, skipped, -, -, -⟩
  · rw [skipped]
    exact iff_of_false escapes_nil (show ¬ maxTokenLen ≤ 0 by decide)
  · rw [skipped]
    exact escapes_token (ch :: rest)

theorem escapes_then {α β : Type} {before : Except Failure α} {writes : List Nat} {later : α → List Nat}
    {rest : α → Except Failure β} (here : Escapes writes ↔ before = .error .overrun)
    (there : ∀ a, Escapes (later a) ↔ rest a = .error .overrun) :
    Escapes (writes ++ thenWrites before later) ↔ (before >>= rest) = .error .overrun := by
  rw [escapes_append, here]
  cases before with
  | error failure =>
    refine (or_iff_left escapes_nil).trans ?_
    exact ⟨fun same => by cases same; rfl, fun same => by cases same; rfl⟩
  | ok a => exact (or_iff_right (fun impossible => by cases impossible)).trans (there a)

theorem escapes_expect (elto : Elto) (file : File) :
    Escapes (nextWrites file.rest) ↔ expect elto file = .error .overrun := by
  rw [escapes_next, expect]
  cases next file with
  | error failure => exact ⟨fun same => by cases same; rfl, fun same => by cases same; rfl⟩
  | ok read =>
    refine iff_of_false (fun impossible => by cases impossible) ?_
    change (if read.1 = elto then _ else _) ≠ _
    split <;> exact fun impossible => by cases impossible

theorem setValue_ne_overrun (part : Partition) (key value : List Byte) :
    setValue part key value ≠ .error .overrun := by
  unfold setValue
  split_ifs <;> exact fun impossible => by cases impossible

/-- Where nothing more is written the reader does not stop at an overrun. -/
theorem escapes_none {α : Type} {x : Except Failure α} (other : x ≠ .error .overrun) :
    Escapes [] ↔ x = .error .overrun := iff_of_false escapes_nil other

theorem ok_ne_overrun {α : Type} (a : α) : (.ok a : Except Failure α) ≠ .error .overrun := by
  intro impossible
  cases impossible

theorem rejected_ne_overrun {α : Type} : (.error .rejected : Except Failure α) ≠ .error .overrun := by
  intro impossible
  cases impossible

theorem escapes_fields (fuel : Nat) (file : File) (elto : Elto) (part : Partition) :
    Escapes (fieldsWrites fuel file part) ↔ fields fuel file elto part = .error .overrun := by
  induction fuel generalizing file elto part with
  | zero => exact escapes_none rejected_ne_overrun
  | succ fuel ih =>
    rw [fieldsWrites, fields]
    split
    · exact escapes_none (ok_ne_overrun _)
    apply escapes_then (escapes_next file)
    rintro ⟨elto, key, file⟩
    simp only
    split
    · exact escapes_none (ok_ne_overrun _)
    split
    · exact ih file elto part
    split
    · exact escapes_none rejected_ne_overrun
    apply escapes_then (escapes_expect .equal file)
    rintro ⟨-, file⟩
    apply escapes_then (escapes_expect .token file)
    rintro ⟨value, file⟩
    exact escapes_then (escapes_none (setValue_ne_overrun part key value)) fun part => ih _ _ part

theorem escapes_sections (fuel : Nat) (file : File) (elto : Elto) (partitions : List Partition) :
    Escapes (sectionsWrites fuel file elto) ↔ sections fuel file elto partitions = .error .overrun := by
  induction fuel generalizing file elto partitions with
  | zero => exact escapes_none rejected_ne_overrun
  | succ fuel ih =>
    rw [sectionsWrites, sections]
    split
    · exact escapes_none (ok_ne_overrun _)
    split
    · apply escapes_then (escapes_next file)
      rintro ⟨elto, -, file⟩
      exact ih file elto partitions
    split
    · exact escapes_none rejected_ne_overrun
    apply escapes_then (escapes_next file)
    rintro ⟨-, value, file⟩
    simp only
    split
    · apply escapes_then (escapes_expect .closeBracket file)
      rintro ⟨-, file⟩
      apply escapes_then (escapes_fields _ file .closeBracket Partition.new)
      rintro ⟨part, elto, file⟩
      exact ih file elto (partitions ++ [part])
    · exact escapes_none rejected_ne_overrun

theorem escapes_load (conf : List Byte) :
    Escapes (xpnConfReaderLoadWrites conf) ↔ xpnConfReaderLoad conf = .error .overrun := by
  apply escapes_then (escapes_next ⟨conf, false⟩)
  rintro ⟨elto, -, file⟩
  exact escapes_sections _ file elto []

def startToken (ch : Byte) : List Token × Reading :=
  if inSet blanks ch then ([], .idle)
  else if ch = 91 then ([.openBracket], .idle)
  else if ch = 93 then ([.closeBracket], .idle)
  else if ch = 61 then ([.equal], .idle)
  else if ch = 35 then ([], .comment [])
  else ([], .word [ch])

def feedToken (reading : Reading) (ch : Byte) : List Token × Reading :=
  match reading with
  | .idle => startToken ch
  | .word tok =>
    if inSet delimiters ch then (.word tok :: (startToken ch).1, (startToken ch).2)
    else if inSet lineEnds ch then ([.word tok], .idle)
    else ([], .word (tok ++ [ch]))
  | .comment tok => if inSet lineEnds ch then ([.comment tok], .idle) else ([], .comment (tok ++ [ch]))

def lastToken : Reading → List Token
  | .idle => []
  | .word tok => [.word tok]
  | .comment tok => [.comment tok]

def tokens (reading : Reading) : List Byte → List Token
  | [] => lastToken reading
  | ch :: rest => (feedToken reading ch).1 ++ tokens (feedToken reading ch).2 rest

def size : Token → Nat
  | .word tok | .comment tok => tok.length
  | .openBracket | .closeBracket | .equal => 1

/-- Every token fits, up to the first one that the grammar rejects. -/
def AllShort (s : State) : List Token → Prop
  | [] => True
  | token :: rest => size token < maxTokenLen ∧ ∀ after, step s token = .ok after → AllShort after rest

theorem map_ne_overrun {α β : Type} {x : Except Failure α} (f : α → β) (other : x ≠ .error .overrun) :
    x.map f ≠ .error .overrun := by
  cases x with
  | error failure =>
    intro same
    cases same
    exact other rfl
  | ok a => exact ok_ne_overrun _

theorem step_ne_overrun (s : State) (token : Token) : step s token ≠ .error .overrun := by
  have named (name : List Byte) (after : State) :
      (if sameTag name tagPartition then .ok after else .error .rejected : Except Failure State) ≠ .error .overrun := by
    split
    · exact ok_ne_overrun _
    · exact rejected_ne_overrun
  obtain ⟨done, place⟩ := s
  cases place with
  | assigned part key =>
    cases token with
    | word value => exact map_ne_overrun _ (setValue_ne_overrun part key value)
    | _ => exact rejected_ne_overrun
  | opened =>
    cases token with
    | word name | comment name => exact named name _
    | _ => exact rejected_ne_overrun
  | _ => cases token <;> first | exact ok_ne_overrun _ | exact rejected_ne_overrun

theorem accept_ne_overrun (s : State) : accept s ≠ .error .overrun := by
  obtain ⟨done, place⟩ := s
  cases place with
  | outside => exact ok_ne_overrun _
  | between part settled =>
    cases settled with
    | true => exact ok_ne_overrun _
    | false => exact rejected_ne_overrun
  | _ => exact rejected_ne_overrun

/-- The grammar on tokens, each of which has to fit. -/
def accepts (s : State) : List Token → Except Failure State
  | [] => .ok s
  | token :: rest => if size token < maxTokenLen then (step s token).bind (accepts · rest) else .error .overrun

theorem accepts_mark {token : Token} (mark : size token = 1) (s : State) : accepts s [token] = step s token := by
  rw [accepts, mark, if_pos (by decide)]
  cases step s token <;> rfl

theorem start_eq (s : State) (ch : Byte) :
    start s ch = (accepts s (startToken ch).1).map (·, (startToken ch).2) := by
  rw [start, startToken]
  split
  · rfl
  split
  · rw [accepts_mark rfl]
  split
  · rw [accepts_mark rfl]
  split
  · rw [accepts_mark rfl]
  split <;> rfl

theorem feed_eq (s : State) (reading : Reading) (ch : Byte) :
    feed s reading ch = (accepts s (feedToken reading ch).1).map (·, (feedToken reading ch).2) := by
  have ended (token : Token) (tok : List Byte) (same : size token = tok.length) (rest : List Token) :
      accepts s (token :: rest) = (bounded tok (step s token)).bind (accepts · rest) := by
    rw [accepts, bounded, same]
    split <;> rfl
  cases reading with
  | idle => exact start_eq s ch
  | word tok =>
    rw [feed, feedToken]
    split
    · rw [ended _ tok rfl]
      cases bounded tok (step s (.word tok)) with
      | error failure => rfl
      | ok after => exact start_eq after ch
    split
    · rw [ended _ tok rfl]
      cases bounded tok (step s (.word tok)) <;> rfl
    · rfl
  | comment tok =>
    rw [feed, feedToken]
    split
    · rw [ended _ tok rfl]
      cases bounded tok (step s (.comment tok)) <;> rfl
    · rfl

/-- The first tokens of a list fit, and so do the others where the grammar comes to them. -/
theorem allShort_append (s : State) (first rest : List Token) :
    AllShort s (first ++ rest)
      ↔ accepts s first ≠ .error .overrun ∧ ∀ after, accepts s first = .ok after → AllShort after rest := by
  induction first generalizing s with
  | nil =>
    constructor
    · intro short
      refine ⟨ok_ne_overrun _, fun after same => ?_⟩
      cases same
      exact short
    · exact fun both => both.2 s rfl
  | cons token first ih =>
    rw [List.cons_append, AllShort, accepts]
    by_cases fits : size token < maxTokenLen
    · rw [if_pos fits]
      cases stepped : step s token with
      | error failure =>
        have other : failure ≠ .overrun := fun same => step_ne_overrun s token (stepped.trans (congrArg _ same))
        refine iff_of_true ⟨fits, fun after impossible => by cases impossible⟩ ⟨?_, fun after impossible => by cases impossible⟩
        intro same
        cases same
        exact other rfl
      | ok next =>
        have followed : (size token < maxTokenLen
            ∧ ∀ after, (.ok next : Except Failure State) = .ok after → AllShort after (first ++ rest))
            ↔ AllShort next (first ++ rest) := by
          constructor
          · exact fun both => both.2 next rfl
          · intro short
            refine ⟨fits, fun after same => ?_⟩
            cases same
            exact short
        exact followed.trans (ih next)
    · rw [if_neg fits]
      exact iff_of_false (fun both => fits both.1) (fun both => both.1 rfl)

theorem finish_overrun_iff (s : State) (reading : Reading) :
    finish s reading = .error .overrun ↔ ¬ AllShort s (lastToken reading) := by
  have ended {tok : List Byte} {after : Except Failure (List Partition)} (other : after ≠ .error .overrun) (token : Token)
      (same : size token = tok.length) : bounded tok after = .error .overrun ↔ ¬ AllShort s [token] := by
    rw [bounded, AllShort, same]
    split
    next fits => exact iff_of_false other (fun long => long ⟨fits, fun _ _ => trivial⟩)
    next long => exact iff_of_true rfl (fun both => long both.1)
  cases reading with
  | idle => exact iff_of_false (accept_ne_overrun s) (fun long => long trivial)
  | word tok =>
    refine ended ?_ (.word tok) rfl
    obtain ⟨done, place⟩ := s
    have stepped (place : Place) : (step ⟨done, place⟩ (.word tok)).bind accept ≠ .error .overrun := by
      have other := step_ne_overrun ⟨done, place⟩ (.word tok)
      cases next : step ⟨done, place⟩ (.word tok) with
      | error failure =>
        intro same
        cases same
        exact other next
      | ok after => exact accept_ne_overrun after
    cases place with
    | outside => exact ok_ne_overrun _
    | _ => exact stepped _
  | comment tok =>
    refine ended ?_ (.comment tok) rfl
    obtain ⟨done, place⟩ := s
    cases place with
    | outside => exact ok_ne_overrun _
    | between part settled =>
      cases tok with
      | nil => exact rejected_ne_overrun
      | cons c tok => exact ok_ne_overrun _
    | _ => exact rejected_ne_overrun

/-- The reader overruns a buffer just where it comes to a token that does not fit. -/
theorem scan_overrun_iff (s : State) (reading : Reading) (text : List Byte) :
    scan s reading text = .error .overrun ↔ ¬ AllShort s (tokens reading text) := by
  induction text generalizing s reading with
  | nil => exact finish_overrun_iff s reading
  | cons ch rest ih =>
    rw [scan, feed_eq, tokens, allShort_append]
    cases accepted : accepts s (feedToken reading ch).1 with
    | error failure =>
      cases failure with
      | overrun => exact iff_of_true rfl (fun both => both.1 rfl)
      | rejected =>
        apply iff_of_false
        · exact rejected_ne_overrun
        · exact fun long => long ⟨rejected_ne_overrun, fun after impossible => by cases impossible⟩
    | ok next =>
      refine (ih next _).trans (not_congr ?_)
      constructor
      · intro short
        refine ⟨ok_ne_overrun _, fun after same => ?_⟩
        cases same
        exact short
      · exact fun both => both.2 next rfl

/-- Every index written is inside its buffer if and only if every token fits, up to the first one
that the grammar rejects. -/
theorem token_buffers_hold_iff (conf : List Byte) :
    (∀ i ∈ xpnConfReaderLoadWrites conf, i < maxTokenLen) ↔ AllShort ⟨[], .outside⟩ (tokens .idle conf) := by
  rw [← not_iff_not, ← scan_overrun_iff, ← xpnConfReaderLoad_scan, ← escapes_load]
  simp only [Escapes, not_forall, not_lt, exists_prop]

theorem tokens_letters (count : Nat) (tok : List Byte) :
    tokens (.word tok) (List.replicate count 97) = [.word (tok ++ List.replicate count 97)] := by
  induction count generalizing tok with
  | zero => simp [tokens, lastToken]
  | succ count ih =>
    rw [List.replicate_succ, tokens, show feedToken (.word tok) 97 = ([], .word (tok ++ [97])) from rfl]
    simp [ih]

/-- A file of 1024 letters. -/
theorem letters_overrun : ¬ ∀ conf : List Byte, ∀ i ∈ xpnConfReaderLoadWrites conf, i < maxTokenLen := by
  intro claimed
  have written := claimed (97 :: List.replicate 1023 97)
  have long : scan ⟨[], .outside⟩ .idle (97 :: List.replicate 1023 97) = .error .overrun := by
    rw [scan_overrun_iff, tokens, show feedToken .idle 97 = ([], .word [97]) from rfl]
    simp only [List.nil_append, tokens_letters, AllShort, size]
    rintro ⟨fits, -⟩
    rw [List.length_append, List.length_replicate] at fits
    exact absurd fits (by decide)
  rw [← xpnConfReaderLoad_scan, ← escapes_load] at long
  obtain ⟨i, member, beyond⟩ := long
  exact absurd (written i member) (not_lt.mpr beyond)

end Xpn.Proofs.TokenBuffers
