import Xpn.MqServerComm
import Xpn.Proofs.ConfNumbers
import Xpn.Proofs.Positions

/-! A write over MQTT. The loop of the client ends with its first message, since success is 0; what is
left is whether the topic fits its allocation and comes back from the server's scan. -/

namespace Xpn.MqServerComm
open Lib.ByteFile ConfReader
open Xpn.Proofs.ConfNumbers
open Xpn.Proofs.Messages (toCInt_of_small)

/-- The topic of a message, whether or not it fits. -/
def topicText (path : Path) (length offset : Nat) : List Byte :=
  path ++ slash :: (decimalNat length ++ slash :: decimalNat offset)

theorem length_topicText (path : Path) (length offset : Nat) :
    (topicText path length offset).length
      = path.length + (decimalNat length).length + (decimalNat offset).length + 2 := by
  simp only [topicText, List.length_append, List.length_cons]
  omega

/-- The digits of both numbers fit what is allocated besides the path. -/
def TopicFits (length offset : Nat) : Prop := (decimalNat length).length + (decimalNat offset).length ≤ 12

theorem printTopic_text (path : Path) (length offset : Nat) :
    printTopic path length offset
      = if (topicText path length offset).length + 1 ≤ path.length + 4 + 8 + 3 then some (topicText path length offset)
        else none := by
  have text : path ++ slash :: decimal length ++ slash :: decimal offset = topicText path length offset := by
    rw [decimal_natCast, decimal_natCast, List.append_assoc]
    rfl
  unfold printTopic
  rw [text]

theorem printTopic_fits (path : Path) {length offset : Nat} (fits : TopicFits length offset) :
    printTopic path length offset = some (topicText path length offset) := by
  rw [printTopic_text, if_pos]
  rw [length_topicText]
  unfold TopicFits at fits
  omega

theorem printTopic_overflows (path : Path) {length offset : Nat} (long : ¬TopicFits length offset) :
    printTopic path length offset = none := by
  rw [printTopic_text, if_neg]
  rw [length_topicText]
  unfold TopicFits at long
  omega

def chunk (size : Nat) : Nat := min size maxBufferSize

theorem publish_eq (path : Path) {buffer : List Byte} {offset : Nat} (first : Int) (rest : List Int) :
    nfiMqServerPublish path buffer offset buffer.length (first :: rest)
      = (printTopic path (chunk buffer.length) offset).bind fun topic =>
        if first = 0 then some ((chunk buffer.length : Int), [⟨topic, buffer.take (chunk buffer.length)⟩])
        else some (-1, []) := by
  have bytes : (if (if (maxBufferSize : Int) < buffer.length then (maxBufferSize : Int) else buffer.length) < buffer.length
      then (if (maxBufferSize : Int) < buffer.length then (maxBufferSize : Int) else buffer.length)
      else (buffer.length : Int)) = (chunk buffer.length : Int) := by
    unfold chunk
    by_cases large : (maxBufferSize : Int) < buffer.length
    · rw [if_pos large, if_pos large]
      omega
    · rw [if_neg large, if_neg (lt_irrefl _)]
      omega
  unfold nfiMqServerPublish
  simp only
  rw [publishLoop]
  simp only [bytes, Option.bind_eq_bind]
  congr 1
  funext topic
  by_cases success : first = 0
  · -- The loop goes on only while `ret` is not 0.
    rw [if_neg (not_not.mpr success), if_neg (fun more => more.2 success), if_pos success]
    simp
  · rw [if_pos success, if_neg success]

theorem slash_not_digit {text : List Byte} (digits : ∀ c ∈ text, isDigit c = true) : slash ∉ text := by
  intro member
  exact absurd (digits slash member) (by decide)

theorem slashScan_append (first rest : List Byte) (i : Int) (found : Int × Int) :
    slashScan (first ++ rest) i found = slashScan rest (i + first.length) (slashScan first i found) := by
  induction first generalizing i found with
  | nil => simp [slashScan]
  | cons c first ih =>
    rw [List.cons_append, slashScan, slashScan, ih, List.length_cons]
    congr 1
    omega

theorem slashScan_plain {text : List Byte} (plain : slash ∉ text) (i : Int) (found : Int × Int) :
    slashScan text i found = found := by
  induction text generalizing i with
  | nil => rfl
  | cons c text ih =>
    have other : c ≠ slash := fun same => plain (same ▸ List.mem_cons_self)
    rw [slashScan, if_neg other]
    exact ih (fun member => plain (List.mem_cons_of_mem _ member)) _

/-- The slashes of the path do not count: the last two are those in front of the numbers. -/
theorem slashScan_topic (path : Path) {first second : List Byte} (plain : slash ∉ first) (plain' : slash ∉ second) :
    slashScan (path ++ slash :: (first ++ slash :: second)) 0 (-1, -1)
      = ((path.length : Int), (path.length : Int) + 1 + first.length) := by
  rw [slashScan_append, slashScan, if_pos rfl, slashScan_append, slashScan_plain plain, slashScan, if_pos rfl,
    slashScan_plain plain', zero_add]

theorem scanInt_digits {text rest : List Byte} (digits : ∀ c ∈ text, isDigit c = true) (present : text ≠ [])
    (ends : ∀ c, rest.head? = some c → isDigit c = false) :
    scanInt (text ++ rest) = some (toCInt (min (2 ^ 63 - 1) (leadingNumber text)), rest) := by
  obtain ⟨c, tail, rfl⟩ := List.exists_cons_of_ne_nil present
  obtain ⟨solid, unsigned, plain⟩ := plain_of_digit (digits c List.mem_cons_self)
  have front : ((c :: tail) ++ rest).takeWhile isDigit = c :: tail := by
    rw [List.takeWhile_append_of_pos digits]
    cases rest with
    | nil => simp
    | cons d rest => rw [List.takeWhile_cons_of_neg (by simp [ends d rfl]), List.append_nil]
  have back : ((c :: tail) ++ rest).dropWhile isDigit = rest := by
    rw [List.dropWhile_append_of_pos digits]
    cases rest with
    | nil => rfl
    | cons d rest => rw [List.dropWhile_cons_of_neg (by simp [ends d rfl])]
  have value : leadingNumber ((c :: tail) ++ rest) = leadingNumber (c :: tail) := by
    rw [leadingNumber, leadingNumber, front, List.takeWhile_eq_self_iff.mpr digits]
  have skipped : ((c :: tail) ++ rest).dropWhile isSpace = (c :: tail) ++ rest := by
    rw [List.cons_append, List.dropWhile_cons_of_neg (by simp [solid])]
  unfold scanInt
  rw [skipped]
  simp only [List.cons_append, if_neg unsigned, if_neg plain] at front back value ⊢
  rw [front, back, value]
  simp only [List.isEmpty_cons, Bool.false_eq_true, if_false]
  rw [max_eq_right (by omega)]

theorem scanInt_decimal {n : Nat} (small : n < 2 ^ 63) {rest : List Byte}
    (ends : ∀ c, rest.head? = some c → isDigit c = false) :
    scanInt (decimalNat n ++ rest) = some (toCInt n, rest) := by
  rw [scanInt_digits (decimalNat_digits n) (decimalNat_ne_nil n) ends, leadingNumber_decimalNat,
    min_eq_right (by omega)]

/-- What the server makes of a topic: the offset as an `int`. -/
theorem decodeTopic_eq (path : Path) {length offset : Nat} (small : length < 2 ^ 31) (place : offset < 2 ^ 63)
    (short : (topicText path length offset).length < pathMax) :
    decodeTopic (topicText path length offset) = some (path, (length : Int), toCInt offset) := by
  have scanned := slashScan_topic path (slash_not_digit (decimalNat_digits length))
    (slash_not_digit (decimalNat_digits offset))
  have first : scanInt (decimalNat length ++ slash :: decimalNat offset)
      = some (toCInt length, slash :: decimalNat offset) := by
    refine scanInt_decimal (by omega) ?_
    intro c head
    cases head
    decide
  have second : scanInt (decimalNat offset ++ []) = some (toCInt offset, []) := by
    refine scanInt_decimal place ?_
    intro c head
    cases head
  have pair : scanPair (decimalNat length ++ slash :: decimalNat offset) = some ((length : Int), toCInt offset) := by
    rw [List.append_nil] at second
    rw [scanPair, first, toCInt_of_small (by omega) (by omega)]
    simp only [Option.bind_eq_bind, Option.bind_some, if_true, second]
  rw [decodeTopic, if_neg (not_le.mpr short)]
  simp only [topicText, scanned]
  rw [if_pos ⟨by omega, by omega⟩, Int.toNat_natCast, ← List.drop_drop, List.drop_left, List.take_left]
  simp only [List.drop_succ_cons, List.drop_zero, pair, Option.bind_eq_bind, Option.bind_some]

/-- Every message comes back as it was sent, and the server's file holds what the client counted,
whatever the order of processing. -/
def RoundTrip (opens : Path → Bool) (path : Path) (buffer : List Byte) (offset : Nat) (results : List Int) : Prop :=
  ∀ files : Path → List Byte, ∃ (c : Int) (messages : List Message),
    nfiMqServerPublish path buffer offset buffer.length results = some (c, messages) ∧
    (∀ m ∈ messages, decodeTopic m.topic = some (path, (m.payload.length : Int), (offset : Int))) ∧
    ∀ order, order.Perm messages → ∃ after, processMessages opens order files = some after ∧
      pread (after path) offset c.toNat = buffer.take c.toNat

section
variable {opens : Path → Bool} {path : Path} {buffer : List Byte} {offset : Nat}

theorem length_first (buffer : List Byte) : (buffer.take (chunk buffer.length)).length = chunk buffer.length := by
  rw [List.length_take]
  exact min_eq_left (min_le_left _ _)

/-- The server's turn on the one message, with an offset that an `int` holds. -/
theorem processMessage_first (files : Path → List Byte) (small : buffer.length < 2 ^ 31) (exact : offset < 2 ^ 31)
    (short : (topicText path (chunk buffer.length) offset).length < pathMax) :
    processMessage opens ⟨topicText path (chunk buffer.length) offset, buffer.take (chunk buffer.length)⟩ files
      = some (if opens path then
          fun other => if other = path then pwrite (files path) offset (buffer.take (chunk buffer.length)) else files other
        else files) := by
  have below : chunk buffer.length ≤ buffer.length := min_le_left _ _
  have capped : chunk buffer.length ≤ maxBufferSize := min_le_right _ _
  have size : (if (maxBufferSize : Int) < (chunk buffer.length : Int) then (maxBufferSize : Int) else chunk buffer.length)
      = chunk buffer.length := if_neg (by omega)
  have position : (if toCInt (offset : Int) < 0 then 0 else (toCInt (offset : Int)).toNat) = offset := by
    rw [toCInt_of_small (by omega) (by omega), if_neg (by omega), Int.toNat_natCast]
  have data : (buffer.take (chunk buffer.length) ++ [0]).take (chunk buffer.length) = buffer.take (chunk buffer.length) := by
    rw [List.take_append_of_le_length (by rw [length_first]), List.take_take, min_self]
  rw [processMessage, decodeTopic_eq path (by omega) (by omega) short]
  simp only [Option.bind_eq_bind, Option.bind_some, size, position, length_first, Int.toNat_natCast, data]
  rw [if_neg (by omega : ¬((chunk buffer.length : Int) < 0 ∨ (chunk buffer.length : Int) + 1 < chunk buffer.length))]
  split <;> rfl

theorem pread_pwrite {data : List Byte} (file : List Byte) (offset : Nat) (present : data ≠ []) :
    pread (pwrite file offset data) offset data.length = data := by
  apply List.ext_getElem?
  intro i
  rw [getElem?_pread, getElem?_pwrite _ present (by omega), if_neg (by omega : ¬offset + i < offset),
    Nat.add_sub_cancel_left]
  by_cases inside : i < data.length
  · rw [if_pos inside, if_pos (by omega)]
  · rw [if_neg inside, List.getElem?_eq_none (by omega)]

/-- A topic that does not fit is written past its allocation. -/
theorem roundTrip_fits {first : Int} {rest : List Int} (round : RoundTrip opens path buffer offset (first :: rest)) :
    TopicFits (chunk buffer.length) offset := by
  obtain ⟨c, messages, published, -⟩ := round fun _ => []
  by_contra long
  rw [publish_eq, printTopic_overflows path long] at published
  cases published

/-- What was published is read back with an `int` for the offset. -/
theorem roundTrip_published {rest : List Int} (small : buffer.length < 2 ^ 31) (place : offset < 2 ^ 63)
    (short : (topicText path (chunk buffer.length) offset).length < pathMax) (present : buffer ≠ [])
    (round : RoundTrip opens path buffer offset (0 :: rest)) : offset < 2 ^ 31 ∧ opens path = true := by
  have below : chunk buffer.length ≤ buffer.length := min_le_left _ _
  have some_byte : 0 < chunk buffer.length := lt_min (List.length_pos_iff.mpr present) (by decide)
  obtain ⟨c, messages, published, decoded, processed⟩ := round fun _ => []
  rw [publish_eq, printTopic_fits path (roundTrip_fits round), Option.bind_some, if_pos rfl, Option.some.injEq,
    Prod.mk.injEq] at published
  obtain ⟨rfl, rfl⟩ := published
  have back := decoded _ List.mem_cons_self
  rw [decodeTopic_eq path (by omega) place short] at back
  simp only [Option.some.injEq, Prod.mk.injEq] at back
  have exact : offset < 2 ^ 31 := by
    have := (Xpn.Proofs.Positions.toCInt_eq_iff (p := (offset : Int)) (by omega)).mp back.2.2
    omega
  refine ⟨exact, ?_⟩
  by_contra closed
  obtain ⟨after, done, held⟩ := processed _ (List.Perm.refl _)
  rw [processMessages, processMessage_first _ small exact short, if_neg closed] at done
  simp only [Option.bind_eq_bind, Option.bind_some, processMessages, Option.some.injEq] at done
  rw [← done, Int.toNat_natCast] at held
  have length := congrArg List.length held
  rw [length_first] at length
  simp only [length_pread, List.length_nil, Nat.zero_sub, Nat.min_zero] at length
  omega

/-- Sending the offset in decimal is sound as far as an `int` reaches and its digits fit the topic. -/
theorem publish_round_trip_iff {first : Int} {rest : List Int} (present : buffer ≠ [])
    (small : buffer.length < 2 ^ 31) (place : offset < 2 ^ 63)
    (short : (topicText path (chunk buffer.length) offset).length < pathMax) :
    RoundTrip opens path buffer offset (first :: rest) ↔
      TopicFits (chunk buffer.length) offset ∧ (first ≠ 0 ∨ offset < 2 ^ 31 ∧ opens path = true) := by
  constructor
  · intro round
    refine ⟨roundTrip_fits round, ?_⟩
    by_cases success : first = 0
    · subst success
      exact Or.inr (roundTrip_published small place short present round)
    · exact Or.inl success
  rintro ⟨fits, sound⟩ files
  have below : chunk buffer.length ≤ buffer.length := min_le_left _ _
  rw [publish_eq, printTopic_fits path fits, Option.bind_some]
  by_cases success : first = 0
  · -- One message, and so one order.
    obtain ⟨exact, opened⟩ := sound.resolve_left (not_not.mpr success)
    refine ⟨_, _, if_pos success, ?_, ?_⟩
    · intro m member
      rw [List.mem_singleton.mp member, decodeTopic_eq path (by omega) place short, length_first,
        toCInt_of_small (by omega) (by omega)]
    · intro order permuted
      rw [List.perm_singleton.mp permuted]
      have done : processMessages opens
          [⟨topicText path (chunk buffer.length) offset, buffer.take (chunk buffer.length)⟩] files
            = some fun other =>
              if other = path then pwrite (files path) offset (buffer.take (chunk buffer.length)) else files other := by
        rw [processMessages, processMessage_first _ small exact short, if_pos opened, Option.bind_eq_bind,
          Option.bind_some, processMessages]
      have some_bytes : buffer.take (chunk buffer.length) ≠ [] := by
        rw [← List.length_pos_iff, length_first]
        exact lt_min (List.length_pos_iff.mpr present) (by decide)
      have read := pread_pwrite (files path) offset some_bytes
      rw [length_first] at read
      refine ⟨_, done, ?_⟩
      rw [if_pos rfl, Int.toNat_natCast, read]
  · -- A refused message counts as -1 and leaves the files alone.
    refine ⟨_, _, if_neg success, ?_, ?_⟩
    · intro m member
      cases member
    · intro order permuted
      rw [List.perm_nil.mp permuted]
      exact ⟨files, rfl, by simp⟩

end

theorem publish_round_trip_iff_three : RoundTrip (fun _ => true) [97] [7] 3 [0] :=
  (publish_round_trip_iff (by decide) (by decide) (by decide) (by decide)).mpr
    ⟨by unfold TopicFits; decide, Or.inr ⟨by decide, rfl⟩⟩

/-- From 2 GiB on the server reads another offset than the one that was sent. -/
theorem publish_loses_offset : ¬RoundTrip (fun _ => true) [97] [7] (2 ^ 31) [0] := by
  intro round
  have below := (roundTrip_published (by decide) (by decide) (by decide) (by decide) round).1
  exact absurd below (by decide)

end Xpn.MqServerComm
