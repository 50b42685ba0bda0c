import Mathlib.Data.Nat.Digits.Defs
import Xpn.PathMisc

/-! The configuration reader. The file is read byte by byte with one byte of push-back; a
section is a header and entries, and two nested loops go on until `feof`. A token goes into a
buffer that a longer one overruns. -/

namespace Xpn.ConfReader

/-! ### Numbers -/

def isDigit (c : Byte) : Bool := decide (48 ≤ c ∧ c ≤ 57)

/-- `isspace` -/
def isSpace (c : Byte) : Bool := c == 32 || decide (9 ≤ c ∧ c ≤ 13)

/-- The number that digits at the front make. -/
def leadingNumber (text : List Byte) : Nat :=
  (text.takeWhile isDigit).foldl (fun value c => value * 10 + (c.toNat - 48)) 0

/-- The `long` of `strtol`, stored into an `int`. -/
def atoi (text : List Byte) : Int :=
  let text := text.dropWhile isSpace
  let value : Int := match text with
    | c :: rest => if c = 45 then -leadingNumber rest else if c = 43 then leadingNumber rest else leadingNumber text
    | [] => 0
  toCInt (max (-2 ^ 63) (min (2 ^ 63 - 1) value))

def kb : Int := 1024

def mb : Int := kb * kb

def gb : Int := kb * kb * kb

/-- The factor of a letter, in either case. -/
def factor (c : Byte) : Option Int :=
  if c = 75 ∨ c = 107 then some kb else if c = 77 ∨ c = 109 then some mb else if c = 71 ∨ c = 103 then some gb else none

/-- The products are `int`s. In front of a single `B` the source reads before the string. -/
def getSizeFactor (name : List Byte) : Int :=
  match name.reverse with
  | [] => atoi name
  | c :: before =>
    match factor c with
    | some size => toCInt (atoi name * size)
    | none =>
      if c = 66 ∨ c = 98 then
        match (before.head?.bind factor) with
        | some size => toCInt (atoi name * size)
        | none => 1
      else atoi name

def digit (n : Nat) : Byte := UInt8.ofNat (48 + n % 10)

def decimalNat (n : Nat) : List Byte := if n = 0 then [48] else ((Nat.digits 10 n).reverse.map digit)

/-- `%d` and `%ld` -/
def decimal (value : Int) : List Byte := if value < 0 then 45 :: decimalNat value.natAbs else decimalNat value.natAbs

/-! ### Tokens -/

inductive Elto where
  | eof
  | token
  | openBracket
  | closeBracket
  | equal
  | comment
  deriving DecidableEq

/-- What is left of a stream, and `feof`. -/
structure File where
  rest : List Byte
  feof : Bool

/-- `strchr`, which finds the terminator too. -/
def inSet (set : List Byte) (ch : Byte) : Bool := ch == 0 || set.contains ch

def blanks : List Byte := [32, 9, 10, 13]

def lineEnds : List Byte := [10, 13]

def delimiters : List Byte := [91, 93, 61, 35, 32, 9]

def skipSpaces : List Byte → Elto × File
  | [] => (.eof, ⟨[], true⟩)
  | ch :: rest => if inSet blanks ch then skipSpaces rest else (.token, ⟨ch :: rest, false⟩)

def readComment : List Byte → List Byte → Elto × List Byte × File
  | tok, [] => (if tok.isEmpty then .eof else .comment, tok, ⟨[], true⟩)
  | tok, ch :: rest => if inSet lineEnds ch then (.comment, tok, ⟨rest, false⟩) else readComment (tok ++ [ch]) rest

/-- The loop of `read_token`. A line end is taken, any other delimiter pushed back. -/
def readWord : List Byte → List Byte → Elto × List Byte × File
  | tok, [] => (if tok.isEmpty then .eof else .token, tok, ⟨[], true⟩)
  | tok, ch :: rest =>
    if inSet delimiters ch then (.token, tok, ⟨ch :: rest, false⟩)
    else if inSet lineEnds ch then (.token, tok, ⟨rest, false⟩)
    else readWord (tok ++ [ch]) rest

def readToken : List Byte → Elto × List Byte × File
  | [] => (.eof, [], ⟨[], true⟩)
  | ch :: rest =>
    if ch = 91 then (.openBracket, [91], ⟨rest, false⟩)
    else if ch = 93 then (.closeBracket, [93], ⟨rest, false⟩)
    else if ch = 61 then (.equal, [61], ⟨rest, false⟩)
    else if ch = 35 then readComment [] rest
    else readWord [] (ch :: rest)

/-- At the end of the file the buffer keeps what it held; no run gets further with that. -/
def nextToken (text : List Byte) : Elto × List Byte × File :=
  match skipSpaces text with
  | (.eof, file) => (.eof, [], file)
  | (_, file) => readToken file.rest

/-! ### Configurations -/

/-- MAX_TOKEN_LEN -/
def maxTokenLen : Nat := 1024

/-- `struct conf_file_data_partition` -/
structure Partition where
  partitionName : Option (List Byte)
  bsize : Int
  replicationLevel : Int
  servers : List (List Byte)
  deriving DecidableEq

def Partition.new : Partition := ⟨none, 512 * kb, 0, []⟩

/-- A load returns -1, or has no defined result. -/
inductive Failure where
  | rejected
  | overrun
  deriving DecidableEq

def text (s : List Char) : List Byte := s.map fun c => UInt8.ofNat c.toNat

def tagPartition : List Byte := text ['p', 'a', 'r', 't', 'i', 't', 'i', 'o', 'n']

def tagPartitionName : List Byte := text ['p', 'a', 'r', 't', 'i', 't', 'i', 'o', 'n', '_', 'n', 'a', 'm', 'e']

def tagReplicationLevel : List Byte :=
  text ['r', 'e', 'p', 'l', 'i', 'c', 'a', 't', 'i', 'o', 'n', '_', 'l', 'e', 'v', 'e', 'l']

def tagBlocksize : List Byte := text ['b', 's', 'i', 'z', 'e']

def tagServerUrl : List Byte := text ['s', 'e', 'r', 'v', 'e', 'r', '_', 'u', 'r', 'l']

def lower (c : Byte) : Byte := if 65 ≤ c ∧ c ≤ 90 then c + 32 else c

/-- `strcasecmp(..) == 0` -/
def sameTag (word tag : List Byte) : Bool := word.map lower == tag.map lower

/-- One entry of a section. -/
def setValue (part : Partition) (key value : List Byte) : Except Failure Partition :=
  if key = tagServerUrl then .ok { part with servers := part.servers ++ [value] }
  else if sameTag key tagBlocksize then .ok { part with bsize := getSizeFactor value }
  else if sameTag key tagReplicationLevel then .ok { part with replicationLevel := atoi value }
  else if sameTag key tagPartitionName then .ok { part with partitionName := some value }
  else .error .rejected

/-- A token in its buffer. -/
def next (file : File) : Except Failure (Elto × List Byte × File) :=
  let (elto, tok, file) := nextToken file.rest
  if tok.length < maxTokenLen then .ok (elto, tok, file) else .error .overrun

def expect (elto : Elto) (file : File) : Except Failure (List Byte × File) := do
  let (got, tok, file) ← next file
  if got = elto then .ok (tok, file) else .error .rejected

/-- The inner loop: the fields of a section. -/
def fields : Nat → File → Elto → Partition → Except Failure (Partition × Elto × File)
  | 0, _, _, _ => .error .rejected
  | fuel + 1, file, elto, part =>
    if file.feof then .ok (part, elto, file)
    else do
      let (elto, key, file) ← next file
      if elto = .openBracket then .ok (part, elto, file)
      else if elto = .comment then fields fuel file elto part
      else if elto ≠ .token then .error .rejected
      else do
        let (_, file) ← expect .equal file
        let (value, file) ← expect .token file
        let part ← setValue part key value
        let (elto, file) := skipSpaces file.rest
        fields fuel file elto part

/-- The outer loop: comments and sections. -/
def sections : Nat → File → Elto → List Partition → Except Failure (List Partition)
  | 0, _, _, _ => .error .rejected
  | fuel + 1, file, elto, partitions =>
    if file.feof then .ok partitions
    else if elto = .comment then do
      let (elto, _, file) ← next file
      sections fuel file elto partitions
    else if elto ≠ .openBracket then .error .rejected
    else do
      let (_, value, file) ← next file
      if sameTag value tagPartition then do
        let (_, file) ← expect .closeBracket file
        let (part, elto, file) ← fields (file.rest.length + 1) file .closeBracket Partition.new
        sections fuel file elto (partitions ++ [part])
      else .error .rejected

def xpnConfReaderLoad (conf : List Byte) : Except Failure (List Partition) := do
  let (elto, _, file) ← next ⟨conf, false⟩
  sections (conf.length + 1) file elto []

/-! ### Questions -/

def xpnConfReaderGetNumPartitions (partitions : List Partition) : Int := partitions.length

def xpnConfReaderGetNumServers (partitions : List Partition) (i : Nat) : Int :=
  match partitions[i]? with
  | none => -1
  | some part => part.servers.length

/-- The text that is copied out; `none` is a return of -1. -/
def xpnConfReaderGetServer (partitions : List Partition) (i server : Nat) : Option (List Byte) :=
  partitions[i]?.bind fun part => part.servers[server]?

/-- `none` is a return of -1. The source copies a name that was never set from address 0, which
has no result either. -/
def xpnConfReaderGetValue (partitions : List Partition) (i : Nat) (key : List Byte) : Option (List Byte) :=
  partitions[i]?.bind fun part =>
    if sameTag key tagBlocksize then some (decimal part.bsize)
    else if sameTag key tagReplicationLevel then some (decimal part.replicationLevel)
    else if sameTag key tagPartitionName then part.partitionName
    else none

end Xpn.ConfReader
