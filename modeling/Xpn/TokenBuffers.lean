import Xpn.ConfReader

/-! Where the configuration reader writes into its token buffers. The loops are the ones of the
reader; what is kept here is the indices that a load writes, up to its end or to the first token
that has left its buffer. -/

namespace Xpn.ConfReader

/-- `read_comment`, with the terminator that every pass stores first. -/
def commentWrites : Nat → List Byte → List Nat
  | i, [] => [i]
  | i, ch :: rest => i :: if inSet lineEnds ch then [] else i :: commentWrites (i + 1) rest

/-- The loop of `read_token`. -/
def wordWrites : Nat → List Byte → List Nat
  | i, [] => [i]
  | i, ch :: rest =>
    i :: if inSet delimiters ch then [] else if inSet lineEnds ch then [] else i :: wordWrites (i + 1) rest

/-- `strcpy` of one character writes two. -/
def tokenWrites : List Byte → List Nat
  | [] => [0]
  | ch :: rest =>
    if ch = 91 then [0, 1]
    else if ch = 93 then [0, 1]
    else if ch = 61 then [0, 1]
    else if ch = 35 then commentWrites 0 rest
    else wordWrites 0 (ch :: rest)

def nextWrites (text : List Byte) : List Nat :=
  match skipSpaces text with
  | (.eof, _) => []
  | (_, file) => tokenWrites file.rest

/-- The writes of what follows, when it is reached. -/
def thenWrites {α : Type} (before : Except Failure α) (writes : α → List Nat) : List Nat :=
  match before with
  | .error _ => []
  | .ok a => writes a

def fieldsWrites : Nat → File → Partition → List Nat
  | 0, _, _ => []
  | fuel + 1, file, part =>
    if file.feof then []
    else nextWrites file.rest ++ thenWrites (next file) fun (elto, key, file) =>
      if elto = .openBracket then []
      else if elto = .comment then fieldsWrites fuel file part
      else if elto ≠ .token then []
      else nextWrites file.rest ++ thenWrites (expect .equal file) fun (_, file) =>
        nextWrites file.rest ++ thenWrites (expect .token file) fun (value, file) =>
          thenWrites (setValue part key value) fun part => fieldsWrites fuel (skipSpaces file.rest).2 part

def sectionsWrites : Nat → File → Elto → List Nat
  | 0, _, _ => []
  | fuel + 1, file, elto =>
    if file.feof then []
    else if elto = .comment then
      nextWrites file.rest ++ thenWrites (next file) fun (elto, _, file) => sectionsWrites fuel file elto
    else if elto ≠ .openBracket then []
    else nextWrites file.rest ++ thenWrites (next file) fun (_, value, file) =>
      if sameTag value tagPartition then
        nextWrites file.rest ++ thenWrites (expect .closeBracket file) fun (_, file) =>
          fieldsWrites (file.rest.length + 1) file Partition.new
            ++ thenWrites (fields (file.rest.length + 1) file .closeBracket Partition.new) fun (_, elto, file) =>
              sectionsWrites fuel file elto
      else []

/-- All indices of `tok`, `key` and `value` that a load writes. -/
def xpnConfReaderLoadWrites (conf : List Byte) : List Nat :=
  nextWrites conf ++ thenWrites (next ⟨conf, false⟩) fun (elto, _, file) =>
    sectionsWrites (conf.length + 1) file elto

end Xpn.ConfReader
