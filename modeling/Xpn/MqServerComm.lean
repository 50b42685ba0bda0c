import Xpn.ConfReader
import Xpn.FileTable
import Xpn.Lib.ByteFile
import Xpn.Messages

/-! Writes over MQTT, with the client library compiled in. What a message is about stands in its
topic: path, length and offset with a slash between. No result means that the program reads or
writes where it must not, or uses a variable that was never set. -/

namespace Xpn.MqServerComm
open Lib.ByteFile ConfReader

structure Message where
  topic : List Byte
  payload : List Byte
  deriving DecidableEq

/-! ### The client -/

/-- `sprintf` of a topic into `strlen(path) + sizeof(int) + sizeof(off_t) + 3` bytes. -/
def printTopic (path : Path) (bytesToWrite offset : Int) : Option (List Byte) :=
  let topic := path ++ slash :: decimal bytesToWrite ++ slash :: decimal offset
  if topic.length + 1 ≤ path.length + 4 + 8 + 3 then some topic else none

/-- The loop, given what the calls of `mosquitto_publish` return: the return value and the messages
that were published. -/
def publishLoop (path : Path) (buffer : List Byte) (offset size bufferSize : Int) :
    List Int → Int → Int → List Message → Option (Int × List Message)
  | [], _, _, _ => none
  | ret :: results, cont, diff, published => do
    let bytesToWrite := if bufferSize < diff then bufferSize else diff
    let topic ← printTopic path bytesToWrite offset
    -- MOSQ_ERR_SUCCESS is 0
    if ret ≠ 0 then some (-1, published)
    else
      let published := published ++ [⟨topic, (buffer.drop cont.toNat).take bytesToWrite.toNat⟩]
      let cont := cont + bytesToWrite
      let diff := size - cont
      if 0 < diff ∧ ret ≠ 0 then publishLoop path buffer offset size bufferSize results cont diff published
      else some (cont, published)

def nfiMqServerPublish (path : Path) (buffer : List Byte) (offset size : Int) (results : List Int) :
    Option (Int × List Message) :=
  let bufferSize := if maxBufferSize < size then (maxBufferSize : Int) else size
  publishLoop path buffer offset size bufferSize results 0 size []

/-! ### The server -/

/-- `%d`: the number, as an `int`, and what is behind it. -/
def scanInt (text : List Byte) : Option (Int × List Byte) :=
  let text := text.dropWhile isSpace
  let (negative, digits) := match text with
    | c :: rest => if c = 45 then (true, rest) else if c = 43 then (false, rest) else (false, text)
    | [] => (false, [])
  if (digits.takeWhile isDigit).isEmpty then none
  else
    let value : Int := if negative then -leadingNumber digits else leadingNumber digits
    some (toCInt (max (-2 ^ 63) (min (2 ^ 63 - 1) value)), digits.dropWhile isDigit)

/-- `%d/%d` -/
def scanPair (text : List Byte) : Option (Int × Int) := do
  let (toWrite1, rest) ← scanInt text
  match rest with
  | c :: rest =>
    if c = slash then do
      let (offset, _) ← scanInt rest
      some (toWrite1, offset)
    else none
  | [] => none

/-- `penultimate_slash` and `last_slash` behind character `i`. -/
def slashScan : List Byte → Int → Int × Int → Int × Int
  | [], _, found => found
  | c :: topic, i, (penultimateSlash, lastSlash) =>
    slashScan topic (i + 1) (if c = slash then (lastSlash, i) else (penultimateSlash, lastSlash))

/-- `path`, `to_write1` and `offset`. A copy of `PATH_MAX` characters has no terminator. -/
def decodeTopic (topic : List Byte) : Option (Path × Int × Int) :=
  if pathMax ≤ topic.length then none
  else
    let (penultimateSlash, lastSlash) := slashScan topic 0 (-1, -1)
    if 0 ≤ penultimateSlash ∧ penultimateSlash < lastSlash then do
      let (toWrite1, offset) ← scanPair (topic.drop (penultimateSlash.toNat + 1))
      some (topic.take penultimateSlash.toNat, toWrite1, offset)
    else if 0 ≤ lastSlash then do
      let (toWrite1, _) ← scanInt (topic.drop (lastSlash.toNat + 1))
      some (topic.take lastSlash.toNat, toWrite1, 0)
    else some (topic.take (pathMax - 1), 0, 0)

/-- One turn of `process_message`. Files that do not exist are empty; `opens` tells whether a path can
be opened for writing, else the thread ends. A seek to a negative offset fails and leaves the
position at the start. The message has one byte more than its payload; a negative length is a huge
one to `filesystem_write`. -/
def processMessage (opens : Path → Bool) (message : Message) (files : Path → List Byte) :
    Option (Path → List Byte) := do
  let (path, toWrite1, offset) ← decodeTopic message.topic
  let size := if maxBufferSize < toWrite1 then (maxBufferSize : Int) else toWrite1
  if opens path then
    let position := if offset < 0 then 0 else offset.toNat
    if size < 0 ∨ message.payload.length + 1 < size then none
    else
      let data := (message.payload ++ [0]).take size.toNat
      some fun other => if other = path then pwrite (files path) position data else files other
  else some files

/-- Messages in the order in which they are processed. -/
def processMessages (opens : Path → Bool) : List Message → (Path → List Byte) → Option (Path → List Byte)
  | [], files => some files
  | message :: messages, files => do
    let files ← processMessage opens message files
    processMessages opens messages files

end Xpn.MqServerComm
