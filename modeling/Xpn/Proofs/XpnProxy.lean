import Xpn.XpnProxy
import Xpn.Proofs.Messages

/-! One petition over a connection of its own. Each side is followed through the stretches
in which it goes on by itself, and the stretches fit together: whatever the turns, the client
gets what a direct call of the function behind the petition gives. -/

namespace Xpn.Proofs.XpnProxy
open Lib.Conversation Lib.ByteFile Xpn.Messages Xpn.XpnProxy Messages PathTransport
open Transport (xpnPathMax msgSize PathMember intBytes opOpen opCreat opRead opWrite opClose opRm opGetattr opMkdir opRmdir
  opOpendir opReaddir opClosedir renameOpcode oldUrl newUrl)

/-! ### What a petition is about -/

/-- What the proxy relies on: a read stores the bytes that it counts, and a record is whole. -/
structure Library (S : Type) where
  answer : S → Call → Answer × S
  reads : ∀ world fd size, -1 ≤ (answer world (.read fd size)).1.ret ∧ (answer world (.read fd size)).1.ret ≤ size ∧
    (answer world (.read fd size)).1.data.length = (answer world (.read fd size)).1.ret.toNat
  stats : ∀ world path, (answer world (.stat path)).1.data.length = statSize
  entries : ∀ world dir, (answer world (.readdir dir)).1.data.length = direntSize

/-- Memory does not run out. -/
structure FileSystem (S : Type) extends Library S where
  memory : ∀ world size, (answer world (.malloc size)).1.ret ≠ 0

/-- A function called directly: what it asks and what is made of the answer. A read that gets
nothing is a failed one. -/
def direct : ProxyOp → ServerM Result
  | .open path flags mode => do
    let answer ← ask (.open path.text flags.toInt mode.toNat)
    pure (.number (toCInt answer.ret))
  | .creat path perm => do
    let answer ← ask (.creat path.text perm.toNat)
    pure (.number (toCInt answer.ret))
  | .close fd => do
    let answer ← ask (.close fd.toInt)
    pure (.number (toCInt answer.ret))
  | .read fd size => do
    let _ ← ask (.malloc size.toNat)
    let answer ← ask (.read fd.toInt size.toNat)
    pure (if 0 < answer.ret then .stored answer.ret answer.data else .stored (-1) [])
  | .write fd buffer size => do
    let _ ← ask (.malloc size.toNat)
    let answer ← ask (.write fd.toInt (contents buffer size.toNat))
    pure (.number (toCInt answer.ret))
  | .unlink path => do
    let answer ← ask (.unlink path.text)
    pure (.number (toCInt answer.ret))
  | .rename path newpath => do
    let answer ← ask (.rename path.text newpath.text)
    pure (.number (toCInt answer.ret))
  | .stat path => do
    let answer ← ask (.stat path.text)
    pure (.stored (toCInt answer.ret) (if toCInt answer.ret = 0 then answer.data else []))
  | .mkdir path perm => do
    let answer ← ask (.mkdir path.text perm.toNat)
    pure (.number (toCInt answer.ret))
  | .rmdir path => do
    let answer ← ask (.rmdir path.text)
    pure (.number (toCInt answer.ret))
  | .opendir path => do
    let answer ← ask (.opendir path.text)
    pure (.dirp (some ⟨intAt answer.data 0, withSlash path.text, answer.ret.toNat⟩))
  | .readdir dirp => do
    let answer ← ask (.readdir dirp.toNat)
    pure (.dirent (if answer.ret = 0 then none else some answer.data))
  | .closedir dirp => do
    let answer ← ask (.closedir dirp.toNat)
    pure (.number (toCInt answer.ret))

/-- The arguments pass the checks of the function, and a size fits an `int`. -/
def Fits : ProxyOp → Prop
  | .close fd => 0 ≤ fd.toInt
  | .read fd size => 0 ≤ fd.toInt ∧ 0 < size.toNat ∧ size.toNat < 2 ^ 31
  | .write fd _ size => 0 ≤ fd.toInt ∧ 0 < size.toNat ∧ size.toNat < 2 ^ 31
  | .opendir path => path.text ≠ [] ∧ path.text.length + 1 < pathMax
  | _ => True

/-- A directory that is opened is there, and its stream is a pointer of the upper half at most. -/
def Opens {S : Type} (answer : S → Call → Answer × S) (world : S) : ProxyOp → Prop
  | .opendir path => 0 < (answer world (.opendir path.text)).1.ret ∧ (answer world (.opendir path.text)).1.ret < 2 ^ 63
  | _ => True

/-- The server gets the buffer of a read or a write. -/
def Granted {S : Type} (answer : S → Call → Answer × S) (world : S) : ProxyOp → Prop
  | .read _ size => (answer world (.malloc size.toNat)).1.ret ≠ 0
  | .write _ _ size => (answer world (.malloc size.toNat)).1.ret ≠ 0
  | _ => True

/-! ### Stretches of both sides -/

section
variable {κ ρ α S : Type} {answer : S → κ → ρ × S} {world world' : S} {inbox inbox' out : List Byte}
    {last : Dialogue Byte κ ρ α}

theorem goes_read {n : Nat} {data : List Byte} (exact : data.length = n) (positive : 0 < n)
    {next : Int × List Byte → Dialogue Byte κ ρ α} (rest : Goes answer (next (n, data)) world inbox out last world' inbox') :
    Goes answer (readNBytes n >>= next) world (data ++ inbox) out last world' inbox' := by
  have some : ¬(n : Int) ≤ 0 := by omega
  rw [readNBytes, if_neg some, Dialogue.receive_bind]
  apply Goes.receive exact
  simpa using rest

theorem goes_write {n : Nat} {buffer : List Byte} (inside : n ≤ buffer.length) (positive : 0 < n)
    {next : Int → Dialogue Byte κ ρ α} (rest : Goes answer (next n) world inbox out last world' inbox') :
    Goes answer (writeNBytes buffer n >>= next) world inbox (buffer.take n ++ out) last world' inbox' := by
  rw [writeNBytes, if_neg positive.ne', Dialogue.send_bind]
  apply Goes.send
  rw [List.length_take, Nat.min_eq_left inside]
  exact rest

theorem goes_write_all {n : Nat} {buffer : List Byte} (exact : buffer.length = n) (positive : 0 < n)
    {next : Int → Dialogue Byte κ ρ α} (rest : Goes answer (next n) world inbox out last world' inbox') :
    Goes answer (writeNBytes buffer n >>= next) world inbox (buffer ++ out) last world' inbox' := by
  have sent := goes_write exact.ge positive rest
  rwa [List.take_of_length_le exact.le] at sent

theorem goes_read_last {n : Nat} {data : List Byte} (exact : data.length = n) (positive : 0 < n)
    {next : Int × List Byte → Dialogue Byte κ ρ α} (rest : Goes answer (next (n, data)) world [] out last world' inbox') :
    Goes answer (readNBytes n >>= next) world data out last world' inbox' := by
  have read := goes_read exact positive rest
  rwa [List.append_nil] at read

theorem goes_write_last {n : Nat} {buffer : List Byte} (exact : buffer.length = n) (positive : 0 < n)
    {next : Int → Dialogue Byte κ ρ α} (rest : Goes answer (next n) world inbox [] last world' inbox') :
    Goes answer (writeNBytes buffer n >>= next) world inbox buffer last world' inbox' := by
  have sent := goes_write_all exact positive rest
  rwa [List.append_nil] at sent

end

/-! ### The client -/

def awaitStatus {α : Type} (next : Option (List Byte) → ClientM α) : ClientM α := do
  let got ← readNBytes statusSize
  next (if got.1 < 0 then none else some got.2)

def tails (paths : List Path) : List Byte := (paths.map (·.drop xpnPathMax)).flatten

section
variable {α : Type} {answer : Unit → Empty → Empty × Unit} {inbox inbox' out : List Byte} {last : ClientM α}

theorem goes_writeTails (paths : List Path) {next : Int → ClientM α}
    (rest : ∀ code : Int, 0 ≤ code → Goes answer (next code) () inbox out last () inbox') :
    Goes answer (writeTails paths >>= next) () inbox (tails paths ++ out) last () inbox' := by
  induction paths with
  | nil => simpa [writeTails, tails] using rest 0 le_rfl
  | cons path paths ih =>
    have joined : tails (path :: paths) = path.drop xpnPathMax ++ tails paths := rfl
    rw [writeTails, joined, List.append_assoc]
    split
    next long =>
      rw [bind_assoc]
      apply goes_write_all (by simp) (by omega)
      have sent : ¬((path.length - xpnPathMax : Nat) : Int) < 0 := by omega
      simpa only [if_neg sent] using ih
    next fit =>
      rw [List.drop_eq_nil_of_le (by omega), List.nil_append]
      exact ih

theorem goes_sendReceive {pr : List Byte} (whole : pr.length = petitionSize) (paths : List Path)
    (next : Option (List Byte) → ClientM α) :
    Goes answer (sendReceive pr paths >>= next) () [] (pr ++ tails paths) (awaitStatus next) () [] := by
  have positive : ¬(petitionSize : Int) < 0 := by omega
  rw [sendReceive, bind_assoc]
  apply goes_write_all whole (by rw [petitionSize]; omega)
  rw [if_neg positive, bind_assoc]
  rw [← List.append_nil (tails paths)]
  apply goes_writeTails
  intro code sent
  rw [if_neg (Int.not_lt.mpr sent), bind_assoc]
  simp only [pure_bind]
  exact Goes.refl

end

def status (ret errno : Int) : List Byte := field 4 ret ++ field 4 errno

@[simp] theorem length_status (ret errno : Int) : (status ret errno).length = statusSize := by
  simp [status, statusSize]

theorem intAt_status (ret errno : Int) : intAt (status ret errno) 0 = toCInt ret := by
  have front : pread (status ret errno) 0 4 = field 4 ret := by simp [pread, status]
  rw [intAt, front, unsigned_field, toCInt, toCInt]
  exact Int.emod_bmod _ _

theorem goes_status {α : Type} {answer : Unit → Empty → Empty × Unit} {inbox inbox' out : List Byte} {last : ClientM α}
    {ret errno : Int} {next : Option (List Byte) → ClientM α}
    (rest : Goes answer (next (some (status ret errno))) () inbox out last () inbox') :
    Goes answer (awaitStatus next) () (status ret errno ++ inbox) out last () inbox' := by
  apply goes_read (length_status ret errno) (by rw [statusSize]; omega)
  simpa [statusSize] using rest

/-! ### The server -/

section
variable {S α : Type} {answer : S → Call → Answer × S} {world world' : S} {inbox inbox' out : List Byte} {last : ServerM α}

theorem goes_ask {request : Call} {next : Answer → ServerM α}
    (rest : Goes answer (next (answer world request).1) (answer world request).2 inbox out last world' inbox') :
    Goes answer (ask request >>= next) world inbox out last world' inbox' := by
  apply Goes.call
  exact rest

theorem goes_sendStatus {ret errno : Int} {next : Unit → ServerM α}
    (rest : Goes answer (next ()) world inbox out last world' inbox') :
    Goes answer (sendStatus ret errno >>= next) world inbox (status ret errno ++ out) last world' inbox' := by
  rw [sendStatus, bind_assoc]
  apply goes_write_all (length_status ret errno) (by rw [statusSize]; omega)
  exact rest

theorem goes_answerCall {request : Call} {next : Unit → ServerM α}
    (rest : Goes answer (next ()) (answer world request).2 inbox out last world' inbox') :
    Goes answer (answerCall request >>= next) world inbox
      (status (answer world request).1.ret (answer world request).1.errno ++ out) last world' inbox' := by
  rw [answerCall, bind_assoc]
  exact goes_ask (goes_sendStatus rest)

theorem takeWhile_nulFree {path : Path} (nulFree : 0 ∉ path) : path.takeWhile (· ≠ 0) = path := by
  induction path with
  | nil => rfl
  | cons b path ih =>
    have notNul : b ≠ 0 := fun same => nulFree (same ▸ List.mem_cons_self)
    have rest : 0 ∉ path := fun member => nulFree (List.mem_cons_of_mem _ member)
    rw [List.takeWhile_cons_of_pos (by simpa using notNul), ih rest]

theorem string_of_prefix {path bytes : Path} (nulFree : 0 ∉ path) (front : path.take xpnPathMax <+: bytes)
    (fit : path.length ≤ xpnPathMax) : (bytes.take path.length).takeWhile (· ≠ 0) = path := by
  rw [List.take_of_length_le fit] at front
  rw [← List.prefix_iff_eq_take.mp front, takeWhile_nulFree nulFree]

theorem goes_readFullpath {path bytes : Path} (nulFree : 0 ∉ path) (front : path.take xpnPathMax <+: bytes)
    {next : Path → ServerM α} (rest : Goes answer (next path) world inbox out last world' inbox') :
    Goes answer (readFullpath path.length bytes >>= next) world (path.drop xpnPathMax ++ inbox) out last world' inbox' := by
  rw [readFullpath]
  by_cases fit : path.length ≤ xpnPathMax
  · have fit' : (path.length : Int) ≤ xpnPathMax := by exact_mod_cast fit
    rw [if_pos fit', pure_bind, Int.toNat_natCast, string_of_prefix nulFree front fit, List.drop_eq_nil_of_le fit,
      List.nil_append]
    exact rest
  · have long : ¬(path.length : Int) ≤ xpnPathMax := by exact_mod_cast fit
    have size : (path.length : Int) - xpnPathMax = (path.length - xpnPathMax : Nat) := by omega
    have text : (bytes.take xpnPathMax ++ path.drop xpnPathMax).takeWhile (· ≠ 0) = path := by
      have whole : (path.take xpnPathMax).length = xpnPathMax := by
        rw [List.length_take]
        omega
      have same : bytes.take xpnPathMax = path.take xpnPathMax := by
        have taken := List.prefix_iff_eq_take.mp front
        rw [whole] at taken
        exact taken.symm
      rw [same, List.take_append_drop, takeWhile_nulFree nulFree]
    rw [if_neg long, size, bind_assoc]
    apply goes_read (by simp) (by omega)
    have sent : ¬((path.length - xpnPathMax : Nat) : Int) < 0 := by omega
    simpa only [if_neg sent, pure_bind, text] using rest

end

/-! ### The petition -/

/-- A petition with its union reaches its branch. -/
theorem goes_handlePetition {S : Type} {answer : S → Call → Answer × S} {world world' : S} {inbox inbox' out u : List Byte}
    {last : ServerM (Option Int)} (stack : Nat → Byte) {opcode : Nat} (small : opcode < 2 ^ 31) (whole : u.length = msgSize)
    (rest : Goes answer (petitionSwitch stack u opcode >>= fun alive => pure (if alive then some 0 else none)) world inbox
      out last world' inbox') :
    Goes answer (handlePetition stack) world (petition opcode u ++ inbox) out last world' inbox' := by
  have size : (petition opcode u).length = petitionSize := by
    simp only [petition, List.length_append, length_intBytes, List.length_replicate, whole, petitionSize]
    omega
  have member : (petition opcode u).drop 8 = u := by
    rw [petition, ← List.append_assoc]
    exact List.drop_left' (by simp [length_intBytes])
  have type : intAt (petition opcode u) 0 = opcode := by
    have front : pread (petition opcode u) 0 4 = intBytes opcode := by
      rw [pread, List.drop_zero, petition]
      exact List.take_left' (length_intBytes opcode)
    rw [intAt, front, unsigned_intBytes (by omega)]
    exact toCInt_of_small (by omega) (by omega)
  rw [handlePetition]
  apply goes_read size (by rw [petitionSize]; omega)
  have positive : ¬(petitionSize : Int) < 0 := by omega
  simpa only [if_neg positive, member, type] using rest

section
variable {u : List Byte} {pathLen text : Nat} {path : Path} (order : pathLen + 4 ≤ text)
    (inside : text + xpnPathMax ≤ u.length)
include order inside

theorem length_setPath : (setPath u pathLen text path).length = u.length := by
  have copied : (path.take xpnPathMax).length ≤ xpnPathMax := List.length_take_le _ _
  have placed : (overwrite u text (path.take xpnPathMax)).length = u.length := length_overwrite (by omega)
  rw [setPath, length_store (by omega), placed]

theorem intAt_setPath (short : path.length < pathMax) : intAt (setPath u pathLen text path) pathLen = path.length := by
  have copied : (path.take xpnPathMax).length ≤ xpnPathMax := List.length_take_le _ _
  have placed : (overwrite u text (path.take xpnPathMax)).length = u.length := length_overwrite (by omega)
  have small := length_small short
  rw [setPath, intAt_store (by omega)]
  exact toCInt_of_small (by omega) (by omega)

theorem prefix_setPath : path.take xpnPathMax <+: pread (setPath u pathLen text path) text xpnPathMax := by
  have copied : (path.take xpnPathMax).length ≤ xpnPathMax := List.length_take_le _ _
  have placed : (overwrite u text (path.take xpnPathMax)).length = u.length := length_overwrite (by omega)
  rw [setPath, pread_store_apart (by omega) (by omega), pread_overwrite (by omega) copied, overwrite_front]
  exact List.prefix_append _ _

theorem pread_setPath_apart {offset count : Nat} (notLength : offset + count ≤ pathLen ∨ pathLen + 4 ≤ offset)
    (notText : offset + count ≤ text ∨ text + xpnPathMax ≤ offset) :
    pread (setPath u pathLen text path) offset count = pread u offset count := by
  have copied : (path.take xpnPathMax).length ≤ xpnPathMax := List.length_take_le _ _
  have placed : (overwrite u text (path.take xpnPathMax)).length = u.length := length_overwrite (by omega)
  rw [setPath, pread_store_apart (by omega) (by omega), pread_overwrite_apart (by omega) (by omega)]

end

/-! ### Fields of the union -/

@[simp] theorem length_zeros : zeros.length = msgSize := by simp [zeros]

theorem intAt_store_int32 {record : List Byte} {offset : Nat} (inside : offset + 4 ≤ record.length) (value : Int32) :
    intAt (store record offset 4 value.toInt) offset = value.toInt := by
  rw [intAt_store inside]
  exact toCInt_of_small value.le_toInt value.toInt_lt

theorem wordAt_store {record : List Byte} {offset : Nat} (inside : offset + 4 ≤ record.length) (value : UInt32) :
    wordAt (store record offset 4 value.toNat) offset = value.toNat := by
  have below := value.toNat_lt
  have stored : (unsigned (field 4 value.toNat) : Int) = value.toNat := by
    rw [unsigned_field]
    exact Int.emod_eq_of_lt (by omega) (by omega)
  rw [wordAt, pread_store inside]
  omega

theorem intAt_congr {u v : List Byte} {offset : Nat} (same : pread u offset 4 = pread v offset 4) :
    intAt u offset = intAt v offset := by
  rw [intAt, intAt, same]

theorem wordAt_congr {u v : List Byte} {offset : Nat} (same : pread u offset 4 = pread v offset 4) :
    wordAt u offset = wordAt v offset := by
  rw [wordAt, wordAt, same]

/-! ### Petitions that are answered with a status -/

section
variable {S : Type} (fs : Library S) (stack : Nat → Byte) {world world' : S}

/-- The client hears what the branch of its petition sends: a status and what follows it. -/
theorem meets_branch {opcode : Nat} {u out : List Byte} {paths : List Path} {ret errno : Int} {result : Result}
    (small : opcode < 2 ^ 31) (whole : u.length = msgSize) {next : Option (List Byte) → ClientM Result}
    (branch : Goes fs.answer (petitionSwitch stack u opcode >>= fun alive => pure (if alive then some (0 : Int) else none))
      world (tails paths) (status ret errno ++ out) (.done (some 0)) world' [])
    (hears : Goes NfiXpnServer.silent (next (some (status ret errno))) () out [] (.done result) () []) :
    Meets NfiXpnServer.silent fs.answer (sendReceive (petition opcode u) paths >>= next) () (handlePetition stack) world
      result (some 0) world' := by
  have size : (petition opcode u).length = petitionSize := by
    simp only [petition, List.length_append, length_intBytes, List.length_replicate, whole, petitionSize]
    omega
  exact meets_once (goes_sendReceive size paths _) (goes_handlePetition stack small whole branch) (goes_status hears)

theorem meets_status {opcode : Nat} {u : List Byte} {paths : List Path} {ret errno : Int} (small : opcode < 2 ^ 31)
    (whole : u.length = msgSize)
    (branch : Goes fs.answer (petitionSwitch stack u opcode >>= fun alive => pure (if alive then some (0 : Int) else none))
      world (tails paths) (status ret errno) (.done (some 0)) world' []) :
    Meets NfiXpnServer.silent fs.answer (returnStatus (sendReceive (petition opcode u) paths)) ()
      (handlePetition stack) world
      (.number (toCInt ret)) (some 0) world' := by
  rw [← List.append_nil (status ret errno)] at branch
  apply meets_branch fs stack small whole branch
  change Goes _ (.done (Result.number (intAt (status ret errno) 0))) () [] [] _ () []
  rw [intAt_status]
  exact Goes.refl

variable (world) in
theorem goes_lives {request : Call} {inbox : List Byte} :
    Goes fs.answer (lives (answerCall request) >>= fun alive => pure (if alive then some (0 : Int) else none)) world inbox
      (status (fs.answer world request).1.ret (fs.answer world request).1.errno) (.done (some 0)) (fs.answer world request).2
      inbox := by
  rw [lives, bind_assoc, ← List.append_nil (status _ _)]
  apply goes_answerCall
  exact Goes.refl

theorem goes_memberFullpath {α : Type} {member : PathMember} {u : List Byte} {path : Path} {out : List Byte}
    {last : ServerM α}
    (fits : PathMember.Fits member) (whole : u.length = msgSize) (nulFree : 0 ∉ path) (short : path.length < pathMax)
    {next : Path → ServerM α} (rest : Goes fs.answer (next path) world [] out last world' []) :
    Goes fs.answer (memberFullpath member (setPath u member.pathLen member.path path) >>= next) world (tails [path]) out last
      world' [] := by
  have := fits.path
  have := fits.size
  have order : member.pathLen + 4 ≤ member.path := le_rfl
  have inside : member.path + xpnPathMax ≤ u.length := by omega
  rw [memberFullpath, intAt_setPath order inside short]
  have read : Goes fs.answer _ _ _ _ _ _ _ := goes_readFullpath nulFree (prefix_setPath order inside) rest
  simpa [tails] using read

variable (world) in
theorem goes_pathBranch {member : PathMember} {u : List Byte} {path : Path} (fits : PathMember.Fits member)
    (whole : u.length = msgSize) (nulFree : 0 ∉ path) (short : path.length < pathMax) (request : Path → Call) :
    Goes fs.answer ((lives do
        let path ← memberFullpath member (setPath u member.pathLen member.path path)
        answerCall (request path)) >>= fun alive => pure (if alive then some (0 : Int) else none)) world (tails [path])
      (status (fs.answer world (request path)).1.ret (fs.answer world (request path)).1.errno) (.done (some 0))
      (fs.answer world (request path)).2 [] := by
  rw [lives, bind_assoc, bind_assoc]
  apply goes_memberFullpath fs fits whole nulFree short
  have call : Goes fs.answer (lives (answerCall (request path)) >>= _) world [] _ _ _ [] := goes_lives fs world
  rw [lives, bind_assoc] at call
  exact call

/-! ### The petitions one by one -/

variable (world : S)

/-- What the client returns and the world after it are those of the direct call. -/
def Transparent (op : ProxyOp) : Prop :=
  ∃ result world', perform fs.answer (direct op) world [] = some ⟨result, world', [], [], []⟩ ∧
    Meets NfiXpnServer.silent fs.answer op.run () (handlePetition stack) world result (some 0) world'

theorem transparent_plain {op : ProxyOp} (opcode : Nat) {u : List Byte} (request : Call) (small : opcode < 2 ^ 31)
    (whole : u.length = msgSize) (runs : op.run = returnStatus (dSendReceive (petition opcode u) []))
    (switches : petitionSwitch stack u opcode = lives (answerCall request))
    (asks : direct op = ask request >>= fun answer => pure (.number (toCInt answer.ret))) :
    Transparent fs stack world op := by
  have branch : Goes fs.answer (lives (answerCall request) >>= _) world (tails [[]]) _ _ _ [] := goes_lives fs world
  rw [← switches] at branch
  refine ⟨.number (toCInt (fs.answer world request).1.ret), (fs.answer world request).2, ?_, ?_⟩
  · rw [asks]
    rfl
  · rw [runs]
    exact meets_status fs stack small whole branch

theorem transparent_path {op : ProxyOp} (member : PathMember) {u : List Byte} {path : NfiXpnServer.CPath}
    (request : Path → Call) (small : member.opcode < 2 ^ 31) (fits : PathMember.Fits member) (whole : u.length = msgSize)
    (runs : op.run = returnStatus (dSendReceive (pathPetition member u path.text) path.text))
    (switches : petitionSwitch stack (setPath u member.pathLen member.path path.text) member.opcode = lives do
      let path ← memberFullpath member (setPath u member.pathLen member.path path.text)
      answerCall (request path))
    (asks : direct op = ask (request path.text) >>= fun answer => pure (.number (toCInt answer.ret))) :
    Transparent fs stack world op := by
  have := fits.path
  have := fits.size
  have inside : member.path + xpnPathMax ≤ u.length := by omega
  have branch := goes_pathBranch fs world fits whole path.nulFree path.short request
  rw [← switches] at branch
  refine ⟨.number (toCInt (fs.answer world (request path.text)).1.ret), (fs.answer world (request path.text)).2, ?_, ?_⟩
  · rw [asks]
    rfl
  · rw [runs]
    exact meets_status fs stack small ((length_setPath le_rfl inside).trans whole) branch

theorem pread_member_apart {member : PathMember} {u : List Byte} (fits : PathMember.Fits member) (whole : u.length = msgSize)
    (path : Path) {offset count : Nat} (before : offset + count ≤ member.pathLen) :
    pread (setPath u member.pathLen member.path path) offset count = pread u offset count := by
  have := fits.path
  have := fits.size
  have : member.path = member.pathLen + 4 := rfl
  exact pread_setPath_apart le_rfl (by omega) (.inl before) (.inl (by omega))

theorem mode_read {member : PathMember} {u : List Byte} (fits : PathMember.Fits member) (whole : u.length = msgSize)
    (path : Path) (mode : UInt32) (before : 8 ≤ member.pathLen) :
    wordAt (setPath (store u 4 4 mode.toNat) member.pathLen member.path path) 4 = mode.toNat := by
  have stored : (store u 4 4 mode.toNat).length = msgSize := by rw [length_store (by rw [whole]; decide), whole]
  rw [wordAt_congr (pread_member_apart fits stored path before), wordAt_store (by rw [whole]; decide)]

theorem fits_open : PathMember.Fits opOpen := ⟨by decide, by decide⟩

theorem fits_creat : PathMember.Fits opCreat := ⟨by decide, by decide⟩

theorem fits_mkdir : PathMember.Fits opMkdir := ⟨by decide, by decide⟩

theorem transparent_open (path : NfiXpnServer.CPath) (flags : Int32) (mode : UInt32) :
    Transparent fs stack world (.open path flags mode) := by
  have flagged : (store zeros 0 4 flags.toInt).length = msgSize := by simp [length_store, msgSize]
  have whole : (store (store zeros 0 4 flags.toInt) 4 4 mode.toNat).length = msgSize := by
    rw [length_store (by rw [flagged]; decide), flagged]
  have flags_read : intAt (setPath (store (store zeros 0 4 flags.toInt) 4 4 mode.toNat) opOpen.pathLen opOpen.path
    path.text) 0 =
      flags.toInt := by
    rw [intAt_congr (pread_member_apart fits_open whole path.text (by decide)),
      intAt_congr (pread_store_apart (by rw [flagged]; decide) (by decide) _), intAt_store_int32 (by simp [msgSize])]
  apply transparent_path fs stack world opOpen (fun path => .open path flags.toInt mode.toNat)
    (by decide) fits_open whole rfl
  · change lives (memberFullpath opOpen _ >>= fun path => answerCall (.open path (intAt _ 0) (wordAt _ 4))) = _
    rw [flags_read, mode_read fits_open flagged path.text mode (by decide)]
  · rfl

theorem transparent_creat (path : NfiXpnServer.CPath) (perm : UInt32) : Transparent fs stack world (.creat path perm) := by
  have flagged : (store zeros 0 4 511).length = msgSize := by simp [length_store, msgSize]
  have whole : (store (store zeros 0 4 511) 4 4 perm.toNat).length = msgSize := by
    rw [length_store (by rw [flagged]; decide), flagged]
  apply transparent_path fs stack world opCreat (fun path => .creat path perm.toNat) (by decide) fits_creat whole rfl
  · change lives (memberFullpath opCreat _ >>= fun path => answerCall (.creat path (wordAt _ 4))) = _
    rw [mode_read fits_creat flagged path.text perm (by decide)]
  · rfl

theorem transparent_mkdir (path : NfiXpnServer.CPath) (perm : UInt32) : Transparent fs stack world (.mkdir path perm) := by
  have whole : (store zeros 4 4 perm.toNat).length = msgSize := by simp [length_store, msgSize]
  apply transparent_path fs stack world opMkdir (fun path => .mkdir path perm.toNat) (by decide) fits_mkdir whole rfl
  · change lives (memberFullpath opMkdir _ >>= fun path => answerCall (.mkdir path (wordAt _ 4))) = _
    rw [mode_read fits_mkdir length_zeros path.text perm (by decide)]
  · rfl

theorem transparent_unlink (path : NfiXpnServer.CPath) : Transparent fs stack world (.unlink path) :=
  transparent_path fs stack world opRm .unlink (by decide) ⟨by decide, by decide⟩ length_zeros rfl rfl rfl

theorem transparent_rmdir (path : NfiXpnServer.CPath) : Transparent fs stack world (.rmdir path) :=
  transparent_path fs stack world opRmdir .rmdir (by decide) ⟨by decide, by decide⟩ length_zeros rfl rfl rfl

theorem transparent_close (fd : Int32) (opened : 0 ≤ fd.toInt) : Transparent fs stack world (.close fd) := by
  have whole : (store zeros 0 4 fd.toInt).length = msgSize := by simp [length_store, msgSize]
  apply transparent_plain fs stack world opClose.opcode (.close fd.toInt) (by decide) whole
  · simp only [ProxyOp.run, xpnClose, if_neg (Int.not_lt.mpr opened)]
  · change lives (answerCall (.close (intAt _ 0))) = _
    rw [intAt_store_int32 (by simp [msgSize]) fd]
  · rfl

theorem handle_read (dirp : UInt64) : sizeAt (store zeros dirHandle 8 dirp.toNat) dirHandle = dirp.toNat :=
  sizeAt_store (by simp [dirHandle, msgSize]) dirp.toNat_lt

theorem transparent_closedir (dirp : UInt64) : Transparent fs stack world (.closedir dirp) := by
  have whole : (store zeros dirHandle 8 dirp.toNat).length = msgSize := by simp [length_store, dirHandle, msgSize]
  apply transparent_plain fs stack world opClosedir.opcode (.closedir dirp.toNat) (by decide) whole rfl
  · change lives (answerCall (.closedir (sizeAt _ dirHandle))) = _
    rw [handle_read dirp]
  · rfl

theorem ended_lives (branch : ServerM Unit) :
    (lives branch >>= fun alive => pure (if alive then some (0 : Int) else none)) = branch >>= fun _ => pure (some 0) := by
  rw [lives, bind_assoc]
  rfl

theorem switch_rename (u : List Byte) : petitionSwitch stack u renameOpcode = lives (petitionRename u) := rfl

theorem switch_getattr (u : List Byte) : petitionSwitch stack u opGetattr.opcode = lives (petitionGetattr u) := rfl

theorem switch_readdir (u : List Byte) : petitionSwitch stack u opReaddir.opcode = lives (petitionReaddir stack u) := rfl

theorem switch_read (u : List Byte) : petitionSwitch stack u opRead.opcode = lives (petitionRead stack u) := rfl

theorem switch_write (u : List Byte) : petitionSwitch stack u opWrite.opcode = lives (petitionWrite stack u) := rfl

theorem switch_opendir (u : List Byte) : petitionSwitch stack u opOpendir.opcode = petitionOpendir u := rfl

theorem goes_rename (path newpath : NfiXpnServer.CPath) :
    Goes fs.answer (petitionRename (setPath (setPath zeros 0 oldUrl path.text) 4 newUrl newpath.text) >>=
        fun _ => pure (some (0 : Int))) world (tails [path.text, newpath.text])
      (status (fs.answer world (.rename path.text newpath.text)).1.ret
        (fs.answer world (.rename path.text newpath.text)).1.errno)
      (.done (some 0)) (fs.answer world (.rename path.text newpath.text)).2 [] := by
  have inside : oldUrl + xpnPathMax ≤ zeros.length := by simp [oldUrl, xpnPathMax, msgSize]
  have filled : (setPath zeros 0 oldUrl path.text).length = msgSize := (length_setPath (by decide) inside).trans length_zeros
  have inside' : newUrl + xpnPathMax ≤ (setPath zeros 0 oldUrl path.text).length := by rw [filled]; decide
  have old_length : intAt (setPath (setPath zeros 0 oldUrl path.text) 4 newUrl newpath.text) 0 = path.text.length := by
    rw [intAt_congr (pread_setPath_apart (by decide) inside' (by decide) (by decide)),
      intAt_setPath (by decide) inside path.short]
  have old_text : path.text.take xpnPathMax <+:
      pread (setPath (setPath zeros 0 oldUrl path.text) 4 newUrl newpath.text) oldUrl xpnPathMax := by
    rw [pread_setPath_apart (by decide) inside' (by decide) (by decide)]
    exact prefix_setPath (by decide) inside
  have new_length : intAt (setPath (setPath zeros 0 oldUrl path.text) 4 newUrl newpath.text) 4 = newpath.text.length :=
    intAt_setPath (by decide) inside' newpath.short
  have joined : tails [path.text, newpath.text] = path.text.drop xpnPathMax ++ (newpath.text.drop xpnPathMax ++ []) := rfl
  rw [petitionRename, bind_assoc, old_length, joined]
  apply goes_readFullpath path.nulFree old_text
  rw [bind_assoc, new_length]
  apply goes_readFullpath newpath.nulFree (prefix_setPath (by decide) inside')
  rw [← List.append_nil (status _ _)]
  exact goes_answerCall Goes.refl

theorem transparent_rename (path newpath : NfiXpnServer.CPath) : Transparent fs stack world (.rename path newpath) := by
  have inside : oldUrl + xpnPathMax ≤ zeros.length := by simp [oldUrl, xpnPathMax, msgSize]
  have filled : (setPath zeros 0 oldUrl path.text).length = msgSize := (length_setPath (by decide) inside).trans length_zeros
  have inside' : newUrl + xpnPathMax ≤ (setPath zeros 0 oldUrl path.text).length := by rw [filled]; decide
  have whole : (setPath (setPath zeros 0 oldUrl path.text) 4 newUrl newpath.text).length = msgSize :=
    (length_setPath (by decide) inside').trans filled
  have branch := goes_rename fs world path newpath
  rw [← ended_lives, ← switch_rename stack] at branch
  exact ⟨_, _, rfl, meets_status fs stack (by decide) whole branch⟩

/-! ### Petitions that are answered with more -/

theorem length_setStatus {record : List Byte} {offset : Nat} (inside : offset + 8 ≤ record.length) (ret errno : Int) :
    (XpnServer.setStatus record offset ret errno).length = record.length := by
  have first : (store record offset 4 ret).length = record.length := length_store (by omega) _
  rw [XpnServer.setStatus, length_store (by omega), first]

theorem pread_setStatus_apart {record : List Byte} {offset other count : Nat} (inside : offset + 8 ≤ record.length)
    (apart : other + count ≤ offset ∨ offset + 8 ≤ other) (ret errno : Int) :
    pread (XpnServer.setStatus record offset ret errno) other count = pread record other count := by
  have first : (store record offset 4 ret).length = record.length := length_store (by omega) _
  rw [XpnServer.setStatus, pread_store_apart (by omega) (by omega), pread_store_apart (by omega) (by omega)]

theorem intAt_setStatus {record : List Byte} {offset : Nat} (inside : offset + 8 ≤ record.length) (ret errno : Int) :
    intAt (XpnServer.setStatus record offset ret errno) offset = toCInt ret := by
  have first : (store record offset 4 ret).length = record.length := length_store (by omega) _
  rw [XpnServer.setStatus, intAt_congr (pread_store_apart (by omega) (by omega) _), intAt_store (by omega)]

/-- A number that is 0 as an `int` is 0 as a `char`. -/
theorem toCChar_of_toCInt {value : Int} (zero : toCInt value = 0) : toCChar value = 0 := by
  have divides : (2 ^ 32 : Int) ∣ value := Int.dvd_of_emod_eq_zero (by
    simp only [toCInt, Int.bmod] at zero
    split at zero <;> omega)
  obtain ⟨k, rfl⟩ := divides
  simp only [toCChar, Int.bmod]
  omega

def attrReq (answer : Answer) : List Byte :=
  store (XpnServer.setStatus (overwrite (List.replicate attrReqSize 0) 0 (answer.data.take statSize)) attrReqStatusReq 0
    answer.errno) attrReqStatus 1 answer.ret

theorem attrReq_spec {answer : Answer} (whole : answer.data.length = statSize) (well : toCInt answer.ret = 0) :
    (attrReq answer).length = attrReqSize ∧ charAt (attrReq answer) attrReqStatus = 0 ∧
      (attrReq answer).take statSize = answer.data := by
  unfold attrReq
  generalize zeroed : List.replicate attrReqSize (0 : Byte) = zero
  have size : zero.length = attrReqSize := by rw [← zeroed, List.length_replicate]
  have copied : (overwrite zero 0 (answer.data.take statSize)).length = attrReqSize := by
    rw [List.take_of_length_le whole.le, length_overwrite (by rw [whole, size]; decide), size]
  have set : (XpnServer.setStatus (overwrite zero 0 (answer.data.take statSize)) attrReqStatusReq 0 answer.errno).length =
      attrReqSize := by
    rw [length_setStatus (by rw [copied]; decide), copied]
  refine ⟨?_, ?_, ?_⟩
  · rw [length_store (by rw [set]; decide), set]
  · rw [charAt_store (by rw [set]; decide), toCChar_of_toCInt well]
  · have front : ∀ record : List Byte, record.take statSize = pread record 0 statSize := fun _ => rfl
    rw [front, pread_store_apart (by rw [set]; decide) (by decide), pread_setStatus_apart (by rw [copied]; decide)
      (by decide),
      overwrite_front, ← front, List.take_left' (by rw [List.take_of_length_le whole.le, whole]),
      List.take_of_length_le whole.le]

/-- The client hears the record behind a status of 0. -/
theorem hears_record {record : List Byte} {size : Nat} {ret errno : Int} {result : Result} {other : ClientM Result}
    {next : Int × List Byte → ClientM Result} (positive : 0 < size) (whole : record.length = size) (well : toCInt ret = 0)
    (rest : next (size, record) = .done result) :
    Goes NfiXpnServer.silent (if intAt (status ret errno) 0 ≠ 0 then other else readNBytes size >>= next) () record []
      (.done result) () [] := by
  rw [intAt_status, well, if_neg (by simp), ← List.append_nil record]
  apply goes_read whole positive
  rw [rest]
  exact Goes.refl

theorem hears_status {ret errno : Int} {result : Result} {returns other : ClientM Result} (failed : toCInt ret ≠ 0)
    (same : returns = .done result) :
    Goes NfiXpnServer.silent (if intAt (status ret errno) 0 ≠ 0 then returns else other) () [] [] (.done result) () [] := by
  rw [intAt_status, if_pos failed, same]
  exact Goes.refl

theorem goes_getattr (path : NfiXpnServer.CPath) :
    Goes fs.answer (petitionGetattr (setPath zeros opGetattr.pathLen opGetattr.path path.text) >>= fun _ =>
      pure (some (0 : Int)))
      world (tails [path.text])
      (status (fs.answer world (.stat path.text)).1.ret (fs.answer world (.stat path.text)).1.errno ++
        if toCInt (fs.answer world (.stat path.text)).1.ret = 0 then attrReq (fs.answer world (.stat path.text)).1 else [])
      (.done (some 0)) (fs.answer world (.stat path.text)).2 [] := by
  rw [petitionGetattr, bind_assoc]
  apply goes_memberFullpath fs ⟨by decide, by decide⟩ length_zeros path.nulFree path.short
  rw [bind_assoc]
  apply goes_ask
  rw [bind_assoc]
  apply goes_sendStatus
  by_cases well : toCInt (fs.answer world (.stat path.text)).1.ret = 0
  · have size := (attrReq_spec (fs.stats world path.text) well).1
    rw [if_pos well, if_pos well, ← List.append_nil (attrReq _), bind_assoc]
    exact goes_write_all size (by decide) Goes.refl
  · rw [if_neg well, if_neg well]
    exact Goes.refl

theorem transparent_stat (path : NfiXpnServer.CPath) : Transparent fs stack world (.stat path) := by
  have whole : (setPath zeros opGetattr.pathLen opGetattr.path path.text).length = msgSize :=
    (length_setPath le_rfl (by simp [opGetattr, xpnPathMax, msgSize])).trans length_zeros
  have branch := goes_getattr fs world path
  rw [← ended_lives, ← switch_getattr stack] at branch
  refine ⟨_, _, rfl, meets_branch fs stack (by decide) whole branch ?_⟩
  by_cases well : toCInt (fs.answer world (.stat path.text)).1.ret = 0
  · obtain ⟨size, ok, attr⟩ := attrReq_spec (fs.stats world path.text) well
    rw [if_pos well, if_pos well]
    apply hears_record (by decide) size well
    have positive : ¬(attrReqSize : Int) < 0 := by decide
    simp only [if_neg positive, ok, ne_eq, not_true_eq_false, if_false, attr, intAt_status]
    rfl
  · rw [if_neg well, if_neg well]
    exact hears_status well (by rw [intAt_status]; rfl)

theorem toCInt_range (value : Int) : -2 ^ 31 ≤ toCInt value ∧ toCInt value < 2 ^ 31 := by
  simp only [toCInt, Int.bmod]
  split <;> omega

def opendirReq (answer : Answer) : List Byte :=
  field 8 (intAt answer.data 0) ++ (field 8 answer.ret ++ (field 4 0 ++ field 4 answer.errno))

theorem opendirReq_spec {answer : Answer} (some : 0 < answer.ret) (fits : answer.ret < 2 ^ 63) :
    (opendirReq answer).length = opendirReqSize ∧ intAt (opendirReq answer) opendirReqStatus = 0 ∧
      sizeAt (opendirReq answer) opendirReqDir = answer.ret.toNat ∧ toCInt (longAt (opendirReq answer) 0) =
        intAt answer.data 0 := by
  have status : pread (opendirReq answer) opendirReqStatus 4 = field 4 0 := by
    rw [opendirReq, ← List.append_assoc, pread, List.drop_left' (by simp [opendirReqStatus])]
    exact List.take_left' (length_field _ _)
  have dir : pread (opendirReq answer) opendirReqDir 8 = field 8 answer.ret := by
    rw [opendirReq, pread, List.drop_left' (by simp [opendirReqDir])]
    exact List.take_left' (length_field _ _)
  have fd : pread (opendirReq answer) 0 8 = field 8 (intAt answer.data 0) := by
    rw [opendirReq, pread, List.drop_zero]
    exact List.take_left' (length_field _ _)
  refine ⟨?_, ?_, ?_, ?_⟩
  · simp [opendirReq, opendirReqSize]
  · rw [intAt, status, unsigned_field]
    decide
  · have stored : (unsigned (field 8 answer.ret) : Int) = answer.ret := by
      rw [unsigned_field]
      exact Int.emod_eq_of_lt (by omega) (by omega)
    rw [sizeAt, dir]
    omega
  · obtain ⟨low, high⟩ := toCInt_range (unsigned (pread answer.data 0 4))
    rw [← intAt] at low high
    have long : longAt (opendirReq answer) 0 = toCLong (intAt answer.data 0) := by
      rw [longAt, fd, unsigned_field, toCLong, toCLong]
      exact Int.emod_bmod _ _
    rw [long, toCLong_of_small (by omega) (by omega), toCInt_of_small low high]

theorem goes_opendir (path : NfiXpnServer.CPath) (opens : Opens fs.answer world (.opendir path)) :
    Goes fs.answer (petitionOpendir (setPath zeros opOpendir.pathLen opOpendir.path path.text) >>=
        fun alive => pure (if alive then some (0 : Int) else none)) world (tails [path.text])
      (status 0 (fs.answer world (.opendir path.text)).1.errno ++ opendirReq (fs.answer world (.opendir path.text)).1)
      (.done (some 0)) (fs.answer world (.opendir path.text)).2 [] := by
  obtain ⟨some, fits⟩ := opens
  rw [petitionOpendir, bind_assoc]
  apply goes_memberFullpath fs ⟨by decide, by decide⟩ length_zeros path.nulFree path.short
  rw [bind_assoc]
  apply goes_ask
  rw [bind_assoc]
  apply goes_sendStatus
  rw [if_neg some.ne', ← List.append_nil (opendirReq _), bind_assoc]
  exact goes_write_all (opendirReq_spec some fits).1 (by decide) Goes.refl

theorem transparent_opendir (path : NfiXpnServer.CPath) (opens : Opens fs.answer world (.opendir path)) :
    Transparent fs stack world (.opendir path) := by
  have whole : (setPath zeros opOpendir.pathLen opOpendir.path path.text).length = msgSize :=
    (length_setPath le_rfl (by simp [opOpendir, xpnPathMax, msgSize])).trans length_zeros
  have branch := goes_opendir fs world path opens
  obtain ⟨some, fits⟩ := opens
  obtain ⟨size, ok, dir, fd⟩ := opendirReq_spec some fits
  rw [← switch_opendir stack] at branch
  refine ⟨_, _, rfl, meets_branch fs stack (by decide) whole branch ?_⟩
  apply hears_record (by decide) size (by decide)
  have positive : ¬(opendirReqSize : Int) < 0 := by decide
  have handle : ¬(fs.answer world (.opendir path.text)).1.ret.toNat = 0 := by omega
  simp only [if_neg positive, ok, ne_eq, not_true_eq_false, if_false, dir, handle, fd]
  rfl

def readdirReq (stack : Nat → Byte) (answer : Answer) : List Byte :=
  overwrite (XpnServer.setStatus (store (contents stack readdirReqSize) 0 4 1) readdirReqStatus 0 answer.errno) readdirReqRet
    (answer.data.take direntSize)

theorem readdirReq_spec {answer : Answer} (whole : answer.data.length = direntSize) :
    (readdirReq stack answer).length = readdirReqSize ∧ intAt (readdirReq stack answer) readdirReqStatus = 0 ∧
      pread (readdirReq stack answer) readdirReqRet direntSize = answer.data := by
  have begun : (store (contents stack readdirReqSize) 0 4 1).length = readdirReqSize := by
    rw [length_store (by rw [length_contents]; decide), length_contents]
  have set : (XpnServer.setStatus (store (contents stack readdirReqSize) 0 4 1) readdirReqStatus 0 answer.errno).length =
      readdirReqSize := by
    rw [length_setStatus (by rw [begun]; decide), begun]
  have entry : (answer.data.take direntSize) = answer.data := List.take_of_length_le whole.le
  rw [readdirReq, entry]
  refine ⟨?_, ?_, ?_⟩
  · rw [length_overwrite (by rw [whole, set]; decide), set]
  · rw [intAt_congr (pread_overwrite_apart (by rw [set]; decide) (by rw [whole]; decide)),
      intAt_setStatus (by rw [begun]; decide)]
    rfl
  · rw [pread_overwrite (by rw [set]; decide) whole.le, overwrite_front, List.drop_eq_nil_of_le, List.append_nil]
    rw [whole, pread, List.length_take]
    omega

theorem goes_readdir (dirp : UInt64) :
    Goes fs.answer (petitionReaddir stack (store zeros dirHandle 8 dirp.toNat) >>= fun _ => pure (some (0 : Int))) world []
      (status (if (fs.answer world (.readdir dirp.toNat)).1.ret = 0 then -1 else 0)
          (fs.answer world (.readdir dirp.toNat)).1.errno ++
        if (fs.answer world (.readdir dirp.toNat)).1.ret = 0 then []
        else readdirReq stack (fs.answer world (.readdir dirp.toNat)).1)
      (.done (some 0)) (fs.answer world (.readdir dirp.toNat)).2 [] := by
  rw [petitionReaddir, handle_read, bind_assoc]
  apply goes_ask
  by_cases ended : (fs.answer world (.readdir dirp.toNat)).1.ret = 0
  · simp only [if_pos ended]
    exact goes_sendStatus Goes.refl
  · simp only [if_neg ended]
    rw [bind_assoc]
    apply goes_sendStatus
    rw [bind_assoc, ← List.append_nil (readdirReq _ _)]
    exact goes_write_all (readdirReq_spec stack (fs.entries world dirp.toNat)).1 (by decide) Goes.refl

theorem transparent_readdir (dirp : UInt64) : Transparent fs stack world (.readdir dirp) := by
  have whole : (store zeros dirHandle 8 dirp.toNat).length = msgSize := by simp [length_store, dirHandle, msgSize]
  have branch : Goes _ _ _ (tails [[]]) _ _ _ _ := goes_readdir fs stack world dirp
  rw [← ended_lives, ← switch_readdir stack] at branch
  refine ⟨_, _, rfl, meets_branch fs stack (by decide) whole branch ?_⟩
  by_cases ended : (fs.answer world (.readdir dirp.toNat)).1.ret = 0
  · rw [if_pos ended, if_pos ended, if_pos ended]
    exact hears_status (by decide) rfl
  · obtain ⟨size, ok, entry⟩ := readdirReq_spec stack (fs.entries world dirp.toNat)
    rw [if_neg ended, if_neg ended, if_neg ended]
    apply hears_record (by decide) size (by decide)
    have positive : ¬(readdirReqSize : Int) < 0 := by decide
    simp only [if_neg positive, ok, ne_eq, not_true_eq_false, if_false, entry]
    rfl

/-! ### Reads and writes -/

def rwUnion (fd : Int32) (size : UInt64) : List Byte := store (store zeros rwFd 4 fd.toInt) rwSize 8 size.toNat

theorem rwUnion_spec (fd : Int32) (size : UInt64) : (rwUnion fd size).length = msgSize ∧
    intAt (rwUnion fd size) rwFd = fd.toInt ∧ sizeAt (rwUnion fd size) rwSize = size.toNat := by
  have set : (store zeros rwFd 4 fd.toInt).length = msgSize := by simp [length_store, rwFd, msgSize]
  refine ⟨?_, ?_, ?_⟩
  · rw [rwUnion, length_store (by rw [set]; decide), set]
  · rw [rwUnion, intAt_congr (pread_store_apart (by rw [set]; decide) (by decide) _),
      intAt_store_int32 (by simp [rwFd, msgSize])]
  · rw [rwUnion, sizeAt_store (by rw [set]; decide) size.toNat_lt]

/-- What is sent of the buffer of a read is what was read. -/
theorem sent_of_read {size : Nat} {ret : Int} {data : List Byte} (high : ret ≤ size) (stored : data.length = ret.toNat) :
    ret.toNat ≤ (overwrite (List.replicate size 0) 0 (data.take size)).length ∧
      (overwrite (List.replicate size 0) 0 (data.take size)).take ret.toNat = data := by
  have inside : data.length ≤ size := by omega
  constructor
  · rw [length_overwrite (by simp), List.length_replicate]
    omega
  · rw [List.take_of_length_le inside, overwrite_front]
    exact List.take_left' stored

theorem goes_petitionRead (fd : Int32) (size : UInt64) (small : size.toNat < 2 ^ 31)
    (granted : (fs.answer world (.malloc size.toNat)).1.ret ≠ 0) :
    let after := (fs.answer world (.malloc size.toNat)).2
    let answer := (fs.answer after (.read fd.toInt size.toNat)).1
    Goes fs.answer (petitionRead stack (rwUnion fd size) >>= fun _ => pure (some (0 : Int))) world []
      (status answer.ret answer.errno ++ answer.data) (.done (some 0))
        (fs.answer after (.read fd.toInt size.toNat)).2 [] := by
  intro after answer
  obtain ⟨_, descriptor, asked⟩ := rwUnion_spec fd size
  have low : -1 ≤ answer.ret := (fs.reads after fd.toInt size.toNat).1
  have high : answer.ret ≤ size.toNat := (fs.reads after fd.toInt size.toNat).2.1
  have stored : answer.data.length = answer.ret.toNat := (fs.reads after fd.toInt size.toNat).2.2
  have int : toCInt answer.ret = answer.ret := toCInt_of_small (by omega) (by omega)
  rw [petitionRead, descriptor, asked, bind_assoc]
  apply goes_ask
  rw [if_neg granted, bind_assoc]
  apply goes_ask
  rw [bind_assoc]
  apply goes_sendStatus
  change Goes _ (ite (0 < toCInt answer.ret) _ _ >>= _) _ _ _ _ _ _
  rw [int]
  by_cases got : 0 < answer.ret
  · obtain ⟨room, data⟩ := sent_of_read high stored
    have sent : Goes fs.answer (writeNBytes (overwrite (List.replicate size.toNat 0) 0 (answer.data.take size.toNat))
        answer.ret.toNat >>= fun _ => (pure (some 0) : ServerM (Option Int)))
          (fs.answer after (.read fd.toInt size.toNat)).2 []
        _ (.done (some 0)) (fs.answer after (.read fd.toInt size.toNat)).2 [] :=
      goes_write room (Int.lt_toNat.mpr got) Goes.refl
    rw [List.append_nil, data] at sent
    rw [if_pos got, bind_assoc]
    exact sent
  · have none : answer.data = [] := List.length_eq_zero_iff.mp (by omega)
    rw [if_neg got, none]
    exact Goes.refl

/-- A client that reads as much as the status says. -/
theorem hears_read {answer : Answer} (low : -1 ≤ answer.ret) (high : answer.ret < 2 ^ 31)
    (stored : answer.data.length = answer.ret.toNat) :
    Goes NfiXpnServer.silent (do
        let (r, buffer) ← readNBytes (intAt (status answer.ret answer.errno) 0)
        pure (Result.stored r buffer)) () answer.data []
      (.done (if 0 < answer.ret then .stored answer.ret answer.data else .stored (-1) [])) () [] := by
  rw [intAt_status, toCInt_of_small (by omega) high]
  by_cases got : 0 < answer.ret
  · have size : answer.ret = (answer.ret.toNat : Nat) := by omega
    rw [if_pos got, ← List.append_nil answer.data, size]
    apply goes_read stored (Int.lt_toNat.mpr got)
    rw [List.append_nil]
    exact Goes.refl
  · have none : answer.data = [] := List.length_eq_zero_iff.mp (by omega)
    rw [if_neg got, none, readNBytes, if_pos (by omega)]
    exact Goes.refl

theorem transparent_read (fd : Int32) (size : UInt64) (opened : 0 ≤ fd.toInt) (some : 0 < size.toNat)
    (small : size.toNat < 2 ^ 31) (granted : (fs.answer world (.malloc size.toNat)).1.ret ≠ 0) :
    Transparent fs stack world (.read fd size) := by
  obtain ⟨low, high, stored⟩ := fs.reads (fs.answer world (.malloc size.toNat)).2 fd.toInt size.toNat
  have branch : Goes _ _ _ (tails [[]]) _ _ _ _ := goes_petitionRead fs stack world fd size small granted
  rw [← ended_lives, ← switch_read stack] at branch
  have checked : ¬(fd.toInt < 0 ∨ size.toNat = 0) := by omega
  refine ⟨_, _, rfl, ?_⟩
  simp only [ProxyOp.run, xpnRead, if_neg checked]
  apply meets_branch fs stack (by decide) (rwUnion_spec fd size).1 branch
  exact hears_read low (by omega) stored

def awaitData (fd : Int) (size : Nat) (errno : Int) : ServerM (Option Int) := do
  let got ← readNBytes size
  (if 0 < toCInt got.1 then answerCall (.write fd (got.2.take (toCInt got.1).toNat)) else sendStatus got.1 errno) >>=
    fun _ => pure (some 0)

theorem goes_petitionWrite (fd : Int32) (size : UInt64)
    (granted : (fs.answer world (.malloc size.toNat)).1.ret ≠ 0) :
    Goes fs.answer (petitionWrite stack (rwUnion fd size) >>= fun _ => pure (some (0 : Int))) world []
      (status 0 (statusMemory stack)) (awaitData fd.toInt size.toNat (fs.answer world (.malloc size.toNat)).1.errno)
      (fs.answer world (.malloc size.toNat)).2 [] := by
  obtain ⟨_, descriptor, asked⟩ := rwUnion_spec fd size
  rw [petitionWrite, descriptor, asked, bind_assoc]
  apply goes_ask
  rw [if_neg granted, bind_assoc, ← List.append_nil (status _ _)]
  apply goes_sendStatus
  rw [bind_assoc]
  exact Goes.refl

theorem goes_awaitData {fd : Int} {size : Nat} {buffer : List Byte} (whole : buffer.length = size) (positive : 0 < size)
    (small : size < 2 ^ 31) (errno : Int) :
    Goes fs.answer (awaitData fd size errno) world buffer
      (status (fs.answer world (.write fd buffer)).1.ret (fs.answer world (.write fd buffer)).1.errno) (.done (some 0))
      (fs.answer world (.write fd buffer)).2 [] := by
  have int : toCInt (size : Int) = size := toCInt_of_small (by omega) (by omega)
  have some : (0 : Int) < size := by omega
  rw [awaitData]
  apply goes_read_last whole positive
  simp only [int, if_pos some, Int.toNat_natCast, List.take_of_length_le whole.le]
  rw [← List.append_nil (status _ _)]
  exact goes_answerCall Goes.refl

def awaitWritten : ClientM Result := do
  let got ← readNBytes statusSize
  pure (.number (if got.1 < 0 then -1 else intAt got.2 0))

theorem goes_awaitWritten (ret errno : Int) :
    Goes NfiXpnServer.silent awaitWritten () (status ret errno) [] (.done (.number (toCInt ret))) () [] := by
  have arrived : ¬(statusSize : Int) < 0 := by decide
  apply goes_read_last (length_status ret errno) (by decide)
  simp only [if_neg arrived, intAt_status]
  exact Goes.refl

theorem goes_sendData {buffer : List Byte} {size : Nat} (whole : buffer.length = size) (positive : 0 < size)
    (small : size < 2 ^ 31) :
    Goes NfiXpnServer.silent (do
        let ret ← writeNBytes buffer size
        if toCInt ret < 0 then pure (.number (-1)) else awaitWritten) () [] buffer awaitWritten () [] := by
  have sent : ¬toCInt (size : Int) < 0 := by
    rw [toCInt_of_small (by omega) (by omega)]
    omega
  apply goes_write_last whole positive
  rw [if_neg sent]
  exact Goes.refl

theorem transparent_write (fd : Int32) (buffer : Nat → Byte) (size : UInt64) (opened : 0 ≤ fd.toInt)
    (positive : 0 < size.toNat) (small : size.toNat < 2 ^ 31)
    (granted : (fs.answer world (.malloc size.toNat)).1.ret ≠ 0) :
    Transparent fs stack world (.write fd buffer size) := by
  obtain ⟨whole, _⟩ := rwUnion_spec fd size
  have branch : Goes _ _ _ (tails [[]]) _ _ _ _ := goes_petitionWrite fs stack world fd size granted
  rw [← ended_lives, ← switch_write stack] at branch
  have checked : ¬(fd.toInt < 0 ∨ size.toNat = 0) := by omega
  have sized : (petition opWrite.opcode (rwUnion fd size)).length = petitionSize := by
    simp only [petition, List.length_append, length_intBytes, List.length_replicate, whole, petitionSize]
    omega
  have bytes : (contents buffer size.toNat).length = size.toNat := length_contents buffer size.toNat
  refine ⟨_, _, rfl, ?_⟩
  simp only [ProxyOp.run, xpnWrite, if_neg checked]
  refine meets_twice (goes_sendReceive sized [[]] _) (goes_handlePetition stack (by decide) whole branch) ?_
    (goes_awaitData fs _ bytes positive small _) (goes_awaitWritten _ _)
  rw [← List.append_nil (status _ _)]
  apply goes_status
  exact goes_sendData bytes positive small

theorem transparent (op : ProxyOp) (fits : Fits op) (opens : Opens fs.answer world op)
    (granted : Granted fs.answer world op) : Transparent fs stack world op := by
  cases op with
  | «open» path flags mode => exact transparent_open fs stack world path flags mode
  | creat path perm => exact transparent_creat fs stack world path perm
  | close fd => exact transparent_close fs stack world fd fits
  | read fd size => exact transparent_read fs stack world fd size fits.1 fits.2.1 fits.2.2 granted
  | write fd buffer size => exact transparent_write fs stack world fd buffer size fits.1 fits.2.1 fits.2.2 granted
  | unlink path => exact transparent_unlink fs stack world path
  | rename path newpath => exact transparent_rename fs stack world path newpath
  | stat path => exact transparent_stat fs stack world path
  | mkdir path perm => exact transparent_mkdir fs stack world path perm
  | rmdir path => exact transparent_rmdir fs stack world path
  | opendir path => exact transparent_opendir fs stack world path opens
  | readdir dirp => exact transparent_readdir fs stack world dirp
  | closedir dirp => exact transparent_closedir fs stack world dirp

end

theorem FileSystem.granted {S : Type} (fs : FileSystem S) (world : S) (op : ProxyOp) : Granted fs.answer world op := by
  cases op with
  | read fd size => exact fs.memory world size.toNat
  | write fd buffer size => exact fs.memory world size.toNat
  | _ => trivial

/-- However client and server take turns, a petition comes to the one end in which the client has
what a direct call gives, the world is as that call leaves it and nothing is left unread. -/
theorem petition_transparent {S : Type} (fs : FileSystem S) (stack : Nat → Byte) (world : S) (op : ProxyOp) (fits : Fits op)
    (opens : Opens fs.answer world op) {meeting : Party Byte Empty Empty Result Unit × Party Byte Call Answer (Option Int) S}
    (run : Lib.Conversation.Reaches NfiXpnServer.silent fs.answer (fresh op.run (),
      fresh (handlePetition stack) world) meeting) :
    ∃ done last, perform fs.answer (direct op) world [] = some done ∧
      Lib.Conversation.Reaches NfiXpnServer.silent fs.answer meeting last ∧ last.1.dialogue = .done done.result ∧
      last.2.dialogue = .done (some 0) ∧ last.2.world = done.world ∧ last.1.inbox = [] ∧ last.2.inbox = [] := by
  obtain ⟨result, world', done, meets⟩ := transparent fs.toLibrary stack world op fits opens (fs.granted world op)
  obtain ⟨last, onward, returned, heard, ended, read, same⟩ := meets.inevitable run
  exact ⟨_, last, done, onward, returned, ended, same, heard, read⟩

def steady : FileSystem Unit where
  answer _ call := (match call with
    | .read _ size => ⟨size, 0, List.replicate size 7⟩
    | .stat _ => ⟨0, 0, List.replicate statSize 0⟩
    | .readdir _ => ⟨1, 0, List.replicate direntSize 0⟩
    | _ => ⟨3, 0, []⟩, ())
  memory := fun _ _ => by simp
  reads := fun _ _ size => ⟨by simp only; omega, le_rfl, by simp⟩
  stats := fun _ _ => List.length_replicate
  entries := fun _ _ => List.length_replicate

/-- The directory `/a`, and a read of five bytes. -/
theorem petition_transparent_opendir_read :
    (∃ done last, perform steady.answer (direct (.opendir ⟨[slash, 97], by decide, by decide⟩)) () [] = some done ∧
      Lib.Conversation.Reaches NfiXpnServer.silent steady.answer (fresh (ProxyOp.opendir ⟨[slash, 97], by decide, by decide⟩).run (),
        fresh (handlePetition fun _ => 0) ()) last ∧
      last.1.dialogue = .done done.result ∧ last.2.dialogue = .done (some 0) ∧ last.2.world = done.world ∧
      last.1.inbox = [] ∧ last.2.inbox = []) ∧
    ∃ done last, perform steady.answer (direct (.read 3 5)) () [] = some done ∧
      Lib.Conversation.Reaches NfiXpnServer.silent steady.answer (fresh (ProxyOp.read 3 5).run (),
        fresh (handlePetition fun _ => 0) ()) last ∧
      last.1.dialogue = .done done.result ∧ last.2.dialogue = .done (some 0) ∧ last.2.world = done.world ∧
      last.1.inbox = [] ∧ last.2.inbox = [] :=
  ⟨petition_transparent steady (fun _ => 0) () (.opendir ⟨[slash, 97], by decide, by decide⟩) ⟨by decide, by decide⟩
      ⟨by decide, by decide⟩ .refl,
    petition_transparent steady (fun _ => 0) () (.read 3 5) ⟨by decide, by decide, by decide⟩ trivial .refl⟩

end Xpn.Proofs.XpnProxy
