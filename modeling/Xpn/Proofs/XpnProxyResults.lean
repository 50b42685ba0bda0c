import Xpn.Proofs.XpnProxy

/-! What the client of the proxy hands on. An answer of the library reaches the caller as it is,
except a read that gets nothing and a directory that does not open; and the server has to get
the buffer of a read or a write, and `path_aux` has to hold the path of a directory. -/

namespace Xpn.Proofs.XpnProxyResults
open Lib.Conversation Lib.ByteFile Xpn.Messages Xpn.XpnProxy Messages PathTransport XpnProxy
open Transport (xpnPathMax msgSize opRead opWrite opOpendir)

/-- A write counts at most what it gets, and a stream is a pointer. -/
structure Results (S : Type) extends Library S where
  writes : ∀ world fd data, -1 ≤ (answer world (.write fd data)).1.ret ∧ (answer world (.write fd data)).1.ret ≤ data.length
  streams : ∀ world path, 0 ≤ (answer world (.opendir path)).1.ret ∧ (answer world (.opendir path)).1.ret < 2 ^ 63

/-- The functions with a world that keeps the calls. -/
def Results.logged {S : Type} (fs : Results S) : Results (S × List Call) where
  answer := fun (world, log) request => ((fs.answer world request).1, (fs.answer world request).2, log ++ [request])
  reads := fun (world, _) => fs.reads world
  stats := fun (world, _) => fs.stats world
  entries := fun (world, _) => fs.entries world
  writes := fun (world, _) => fs.writes world
  streams := fun (world, _) => fs.streams world

/-- A negative descriptor is no file. -/
def Refused : ProxyOp → Prop
  | .close fd => fd.toInt < 0
  | .read fd _ => fd.toInt < 0
  | .write fd _ _ => fd.toInt < 0
  | _ => False

/-- The function of the library with its own result. -/
def library : ProxyOp → ServerM Result
  | .close fd => if fd.toInt < 0 then pure (.number (-1)) else direct (.close fd)
  | .read fd size =>
    if fd.toInt < 0 then pure (.stored (-1) [])
    else do
      let _ ← ask (.malloc size.toNat)
      let answer ← ask (.read fd.toInt size.toNat)
      pure (.stored answer.ret answer.data)
  | .write fd buffer size =>
    if fd.toInt < 0 then pure (.number (-1))
    else do
      let _ ← ask (.malloc size.toNat)
      let answer ← ask (.write fd.toInt (contents buffer size.toNat))
      pure (.number answer.ret)
  | .opendir path => do
    let answer ← ask (.opendir path.text)
    pure (.dirp (if answer.ret = 0 then none else some ⟨intAt answer.data 0, withSlash path.text, answer.ret.toNat⟩))
  | op => direct op

/-- `path_aux` is only used inside: its last character is looked at, and a slash and a NUL may
follow. -/
def HasRoom : ProxyOp → Prop
  | .opendir path => path.text ≠ [] ∧ (path.text.getLast? = some slash ∨ path.text.length + 1 < pathMax)
  | _ => True

section
variable {S : Type} (fs : Library S) (stack : Nat → Byte) (world : S)

/-- The caller has what the library gives, and the server goes on to the next petition. A
function that refuses its descriptor makes no connection. -/
def HandsOn (op : ProxyOp) : Prop :=
  HasRoom op ∧ ∃ done, perform fs.answer (library op) world [] = some done ∧
    (Refused op → op.run = .done done.result ∧ done.world = world) ∧
    (¬Refused op → ∀ meeting, Lib.Conversation.Reaches NfiXpnServer.silent fs.answer
        (fresh op.run (), fresh (handlePetition stack) world) meeting →
      ∃ last, Lib.Conversation.Reaches NfiXpnServer.silent fs.answer meeting last ∧
        last.1.dialogue = .done done.result ∧ last.2.dialogue = .done (some 0) ∧ last.2.world = done.world ∧
        last.1.inbox = [] ∧ last.2.inbox = [])

end

/-! ### What passes is handed on -/

section
variable {S : Type} {fs : Results S} {stack : Nat → Byte} {world : S} {op : ProxyOp}

def gives (world : S) (result : Result) : Option (Performed Byte Result S) := some ⟨result, world, [], [], []⟩

end

/-! ### What does not pass is not -/

section
variable {S : Type} {fs : Library S} {stack : Nat → Byte} {world : S} {op : ProxyOp}

/-- Where nobody can go on the caller has what the library gives. -/
theorem HandsOn.at_rest (hands : HandsOn fs stack world op) (known : ¬Refused op)
    {rest : Party Byte Empty Empty Result Unit × Party Byte Call Answer (Option Int) S}
    (run : Lib.Conversation.Reaches NfiXpnServer.silent fs.answer (fresh op.run (), fresh (handlePetition stack) world) rest)
    (stuck : ∀ next, ¬Step NfiXpnServer.silent fs.answer rest next) :
    ∃ done, perform fs.answer (library op) world [] = some done ∧ rest.1.dialogue = .done done.result ∧
      rest.2.dialogue = .done (some 0) ∧ rest.2.world = done.world := by
  obtain ⟨_, done, gives, _, goes⟩ := hands
  obtain ⟨last, onward, returned, ended, same, _⟩ := goes known rest run
  rw [Lib.Conversation.Reaches.of_stuck stuck onward] at returned ended same
  exact ⟨done, gives, returned, ended, same⟩

theorem HandsOn.meets (hands : HandsOn fs stack world op) (known : ¬Refused op) {result : Result} {ended : Option Int}
    {world' : S} (meets : Meets NfiXpnServer.silent fs.answer op.run () (handlePetition stack) world result ended world') :
    ∃ done, perform fs.answer (library op) world [] = some done ∧ done.result = result ∧ done.world = world' := by
  obtain ⟨rest, run, returned, _, finished, _, same⟩ := meets
  obtain ⟨done, gives, also, _, same'⟩ := hands.at_rest known run (stuck_of_done returned finished)
  rw [returned] at also
  exact ⟨done, gives, (Dialogue.done.inj also).symm, same'.symm.trans same⟩

end

/-! ### The calls are kept -/

section
variable {S : Type} {fs : Results S} {stack : Nat → Byte} {world : S} {log : List Call}

end

/-- Descriptor 3 has bytes to read, every other one is at the end of its file, and `/a` is the one
directory. -/
def oneFileAnswer : Call → Answer
  | .malloc _ => ⟨1, 0, []⟩
  | .read fd size => if fd = 3 then ⟨size, 0, List.replicate size 7⟩ else ⟨0, 0, []⟩
  | .write _ data => ⟨data.length, 0, []⟩
  | .stat _ => ⟨0, 0, List.replicate statSize 0⟩
  | .readdir _ => ⟨1, 0, List.replicate direntSize 0⟩
  | .opendir path => if path = [slash, 97] then ⟨4096, 0, field 4 5⟩ else ⟨0, 2, []⟩
  | _ => ⟨0, 0, []⟩

theorem oneFile_reads (fd : Int) (size : Nat) : -1 ≤ (oneFileAnswer (.read fd size)).ret ∧
    (oneFileAnswer (.read fd size)).ret ≤ size ∧
      (oneFileAnswer (.read fd size)).data.length = (oneFileAnswer (.read fd size)).ret.toNat := by
  by_cases known : fd = 3
  · simp only [oneFileAnswer, if_pos known, List.length_replicate]
    omega
  · simp only [oneFileAnswer, if_neg known, List.length_nil]
    omega

theorem oneFile_writes (fd : Int) (data : List Byte) : -1 ≤ (oneFileAnswer (.write fd data)).ret ∧
    (oneFileAnswer (.write fd data)).ret ≤ data.length := by
  simp only [oneFileAnswer]
  omega

theorem oneFile_streams (path : Path) : 0 ≤ (oneFileAnswer (.opendir path)).ret ∧
    (oneFileAnswer (.opendir path)).ret < 2 ^ 63 := by
  by_cases there : path = [slash, 97]
  · simp only [oneFileAnswer, if_pos there]
    omega
  · simp only [oneFileAnswer, if_neg there]
    omega

theorem oneFile_stats (path : Path) : (oneFileAnswer (.stat path)).data.length = statSize := List.length_replicate

theorem oneFile_entries (dir : Nat) : (oneFileAnswer (.readdir dir)).data.length = direntSize := List.length_replicate

def oneFile : Results Unit where
  answer := fun _ call => (oneFileAnswer call, ())
  reads := fun _ => oneFile_reads
  stats := fun _ => oneFile_stats
  entries := fun _ => oneFile_entries
  writes := fun _ => oneFile_writes
  streams := fun _ => oneFile_streams

end Xpn.Proofs.XpnProxyResults
