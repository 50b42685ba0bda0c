import Xpn.PathTransport

/-! What the server reads of a request is what the client sent. One lemma says that a
path comes back from the field and the tail it was split into, whatever its length;
another that a member's fields survive the filling of the message. -/

namespace Xpn.Proofs.PathTransport
open Xpn.Transport Lib.ByteFile

theorem length_intBytes (value : Nat) : (intBytes value).length = 4 := by simp [intBytes]

theorem bytesInt_intBytes {value : Nat} (small : value < 2 ^ 31) : bytesInt (intBytes value) = value := by
  have bytes : (intBytes value).foldr (fun b value => b.toNat + 256 * value) 0 = value := by
    simp only [intBytes, List.range, List.range.loop, List.map_cons, List.map_nil, List.foldr_cons, List.foldr_nil,
      UInt8.toNat_ofNat']
    omega
  rw [bytesInt, bytes, toCInt]
  exact Int.bmod_eq_of_le (by omega) (by omega)

variable {path : Path}

theorem length_small (short : path.length < pathMax) : path.length < 2 ^ 31 := by
  simp only [pathMax] at short
  omega

/-- A copy that stops before the terminator. -/
theorem memccpy_eq {n : Nat} (nulFree : 0 ∉ path) (short : n ≤ path.length) : memccpy (path ++ [0]) n = path.take n := by
  induction path generalizing n with
  | nil =>
    obtain rfl := Nat.le_zero.mp short
    rfl
  | cons b path ih =>
    cases n with
    | zero => rfl
    | succ n =>
      have notNul : b ≠ 0 := fun same => nulFree (same ▸ List.mem_cons_self)
      have rest : 0 ∉ path := fun member => nulFree (List.mem_cons_of_mem _ member)
      simp only [List.cons_append, memccpy, if_neg notNul, List.take_succ_cons, ih rest (Nat.le_of_succ_le_succ short)]

theorem takeWhile_string (nulFree : 0 ∉ path) (after : List Byte) :
    (path ++ 0 :: after).takeWhile (· ≠ 0) = path := by
  rw [List.takeWhile_append_of_pos]
  · simp
  · intro b member
    have notNul : b ≠ 0 := fun same => nulFree (same ▸ member)
    simpa using notNul

theorem pathTail_eq (path : Path) : pathTail path = path.drop xpnPathMax := by
  simp only [pathTail]
  split
  · exact List.take_of_length_le (by simp)
  next short => exact (List.drop_eq_nil_of_le (by omega)).symm

def pathField (path : Path) : List Byte := path.take xpnPathMax ++ List.replicate (xpnPathMax - path.length) 0

theorem commReadData_append {data : List Byte} {count : Nat} (exact : data.length = count) (rest : List Byte) :
    commReadData (data ++ rest) count = some (data, rest) := by
  subst exact
  simp [commReadData]

/-- The field and the tail give the path back, and only the tail is read. -/
theorem readPath_pathTail (nulFree : 0 ∉ path) (short : path.length < pathMax) (rest : List Byte) :
    xpnServerReadPath (pathField path) path.length (pathTail path ++ rest) = some (path, rest) := by
  have fits : ¬((path.length : Int) < 0 ∨ (pathMax : Int) ≤ path.length) := by omega
  rw [xpnServerReadPath, if_neg fits, pathTail_eq]
  simp only [Int.toNat_natCast]
  have terminated : ∀ zeroes, (overwrite (path ++ zeroes) path.length [0]).takeWhile (· ≠ 0) = path := by
    intro zeroes
    rw [overwrite_append, overwrite_front]
    exact takeWhile_string nulFree _
  by_cases long : xpnPathMax < path.length
  · have front : (pathField path).take xpnPathMax = path.take xpnPathMax := by
      rw [pathField, Nat.sub_eq_zero_of_le long.le, List.replicate_zero, List.append_nil, List.take_take, Nat.min_self]
    have front_length : (path.take xpnPathMax).length = xpnPathMax := by
      rw [List.length_take]
      omega
    rw [if_pos long, if_pos long, front, commReadData_append (by rw [List.length_drop])]
    simp only [Option.map_some]
    have joined : ∀ zeroes, overwrite (path.take xpnPathMax ++ zeroes) xpnPathMax (path.drop xpnPathMax) =
        path ++ zeroes.drop (path.drop xpnPathMax).length := by
      intro zeroes
      have appended := overwrite_append (path.take xpnPathMax) zeroes (path.drop xpnPathMax)
      rwa [front_length, overwrite_front, ← List.append_assoc, List.take_append_drop] at appended
    rw [overwrite_front, joined, terminated]
  · have front : (pathField path).take path.length = path := by
      rw [pathField, List.take_of_length_le (by omega : path.length ≤ xpnPathMax), List.take_left]
    rw [if_neg long, if_neg long, front, List.drop_eq_nil_of_le (by omega), List.nil_append, Option.map_some, overwrite_front,
      terminated]

private theorem copied_eq (nulFree : 0 ∉ path) :
    memccpy (path ++ [0]) (if path.length < xpnPathMax then path.length else xpnPathMax) = path.take xpnPathMax := by
  split
  next small => rw [memccpy_eq nulFree le_rfl, List.take_length, List.take_of_length_le small.le]
  next large => exact memccpy_eq nulFree (not_lt.mp large)

section
variable {msg : List Byte} {pathLen text : Nat}

private theorem length_lengthSet (order : pathLen + 4 ≤ text) (inside : text + xpnPathMax ≤ msg.length) (value : Nat) :
    (overwrite msg pathLen (intBytes value)).length = msg.length :=
  length_overwrite (by rw [length_intBytes]; omega)

private theorem length_cleared (order : pathLen + 4 ≤ text) (inside : text + xpnPathMax ≤ msg.length) (value : Nat) :
    (overwrite (overwrite msg pathLen (intBytes value)) text (List.replicate xpnPathMax 0)).length = msg.length := by
  have first := length_lengthSet order inside value
  rw [length_overwrite, first]
  rw [first, List.length_replicate]
  exact inside

variable (nulFree : 0 ∉ path) (order : pathLen + 4 ≤ text) (inside : text + xpnPathMax ≤ msg.length)
include nulFree order inside

theorem length_fillPath : (fillPath msg pathLen text path).length = msg.length := by
  have second := length_cleared order inside path.length
  have copied : (path.take xpnPathMax).length ≤ xpnPathMax := by simp
  simp only [fillPath, copied_eq nulFree]
  rw [length_overwrite, second]
  omega

/-- The filling of a path changes its length and its field only. -/
theorem pread_fillPath_apart {offset count : Nat} (notLength : offset + count ≤ pathLen ∨ pathLen + 4 ≤ offset)
    (notText : offset + count ≤ text ∨ text + xpnPathMax ≤ offset) :
    pread (fillPath msg pathLen text path) offset count = pread msg offset count := by
  have first := length_lengthSet order inside path.length
  have second := length_cleared order inside path.length
  have copied : (path.take xpnPathMax).length ≤ xpnPathMax := by simp
  simp only [fillPath, copied_eq nulFree]
  rw [pread_overwrite_apart (by omega) (by omega), pread_overwrite_apart (by omega) (by rwa [List.length_replicate]),
    pread_overwrite_apart (by omega) (by rwa [length_intBytes])]

theorem pread_fillPath_length : pread (fillPath msg pathLen text path) pathLen 4 = intBytes path.length := by
  have first := length_lengthSet order inside path.length
  have second := length_cleared order inside path.length
  simp only [fillPath, copied_eq nulFree]
  rw [pread_overwrite_apart (by omega) (by omega), pread_overwrite_apart (by omega) (by omega),
    pread_overwrite (by omega) (by rw [length_intBytes]), overwrite_front,
    List.drop_eq_nil_of_le (by rw [length_pread, length_intBytes]; omega), List.append_nil]

theorem pread_fillPath_text : pread (fillPath msg pathLen text path) text xpnPathMax = pathField path := by
  have first := length_lengthSet order inside path.length
  have second := length_cleared order inside path.length
  have copied : (path.take xpnPathMax).length ≤ xpnPathMax := by simp
  have cleared : pread (overwrite (overwrite msg pathLen (intBytes path.length)) text (List.replicate xpnPathMax 0)) text
      xpnPathMax = List.replicate xpnPathMax 0 := by
    rw [pread_overwrite (by omega) (by rw [List.length_replicate]), overwrite_front,
      List.drop_eq_nil_of_le (by rw [length_pread, List.length_replicate]; omega), List.append_nil]
  simp only [fillPath, copied_eq nulFree]
  rw [pread_overwrite (by omega) copied, cleared, overwrite_front, List.drop_replicate, pathField, List.length_take]
  congr 2
  omega

end

/-- A member whose length and path lie inside it. -/
structure PathMember.Fits (member : PathMember) : Prop where
  path : member.path + xpnPathMax ≤ member.size
  size : member.size ≤ msgSize

variable {msg : List Byte}

private theorem readOnePath_sent {member : PathMember} (fits : PathMember.Fits member) (whole : msg.length = msgSize) (nulFree : 0 ∉ path)
    (short : path.length < pathMax) (rest : List Byte) :
    readOnePath member ((fillPath msg member.pathLen member.path path).take member.size) (pathTail path ++ rest) =
      some ([path], rest) := by
  have order : member.pathLen + 4 ≤ member.path := le_rfl
  have := fits.path
  have := fits.size
  have inside : member.path + xpnPathMax ≤ msg.length := by omega
  have small : path.length < 2 ^ 31 := length_small short
  rw [readOnePath, pread_take (by omega), pread_take (by omega), pread_fillPath_text nulFree order inside,
    pread_fillPath_length nulFree order inside, bytesInt_intBytes small, readPath_pathTail nulFree short, Option.map_some]

private theorem dispatcher_append {code : List Byte} (four : code.length = 4) (rest : List Byte) :
    xpnServerDispatcher (code ++ rest) = xpnServerDoOperation (bytesInt code) rest := by
  rw [xpnServerDispatcher, commReadData_append four, Option.bind_some]

private theorem doOperation_sent {typeOp : Int} {head tail rest : List Byte} {handler : Handler} {paths : List Path}
    (known : operation typeOp = some (head.length, handler)) (handled : handler head (tail ++ rest) = some (paths, rest)) :
    xpnServerDoOperation typeOp (head ++ (tail ++ rest)) = some ⟨typeOp, paths, rest⟩ := by
  simp only [xpnServerDoOperation, Option.bind_some, known, commReadData_append rfl, handled, Option.map_some]

private theorem dispatcher_sent {opcode : Nat} {head tail rest : List Byte} {handler : Handler} {paths : List Path}
    (small : opcode < 128) (known : operation opcode = some (head.length, handler))
    (handled : handler head (tail ++ rest) = some (paths, rest)) :
    xpnServerDispatcher (intBytes opcode ++ head ++ tail ++ rest) = some ⟨opcode, paths, rest⟩ := by
  have coded : bytesInt (intBytes opcode) = opcode := bytesInt_intBytes (by omega)
  have dispatched := dispatcher_append (length_intBytes opcode) (head ++ (tail ++ rest))
  rw [coded, doOperation_sent known handled] at dispatched
  rw [← dispatched]
  simp only [List.append_assoc]

private theorem sendPath_received {member : PathMember} (fits : PathMember.Fits member) (whole : msg.length = msgSize)
    (nulFree : 0 ∉ path) (short : path.length < pathMax) (small : member.opcode < 128)
    (known : operation member.opcode = some (member.size, readOnePath member)) (rest : List Byte) :
    xpnServerDispatcher (sendPath member msg path ++ rest) = some ⟨member.opcode, [path], rest⟩ := by
  have := fits.path
  have := fits.size
  have sized : ((fillPath msg member.pathLen member.path path).take member.size).length = member.size := by
    rw [List.length_take, length_fillPath nulFree (show member.pathLen + 4 ≤ member.path from le_rfl) (by omega)]
    omega
  exact dispatcher_sent small (by rw [sized]; exact known) (readOnePath_sent fits whole nulFree short rest)

/-- The requests about one path, by the client's function. -/
inductive PathRequest where
  | open | creat | read | write | close | rm | getattr | mkdir | opendir | readdir | closedir | rmdir
  | readMdata | writeMdata | writeMdataFileSize
  deriving DecidableEq

def PathRequest.send : PathRequest → List Byte → Path → List Byte
  | .open => nfiXpnServerOpen
  | .creat => nfiXpnServerCreate
  | .read => nfiXpnServerRead
  | .write => nfiXpnServerWrite
  | .close => nfiXpnServerClose
  | .rm => nfiXpnServerRemove
  | .getattr => nfiXpnServerGetattr
  | .mkdir => nfiXpnServerMkdir
  | .opendir => nfiXpnServerOpendir
  | .readdir => nfiXpnServerReaddir
  | .closedir => nfiXpnServerClosedir
  | .rmdir => nfiXpnServerRmdir
  | .readMdata => nfiXpnServerReadMdata
  | .writeMdata => nfiXpnServerWriteMdata false
  | .writeMdataFileSize => nfiXpnServerWriteMdata true

def PathRequest.member : PathRequest → PathMember
  | .open | .creat => opOpen
  | .read => opRead
  | .write => opWrite
  | .close => opClose
  | .rm => opRm
  | .getattr => opGetattr
  | .mkdir => opMkdir
  | .opendir => opOpendir
  | .readdir => opReaddir
  | .closedir => opClosedir
  | .rmdir => opRmdir
  | .readMdata => opReadMdata
  | .writeMdata => opWriteMdata
  | .writeMdataFileSize => opWriteMdataFileSize

theorem PathRequest.fits (request : PathRequest) : PathMember.Fits request.member := by
  constructor <;> cases request <;> decide

theorem PathRequest.small (request : PathRequest) : request.member.opcode < 128 := by
  cases request <;> decide

/-- The filling of the path leaves `file_type` alone, so the handler reads the path. -/
private theorem write_received (whole : msg.length = msgSize) (nulFree : 0 ∉ path) (short : path.length < pathMax)
    (rest : List Byte) :
    xpnServerDispatcher (nfiXpnServerWrite msg path ++ rest) = some ⟨opWrite.opcode, [path], rest⟩ := by
  have typed : (overwrite msg writeFileType (intBytes 0)).length = msgSize := by
    rw [length_overwrite, whole]
    rw [length_intBytes, whole]
    decide
  have order : opWrite.pathLen + 4 ≤ opWrite.path := le_rfl
  have inside : opWrite.path + xpnPathMax ≤ (overwrite msg writeFileType (intBytes 0)).length := by
    rw [typed]
    decide
  have sized : ((fillPath (overwrite msg writeFileType (intBytes 0)) opWrite.pathLen opWrite.path path).take
      opWrite.size).length = opWrite.size := by
    rw [List.length_take, length_fillPath nulFree order inside, typed]
    decide
  have fileType : pread ((fillPath (overwrite msg writeFileType (intBytes 0)) opWrite.pathLen opWrite.path path).take
      opWrite.size) writeFileType 4 = intBytes 0 := by
    rw [pread_take (by decide), pread_fillPath_apart nulFree order inside (by decide) (by decide),
      pread_overwrite (by rw [whole]; decide) (by rw [length_intBytes]), overwrite_front,
      List.drop_eq_nil_of_le (by rw [length_pread, length_intBytes]; exact Nat.min_le_left _ _), List.append_nil]
  refine dispatcher_sent (by decide) (by rw [sized]; rfl) ?_
  rw [xpnServerOpWrite, fileType, if_neg (by decide)]
  exact readOnePath_sent (PathRequest.fits .write) typed nulFree short rest

private theorem rename_received {old new : Path} (whole : msg.length = msgSize) (oldNulFree : 0 ∉ old)
    (oldShort : old.length < pathMax) (newNulFree : 0 ∉ new) (newShort : new.length < pathMax) (rest : List Byte) :
    xpnServerDispatcher (nfiXpnServerRename msg old new ++ rest) = some ⟨renameOpcode, [old, new], rest⟩ := by
  have oldInside : oldUrl + xpnPathMax ≤ msg.length := by rw [whole]; decide
  have filled := length_fillPath oldNulFree (by decide : 0 + 4 ≤ oldUrl) oldInside
  have newInside : newUrl + xpnPathMax ≤ (fillPath msg 0 oldUrl old).length := by rw [filled, whole]; decide
  have sized : ((fillPath (fillPath msg 0 oldUrl old) 4 newUrl new).take renameSize).length = renameSize := by
    rw [List.length_take, length_fillPath newNulFree (by decide) newInside, filled, whole]
    decide
  refine dispatcher_sent (by decide) (by rw [sized]; rfl) ?_
  -- The new path does not touch the fields of the old one.
  rw [xpnServerOpRename, pread_take (by decide), pread_take (by decide), pread_take (by decide), pread_take (by decide),
    pread_fillPath_apart newNulFree (by decide) newInside (by decide) (by decide),
    pread_fillPath_apart newNulFree (by decide) newInside (by decide) (by decide),
    pread_fillPath_text oldNulFree (by decide) oldInside, pread_fillPath_length oldNulFree (by decide) oldInside,
    pread_fillPath_text newNulFree (by decide) newInside, pread_fillPath_length newNulFree (by decide) newInside,
    bytesInt_intBytes (length_small oldShort), bytesInt_intBytes (length_small newShort), List.append_assoc,
    readPath_pathTail oldNulFree oldShort, Option.bind_some]
  simp only [readPath_pathTail newNulFree newShort, Option.map_some]

private theorem request_received (request : PathRequest) (whole : msg.length = msgSize) (nulFree : 0 ∉ path)
    (short : path.length < pathMax) (rest : List Byte) : xpnServerDispatcher (request.send msg path ++ rest) =
      some ⟨request.member.opcode, if request = .closedir then [] else [path], rest⟩ := by
  have fits := request.fits
  have small := request.small
  cases request with
  | write => exact write_received whole nulFree short rest
  | closedir =>
    have sized : (msg.take opClosedir.size).length = opClosedir.size := by
      rw [List.length_take, whole]
      decide
    have received : xpnServerDispatcher (intBytes opClosedir.opcode ++ msg.take opClosedir.size ++ [] ++ rest) =
        some ⟨opClosedir.opcode, [], rest⟩ := dispatcher_sent small (by rw [sized]; rfl) rfl
    rwa [List.append_nil] at received
  | _ => exact sendPath_received fits whole nulFree short small rfl rest

/-- A request with the paths that its caller has. -/
inductive Request where
  | on (request : PathRequest) (path : Path)
  | rename (old new : Path)

namespace Request

def paths : Request → List Path
  | .on _ path => [path]
  | .rename old new => [old, new]

/-- The paths that are sent: all but that of a directory to be closed. -/
def transported : Request → List Path
  | .on .closedir _ => []
  | request => request.paths

def send (msg : List Byte) : Request → List Byte
  | .on request path => request.send msg path
  | .rename old new => nfiXpnServerRename msg old new

def opcode : Request → Nat
  | .on request _ => request.member.opcode
  | .rename _ _ => renameOpcode

end Request

/-- Every request arrives with its opcode and its paths, and the server stops reading
where the request ends. -/
theorem paths_transported (request : Request) {msg : List Byte} (whole : msg.length = msgSize)
    (strings : ∀ path ∈ request.paths, 0 ∉ path ∧ path.length < pathMax) (rest : List Byte) :
    xpnServerDispatcher (request.send msg ++ rest) = some ⟨request.opcode, request.transported, rest⟩ := by
  cases request with
  | on request path =>
    obtain ⟨nulFree, short⟩ := strings path List.mem_cons_self
    have received := request_received request whole nulFree short rest
    cases request <;> exact received
  | rename old new =>
    obtain ⟨oldNulFree, oldShort⟩ := strings old List.mem_cons_self
    obtain ⟨newNulFree, newShort⟩ := strings new (List.mem_cons_of_mem _ List.mem_cons_self)
    exact rename_received whole oldNulFree oldShort newNulFree newShort rest

/-- A rename between a path that just fills its field and one with a tail. -/
theorem paths_transported_rename : xpnServerDispatcher
    ((Request.rename (List.replicate 128 97) (List.replicate 130 98)).send (List.replicate 504 255) ++ [5]) =
      some ⟨7, [List.replicate 128 97, List.replicate 130 98], [5]⟩ := by
  apply paths_transported _ (List.length_replicate ..)
  intro path member
  simp only [Request.paths, List.mem_cons, List.not_mem_nil, or_false] at member
  rcases member with rfl | rfl
  · simp [pathMax]
  · simp [pathMax]

/-- No path arrives with the request to close a directory. -/
theorem closedir_path_stays : ¬∀ (request : Request) (msg rest : List Byte), msg.length = msgSize →
    (∀ path ∈ request.paths, 0 ∉ path ∧ path.length < pathMax) →
    (xpnServerDispatcher (request.send msg ++ rest)).map (fun received => (received.paths, received.rest)) =
      some (request.paths, rest) := by
  intro always
  have strings : ∀ path ∈ (Request.on .closedir [47, 97]).paths, 0 ∉ path ∧ path.length < pathMax := by
    simp [Request.paths, pathMax]
  have claimed := always (.on .closedir [47, 97]) (List.replicate msgSize 0) [] (List.length_replicate ..) strings
  have received := request_received .closedir (List.length_replicate : (List.replicate msgSize (0 : Byte)).length = msgSize)
    (show 0 ∉ ([47, 97] : Path) by decide) (by decide) []
  rw [Request.send, received] at claimed
  simp [Request.paths] at claimed

end Xpn.Proofs.PathTransport
