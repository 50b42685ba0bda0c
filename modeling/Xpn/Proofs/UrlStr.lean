import Xpn.UrlStr
import Xpn.Proofs.Mkpath

/-! The components of a URL come back out of it, but for an empty directory: the buffer in
which its slashes are put together is copied back without having been filled. -/

namespace Xpn.UrlStr
open Xpn.Filesystem

/-- Nothing follows, or a character at which a loop stops. -/
def Stopped (stops : Byte → Bool) (rest : Path) : Prop := ∀ c, rest.head? = some c → stops c = true

theorem advance_to {stops : Byte → Bool} {first rest : Path} (passed : ∀ c ∈ first, stops c = false)
    (stopped : Stopped stops rest) (i : Nat) : advance stops (first ++ rest) i = i + first.length := by
  induction first generalizing i with
  | nil =>
    cases rest with
    | nil => rfl
    | cons c rest =>
      rw [List.nil_append, advance, if_pos (stopped c rfl)]
      rfl
  | cons c first ih =>
    have here := passed c List.mem_cons_self
    rw [List.cons_append, advance, here, if_neg Bool.false_ne_true,
      ih (fun d member => passed d (List.mem_cons_of_mem _ member)), List.length_cons]
    omega

theorem charAt_append (first rest : Path) (k : Nat) : charAt (first ++ rest) (first.length + k) = charAt rest k := by
  unfold charAt
  rw [List.getD_eq_getElem?_getD, List.getElem?_append_right (by omega), Nat.add_sub_cancel_left,
    ← List.getD_eq_getElem?_getD]

theorem charAt_end (first rest : Path) : charAt (first ++ rest) first.length = charAt rest 0 :=
  charAt_append first rest 0

theorem charAt_zero {rest : Path} {c : Byte} (here : charAt rest 0 = c) (present : c ≠ 0) :
    ∃ behind, rest = c :: behind := by
  cases rest with
  | nil => exact absurd here.symm present
  | cons d behind =>
    cases here
    exact ⟨behind, rfl⟩

theorem copyPart_eq (first part rest : Path) (target : Option Path) :
    copyPart (first ++ (part ++ rest)) first.length (first.length + part.length) target
      = target.map fun _ => part := by
  rw [copyPart, List.drop_left, Nat.add_sub_cancel_left, List.take_left]

structure Components where
  protocol : Path
  server : Path
  port : Option Path
  dir : Path
  protocol_plain : colon ∉ protocol
  server_plain : colon ∉ server ∧ slash ∉ server
  port_plain : ∀ text ∈ port, slash ∉ text
  dir_rooted : Stopped (· == slash) dir

namespace Components

def front (url : Components) : Path := url.protocol ++ [colon, slash, slash]

def portPart (url : Components) : Path := url.port.elim [] (colon :: ·)

def text (url : Components) : Path := url.front ++ (url.server ++ (url.portPart ++ url.dir))

variable (url : Components)

theorem length_front : url.front.length = url.protocol.length + 3 := by simp [front]

theorem getURLProtocol_eq (target : Option Path) :
    getURLProtocol url.text target = (((url.front.length : Nat) : Int), target.map fun _ => url.protocol) := by
  have plain : ∀ c ∈ url.protocol, (c == colon) = false := fun c member =>
    beq_eq_false_iff_ne.mpr fun same => url.protocol_plain (same ▸ member)
  obtain ⟨rest, shape⟩ : ∃ rest, url.text = url.protocol ++ (colon :: slash :: slash :: rest) :=
    ⟨url.server ++ (url.portPart ++ url.dir), by simp [text, front]⟩
  have stopped : Stopped (· == colon) (colon :: slash :: slash :: rest) := by
    intro c head
    cases head
    rfl
  have found := advance_to plain stopped 0
  rw [Nat.zero_add] at found
  have copied := copyPart_eq [] url.protocol (colon :: slash :: slash :: rest) target
  rw [List.nil_append, List.length_nil, Nat.zero_add] at copied
  simp only [getURLProtocol, shape, found, charAt_end, charAt_append]
  rw [if_neg (fun other => other rfl), if_neg (fun other => other rfl), if_neg (fun other => other rfl), copied,
    length_front]

theorem behind_server : Stopped (fun c => c == colon || c == slash) (url.portPart ++ url.dir) := by
  intro c head
  unfold portPart at head
  cases given : url.port with
  | none =>
    rw [given] at head
    have rooted : (c == slash) = true := url.dir_rooted c head
    exact Bool.or_eq_true_iff.mpr (.inr rooted)
  | some port =>
    rw [given] at head
    cases head
    rfl

theorem getURLServer_eq (target : Option Path) :
    getURLServer url.text target
      = (((url.front.length + url.server.length : Nat) : Int), target.map fun _ => url.server) := by
  have plain : ∀ c ∈ url.server, (c == colon || c == slash) = false := by
    intro c member
    rw [Bool.or_eq_false_iff, beq_eq_false_iff_ne, beq_eq_false_iff_ne]
    exact ⟨fun same => url.server_plain.1 (same ▸ member), fun same => url.server_plain.2 (same ▸ member)⟩
  have found := advance_to plain url.behind_server url.front.length
  simp only [getURLServer, getURLProtocol_eq]
  rw [if_neg (by omega), Int.toNat_natCast]
  rw [text, List.drop_left, found, copyPart_eq]

theorem charAt_port : charAt url.text (url.front.length + url.server.length) = charAt (url.portPart ++ url.dir) 0 := by
  rw [text, charAt_append, charAt_end]

theorem getURLPort_some {port : Path} (given : url.port = some port) (target : Option Path) :
    getURLPort url.text target
      = (((url.front.length + url.server.length + (port.length + 1) : Nat) : Int), target.map fun _ => port) := by
  have plain : ∀ c ∈ port, (c == slash) = false := fun c member =>
    beq_eq_false_iff_ne.mpr fun same => url.port_plain port given (same ▸ member)
  have here := url.charAt_port
  rw [portPart, given] at here
  obtain ⟨before, shape, length⟩ : ∃ before, url.text = before ++ (port ++ url.dir)
      ∧ before.length = url.front.length + url.server.length + 1 :=
    ⟨url.front ++ (url.server ++ [colon]), by simp [text, portPart, given], by simp; omega⟩
  have found := advance_to plain url.dir_rooted before.length
  simp only [getURLPort, getURLServer_eq]
  rw [if_neg (by omega), Int.toNat_natCast, if_neg (fun other => other here), ← length, shape, List.drop_left, found,
    copyPart_eq]
  congr 2
  omega

theorem getURLPort_none (absent : url.port = none) (target : Option Path) :
    getURLPort url.text target = (-1, target) := by
  have here := url.charAt_port
  rw [portPart, absent] at here
  have other : charAt url.text (url.front.length + url.server.length) ≠ colon := by
    intro same
    obtain ⟨behind, dir⟩ := charAt_zero (here.symm.trans same) (by decide)
    have rooted := url.dir_rooted colon (by rw [show url.dir = colon :: behind from dir]; rfl)
    exact absurd rooted (by decide)
  simp only [getURLPort, getURLServer_eq]
  rw [if_neg (by omega), Int.toNat_natCast, if_pos other]

theorem getURLPort_eq (target : Option Path) :
    ∃ found, getURLPort url.text target = (found, target.map fun old => url.port.getD old) := by
  cases given : url.port with
  | none => exact ⟨-1, by simp [getURLPort_none url given]⟩
  | some port => exact ⟨_, url.getURLPort_some given target⟩

theorem getURLDir_eq (target : Option Path) :
    getURLDir url.text target = (((url.text.length : Nat) : Int), target.map fun _ => url.dir) := by
  -- all of the text but the directory, and how long it is
  obtain ⟨before, shape⟩ : ∃ before, url.text = before ++ (url.dir ++ []) :=
    ⟨url.front ++ (url.server ++ url.portPart), by simp [text]⟩
  have total := congrArg List.length shape
  have pieces : url.text.length = url.front.length + (url.server.length + (url.portPart.length + url.dir.length)) := by
    simp only [text, List.length_append]
  simp only [List.length_append, List.length_nil] at total
  have copied := copyPart_eq before url.dir [] target
  rw [← shape, show before.length + url.dir.length = url.text.length by omega] at copied
  cases given : url.port with
  | none =>
    rw [show url.portPart = [] by rw [portPart, given]; rfl, List.length_nil] at pieces
    simp only [getURLDir, getURLPort_none url given, getURLServer_eq]
    rw [if_pos (show (-1 : Int) < 0 by decide), if_neg (by omega), if_neg (by omega), Int.toNat_natCast,
      show url.front.length + url.server.length = before.length by omega, copied]
  | some port =>
    rw [show url.portPart = colon :: port by rw [portPart, given]; rfl, List.length_cons] at pieces
    simp only [getURLDir, getURLPort_some url given, getURLServer_eq]
    rw [if_neg (by omega), if_neg (by omega), if_neg (by omega), Int.toNat_natCast,
      show url.front.length + url.server.length + (port.length + 1) = before.length by omega, copied]

end Components

theorem clearSlash_eq {dir : Path} (present : dir ≠ []) (short : dir.length < pathMax) :
    clearSlash dir = some (collapse dir) := auxClearDirs_eq present short

theorem clearSlash_empty : clearSlash [] = none := rfl

def Components.expected (url : Components) (parts : UrlParts) : UrlParts :=
  { protocol := parts.protocol.map fun _ => url.protocol
    server := parts.server.map fun _ => url.server
    port := parts.port.map fun old => url.port.getD old
    dir := parts.dir.map fun _ => collapse url.dir }

theorem parseURL_scan (url : Components) (parts : UrlParts) :
    parseURL url.text parts = match parts.dir with
      | none => some (0, url.expected parts)
      | some _ => (clearSlash url.dir).map fun dir => (0, { url.expected parts with dir := some dir }) := by
  obtain ⟨found, port⟩ := url.getURLPort_eq parts.port
  obtain ⟨position, server⟩ : ∃ position : Nat, ∀ target,
      getURLServer url.text target = ((position : Int), target.map fun _ => url.server) :=
    ⟨_, url.getURLServer_eq⟩
  obtain ⟨protocolText, serverText, portText, dirText⟩ := parts
  cases protocolText <;> cases serverText <;> cases portText <;> cases dirText <;>
    simp_all [parseURL, Components.expected, url.getURLProtocol_eq, url.getURLDir_eq, Option.map_eq_bind,
      Int.not_ofNat_neg]

theorem length_dir (url : Components) : url.dir.length ≤ url.text.length := by
  simp only [Components.text, List.length_append]
  omega

theorem parseURL_recovers_iff (url : Components) (short : url.text.length < pathMax) (parts : UrlParts) :
    parseURL url.text parts = some (0, url.expected parts) ↔ url.dir ≠ [] ∨ parts.dir = none := by
  have bound := length_dir url
  rw [parseURL_scan]
  cases asked : parts.dir with
  | none => simp
  | some old =>
    by_cases empty : url.dir = []
    · simp [empty, clearSlash_empty]
    · simp [clearSlash_eq empty (by omega), empty, Components.expected, asked]

def Separated (url : Path) : Prop :=
  ∃ before behind, url = before ++ (colon :: slash :: slash :: behind) ∧ colon ∉ before

theorem advance_takeWhile (stops : Byte → Bool) (url : Path) (i : Nat) :
    advance stops url i = i + (url.takeWhile fun c => !stops c).length := by
  induction url generalizing i with
  | nil => rfl
  | cons c url ih =>
    rw [advance, List.takeWhile_cons]
    cases stops c with
    | true => rfl
    | false =>
      simp only [Bool.false_eq_true, if_false, Bool.not_false, if_true, List.length_cons, ih]
      omega

section
variable {url : Path} (malformed : ¬ Separated url)
include malformed

theorem getURLProtocol_fails (target : Option Path) : getURLProtocol url target = (-1, target) := by
  have found := advance_takeWhile (· == colon) url 0
  have split := List.takeWhile_append_dropWhile (p := fun c => !(c == colon)) (l := url)
  have plain : colon ∉ url.takeWhile fun c => !(c == colon) := fun member =>
    absurd (List.all_eq_true.mp List.all_takeWhile _ member) (by decide)
  revert found split plain
  generalize url.takeWhile (fun c => !(c == colon)) = before
  generalize url.dropWhile (fun c => !(c == colon)) = rest
  rintro found rfl plain
  rw [Nat.zero_add] at found
  simp only [getURLProtocol, found, charAt_end, charAt_append]
  split
  · rfl
  next first =>
    obtain ⟨rest, rfl⟩ := charAt_zero (not_not.mp first) (by decide)
    split
    · rfl
    next second =>
      obtain ⟨rest, rfl⟩ := charAt_zero (not_not.mp second : charAt rest 0 = slash) (by decide)
      split
      · rfl
      next third =>
        obtain ⟨rest, rfl⟩ := charAt_zero (not_not.mp third : charAt rest 0 = slash) (by decide)
        exact absurd ⟨before, rest, rfl, plain⟩ malformed

theorem getURLServer_fails (target : Option Path) : getURLServer url target = (-1, target) := by
  simp only [getURLServer, getURLProtocol_fails malformed]
  rfl

theorem getURLPort_fails (target : Option Path) : getURLPort url target = (-1, target) := by
  simp only [getURLPort, getURLServer_fails malformed]
  rfl

theorem getURLDir_fails (target : Option Path) : getURLDir url target = (-1, target) := by
  simp only [getURLDir, getURLPort_fails malformed, getURLServer_fails malformed, getURLProtocol_fails malformed]
  rfl

theorem parseURL_fails {parts : UrlParts}
    (asked : parts.protocol.isSome ∨ parts.server.isSome ∨ parts.dir.isSome) :
    ∃ left, parseURL url parts = some (-1, left) := by
  obtain ⟨protocol, server, port, dir⟩ := parts
  cases protocol <;> cases server <;> cases port <;> cases dir <;>
    simp_all [parseURL, getURLProtocol_fails malformed, getURLServer_fails malformed, getURLPort_fails malformed,
      getURLDir_fails malformed]

end

theorem parseURL_components (parts : UrlParts) :
    (∀ url : Components, url.text.length < pathMax →
      (parseURL url.text parts = some (0, url.expected parts) ↔ url.dir ≠ [] ∨ parts.dir = none))
    ∧ ∀ url : Path, ¬ Separated url → parts.protocol.isSome ∨ parts.server.isSome ∨ parts.dir.isSome →
      ∃ left, parseURL url parts = some (-1, left) :=
  ⟨fun url short => parseURL_recovers_iff url short parts, fun _ malformed asked => parseURL_fails malformed asked⟩

def bare : Components where
  protocol := [97]
  server := [98]
  port := none
  dir := []
  protocol_plain := by decide
  server_plain := by decide
  port_plain := fun _ absent => by cases absent
  dir_rooted := fun _ absent => by cases absent

/-- `xpn://h:80//a///b` -/
def full : Components where
  protocol := [120, 112, 110]
  server := [104]
  port := some [56, 48]
  dir := [47, 47, 97, 47, 47, 47, 98]
  protocol_plain := by decide
  server_plain := by decide
  port_plain := fun _ present => by cases present; decide
  dir_rooted := fun _ present => by cases present; rfl

/-- Every part is asked for and found, and `a:b` is not a URL. -/
theorem parseURL_components_full :
    (∃ parts, parseURL full.text ⟨some [], some [], some [], some []⟩ = some (0, parts) ∧
      parts.port = some [56, 48] ∧ parts.dir = some [47, 97, 47, 98]) ∧
    ∃ left, parseURL [97, 58, 98] ⟨some [], some [], some [], some []⟩ = some (-1, left) := by
  have recovered := ((parseURL_components ⟨some [], some [], some [], some []⟩).1 full (by decide)).mpr (.inl (by decide))
  have malformed : ¬Separated [97, 58, 98] := by
    rintro ⟨before, behind, same, -⟩
    have member : slash ∈ ([97, 58, 98] : Path) := by rw [same]; simp
    exact absurd member (by decide)
  exact ⟨⟨_, recovered, rfl, by decide⟩, (parseURL_components _).2 [97, 58, 98] malformed (.inl rfl)⟩

theorem parseURL_loses_empty_dir : ¬ ∀ (url : Components) (parts : UrlParts), url.text.length < pathMax →
    parseURL url.text parts = some (0, url.expected parts) := by
  intro claimed
  have recovered := claimed bare { protocol := some [], server := some [], port := none, dir := some [] } (by decide)
  exact absurd recovered (by decide)

end Xpn.UrlStr
