import Xpn.Filesystem

/-! The components of a URL. Each is found by running the scanners of the ones before it
again. An argument that is `NULL` is `none`; else it holds the text that was there before. -/

namespace Xpn.UrlStr

def colon : Byte := 58

/-- `url[i]` -/
def charAt (url : Path) (i : Nat) : Byte := url.getD i 0

/-- A loop that goes on to one of some characters or to the end. -/
def advance (stops : Byte → Bool) : Path → Nat → Nat
  | [], i => i
  | c :: url, i => if stops c then i else advance stops url (i + 1)

/-- `strncpy` of a part of the URL, and the terminator behind it. -/
def copyPart (url : Path) (start finish : Nat) (target : Option Path) : Option Path :=
  target.map fun _ => (url.drop start).take (finish - start)

def getURLProtocol (url : Path) (protocol : Option Path) : Int × Option Path :=
  let j := advance (· == colon) url 0
  if charAt url j ≠ colon then (-1, protocol)
  else if charAt url (j + 1) ≠ slash then (-1, protocol)
  else if charAt url (j + 2) ≠ slash then (-1, protocol)
  else ((j + 3 : Nat), copyPart url 0 j protocol)

def getURLServer (url : Path) (server : Option Path) : Int × Option Path :=
  let i := (getURLProtocol url none).1
  if i < 0 then (-1, server)
  else
    let j := advance (fun c => c == colon || c == slash) (url.drop i.toNat) i.toNat
    (j, copyPart url i.toNat j server)

def getURLPort (url : Path) (port : Option Path) : Int × Option Path :=
  let i := (getURLServer url none).1
  if i < 0 then (-1, port)
  else if charAt url i.toNat ≠ colon then (-1, port)
  else
    let i := i.toNat + 1
    let j := advance (· == slash) (url.drop i) i
    (j, copyPart url i j port)

def getURLDir (url : Path) (dir : Option Path) : Int × Option Path :=
  let port := (getURLPort url none).1
  let server := if port < 0 then (getURLServer url none).1 else port
  let i := if server < 0 then (getURLProtocol url none).1 else server
  if i < 0 then (-1, dir) else (url.length, copyPart url i.toNat url.length dir)

/-- The loop and the buffer of `aux_clear_dirs`, letter by letter. -/
def clearSlash (path : Path) : Option Path := Filesystem.auxClearDirs path

/-- The results that are asked for. -/
structure UrlParts where
  protocol : Option Path
  server : Option Path
  port : Option Path
  dir : Option Path
  deriving DecidableEq, Repr

/-- `login` and `passwd` are not used. `none` stands for a directory of unknown content. -/
def parseURL (url : Path) (parts : UrlParts) : Option (Int × UrlParts) :=
  let (got, protocol) := if parts.protocol.isSome then getURLProtocol url parts.protocol else (0, none)
  let parts := { parts with protocol }
  if got < 0 then some (-1, parts)
  else
    let (got, server) := if parts.server.isSome then getURLServer url parts.server else (0, none)
    let parts := { parts with server }
    if got < 0 then some (-1, parts)
    else
      -- a port is not mandatory
      let (_, port) := if parts.port.isSome then getURLPort url parts.port else (0, none)
      let parts := { parts with port }
      let (got, dir) := if parts.dir.isSome then getURLDir url parts.dir else (0, none)
      let parts := { parts with dir }
      if got < 0 then some (-1, parts)
      else
        match parts.dir with
        | none => some (0, parts)
        | some dir => do
          let dir ← clearSlash dir
          some (0, { parts with dir := some dir })

end Xpn.UrlStr
