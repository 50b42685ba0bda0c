import Xpn.Metadata

/-! The metadata record of one file on its master server and the clients that use
it. The server's handlers are atomic; a client's open and write take several
requests, and the requests of different clients interleave freely. -/

namespace Xpn

/-! ### Handlers of the server, on the record of the file -/

/-- A record without the magic number is answered with zeroes. -/
def xpnServerOpReadMdata (stored : XpnMetadata) : XpnMetadata :=
  if xpnCheckMagicNumber stored then stored else XpnMetadata.zero

/-- The whole record is overwritten. -/
def xpnServerOpWriteMdata (_stored mdata : XpnMetadata) : XpnMetadata := mdata

/-- Under the mutex: the size is stored when it is larger than the one there. -/
def xpnServerOpWriteMdataFileSize (stored : XpnMetadata) (size : Int) : XpnMetadata :=
  if stored.fileSize < size then { stored with fileSize := size } else stored

/-- The server that `XpnReadMetadata` asks: from the master node on, but with steps that
grow, the first one that has not failed. -/
def xpnReadMetadataServer (error : Int → Bool) (nserv : Int) : Nat → Nat → Int → Int
  | 0, _, masterNode => masterNode
  | fuel + 1, i, masterNode =>
    let masterNode := (masterNode + i).tmod nserv
    if error masterNode then xpnReadMetadataServer error nserv fuel (i + 1) masterNode else masterNode

/-! ### Clients -/

/-- Where a client is between its requests. -/
inductive ClientPhase where
  | closed
  /-- `xpn_internal_open` has read the metadata; with `O_CREAT` it writes it back. -/
  | opening (creat : Bool) (mdata : XpnMetadata)
  | opened (mdata : XpnMetadata) (offset : Nat)
  /-- A write extended the file; `XpnUpdateMetadata` is about to send the size. -/
  | updating (mdata : XpnMetadata) (offset : Nat)

inductive MdataEvent where
  | openRead (client : Nat) (creat : Bool)
  | openUpdate (client : Nat)
  | openDone (client : Nat)
  | seek (client : Nat) (offset : Nat)
  | write (client : Nat) (count : Nat)
  | sizeUpdate (client : Nat)
  | close (client : Nat)

structure MdataState where
  stored : XpnMetadata
  clients : Nat → ClientPhase
  /-- The end offsets of the writes whose size update was acknowledged. -/
  acknowledged : List Nat

namespace MdataState

def setClient (state : MdataState) (client : Nat) (phase : ClientPhase) : MdataState :=
  { state with clients := fun other => if other = client then phase else state.clients other }

/-- Nobody has the file open and nothing was acknowledged yet. -/
def initial (stored : XpnMetadata) : MdataState := ⟨stored, fun _ => .closed, []⟩

/-- One request of one client. `created` is what `XpnCreateMetadata` makes up when the
record on the server is not valid. -/
def step (created : XpnMetadata) (state : MdataState) : MdataEvent → Option MdataState
  | .openRead client creat =>
    match state.clients client with
    | .closed =>
      let mdata := xpnServerOpReadMdata state.stored
      some (state.setClient client (.opening creat (if xpnCheckMagicNumber mdata then mdata else created)))
    | _ => none
  | .openUpdate client =>
    match state.clients client with
    | .opening true mdata =>
      some { state.setClient client (.opened mdata 0) with stored := xpnServerOpWriteMdata state.stored mdata }
    | _ => none
  | .openDone client =>
    match state.clients client with
    | .opening false mdata => some (state.setClient client (.opened mdata 0))
    | _ => none
  | .seek client offset =>
    match state.clients client with
    | .opened mdata _ => some (state.setClient client (.opened mdata offset))
    | _ => none
  | .write client count =>
    match state.clients client with
    | .opened mdata offset =>
      let offset := offset + count
      -- The data is on the servers; the size follows only when the file grew.
      if mdata.fileSize < offset then
        some (state.setClient client (.updating { mdata with fileSize := offset } offset))
      else some (state.setClient client (.opened mdata offset))
    | _ => none
  | .sizeUpdate client =>
    match state.clients client with
    | .updating mdata offset =>
      some { state.setClient client (.opened mdata offset) with
        stored := xpnServerOpWriteMdataFileSize state.stored mdata.fileSize
        acknowledged := offset :: state.acknowledged }
    | _ => none
  | .close client =>
    match state.clients client with
    | .opened _ _ => some (state.setClient client .closed)
    | _ => none

end MdataState

end Xpn
