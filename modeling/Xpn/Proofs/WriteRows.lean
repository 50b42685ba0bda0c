import Xpn.Proofs.WritePath
import Xpn.Proofs.ElementaryRequests

/-! The rows of a parallel write. In the local file of its server a row is one stretch, and its
places are those of the copies that the server has of the bytes of the request. -/

namespace Xpn.Proofs
open Lib.ByteFile

variable {g : Layout} {fd : XpnFiledesc} {servers : Servers} {size offset s start stop : Nat} {buffer : List Byte}

end Xpn.Proofs
