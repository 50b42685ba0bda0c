import Xpn.Tools
import Xpn.Shrink
import Xpn.NfiWorker

/-! Where the two reconfiguration tools put the new metadata of a file. Every rank decides
for itself with the server count it has: the new one in `xpn_expand`, the old one in
`xpn_shrink`. -/

namespace Xpn

namespace XpnExpand

/-- `has_new_mdata`, for the name of an entry inside the partition. -/
def hasNewMdata (path : Path) (level size : Int) (rank : Nat) : Bool := amongCopies (hash path size 1) level size.toNat rank

end XpnExpand

namespace XpnShrink

/-- `has_new_mdata`, with the new numbers that the ranks have told each other. -/
def hasNewMdata (path : Path) (level size newSize : Int) (transRank : Nat → Int) (rank : Nat) : Bool :=
  (List.range (level + 1).toNat).any fun i => transRank rank == (hash path newSize 1 + i).tmod size

end XpnShrink

end Xpn
