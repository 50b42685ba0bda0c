import Xpn.ReadWrite
import Xpn.Namespace

/-! Opening a stream, the descriptor that an open leaves, and writes through it in turn.
With sessions off every request opens the local file anew, without O_APPEND. -/

namespace Xpn

def oAppend : Nat := 1024

/-- The flags of `xpn_simple_fopen`, `none` for a mode it does not know. -/
def fopenFlags (mode : List Char) : Option Nat :=
  if ['r', '+'] <:+: mode then some oRdwr
  else if ['r'] <:+: mode then some oRdonly.toNat
  else if ['w', '+'] <:+: mode then some (oRdwr ||| oCreat ||| oTrunc)
  else if ['w'] <:+: mode then some (oWronly.toNat ||| oCreat ||| oTrunc)
  else if ['a', '+'] <:+: mode then some (oRdwr ||| oCreat ||| oAppend)
  else if ['a'] <:+: mode then some (oWronly.toNat ||| oCreat ||| oAppend)
  else none

/-- `XpnSearchSlotFile`: whatever the flags are, a descriptor starts at 0. -/
def XpnFiledesc.xpnSearchSlotFile (part : XpnPartition) (mdata : XpnMetadata) (flags : Nat) : XpnFiledesc where
  type := mdata.type
  flags := flags
  part := part
  mdata := mdata
  offset := 0
  blockSize := part.blockSize

end Xpn
