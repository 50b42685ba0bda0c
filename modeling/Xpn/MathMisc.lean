import Mathlib.Data.Int.Notation

/-! The location of a block among servers that take turns in keeping the parity of a
stripe. All indices are `int`s; on the arguments that are let through every intermediate
value is between zero and the larger of the two arguments. -/

namespace Xpn.MathMisc

/-- `SP`, `IP`, `SD` and `ID`. -/
structure Location where
  sp : Int
  ip : Int
  sd : Int
  id : Int
  deriving DecidableEq, Repr

/-- `none` is the return value −1, which leaves the four results alone. -/
def locateInRAID5withInternalParity (i m : Int) : Option Location :=
  if i < 0 then none
  else if m < 2 then none
  else
    let aux1 := i.tdiv (m - 1)
    let aux2 := i.tmod (m - 1)
    let sp := (m - 1) - aux1.tmod m
    let reorder := if sp ≤ aux2 then 1 else 0
    some { sp, ip := aux1, sd := aux2 + reorder, id := aux1 }

end Xpn.MathMisc
