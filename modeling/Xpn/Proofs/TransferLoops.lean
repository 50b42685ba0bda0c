import Xpn.Filesystem
import Xpn.Lib.Fragments

/-! However a transfer is cut into pieces, the loops move the bytes that were asked for. -/

namespace Xpn.Filesystem
open Xpn.Lib.Fragments

/-- On a request for something the loop that tests last is the loop that tests first. -/
theorem socketSendLoop_eq (size : Int) (results : List Int) (buffer sent : List Byte) {l : Int} (positive : 0 < l) :
    socketSendLoop size results buffer l sent = filesystemWriteLoop size results buffer l sent := by
  induction results generalizing buffer l sent with
  | nil => rw [socketSendLoop, filesystemWriteLoop, if_pos positive]
  | cons r results ih =>
    rw [socketSendLoop, filesystemWriteLoop, if_pos positive]
    by_cases failed : r < 0
    · rw [if_pos failed, if_pos failed]
    · rw [if_neg failed, if_neg failed]
      by_cases more : 0 < l - r
      · simp only [if_pos (And.intro more (not_lt.mp failed))]
        exact ih _ _ more
      · simp only [if_neg (fun both : 0 < l - r ∧ 0 ≤ r => more both.1)]
        cases results <;> rw [filesystemWriteLoop, if_neg more]

/-- While something is asked for, pieces only move the pointer. -/
theorem writeLoop_moves (size : Int) {asked left : Nat} {moved : List Nat} (pieces : Moves asked left moved)
    (later : List Int) (buffer written : List Byte) :
    filesystemWriteLoop size (moved.map Int.ofNat ++ later) buffer asked written
      = filesystemWriteLoop size later (buffer.drop moved.sum) left (written ++ buffer.take moved.sum) := by
  induction pieces generalizing buffer written with
  | stop left => simp
  | @piece asked left first rest positive most _ ih =>
    have remaining : (asked : Int) - Int.ofNat first = ((asked - first : Nat) : Int) := by
      simp only [Int.ofNat_eq_natCast]
      omega
    rw [List.map_cons, List.cons_append, filesystemWriteLoop, if_pos (by omega),
      if_neg (by simp only [Int.ofNat_eq_natCast]; omega), remaining, ih, List.sum_cons]
    simp only [Int.ofNat_eq_natCast, Int.toNat_natCast, List.drop_drop, List.append_assoc, take_piece]

theorem writeLoop_done (size : Int) (results : List Int) (buffer written : List Byte) :
    filesystemWriteLoop size results buffer 0 written = some (size, written) := by
  cases results <;> rfl

theorem writeLoop_failed (size : Int) {failure left : Int} (negative : failure < 0) (positive : 0 < left)
    (later : List Int) (buffer written : List Byte) :
    filesystemWriteLoop size (failure :: later) buffer left written = some (-1, written) := by
  rw [filesystemWriteLoop, if_pos positive, if_pos negative]

section
variable {size left : Nat} {moved : List Nat} (pieces : Moves size left moved) (buffer : List Byte)
include pieces

theorem filesystemWrite_all (all : left = 0) (later : List Int) :
    filesystemWrite buffer size (moved.map Int.ofNat ++ later) = some ((size : Int), buffer.take size) := by
  subst all
  have total := pieces.sum
  rw [add_zero] at total
  unfold filesystemWrite
  rw [writeLoop_moves _ pieces, total]
  exact writeLoop_done _ _ _ _

theorem filesystemWrite_failed (positive : 0 < left) {failure : Int} (negative : failure < 0) (later : List Int) :
    filesystemWrite buffer size (moved.map Int.ofNat ++ failure :: later) = some (-1, buffer.take (size - left)) := by
  have total := pieces.sum
  unfold filesystemWrite
  rw [writeLoop_moves _ pieces, writeLoop_failed _ negative (by omega), List.nil_append,
    show moved.sum = size - left by omega]

end

theorem socketSend_eq (buffer : List Byte) {size : Nat} (positive : 0 < size) (results : List Int) :
    socketSend buffer size results = filesystemWrite buffer size results :=
  socketSendLoop_eq _ _ _ _ (by omega)

theorem readLoop_moves (size : Int) {asked left : Nat} {pieces : List (List Byte)}
    (fits : Moves asked left (pieces.map List.length)) (later : List (Option (List Byte))) (before buffer : List Byte) :
    filesystemReadLoop size (pieces.map some ++ later) before buffer asked
      = filesystemReadLoop size later (before ++ pieces.flatten) (buffer.drop pieces.flatten.length) left := by
  induction pieces generalizing asked before buffer with
  | nil =>
    cases fits
    simp
  | cons data pieces ih =>
    cases fits with
    | piece positive most rest =>
      have remaining : (asked : Int) - (data.length : Int) = ((asked - data.length : Nat) : Int) := by omega
      rw [List.map_cons, List.cons_append, filesystemReadLoop, if_pos (by omega), if_neg (by omega), remaining, ih rest,
        List.flatten_cons, List.length_append, List.append_assoc, List.drop_drop]

theorem readLoop_done (size : Int) (results : List (Option (List Byte))) (before buffer : List Byte) :
    filesystemReadLoop size results before buffer 0 = some (size, before ++ buffer) := by
  cases results <;> rfl

/-- The two loops for reads differ in what they return at the end of the file only. -/
theorem socketRecvLoop_moves (size : Int) {asked left : Nat} {pieces : List (List Byte)}
    (fits : Moves asked left (pieces.map List.length)) (positive : 0 < left) (later : List (Option (List Byte)))
    (before buffer : List Byte) :
    socketRecvLoop size (pieces.map some ++ later) before buffer asked
      = socketRecvLoop size later (before ++ pieces.flatten) (buffer.drop pieces.flatten.length) left := by
  induction pieces generalizing asked before buffer with
  | nil =>
    cases fits
    simp
  | cons data pieces ih =>
    cases fits with
    | piece least most rest =>
      have lower := rest.left_le
      have remaining : (asked : Int) - (data.length : Int) = ((asked - data.length : Nat) : Int) := by omega
      rw [List.map_cons, List.cons_append, socketRecvLoop, if_neg (by omega), if_pos (by omega), remaining, ih rest,
        List.flatten_cons, List.length_append, List.append_assoc, List.drop_drop]

/-- The last piece ends the loop. -/
theorem socketRecvLoop_all (size : Int) {asked : Nat} {pieces : List (List Byte)}
    (fits : Moves asked 0 (pieces.map List.length)) (positive : 0 < asked) (later : List (Option (List Byte)))
    (before buffer : List Byte) :
    socketRecvLoop size (pieces.map some ++ later) before buffer asked
      = some (size, before ++ pieces.flatten ++ buffer.drop pieces.flatten.length) := by
  induction pieces generalizing asked before buffer with
  | nil =>
    cases fits
    omega
  | cons data pieces ih =>
    cases fits with
    | piece least most rest =>
      have remaining : (asked : Int) - (data.length : Int) = ((asked - data.length : Nat) : Int) := by omega
      rw [List.map_cons, List.cons_append, socketRecvLoop, if_neg (by omega), remaining]
      by_cases more : 0 < asked - data.length
      · rw [if_pos (by omega), ih rest more, List.flatten_cons, List.length_append, List.append_assoc,
          List.append_assoc, List.append_assoc, List.append_assoc, List.drop_drop]
      · rw [show asked - data.length = 0 by omega] at rest
        have last : pieces = [] := List.map_eq_nil_iff.mp rest.nothing
        subst last
        rw [if_neg (by omega), List.flatten_cons, List.flatten_nil, List.append_nil]

/-- The memory after the pieces have been put one behind the other. -/
def filled (buffer : List Byte) (pieces : List (List Byte)) : List Byte :=
  pieces.flatten ++ buffer.drop pieces.flatten.length

section
variable {size left : Nat} {pieces : List (List Byte)} (fits : Moves size left (pieces.map List.length))
  (buffer : List Byte)
include fits

theorem filesystemRead_all (all : left = 0) (later : List (Option (List Byte))) :
    filesystemRead buffer size (pieces.map some ++ later) = some ((size : Int), filled buffer pieces) := by
  subst all
  unfold filesystemRead
  rw [readLoop_moves _ fits]
  exact readLoop_done _ _ _ _

theorem filesystemRead_failed (positive : 0 < left) (later : List (Option (List Byte))) :
    filesystemRead buffer size (pieces.map some ++ none :: later) = some (-1, filled buffer pieces) := by
  unfold filesystemRead
  rw [readLoop_moves _ fits, filesystemReadLoop, if_pos (by omega)]
  rfl

theorem filesystemRead_short (positive : 0 < left) (later : List (Option (List Byte))) :
    filesystemRead buffer size (pieces.map some ++ some [] :: later)
      = some (((pieces.flatten.length : Nat) : Int), filled buffer pieces) := by
  have total := fits.sum
  rw [← List.length_flatten] at total
  unfold filesystemRead
  rw [readLoop_moves _ fits, filesystemReadLoop, if_pos (by omega)]
  simp only [List.length_nil, Nat.cast_zero, if_true, List.nil_append]
  rw [← total]
  simp [filled]

theorem socketRecv_all (all : left = 0) (positive : 0 < size) (later : List (Option (List Byte))) :
    socketRecv buffer size (pieces.map some ++ later) = some ((size : Int), filled buffer pieces) := by
  subst all
  exact socketRecvLoop_all _ fits positive _ _ _

theorem socketRecv_failed (positive : 0 < left) (later : List (Option (List Byte))) :
    socketRecv buffer size (pieces.map some ++ none :: later) = some (-1, filled buffer pieces) := by
  unfold socketRecv
  rw [socketRecvLoop_moves _ fits positive]
  rfl

end

theorem transfer_insensitive_to_fragmentation {size : Nat} (asked : 0 < size) (buffer : List Byte) :
    (∀ moved later, Moves size 0 moved →
      socketSend buffer size (moved.map Int.ofNat ++ later) = some ((size : Int), buffer.take size)
      ∧ filesystemWrite buffer size (moved.map Int.ofNat ++ later) = some ((size : Int), buffer.take size))
    ∧ (∀ left moved failure later, Moves size left moved → 0 < left → failure < 0 →
      socketSend buffer size (moved.map Int.ofNat ++ failure :: later) = some (-1, buffer.take (size - left))
      ∧ filesystemWrite buffer size (moved.map Int.ofNat ++ failure :: later)
        = some (-1, buffer.take (size - left)))
    ∧ (∀ (pieces : List (List Byte)) later, Moves size 0 (pieces.map List.length) →
      pieces.flatten.length = size
      ∧ socketRecv buffer size (pieces.map some ++ later) = some ((size : Int), pieces.flatten ++ buffer.drop size)
      ∧ filesystemRead buffer size (pieces.map some ++ later) = some ((size : Int), pieces.flatten ++ buffer.drop size))
    ∧ ∀ left (pieces : List (List Byte)) later, Moves size left (pieces.map List.length) → 0 < left →
      filesystemRead buffer size (pieces.map some ++ some [] :: later)
        = some (((pieces.flatten.length : Nat) : Int), pieces.flatten ++ buffer.drop pieces.flatten.length)
      ∧ (∃ memory, socketRecv buffer size (pieces.map some ++ none :: later) = some (-1, memory))
      ∧ ∃ memory, filesystemRead buffer size (pieces.map some ++ none :: later) = some (-1, memory) := by
  refine ⟨?_, ?_, ?_, ?_⟩
  · intro moved later pieces
    rw [socketSend_eq buffer asked]
    exact ⟨filesystemWrite_all pieces buffer rfl later, filesystemWrite_all pieces buffer rfl later⟩
  · intro left moved failure later pieces positive negative
    rw [socketSend_eq buffer asked]
    have failed := filesystemWrite_failed pieces buffer positive negative later
    exact ⟨failed, failed⟩
  · intro pieces later fits
    have total := fits.sum
    rw [← List.length_flatten, add_zero] at total
    have memory : filled buffer pieces = pieces.flatten ++ buffer.drop size := by rw [filled, total]
    rw [← memory]
    exact ⟨total, socketRecv_all fits buffer rfl asked later, filesystemRead_all fits buffer rfl later⟩
  · intro left pieces later fits positive
    exact ⟨filesystemRead_short fits buffer positive later, ⟨_, socketRecv_failed fits buffer positive later⟩,
      _, filesystemRead_failed fits buffer positive later⟩

theorem transfer_insensitive_to_fragmentation_three :
    filesystemRead [0, 0, 0] (3 : Nat) [some [7, 8], some []] = some (2, [7, 8, 0]) :=
  ((transfer_insensitive_to_fragmentation (by decide) [0, 0, 0]).2.2.2 1 [[7, 8]] []
    (.piece (by decide) (by decide) (.stop 1)) (by decide)).1

end Xpn.Filesystem
