import Mathlib.Data.List.Basic

/-! Files and buffers as byte lists. A positioned write beyond the end leaves a
hole that reads as the default byte; a positioned read stops at the end of the
file. Every law is stated pointwise with `getElem?`, so that a read that is cut
short and a read that is complete are one case. -/

namespace Xpn.Lib.ByteFile

variable {β : Type}

/-- Copy `data` over the bytes of `target` that start at `position`. -/
def overwrite (target : List β) (position : Nat) (data : List β) : List β :=
  target.take position ++ data ++ target.drop (position + data.length)

/-- Grow a file to at least `size` bytes; the new bytes are a hole. -/
def extend [Inhabited β] (file : List β) (size : Nat) : List β :=
  file ++ List.replicate (size - file.length) default

def pread (file : List β) (offset count : Nat) : List β := (file.drop offset).take count

/-- An empty write changes nothing, even beyond the end. -/
def pwrite [Inhabited β] (file : List β) (offset : Nat) (data : List β) : List β :=
  if data.isEmpty then file else overwrite (extend file offset) offset data

/-- Apply overwrites in turn; each is a position and the data that goes there. -/
def patched (buffer : List β) (patches : List (Nat × List β)) : List β :=
  patches.foldl (fun buffer patch => overwrite buffer patch.1 patch.2) buffer

/-- The patch writes position `i`. -/
def Covers (i : Nat) (patch : Nat × List β) : Prop := patch.1 ≤ i ∧ i < patch.1 + patch.2.length

theorem length_overwrite {target : List β} {position : Nat} {data : List β}
    (inside : position + data.length ≤ target.length) : (overwrite target position data).length = target.length := by
  simp only [overwrite, List.length_append, List.length_take, List.length_drop]
  omega

theorem getElem?_overwrite {target : List β} {position : Nat} (data : List β) (inside : position ≤ target.length)
    (i : Nat) : (overwrite target position data)[i]? =
      if i < position then target[i]?
      else if i < position + data.length then data[i - position]? else target[i]? := by
  have front : (target.take position).length = position := by simp [inside]
  simp only [overwrite, List.append_assoc]
  by_cases before : i < position
  · rw [List.getElem?_append_left (by omega), if_pos before, List.getElem?_take_of_lt before]
  · rw [List.getElem?_append_right (by omega), if_neg before, front]
    by_cases within : i < position + data.length
    · rw [List.getElem?_append_left (by omega), if_pos within]
    · rw [List.getElem?_append_right (by omega), if_neg within, List.getElem?_drop]
      congr 1
      omega

section
variable {buffer : List β} {patches : List (Nat × List β)}

/-- Where all patches that reach a position agree on its value, the order of the
patches does not matter. -/
private theorem patched_agree {i : Nat} {value : β} (inside : ∀ patch ∈ patches, patch.1 + patch.2.length ≤ buffer.length)
    (agree : ∀ patch ∈ patches, Covers i patch → patch.2[i - patch.1]? = some value)
    (reached : buffer[i]? = some value ∨ ∃ patch ∈ patches, Covers i patch) :
    (patched buffer patches)[i]? = some value := by
  induction patches generalizing buffer with
  | nil =>
    rcases reached with kept | ⟨_, member, _⟩
    · exact kept
    · cases member
  | cons patch rest ih =>
    have here := inside patch List.mem_cons_self
    have at_i := getElem?_overwrite patch.2 (Nat.le_of_add_right_le here) i
    refine ih ?_ (fun other member => agree other (List.mem_cons_of_mem _ member)) ?_
    · intro other member
      rw [length_overwrite here]
      exact inside other (List.mem_cons_of_mem _ member)
    · by_cases covers : Covers i patch
      · left
        rw [at_i, if_neg (by have := covers.1; omega), if_pos covers.2]
        exact agree patch List.mem_cons_self covers
      · rcases reached with kept | ⟨other, member, reaches⟩
        · left
          rw [at_i]
          split
          · exact kept
          · rw [if_neg fun below => covers ⟨by omega, below⟩]
            exact kept
        · right
          rcases List.mem_cons.mp member with same | later
          · exact absurd (same ▸ reaches) covers
          · exact ⟨other, later, reaches⟩

theorem getElem?_patched {i : Nat} {value : β} (inside : ∀ patch ∈ patches, patch.1 + patch.2.length ≤ buffer.length)
    (agree : ∀ patch ∈ patches, Covers i patch → patch.2[i - patch.1]? = some value)
    (reached : ∃ patch ∈ patches, Covers i patch) : (patched buffer patches)[i]? = some value :=
  patched_agree inside agree (Or.inr reached)

end

@[simp] theorem length_pread (file : List β) (offset count : Nat) :
    (pread file offset count).length = min count (file.length - offset) := by
  simp [pread]

theorem getElem?_pread (file : List β) (offset count i : Nat) :
    (pread file offset count)[i]? = if i < count then file[offset + i]? else none := by
  simp only [pread, List.getElem?_take, List.getElem?_drop]

@[simp] theorem pread_zero (file : List β) (offset : Nat) : pread file offset 0 = [] := by
  simp [pread]

theorem pread_length (file : List β) (offset count : Nat) :
    pread file offset (pread file offset count).length = pread file offset count := by
  rw [length_pread, pread, pread, ← List.length_drop]
  rcases Nat.le_total count (file.drop offset).length with short | long
  · rw [Nat.min_eq_left short]
  · rw [Nat.min_eq_right long, List.take_length, List.take_of_length_le long]

/-- Reading two adjacent ranges is reading their union, also across the end. -/
theorem pread_add (file : List β) (offset first second : Nat) :
    pread file offset (first + second) = pread file offset first ++ pread file (offset + first) second := by
  simp only [pread, List.take_add, List.drop_drop]

/-- Two files that agree pointwise on a range give the same read of it. -/
theorem pread_congr {file other : List β} {offset start count : Nat}
    (same : ∀ i, i < count → file[offset + i]? = other[start + i]?) :
    pread file offset count = pread other start count := by
  apply List.ext_getElem?
  intro i
  rw [getElem?_pread, getElem?_pread]
  split
  · exact same i ‹_›
  · rfl

/-- A read of a range that an overwrite covers. -/
theorem pread_overwrite {target data : List β} {position count : Nat} (inside : position ≤ target.length)
    (covered : data.length ≤ count) :
    pread (overwrite target position data) position count = overwrite (pread target position count) 0 data := by
  apply List.ext_getElem?
  intro i
  rw [getElem?_pread, getElem?_overwrite _ inside, getElem?_overwrite _ (Nat.zero_le _), getElem?_pread,
    if_neg (by omega : ¬position + i < position), if_neg (Nat.not_lt_zero i), Nat.zero_add, Nat.sub_zero,
    Nat.add_sub_cancel_left]
  by_cases written : i < data.length
  · rw [if_pos (by omega), if_pos (by omega), if_pos written]
  · rw [if_neg (by omega : ¬position + i < position + data.length), if_neg written]

/-- A read that an overwrite does not reach. -/
theorem pread_overwrite_apart {target data : List β} {position offset count : Nat} (inside : position ≤ target.length)
    (apart : offset + count ≤ position ∨ position + data.length ≤ offset) :
    pread (overwrite target position data) offset count = pread target offset count := by
  apply pread_congr
  intro i below
  rw [getElem?_overwrite _ inside]
  rcases apart with before | after
  · rw [if_pos (by omega)]
  · rw [if_neg (by omega), if_neg (by omega)]

theorem pread_take {file : List β} {offset count size : Nat} (inside : offset + count ≤ size) :
    pread (file.take size) offset count = pread file offset count := by
  apply pread_congr
  intro i below
  rw [List.getElem?_take_of_lt (by omega)]

theorem overwrite_front (target data : List β) : overwrite target 0 data = data ++ target.drop data.length := by
  simp [overwrite]

/-- An overwrite that starts where a known front ends. -/
theorem overwrite_append (front target data : List β) :
    overwrite (front ++ target) front.length data = front ++ overwrite target 0 data := by
  simp [overwrite, List.drop_append]

/-- A read that ends before its request does has met the end of the file. -/
theorem pread_short {file : List β} {offset count : Nat} (short : (pread file offset count).length < count) :
    file.length ≤ offset + (pread file offset count).length := by
  rw [length_pread] at short ⊢
  omega

section
variable [Inhabited β]

@[simp] theorem pwrite_nil (file : List β) (offset : Nat) : pwrite file offset [] = file := rfl

theorem pwrite_eq_overwrite {file : List β} {offset : Nat} (data : List β) (dense : offset ≤ file.length) :
    pwrite file offset data = overwrite file offset data := by
  unfold pwrite
  split
  next empty => simp [overwrite, List.isEmpty_iff.mp empty]
  next => simp [extend, Nat.sub_eq_zero_of_le dense]

theorem getElem?_pwrite {file : List β} {offset : Nat} {data : List β} (i : Nat) (some : data ≠ [])
    (below : i < offset → i < file.length) : (pwrite file offset data)[i]? =
      if i < offset then file[i]?
      else if i < offset + data.length then data[i - offset]? else file[i]? := by
  have grown : offset ≤ (extend file offset).length := by
    simp only [extend, List.length_append, List.length_replicate]
    omega
  have kept : i < file.length → (extend file offset)[i]? = file[i]? := List.getElem?_append_left
  rw [pwrite, if_neg (by simpa using some), getElem?_overwrite data grown]
  split
  next before => exact kept (below before)
  next =>
    split
    · rfl
    next outside =>
      by_cases inside : i < file.length
      · exact kept inside
      · -- Past the new data there is nothing left of the file or of the hole.
        have data_pos : 0 < data.length := List.length_pos_iff.mpr some
        rw [List.getElem?_eq_none (by simp only [extend, List.length_append, List.length_replicate]; omega),
          List.getElem?_eq_none (by omega)]

/-- The same for any file; the hole in front of the data is filled up. -/
theorem getElem?_pwrite_hole {file : List β} {offset : Nat} {data : List β} (i : Nat) (some : data ≠ []) :
    (pwrite file offset data)[i]? =
      if i < offset then if i < file.length then file[i]? else Option.some default
      else if i < offset + data.length then data[i - offset]? else file[i]? := by
  by_cases hole : i < offset ∧ ¬i < file.length
  · have grown : offset ≤ (extend file offset).length := by
      simp only [extend, List.length_append, List.length_replicate]
      omega
    rw [pwrite, if_neg (by simpa using some), getElem?_overwrite data grown, if_pos hole.1, if_pos hole.1, if_neg hole.2, extend,
      List.getElem?_append_right (by omega), List.getElem?_replicate, if_pos (by omega)]
  · rw [getElem?_pwrite i some fun before => by omega]
    split
    · rw [if_pos (by omega)]
    · rfl

/-- A byte that a write agrees with, where it reaches it, has its value afterwards. -/
theorem getElem?_pwrite_agree {file data : List β} {offset i : Nat} {x : β}
    (agree : Covers i (offset, data) → data[i - offset]? = some x) (reached : file[i]? = some x ∨ Covers i (offset, data)) :
    (pwrite file offset data)[i]? = some x := by
  by_cases empty : data = []
  · rw [empty, pwrite_nil]
    refine reached.resolve_right fun covers => ?_
    have above := covers.1
    have below := covers.2
    simp only [empty, List.length_nil] at above below
    omega
  · rw [getElem?_pwrite_hole i empty]
    by_cases covers : Covers i (offset, data)
    · rw [if_neg (Nat.not_lt.mpr covers.1), if_pos covers.2]
      exact agree covers
    · have kept := reached.resolve_right covers
      have present : i < file.length := (List.getElem?_eq_some_iff.mp kept).1
      split
      · exact kept
      · rw [if_neg fun under => covers ⟨by omega, under⟩]
        exact kept

theorem length_pwrite {file : List β} {offset : Nat} {data : List β} (some : data ≠ []) :
    (pwrite file offset data).length = max file.length (offset + data.length) := by
  rw [pwrite, if_neg (by simpa using some)]
  simp only [overwrite, extend, List.length_append, List.length_take, List.length_drop, List.length_replicate]
  omega

/-- Writes that do not meet can change places. -/
theorem pwrite_comm {file : List β} {offset other : Nat} {data data' : List β}
    (apart : offset + data.length ≤ other ∨ other + data'.length ≤ offset) :
    pwrite (pwrite file offset data) other data' = pwrite (pwrite file other data') offset data := by
  by_cases none : data = []
  · simp [pwrite, none]
  by_cases none' : data' = []
  · simp [pwrite, none']
  apply List.ext_getElem?
  intro i
  rw [getElem?_pwrite_hole i none', getElem?_pwrite_hole i none, getElem?_pwrite_hole i none, getElem?_pwrite_hole i none',
    length_pwrite none, length_pwrite none']
  have past : ∀ j, file.length ≤ j → file[j]? = Option.none := fun j => List.getElem?_eq_none
  by_cases first : offset ≤ i ∧ i < offset + data.length
  · have elsewhere : i < other ∨ other + data'.length ≤ i := by omega
    grind
  · by_cases second : other ≤ i ∧ i < other + data'.length
    · grind
    · grind

/-- Two adjacent dense writes are one write of the joined data. -/
theorem pwrite_append {file : List β} {offset : Nat} (first second : List β) (some : first ≠ []) :
    pwrite (pwrite file offset first) (offset + first.length) second = pwrite file offset (first ++ second) := by
  have grown : offset ≤ (extend file offset).length := by
    simp only [extend, List.length_append, List.length_replicate]
    omega
  have written : pwrite file offset first = overwrite (extend file offset) offset first := by
    rw [pwrite, if_neg (by simpa using some)]
  have reaches : offset + first.length ≤ (pwrite file offset first).length := by
    rw [written]
    simp only [overwrite, List.length_append, List.length_take, List.length_drop]
    omega
  rw [pwrite_eq_overwrite second reaches, pwrite.eq_1 file offset (first ++ second), if_neg (by simp [some]), written]
  apply List.ext_getElem?
  intro i
  rw [getElem?_overwrite second (by rw [← written]; exact reaches), getElem?_overwrite _ grown, getElem?_overwrite _ grown]
  simp only [List.length_append]
  by_cases inFirst : i < offset + first.length
  · by_cases before : i < offset
    · simp [before, inFirst]
    · rw [if_pos inFirst, if_neg before, if_pos inFirst, if_neg before, if_pos (by omega),
        List.getElem?_append_left (by omega)]
  · rw [if_neg inFirst, if_neg (by omega : ¬i < offset), if_neg inFirst, if_neg (by omega : ¬i < offset), Nat.add_assoc]
    by_cases inSecond : i < offset + (first.length + second.length)
    · rw [if_pos inSecond, if_pos inSecond, List.getElem?_append_right (by omega)]
      congr 1
      omega
    · rw [if_neg inSecond, if_neg inSecond]

theorem length_pwrite_le (file : List β) (offset : Nat) (data : List β) :
    (pwrite file offset data).length ≤ max file.length (offset + data.length) := by
  unfold pwrite
  split
  · exact Nat.le_max_left _ _
  · simp only [overwrite, extend, List.length_append, List.length_take, List.length_drop, List.length_replicate]
    omega

theorem pwrite_end (file data : List β) : pwrite file file.length data = file ++ data := by
  rw [pwrite_eq_overwrite data (Nat.le_refl _)]
  simp [overwrite]

/-- Writes of pieces of one source, in any order and with overlaps, leave the source when
they cover it. -/
theorem foldl_pwrite_pieces {source : List β} (writes : List (Nat × List β))
    (pieces : ∀ write ∈ writes, write.2 = pread source write.1 write.2.length) (file : List β)
    (inside : file.length ≤ source.length)
    (reached : ∀ i, i < source.length → file[i]? = source[i]? ∨ ∃ write ∈ writes, Covers i write) :
    writes.foldl (fun file write => pwrite file write.1 write.2) file = source := by
  induction writes generalizing file with
  | nil =>
    rw [List.foldl_nil]
    apply List.ext_getElem?
    intro i
    by_cases below : i < source.length
    · rcases reached i below with same | ⟨_, member, _⟩
      · exact same
      · cases member
    · rw [List.getElem?_eq_none (by omega), List.getElem?_eq_none (by omega)]
  | cons write writes ih =>
    have piece := pieces write List.mem_cons_self
    have bound : write.2.length ≤ source.length - write.1 := by
      have := congrArg List.length piece
      rw [length_pread] at this
      omega
    rw [List.foldl_cons]
    refine ih (fun other member => pieces other (List.mem_cons_of_mem _ member)) _ ?_ fun i below => ?_
    · by_cases empty : write.2 = []
      · rw [empty, pwrite_nil]
        exact inside
      · have := length_pwrite_le file write.1 write.2
        have := List.length_pos_iff.mpr empty
        omega
    · by_cases covers : Covers i write
      · left
        have filled : write.2 ≠ [] := by
          intro empty
          have := covers.2
          have := covers.1
          simp only [empty, List.length_nil] at *
          omega
        rw [pwrite, if_neg (by simpa using filled), getElem?_overwrite, if_neg (Nat.not_lt.mpr covers.1), if_pos covers.2, piece,
          getElem?_pread, if_pos (by have := covers.2; have := covers.1; omega)]
        · congr 1
          have := covers.1
          omega
        · simp only [extend, List.length_append, List.length_replicate]
          omega
      · rcases reached i below with same | ⟨other, member, reaches⟩
        · left
          by_cases empty : write.2 = []
          · rw [empty, pwrite_nil]
            exact same
          · have present : i < file.length := by
              by_contra past
              rw [List.getElem?_eq_none (by omega), List.getElem?_eq_getElem below] at same
              cases same
            rw [getElem?_pwrite i empty fun _ => present]
            split
            · exact same
            · rw [if_neg fun under => covers ⟨by omega, under⟩]
              exact same
        · right
          rcases List.mem_cons.mp member with here | later
          · exact absurd (here ▸ reaches) covers
          · exact ⟨other, later, reaches⟩

end

end Xpn.Lib.ByteFile
