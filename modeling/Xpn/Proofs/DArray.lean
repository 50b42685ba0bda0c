import Xpn.DArray
import Mathlib.Tactic.Linarith

/-! Dynamic arrays against lists. A list is represented by one array only, so the calls that
keep up with the list can be told exactly. -/

namespace Xpn.DArray
open Lib.ByteFile

variable {α : Type}

def block (elements : List α) : List (Cell α) := elements.map .ptr ++ [.null]

@[simp] theorem length_block (elements : List α) : (block elements).length = elements.length + 1 := by
  simp [block]

/-- The array of a list: nothing allocated for the empty one, else its block. -/
def ofList (elements : List α) : Darray α :=
  if elements = [] then .empty else { t := some (block elements), n := elements.length }

theorem ofList_of_ne {elements : List α} (present : elements ≠ []) :
    ofList elements = { t := some (block elements), n := elements.length } := if_neg present

@[simp] theorem ofList_n (elements : List α) : (ofList elements).n = elements.length := by
  unfold ofList
  split
  next empty => rw [empty]; rfl
  · rfl

/-- What an operation does to a list: its return value, the element taken out, the list. -/
def listCall (elements : List α) : Call α → Int × Option α × List α
  | .insEnd gptr granted => if granted then (1, none, elements ++ [gptr]) else (-1, none, elements)
  | .delEnd _ => if elements = [] then (-1, none, []) else (1, elements.getLast?, elements.dropLast)
  | .delBegin _ => if elements = [] then (-1, none, []) else (1, elements.head?, elements.tail)
  | .delN orden _ _ =>
    if 0 ≤ orden ∧ orden < elements.length then (1, elements[orden.toNat]?, elements.eraseIdx orden.toNat)
    else (-1, none, elements)
  | .changeN orden nPtr =>
    if 0 ≤ orden ∧ orden < elements.length then (1, none, elements.set orden.toNat nPtr)
    else (-1, none, elements)

/-- The condition of a call. An allocation may fail while nothing or one element is there. -/
def Allowed (array : Darray α) : Call α → Prop
  | .insEnd _ granted => array.t = none ∨ granted = true
  | .delEnd granted | .delBegin granted => array.n ≤ 1 ∨ granted = true
  | .delN orden beyond granted => array.t = none ∨ array.n < orden
      ∨ 0 ≤ orden ∧ orden < array.n ∧ beyond.isSome ∧ (array.n ≤ 1 ∨ granted = true)
  | .changeN orden _ => array.t = none ∨ array.n < orden ∨ 0 ≤ orden ∧ orden < array.n

/-- Nothing allocated and nothing counted, or the elements and a null pointer in an
allocation of just that size. -/
def Represents (array : Darray α) (elements : List α) : Prop :=
  array.t = none ∧ array.n = 0 ∧ elements = [] ∨ array.t = some (block elements) ∧ array.n = elements.length

theorem represents_ofList (elements : List α) : Represents (ofList elements) elements := by
  by_cases empty : elements = []
  · subst empty
    exact .inl ⟨rfl, rfl, rfl⟩
  · rw [ofList_of_ne empty]
    exact .inr ⟨rfl, rfl⟩

def listOutcome (elements : List α) (call : Call α) : Outcome α :=
  { ret := (listCall elements call).1
    delGPtr := (listCall elements call).2.1.map .ptr
    array := ofList (listCall elements call).2.2 }

/-- A call has kept up with the list. -/
def Answers (array : Darray α) (elements : List α) (call : Call α) (outcome : Outcome α) : Prop :=
  outcome.ret = (listCall elements call).1
    ∧ outcome.delGPtr = (listCall elements call).2.1.map .ptr
    ∧ Represents outcome.array (listCall elements call).2.2
    ∧ (outcome.ret = -1 → outcome.array = array)

theorem listCall_failed {elements : List α} {call : Call α} (failed : (listCall elements call).1 = -1) :
    (listCall elements call).2.2 = elements := by
  cases call with
  | insEnd gptr granted => cases granted <;> simp_all [listCall]
  | delEnd granted | delBegin granted =>
    simp only [listCall] at failed ⊢
    split at failed <;> simp_all
  | delN orden beyond granted | changeN orden nPtr =>
    by_cases inside : 0 ≤ orden ∧ orden < elements.length
    · rw [listCall, if_pos inside] at failed
      contradiction
    · rw [listCall, if_neg inside]

theorem answers_listOutcome (elements : List α) (call : Call α) :
    Answers (ofList elements) elements call (listOutcome elements call) := by
  refine ⟨rfl, rfl, represents_ofList _, fun failed => ?_⟩
  exact congrArg ofList (listCall_failed failed)

theorem read_middle (front back : List (Cell α)) (cell : Cell α) : read
    (front ++ cell :: back) front.length = some cell := by
  simp [read]

theorem write_middle (front back : List (Cell α)) (old cell : Cell α) :
    write (front ++ old :: back) front.length cell = some (front ++ cell :: back) := by
  simp [write]

theorem block_append (front back : List α) : block (front ++ back) = front.map .ptr ++ block back := by
  simp [block]

/-- The array that a deletion leaves. A refusal to shrink loses the block. -/
def shrunk (granted : Bool) (elements : List α) : Darray α :=
  if granted = true ∨ elements = [] then ofList elements else { t := none, n := elements.length }

theorem shrunk_kept {granted : Bool} {elements : List α} (kept : elements.length ≤ 0 ∨ granted = true) :
    shrunk granted elements = ofList elements := by
  apply if_pos
  rcases kept with few | granted
  · exact .inr (List.length_eq_zero_iff.mp (by omega))
  · exact .inl granted

theorem shrunk_lost {granted : Bool} {elements : List α} (lost : ¬ (elements.length ≤ 0 ∨ granted = true)) :
    ¬ Represents (shrunk granted elements) elements := by
  have some_left : elements ≠ [] := fun empty => lost (.inl (by simp [empty]))
  rw [shrunk, if_neg (by simpa [some_left] using fun granted => lost (.inr granted))]
  rintro (⟨-, -, empty⟩ | ⟨impossible, -⟩)
  · exact some_left empty
  · cases impossible

theorem finish (granted : Bool) (elements : List α) (rest : List (Cell α)) {n : Int} (count : n = elements.length) :
    Darray.freeWhenEmpty { t := realloc granted (block elements ++ rest) (n + 1), n } = shrunk granted elements := by
  subst count
  have size : ((elements.length : Int) + 1).toNat = (block elements).length := by
    rw [length_block]
    omega
  have cut : (block elements ++ rest).take ((elements.length : Int) + 1).toNat = block elements := by
    rw [size, List.take_left]
  have enough : ((elements.length : Int) + 1).toNat - (block elements ++ rest).length = 0 := by
    rw [size, List.length_append]
    omega
  unfold Darray.freeWhenEmpty shrunk realloc
  rw [cut, enough, List.replicate_zero, List.append_nil]
  cases elements with
  | nil => simp [ofList, Darray.empty]
  | cons first elements =>
    have counted : ¬ (((first :: elements).length : Nat) : Int) = 0 := by
      rw [List.length_cons]
      omega
    rw [if_neg counted]
    cases granted with
    | true => rw [if_pos rfl, if_pos (.inl rfl), ofList_of_ne (List.cons_ne_nil _ _)]
    | false => rw [if_neg Bool.false_ne_true, if_neg (by simp)]

theorem insEnd_granted (elements : List α) (gptr : α) :
    (ofList elements).insEndDarray gptr true = some ⟨1, none, ofList (elements ++ [gptr])⟩ := by
  by_cases empty : elements = []
  · subst empty
    rfl
  · -- the new block is the old one and an entry of unknown content
    have grown : realloc true (block elements) ((elements.length : Int) + 1 + 1) = some (block elements ++ .junk :: []) := by
      have size : ((elements.length : Int) + 1 + 1).toNat = (block elements).length + 1 := by
        rw [length_block]
        omega
      rw [realloc, if_pos rfl, size, List.take_of_length_le (by omega), Nat.add_sub_cancel_left]
      rfl
    have ended := write_middle (block elements) [] .junk .null
    have stored := write_middle (elements.map .ptr) [.null] .null (.ptr gptr)
    rw [length_block] at ended
    rw [List.length_map] at stored
    rw [ofList_of_ne empty, ofList_of_ne (by simp), Darray.insEndDarray]
    simp only [grown]
    rw [show (elements.length : Int) + 1 = ((elements.length + 1 : Nat) : Int) by omega, ended]
    simp only [Option.bind_eq_bind, Option.bind_some]
    rw [show ((elements.length + 1 : Nat) : Int) - 1 = (elements.length : Int) by omega, block, List.append_assoc,
      List.singleton_append, stored]
    simp [block]

theorem insEnd_refused {elements : List α} (present : elements ≠ []) (gptr : α) :
    (ofList elements).insEndDarray gptr false
      = some ⟨-1, none, { t := some (block elements), n := elements.length + 1 }⟩ := by
  rw [ofList_of_ne present]
  rfl

theorem delEnd_last (elements : List α) (last : α) (granted : Bool) :
    (ofList (elements ++ [last])).delEndDarray granted = some ⟨1, some (.ptr last), shrunk granted elements⟩ := by
  have taken := read_middle (elements.map .ptr) [.null] (.ptr last)
  have ended := write_middle (elements.map .ptr) [.null] (.ptr last) .null
  rw [List.length_map] at taken ended
  have count : (((elements ++ [last]).length : Nat) : Int) - 1 = elements.length := by simp
  rw [ofList_of_ne (by simp), block_append, Darray.delEndDarray]
  simp only
  rw [if_pos (by rw [List.length_append, List.length_singleton]; omega), count]
  simp only [block, List.map_cons, List.map_nil, List.singleton_append, taken, ended, Option.bind_eq_bind,
    Option.bind_some]
  rw [← finish granted elements [.null] rfl]
  simp [block]

theorem delBegin_first (first : α) (elements : List α) (granted : Bool) :
    (ofList (first :: elements)).delBeginDarray granted = some ⟨1, some (.ptr first), shrunk granted elements⟩ := by
  -- the last two entries stay where they are; one of them is overwritten at once
  obtain ⟨init, last, split⟩ : ∃ init last, first :: elements = init ++ [last] :=
    ⟨_, _, (List.dropLast_append_getLast (List.cons_ne_nil _ _)).symm⟩
  have sizes : init.length = elements.length := by
    have total := congrArg List.length split
    simp only [List.length_cons, List.length_append, List.length_nil] at total
    omega
  have kept : (block (first :: elements)).drop elements.length = [.ptr last, .null] := by
    rw [split, block_append, ← sizes, List.drop_left' (List.length_map _)]
    rfl
  have moved : memmove (block (first :: elements)) [] 0 1 elements.length
      = some (elements.map .ptr ++ [.ptr last, .null]) := by
    rw [memmove, if_pos (by simp; omega), overwrite, List.append_nil]
    have source : ((block (first :: elements)).drop (1 : Int).toNat).take ((elements.length : Nat) : Int).toNat
        = elements.map .ptr := by
      rw [Int.toNat_natCast]
      exact List.take_left' (List.length_map _)
    rw [source, List.length_map]
    simp only [Int.toNat_zero, List.take_zero, Nat.zero_add, List.nil_append, kept]
  have ended := write_middle (elements.map .ptr) [.null] (.ptr last) .null
  rw [List.length_map] at ended
  have count : (((first :: elements).length : Nat) : Int) - 1 = elements.length := by simp
  rw [ofList_of_ne (List.cons_ne_nil _ _), Darray.delBeginDarray]
  simp only
  rw [if_pos (by rw [List.length_cons]; omega), count]
  have taken : read (block (first :: elements)) 0 = some (.ptr first) := rfl
  simp only [taken, moved, ended, Option.bind_eq_bind, Option.bind_some]
  rw [← finish granted elements [.null] rfl]
  simp [block]

theorem delN_middle (front back : List α) (element : α) (cell : Cell α) (granted : Bool) :
    (ofList (front ++ element :: back)).delNFromDarray front.length (some cell) granted
      = some ⟨1, some (.ptr element), shrunk granted (front ++ back)⟩ := by
  have taken := read_middle (front.map .ptr) (block back) (.ptr element)
  rw [List.length_map] at taken
  have shape : block (front ++ element :: back) = front.map .ptr ++ .ptr element :: block back := block_append _ _
  have moved : memmove (block (front ++ element :: back)) [cell] front.length (front.length + 1) (back.length + 2)
      = some (block (front ++ back) ++ [cell]) := by
    have bounds : (0 : Int) ≤ front.length ∧ (0 : Int) ≤ front.length + 1 ∧ (0 : Int) ≤ back.length + 2
        ∧ (front.length : Int) + (back.length + 2) ≤ (block (front ++ element :: back)).length
        ∧ (front.length : Int) + 1 + (back.length + 2) ≤ (block (front ++ element :: back) ++ [cell]).length := by
      simp only [length_block, List.length_append, List.length_cons, List.length_nil]
      omega
    have source : ((block (front ++ element :: back) ++ [cell]).drop ((front.length : Int) + 1).toNat).take
        ((back.length : Int) + 2).toNat = block back ++ [cell] := by
      rw [show ((front.length : Int) + 1).toNat = (front.map Cell.ptr ++ [Cell.ptr element]).length by simp,
        show block (front ++ element :: back) ++ [cell]
          = (front.map Cell.ptr ++ [Cell.ptr element]) ++ (block back ++ [cell]) by
          simp [shape],
        List.drop_left,
        List.take_of_length_le (by rw [List.length_append, length_block, List.length_singleton]; omega)]
    rw [memmove, if_pos bounds, source, overwrite, Int.toNat_natCast, shape, List.take_left' (List.length_map _),
      List.drop_eq_nil_of_le (by simp), block_append]
    simp
  have count : (((front ++ element :: back).length : Nat) : Int) - 1 = (front ++ back).length := by
    simp only [List.length_append, List.length_cons]
    omega
  have span : (((front ++ element :: back).length : Nat) : Int) - front.length + 1 = back.length + 2 := by
    simp only [List.length_append, List.length_cons]
    omega
  rw [ofList_of_ne (by simp), Darray.delNFromDarray]
  simp only
  rw [if_neg (by simp only [List.length_append, List.length_cons]; omega),
    if_pos (by simp only [List.length_append, List.length_cons]; omega), span, count, shape, taken, ← shape]
  simp only [Option.toList_some, moved, Option.bind_eq_bind, Option.bind_some]
  rw [finish granted (front ++ back) [cell] rfl]

theorem changeN_middle (front back : List α) (element nPtr : α) :
    (ofList (front ++ element :: back)).changeNFromDarray front.length nPtr
      = some ⟨1, none, ofList (front ++ nPtr :: back)⟩ := by
  have stored := write_middle (front.map .ptr) (block back) (.ptr element) (.ptr nPtr)
  rw [List.length_map] at stored
  rw [ofList_of_ne (by simp), ofList_of_ne (by simp), Darray.changeNFromDarray, block_append, block_append]
  simp only
  rw [if_neg (by simp only [List.length_append, List.length_cons]; omega)]
  have shape (value : α) : block (value :: back) = .ptr value :: block back := rfl
  simp only [shape, stored, Option.bind_eq_bind, Option.bind_some, List.length_append, List.length_cons]

theorem split_at {elements : List α} {orden : Int} (low : 0 ≤ orden) (below : orden < elements.length) :
    ∃ front element back, elements = front ++ element :: back ∧ orden = ((front.length : Nat) : Int) := by
  have inside : orden.toNat < elements.length := by omega
  refine ⟨elements.take orden.toNat, elements[orden.toNat], elements.drop (orden.toNat + 1), ?_, ?_⟩
  · rw [← List.drop_eq_getElem_cons inside, List.take_append_drop]
  · rw [List.length_take]
    omega

theorem ofList_t_none {elements : List α} : (ofList elements).t = none ↔ elements = [] := by
  constructor
  · intro nothing
    by_contra present
    rw [ofList_of_ne present] at nothing
    cases nothing
  · rintro rfl
    rfl

/-- A position beyond the end is refused, and so is any position of an empty array. -/
theorem listCall_beyond {elements : List α} {orden : Int}
    (beyond : (ofList elements).t = none ∨ (ofList elements).n < orden) : ¬
    (0 ≤ orden ∧ orden < elements.length) := by
  rw [ofList_t_none, ofList_n] at beyond
  rintro ⟨low, below⟩
  rcases beyond with rfl | beyond
  · exact absurd below (by simp; omega)
  · omega

theorem delN_beyond {elements : List α} {orden : Int}
    (outside : (ofList elements).t = none ∨ (ofList elements).n < orden)
    (beyond : Option (Cell α)) (granted : Bool) :
    (ofList elements).delNFromDarray orden beyond granted = some ⟨-1, none, ofList elements⟩ := by
  cases held : (ofList elements).t with
  | none => simp only [Darray.delNFromDarray, held]
  | some t =>
    have after : (ofList elements).n < orden := outside.resolve_left (by rw [held]; exact Option.some_ne_none t)
    simp only [Darray.delNFromDarray, held, if_pos after]

theorem changeN_beyond {elements : List α} {orden : Int}
    (outside : (ofList elements).t = none ∨ (ofList elements).n < orden)
    (nPtr : α) : (ofList elements).changeNFromDarray orden nPtr = some ⟨-1, none, ofList elements⟩ := by
  cases held : (ofList elements).t with
  | none => simp only [Darray.changeNFromDarray, held]
  | some t =>
    have after : (ofList elements).n < orden := outside.resolve_left (by rw [held]; exact Option.some_ne_none t)
    simp only [Darray.changeNFromDarray, held, if_pos after]

/-- A call that may be made has the outcome of the operation on the list; any other does
something that no list accounts for. -/
def Decided (elements : List α) (call : Call α) : Prop :=
  Allowed (ofList elements) call ∧ (ofList elements).call call = some (listOutcome elements call)
    ∨ ¬ Allowed (ofList elements) call
      ∧ ∀ outcome, (ofList elements).call call = some outcome → ¬ Answers (ofList elements) elements call outcome

theorem decided_done (elements : List α) (call : Call α) {outcome : Outcome α}
    (done : (ofList elements).call call = some outcome) (listed : outcome = listOutcome elements call)
    (allowed : Allowed (ofList elements) call) : Decided elements call := by
  subst listed
  exact .inl ⟨allowed, done⟩

theorem decided_wrong (elements : List α) (call : Call α)
    (wrong : ∀ outcome, (ofList elements).call call = some outcome → ¬ Answers (ofList elements) elements call outcome)
    (refused : ¬ Allowed (ofList elements) call) : Decided elements call := .inr ⟨refused, wrong⟩

/-- A deletion, on a list that has the element. -/
theorem decided_deletion (elements : List α) {rest : List α} (call : Call α) {value : α} {granted : Bool}
    (done : (ofList elements).call call = some ⟨1, some (.ptr value), shrunk granted rest⟩)
    (listed : listCall elements call = (1, some value, rest))
    (condition : Allowed (ofList elements) call ↔ rest.length ≤ 0 ∨ granted = true) : Decided elements call := by
  by_cases kept : rest.length ≤ 0 ∨ granted = true
  · rw [shrunk_kept kept] at done
    apply decided_done elements call done
    · rw [listOutcome, listed]
      rfl
    · exact condition.mpr kept
  · apply decided_wrong
    · rintro outcome taken ⟨-, -, represents, -⟩
      rw [done] at taken
      cases taken
      rw [listed] at represents
      exact shrunk_lost kept represents
    · exact fun allowed => kept (condition.mp allowed)

theorem delN_ret {array : Darray α} {orden : Int} {beyond : Option (Cell α)} {granted : Bool} {outcome : Outcome α}
    (accepted : ¬ (array.t = none ∨ array.n < orden))
    (done : array.delNFromDarray orden beyond granted = some outcome) :
    outcome.ret = 1 := by
  rw [not_or] at accepted
  obtain ⟨t, held⟩ := Option.ne_none_iff_exists'.mp accepted.1
  rw [Darray.delNFromDarray, held] at done
  simp only [if_neg accepted.2] at done
  split at done
  · obtain ⟨cell, -, done⟩ := Option.bind_eq_some_iff.mp done
    obtain ⟨moved, -, done⟩ := Option.bind_eq_some_iff.mp done
    cases done
    rfl
  · cases done
    rfl

theorem changeN_ret {array : Darray α} {orden : Int} {nPtr : α} {outcome : Outcome α}
    (accepted : ¬ (array.t = none ∨ array.n < orden)) (done : array.changeNFromDarray orden nPtr = some outcome) :
    outcome.ret = 1 := by
  rw [not_or] at accepted
  obtain ⟨t, held⟩ := Option.ne_none_iff_exists'.mp accepted.1
  rw [Darray.changeNFromDarray, held] at done
  simp only [if_neg accepted.2] at done
  obtain ⟨cells, -, done⟩ := Option.bind_eq_some_iff.mp done
  cases done
  rfl

/-- Where nothing behind the allocation can be read, the move fails. -/
theorem delN_faults (front back : List α) (element : α) (granted : Bool) :
    (ofList (front ++ element :: back)).delNFromDarray front.length none granted = none := by
  have stuck : memmove (block (front ++ element :: back)) [] front.length (front.length + 1)
      (((front ++ element :: back).length : Int) - front.length + 1) = none := by
    rw [memmove, if_neg]
    simp only [length_block, List.length_append, List.length_cons, List.length_nil]
    omega
  rw [ofList_of_ne (by simp), Darray.delNFromDarray]
  simp only
  rw [if_neg (by simp only [List.length_append, List.length_cons]; omega),
    if_pos (by simp only [List.length_append, List.length_cons]; omega)]
  simp only [Option.toList_none, stuck, Option.bind_eq_bind, Option.bind_none, Option.bind_fun_none]

section
variable (elements : List α)

theorem insEnd_decided (gptr : α) (granted : Bool) : Decided elements (.insEnd gptr granted) := by
  cases granted with
  | true => exact decided_done _ (.insEnd gptr true) (insEnd_granted elements gptr) rfl (.inr rfl)
  | false =>
    by_cases empty : elements = []
    · subst empty
      exact decided_done [] (.insEnd gptr false) rfl rfl (.inl rfl)
    · apply decided_wrong
      · rintro outcome taken ⟨-, -, represents, -⟩
        rw [Darray.call, insEnd_refused empty] at taken
        cases taken
        -- the count is one too high
        rcases represents with ⟨impossible, -⟩ | ⟨-, count⟩
        · cases impossible
        · exact absurd count (by simp [listCall])
      · rintro (nothing | impossible)
        · exact empty (ofList_t_none.mp nothing)
        · contradiction

theorem delEnd_decided (granted : Bool) : Decided elements (.delEnd granted) := by
  rcases List.eq_nil_or_concat' elements with rfl | ⟨init, last, rfl⟩
  · exact decided_done [] (.delEnd granted) rfl rfl (.inl zero_le_one)
  · apply decided_deletion _ (.delEnd granted) (delEnd_last init last granted)
    · simp [listCall]
    · simp [Allowed]

theorem delBegin_decided (granted : Bool) : Decided elements (.delBegin granted) := by
  cases elements with
  | nil => exact decided_done [] (.delBegin granted) rfl rfl (.inl zero_le_one)
  | cons first elements =>
    apply decided_deletion (first :: elements) (.delBegin granted) (delBegin_first first elements granted) rfl
    simp [Allowed]

theorem delN_decided (orden : Int) (beyond : Option (Cell α)) (granted : Bool) :
    Decided elements (.delN orden beyond granted) := by
  by_cases outside : (ofList elements).t = none ∨ (ofList elements).n < orden
  · have refused := listCall_beyond outside
    apply decided_done _ (.delN orden beyond granted) (delN_beyond outside beyond granted)
    · rw [listOutcome, listCall, if_neg refused]
      rfl
    · exact outside.imp_right .inl
  by_cases inside : 0 ≤ orden ∧ orden < elements.length
  · obtain ⟨front, element, back, rfl, rfl⟩ := split_at inside.1 inside.2
    cases beyond with
    | some cell =>
      apply decided_deletion _ (.delN front.length (some cell) granted) (delN_middle front back element cell granted)
      · rw [listCall, if_pos inside]
        simp [List.eraseIdx_append_of_length_le]
      · have count : (ofList (front ++ element :: back)).n = (front ++ back).length + 1 := by
          rw [ofList_n]
          simp only [List.length_append, List.length_cons]
          omega
        rw [← ofList_n (front ++ element :: back)] at inside
        constructor
        · rintro (nothing | after | ⟨-, -, -, kept⟩)
          · exact absurd (.inl nothing) outside
          · exact absurd (.inr after) outside
          · exact kept.imp_left fun few => by omega
        · intro kept
          exact .inr (.inr ⟨inside.1, inside.2, rfl, kept.imp_left fun few => by omega⟩)
    | none =>
      apply decided_wrong
      · intro outcome taken
        rw [Darray.call, delN_faults] at taken
        contradiction
      · rintro (nothing | after | ⟨-, -, readable, -⟩)
        · exact outside (.inl nothing)
        · exact outside (.inr after)
        · contradiction
  · apply decided_wrong
    · rintro outcome taken ⟨ret, -⟩
      rw [delN_ret outside taken, listCall, if_neg inside] at ret
      contradiction
    · rintro (nothing | after | ⟨low, below, -⟩)
      · exact outside (.inl nothing)
      · exact outside (.inr after)
      · rw [ofList_n] at below
        exact inside ⟨low, below⟩

theorem changeN_decided (orden : Int) (nPtr : α) : Decided elements (.changeN orden nPtr) := by
  by_cases outside : (ofList elements).t = none ∨ (ofList elements).n < orden
  · have refused := listCall_beyond outside
    apply decided_done _ (.changeN orden nPtr) (changeN_beyond outside nPtr)
    · rw [listOutcome, listCall, if_neg refused]
      rfl
    · exact outside.imp_right .inl
  by_cases inside : 0 ≤ orden ∧ orden < elements.length
  · obtain ⟨front, element, back, rfl, rfl⟩ := split_at inside.1 inside.2
    apply decided_done _ (.changeN front.length nPtr) (changeN_middle front back element nPtr)
    · rw [listOutcome, listCall, if_pos inside]
      simp
    · rw [← ofList_n (front ++ element :: back)] at inside
      exact .inr (.inr inside)
  · apply decided_wrong
    · rintro outcome taken ⟨ret, -⟩
      rw [changeN_ret outside taken, listCall, if_neg inside] at ret
      contradiction
    · rintro (nothing | after | within)
      · exact outside (.inl nothing)
      · exact outside (.inr after)
      · rw [ofList_n] at within
        exact inside within

theorem call_decided (call : Call α) : Decided elements call := by
  cases call with
  | insEnd gptr granted => exact insEnd_decided elements gptr granted
  | delEnd granted => exact delEnd_decided elements granted
  | delBegin granted => exact delBegin_decided elements granted
  | delN orden beyond granted => exact delN_decided elements orden beyond granted
  | changeN orden nPtr => exact changeN_decided elements orden nPtr

end

/-- After every call of a run the array holds the list, and what the call returned is what the
list operation returns. -/
def Follows : Darray α → List α → List (Call α) → Prop
  | array, elements, [] => Represents array elements
  | array, elements, call :: calls => Represents array elements
      ∧ ∃ outcome, array.call call = some outcome ∧ Answers array elements call outcome
        ∧ Follows outcome.array (listCall elements call).2.2 calls

/-- Every call of a run meets its condition in the state that it finds. -/
def AllAllowed : Darray α → List (Call α) → Prop
  | _, [] => True
  | array, call :: calls => Allowed array call
      ∧ ∀ outcome, array.call call = some outcome → AllAllowed outcome.array calls

theorem follows_iff (calls : List (Call α)) (elements : List α) :
    Follows (ofList elements) elements calls ↔ AllAllowed (ofList elements) calls := by
  induction calls generalizing elements with
  | nil => exact iff_of_true (represents_ofList elements) trivial
  | cons call calls ih =>
    rcases call_decided elements call with ⟨allowed, done⟩ | ⟨refused, wrong⟩
    · have same : Follows (ofList elements) elements (call :: calls)
          ↔ Follows (listOutcome elements call).array (listCall elements call).2.2 calls := by
        constructor
        · rintro ⟨-, outcome, taken, -, rest⟩
          rw [done] at taken
          cases taken
          exact rest
        · exact fun rest => ⟨represents_ofList elements, _, done, answers_listOutcome elements call, rest⟩
      refine (same.trans (ih _)).trans ⟨?_, fun both => both.2 _ done⟩
      intro rest
      refine ⟨allowed, fun outcome taken => ?_⟩
      rw [done] at taken
      cases taken
      exact rest
    · apply iff_of_false
      · rintro ⟨-, outcome, taken, answers, -⟩
        exact wrong outcome taken answers
      · exact fun both => refused both.1

theorem darray_follows_list_iff (calls : List (Call α)) :
    Follows Darray.empty [] calls ↔ AllAllowed Darray.empty calls :=
  follows_iff calls []

/-- An array of one element that cannot grow counts two. -/
theorem darray_loses_count : ¬ ∀ calls : List (Call Nat), Follows Darray.empty [] calls := by
  intro claimed
  have allowed := (follows_iff _ []).mp (claimed [.insEnd 5 true, .insEnd 6 false])
  rcases (allowed.2 _ rfl).1 with impossible | impossible
  · cases impossible
  · cases impossible

end Xpn.DArray
