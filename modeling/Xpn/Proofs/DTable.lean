import Xpn.DTable
import Xpn.Lib.FreeList
import Xpn.Lib.Runs
import Xpn.Proofs.Messages
import Xpn.Proofs.Positions

/-! Descriptors of a dynamic table over runs. They stay apart as long as only live ones are
deleted: a second deletion of an entry makes the free list a circle. -/

namespace Xpn.DTable
open Lib.FreeList Lib.Runs
open Xpn.Proofs.Messages (toCInt_of_small)

variable {ι : Type}

/-- What a call may be about. An `int` names an entry among the first 2³¹. -/
def Allowed (history : History ι) : Call ι → Prop
  | .insert none => True
  | .insert (some _) => history.table.freeList ≠ -1 ∨ history.table.neltos < 2 ^ 31
  | .get fd => 0 ≤ fd
  | .delete fd => (history.live fd).isSome ∨ history.table.neltos ≤ fd

/-- The link of an entry. -/
def links (dt : DTable ι) (i : Nat) : Int := (dt.dtable[i]?.map DtElto.nextFree).getD (-1)

/-- The free list has no circle and consists of the entries that are not live. -/
def FreeListExact (history : History ι) : Prop :=
  ∃ path : List Nat, Threads (links history.table) history.table.freeList path ∧ path.Nodup
    ∧ ∀ i : Nat, i ∈ path ↔ (i : Int) < history.table.neltos ∧ history.live i = none

structure Sound (history : History ι) : Prop where
  counted : history.table.neltos = history.table.dtable.length
  small : history.table.dtable.length ≤ 2 ^ 31
  named : ∀ (i : Nat) elto, history.table.dtable[i]? = some elto → elto.myself = i
  held : ∀ fd info, history.live fd = some info →
    0 ≤ fd ∧ ∃ elto, history.table.dtable[fd.toNat]? = some elto ∧ elto.dtInfo = info
  free : FreeListExact history

theorem sound_start : Sound (History.start : History ι) where
  counted := rfl
  small := Nat.zero_le _
  named := fun _ _ impossible => by cases impossible
  held := fun _ _ impossible => by cases impossible
  free := by
    refine ⟨[], rfl, List.nodup_nil, fun i => ?_⟩
    constructor
    · intro impossible
      cases impossible
    · rintro ⟨below, -⟩
      exact absurd below (by simp [History.start, DTable.empty])

theorem getElto_natCast (dt : DTable ι) (i : Nat) : dt.getElto i = dt.dtable[i]? := by
  rw [DTable.getElto, if_neg (by omega), Int.toNat_natCast]

def changed (dt : DTable ι) (i : Nat) (elto : DtElto ι) (freeList : Int) : DTable ι :=
  { dt with dtable := dt.dtable.set i elto, freeList }

def extended (dt : DTable ι) (info : ι) : DTable ι :=
  { dt with
    dtable := dt.dtable ++ [{ dtInfo := info, nextFree := -1, myself := dt.neltos }]
    neltos := dt.neltos + 1 }

theorem links_changed {dt : DTable ι} {i : Nat} (inside : i < dt.dtable.length) (elto : DtElto ι) (freeList : Int) :
    links (changed dt i elto freeList) = Function.update (links dt) i elto.nextFree := by
  funext j
  unfold links changed
  by_cases same : j = i
  · subst same
    rw [List.getElem?_set_self inside, Function.update_self]
    rfl
  · rw [List.getElem?_set_ne (Ne.symm same), Function.update_of_ne same]

theorem links_extended (dt : DTable ι) (info : ι) : links (extended dt info) = links dt := by
  funext j
  unfold links extended
  rcases Nat.lt_trichotomy j dt.dtable.length with old | rfl | beyond
  · rw [List.getElem?_append_left old]
  · rw [List.getElem?_concat_length, List.getElem?_eq_none le_rfl]
    rfl
  · rw [List.getElem?_append_right beyond.le, List.getElem?_eq_none (by simp; omega), List.getElem?_eq_none beyond.le]

/-! What the calls do to the entry they are about. -/

theorem insert_full {dt : DTable ι} (full : dt.freeList = -1) (low : 0 ≤ dt.neltos) (room : dt.neltos < 2 ^ 31)
    (info : ι) : dt.insert (some info) = some (dt.neltos, extended dt info) := by
  have index : toCInt (dt.neltos + 1 - 1) = dt.neltos := by
    rw [add_sub_cancel_right]
    exact toCInt_of_small (by omega) room
  simp only [DTable.insert, if_pos full, index, extended]

theorem insert_reuse {dt : DTable ι} {i : Nat} (head : dt.freeList = i) {elto : DtElto ι}
    (present : dt.dtable[i]? = some elto) (info : ι) :
    dt.insert (some info)
      = some (elto.myself, changed dt i { elto with dtInfo := info, nextFree := -1 } elto.nextFree) := by
  rw [DTable.insert, if_neg (by omega), head, getElto_natCast, present]
  rfl

theorem delete_entry {dt : DTable ι} {i : Nat} (below : (i : Int) < dt.neltos) {elto : DtElto ι}
    (present : dt.dtable[i]? = some elto) :
    dt.delete i = some (1, changed dt i { elto with nextFree := toCInt dt.freeList } elto.myself) := by
  rw [DTable.delete, if_neg (by omega), getElto_natCast, present]
  rfl

variable {history : History ι}

namespace Sound

theorem entry (sound : Sound history) {fd : Int} (low : 0 ≤ fd) (below : fd < history.table.neltos) :
    ∃ i elto, fd = ((i : Nat) : Int) ∧ i < history.table.dtable.length ∧ history.table.dtable[i]? = some elto
      ∧ elto.myself = i := by
  have inside : fd.toNat < history.table.dtable.length := by
    have counted := sound.counted
    omega
  have present := List.getElem?_eq_getElem inside
  exact ⟨fd.toNat, _, by omega, inside, present, sound.named _ _ present⟩

theorem live_below (sound : Sound history) {fd : Int} {info : ι} (holds : history.live fd = some info) :
    0 ≤ fd ∧ fd < history.table.neltos := by
  obtain ⟨low, elto, present, -⟩ := sound.held fd info holds
  have inside := (List.getElem?_eq_some_iff.mp present).1
  have counted := sound.counted
  omega

/-- Free entries lie in the table and their indices fit an `int`. -/
theorem head_int (sound : Sound history) : toCInt history.table.freeList = history.table.freeList := by
  obtain ⟨path, threads, -, members⟩ := sound.free
  cases path with
  | nil => rw [show history.table.freeList = -1 from threads, toCInt_of_small (by decide) (by decide)]
  | cons i rest =>
    have inside := ((members i).mp List.mem_cons_self).1
    have small := sound.small
    rw [sound.counted] at inside
    rw [threads.1, toCInt_of_small (by omega) (by omega)]

/-- An entry may get other information and another link; the free list is looked at apart. -/
theorem change (sound : Sound history) {i : Nat} {elto other : DtElto ι}
    (present : history.table.dtable[i]? = some elto) (name : other.myself = elto.myself) {now : Option ι}
    (info : ∀ x, now = some x → other.dtInfo = x) {freeList : Int}
    (free : FreeListExact
      { table := changed history.table i other freeList, live := Function.update history.live i now }) :
    Sound { table := changed history.table i other freeList, live := Function.update history.live i now } := by
  have inside := (List.getElem?_eq_some_iff.mp present).1
  have length : (history.table.dtable.set i other).length = history.table.dtable.length := List.length_set
  refine ⟨sound.counted.trans (congrArg _ length.symm), length.le.trans sound.small, ?_, ?_, free⟩
  · intro j entry (found : (history.table.dtable.set i other)[j]? = some entry)
    by_cases same : j = i
    · subst same
      rw [List.getElem?_set_self inside] at found
      cases found
      exact name.trans (sound.named j elto present)
    · rw [List.getElem?_set_ne (Ne.symm same)] at found
      exact sound.named j entry found
  · intro fd x (holds : Function.update history.live i now fd = some x)
    by_cases same : fd = i
    · subst same
      rw [Function.update_self] at holds
      exact ⟨by omega, other, List.getElem?_set_self inside, info x holds⟩
    · rw [Function.update_of_ne same] at holds
      obtain ⟨low, entry, found, stored⟩ := sound.held fd x holds
      exact ⟨low, entry, (List.getElem?_set_ne (by omega)).trans found, stored⟩

theorem extend (sound : Sound history) (full : history.table.freeList = -1)
    (room : history.table.neltos < 2 ^ 31) (info : ι) :
    Sound { table := extended history.table info,
            live := Function.update history.live history.table.neltos (some info) } := by
  have counted := sound.counted
  obtain ⟨path, threads, -, members⟩ := sound.free
  have nothing : path = [] := threads.nil_iff.mpr full
  subst nothing
  have length : (extended history.table info).dtable.length = history.table.dtable.length + 1 :=
    List.length_append
  refine ⟨?_, by rw [length]; omega, ?_, ?_, [], ?_, List.nodup_nil, ?_⟩
  · rw [length]
    change history.table.neltos + 1 = _
    omega
  · intro i elto (present : (history.table.dtable ++ [_])[i]? = some elto)
    rcases Nat.lt_or_ge i history.table.dtable.length with old | new
    · rw [List.getElem?_append_left old] at present
      exact sound.named i elto present
    · have inside := (List.getElem?_eq_some_iff.mp present).1
      rw [List.length_append, List.length_singleton] at inside
      obtain rfl : i = history.table.dtable.length := by omega
      rw [List.getElem?_concat_length] at present
      cases present
      exact counted
  · intro fd x (holds : Function.update history.live _ _ fd = some x)
    by_cases same : fd = history.table.neltos
    · subst same
      rw [Function.update_self] at holds
      cases holds
      have index : history.table.neltos.toNat = history.table.dtable.length := by omega
      have last := congrArg (fun i => (extended history.table info).dtable[i]?) index
      exact ⟨by omega, _, last.trans List.getElem?_concat_length, rfl⟩
    · rw [Function.update_of_ne same] at holds
      obtain ⟨low, elto, present, stored⟩ := sound.held fd x holds
      have inside := (List.getElem?_eq_some_iff.mp present).1
      exact ⟨low, elto, (List.getElem?_append_left inside).trans present, stored⟩
  · rw [links_extended]
    exact full
  · intro i
    constructor
    · intro impossible
      cases impossible
    · rintro ⟨(below : (i : Int) < history.table.neltos + 1), (unused : Function.update history.live _ _ _ = none)⟩
      by_cases same : (i : Int) = history.table.neltos
      · rw [same, Function.update_self] at unused
        contradiction
      · rw [Function.update_of_ne same] at unused
        exact (members i).mpr ⟨by omega, unused⟩

theorem insert_new (sound : Sound history) (full : history.table.freeList = -1)
    (room : history.table.neltos < 2 ^ 31) (info : ι) :
    ∃ table, history.table.insert (some info) = some (history.table.neltos, table)
      ∧ Sound { table, live := Function.update history.live history.table.neltos (some info) } := by
  have counted := sound.counted
  exact ⟨_, insert_full full (by omega) room info, sound.extend full room info⟩

theorem insert_free (sound : Sound history) (some_free : history.table.freeList ≠ -1) (info : ι) :
    ∃ table, history.table.insert (some info) = some (history.table.freeList, table)
      ∧ history.live history.table.freeList = none
      ∧ Sound { table, live := Function.update history.live history.table.freeList (some info) } := by
  obtain ⟨path, threads, simple, members⟩ := sound.free
  obtain ⟨i, rest, rfl, head, outside, popped⟩ := threads.pop simple some_free (-1)
  obtain ⟨below, unused⟩ := (members i).mp List.mem_cons_self
  obtain ⟨j, elto, same, inside, present, name⟩ := sound.entry (Int.natCast_nonneg i) below
  obtain rfl : i = j := by omega
  have link : links history.table i = elto.nextFree := by rw [links, present]; rfl
  rw [head]
  refine ⟨_, (insert_reuse head present info).trans (by rw [name]), unused,
    sound.change present ?_ ?_ ⟨rest, ?_, (List.nodup_cons.mp simple).2, ?_⟩⟩
  · exact name.symm
  · intro x same
    cases same
    rfl
  · rw [links_changed inside]
    rw [link] at popped
    exact popped
  · intro k
    by_cases same : k = i
    · subst same
      simp only [Function.update_self]
      exact ⟨fun member => absurd member outside, fun both => absurd both.2 (Option.some_ne_none _)⟩
    · have apart : (k : Int) ≠ i := by omega
      have member := members k
      rw [List.mem_cons, or_iff_right same] at member
      simp only [Function.update_of_ne apart]
      exact member

theorem delete_live (sound : Sound history) {fd : Int} {info : ι} (holds : history.live fd = some info) :
    ∃ table, history.table.delete fd = some (1, table)
      ∧ Sound { table, live := Function.update history.live fd none } := by
  obtain ⟨low, below⟩ := sound.live_below holds
  obtain ⟨i, elto, rfl, inside, present, name⟩ := sound.entry low below
  obtain ⟨path, threads, simple, members⟩ := sound.free
  have outside : i ∉ path := by
    intro member
    rw [((members i).mp member).2] at holds
    contradiction
  refine ⟨_, delete_entry below present,
    sound.change present ?_ ?_ ⟨i :: path, ?_, List.nodup_cons.mpr ⟨outside, simple⟩, ?_⟩⟩
  · rfl
  · intro x impossible
    cases impossible
  · rw [links_changed inside, sound.head_int, name]
    exact threads.push outside
  · intro k
    by_cases same : k = i
    · subst same
      simp only [Function.update_self, List.mem_cons, true_or, true_iff, and_true]
      exact below
    · have apart : (k : Int) ≠ i := by omega
      rw [List.mem_cons, or_iff_right same]
      simp only [Function.update_of_ne apart]
      exact members k

theorem get_live (sound : Sound history) {fd : Int} {info : ι} (holds : history.live fd = some info) :
    history.table.get fd = some (some info) := by
  obtain ⟨low, below⟩ := sound.live_below holds
  obtain ⟨-, elto, present, rfl⟩ := sound.held fd info holds
  rw [DTable.get, if_neg (by omega), DTable.getElto, if_neg (by omega), present]
  rfl

theorem not_live (sound : Sound history) {fd : Int} (beyond : history.table.neltos ≤ fd) :
    history.live fd = none := by
  by_contra taken
  obtain ⟨info, holds⟩ := Option.ne_none_iff_exists'.mp taken
  have below := (sound.live_below holds).2
  omega

end Sound

/-- What a call has to answer. -/
def Right (history : History ι) : Call ι → Prop
  | .insert none => history.table.insert none = some (-1, history.table)
  | .insert (some info) => ∃ fd table, history.table.insert (some info) = some (fd, table)
      ∧ 0 ≤ fd ∧ history.live fd = none
  | .get fd => ∀ info, history.live fd = some info → history.table.get fd = some (some info)
  | .delete fd => history.live fd = none → history.table.delete fd = some (-1, history.table)

theorem Sound.right (sound : Sound history) {call : Call ι} (allowed : Allowed history call) :
    Right history call := by
  cases call with
  | insert info =>
    cases info with
    | none => rfl
    | some info =>
      by_cases full : history.table.freeList = -1
      · obtain ⟨table, inserted, -⟩ := sound.insert_new full (allowed.resolve_left (fun other => other full)) info
        have counted := sound.counted
        exact ⟨_, table, inserted, by omega, sound.not_live le_rfl⟩
      · obtain ⟨table, inserted, unused, after⟩ := sound.insert_free full info
        have low := (after.held _ info (Function.update_self _ _ _)).1
        exact ⟨_, table, inserted, low, unused⟩
  | get fd => exact fun info holds => sound.get_live holds
  | delete fd =>
    intro unused
    have beyond : history.table.neltos ≤ fd := allowed.resolve_left (by rw [unused]; simp)
    rw [DTable.delete, if_pos beyond]

theorem Sound.step (sound : Sound history) {call : Call ι} (allowed : Allowed history call) :
    ∃ after, history.step call = some after ∧ Sound after := by
  cases call with
  | insert info =>
    cases info with
    | none => exact ⟨history, rfl, sound⟩
    | some info =>
      by_cases full : history.table.freeList = -1
      · obtain ⟨table, inserted, after⟩ := sound.insert_new full (allowed.resolve_left (fun other => other full)) info
        exact ⟨_, by rw [History.step, inserted]; rfl, after⟩
      · obtain ⟨table, inserted, -, after⟩ := sound.insert_free full info
        exact ⟨_, by rw [History.step, inserted]; rfl, after⟩
  | get fd =>
    refine ⟨history, ?_, sound⟩
    by_cases beyond : history.table.neltos ≤ fd
    · rw [History.step, DTable.get, if_pos beyond]
      rfl
    · obtain ⟨i, elto, rfl, -, present, -⟩ := sound.entry allowed (not_le.mp beyond)
      rw [History.step, DTable.get, if_neg beyond, getElto_natCast, present]
      rfl
  | delete fd =>
    by_cases beyond : history.table.neltos ≤ fd
    · refine ⟨history, ?_, sound⟩
      rw [History.step, DTable.delete, if_pos beyond]
      simp only [Option.bind_eq_bind, Option.bind_some]
      rw [← sound.not_live beyond, Function.update_eq_self]
    · obtain ⟨info, holds⟩ := Option.isSome_iff_exists.mp (allowed.resolve_right beyond)
      obtain ⟨table, deleted, after⟩ := sound.delete_live holds
      exact ⟨_, by rw [History.step, deleted]; rfl, after⟩

def Run : History ι → Prop :=
  Reachable (fun before call after => before.step call = some after) Allowed History.start

theorem Run.sound (run : Run history) : Sound history :=
  Reachable.invariant Sound sound_start (fun before call after sound allowed taken => by
    obtain ⟨next, reached, kept⟩ := sound.step allowed
    rw [reached] at taken
    cases taken
    exact kept) run

/-- Every call that may come next can be made and is answered as it should be. -/
theorem descriptors_unique (run : Run history) :
    FreeListExact history ∧ ∀ call, Allowed history call → Right history call ∧ ∃ after, history.step call = some after := by
  have sound := run.sound
  refine ⟨sound.free, fun call allowed => ⟨sound.right allowed, ?_⟩⟩
  obtain ⟨after, taken, -⟩ := sound.step allowed
  exact ⟨after, taken⟩

/-- The first descriptor is deleted and returned again; the second one keeps what was inserted under it. -/
theorem descriptors_unique_once : ∃ history : History Nat, FreeListExact history ∧ history.live 0 = some 9 ∧
    history.table.get 1 = some (some 8) := by
  let calls : List (Call Nat) := [.insert (some 7), .insert (some 8), .get 0, .delete 0, .insert (some 9), .get 0]
  have along : Along History.step Allowed History.start calls := by
    refine ⟨.inr (by decide), fun _ first => ?_⟩
    cases first
    refine ⟨.inr (by decide), fun _ second => ?_⟩
    cases second
    refine ⟨le_rfl, fun _ gotten => ?_⟩
    cases gotten
    refine ⟨.inl rfl, fun _ deleted => ?_⟩
    cases deleted
    exact ⟨.inr (by decide), fun _ _ => ⟨le_rfl, fun _ _ => trivial⟩⟩
  obtain ⟨history, done, first, second⟩ : ∃ history, exec History.step History.start calls = some history
      ∧ history.live 0 = some 9 ∧ history.live 1 = some 8 :=
    ⟨_, rfl, rfl, rfl⟩
  have sound := descriptors_unique (Reachable.exec_along calls along .start done)
  exact ⟨history, sound.1, first, (sound.2 (.get 1) Int.one_nonneg).1 8 second⟩

def AnyRun : History ι → Prop :=
  Reachable (fun before call after => before.step call = some after) (fun _ _ => True) History.start

/-- Behind a second deletion the descriptor is returned twice. -/
theorem deleted_twice : ¬ ∀ history : History Nat, AnyRun history →
    FreeListExact history ∧ ∀ call, Right history call := by
  intro claimed
  let calls : List (Call Nat) := [.insert (some 7), .delete 0, .delete 0, .insert (some 8)]
  obtain ⟨history, done, held, head⟩ : ∃ history, exec History.step History.start calls = some history
      ∧ history.live 0 = some 8 ∧ (history.table.insert (some 9)).map Prod.fst = some 0 :=
    ⟨_, rfl, rfl, rfl⟩
  obtain ⟨fd, table, inserted, -, unused⟩ := (claimed history (Reachable.exec calls .start done)).2 (.insert (some 9))
  rw [inserted] at head
  cases head
  exact absurd (held.symm.trans unused) (Option.some_ne_none _)

end Xpn.DTable
