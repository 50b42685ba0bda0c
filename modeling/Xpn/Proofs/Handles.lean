import Xpn.Handles
import Mathlib.Logic.Function.Basic

/-! The handles of a descriptor come from a completed open or are zero exactly when the
memory for the handles of the servers that have failed is. -/

namespace Xpn.Proofs.Handles
open Xpn.Handles World
open NfiClient (oDirectory metadataServer)

variable {world : World} {part : XpnPartition} {path : Path} {flags serv : Nat} {handles : XpnFh}
  {op : NfiOperation} {handle : KeptHandle}

/-- Filled in by a completed open on its server, or all fields are zero. -/
def Initialised (serv : Nat) (handle : KeptHandle) : Prop :=
  handle.filledBy = some serv ∨ handle.fields = NfiFhandle.zero

def AllInitialised (handles : XpnFh) : Prop :=
  ∀ serv handle, handles serv = some handle → Initialised serv handle

/-- The memory for the selected servers that have failed holds zeroes. -/
def Cleared (world : World) (selected : List Nat) : Prop :=
  ∀ serv ∈ selected, world.failed serv = true → world.memory serv = some NfiFhandle.zero

/-- Only closing through handles that an open has filled in. -/
def ClosesOpened (closed : List KeptHandle) : Prop := ∀ handle ∈ closed, ∃ serv, handle.filledBy = some serv

private theorem open_live (live : world.failed serv = false) {memory : NfiFhandle}
    (filled : world.nfiworkerOpen serv op memory = some handle) : handle.filledBy = some serv := by
  rw [nfiworkerOpen, live] at filled
  obtain ⟨fields, -, rfl⟩ := Option.map_eq_some_iff.mp filled
  rfl

private theorem open_failed (failed : world.failed serv = true) (memory : NfiFhandle) :
    world.nfiworkerOpen serv op memory = some ⟨memory, none⟩ := by
  rw [nfiworkerOpen, failed]
  rfl

private theorem openHandle_cases (made : world.openHandle op serv = some handle) :
    ∃ memory, world.memory serv = some memory ∧
      (world.failed serv = true ∧ handle = ⟨memory, none⟩ ∨ world.failed serv = false ∧ handle.filledBy = some serv) := by
  obtain ⟨memory, allocated, filled⟩ := Option.bind_eq_some_iff.mp made
  refine ⟨memory, allocated, ?_⟩
  cases failed : world.failed serv with
  | true =>
    rw [open_failed failed] at filled
    exact Or.inl ⟨rfl, (Option.some.inj filled).symm⟩
  | false => exact Or.inr ⟨rfl, open_live failed filled⟩

private theorem openHandle_initialised_iff (made : world.openHandle op serv = some handle) :
    Initialised serv handle ↔ (world.failed serv = true → world.memory serv = some NfiFhandle.zero) := by
  obtain ⟨memory, allocated, ⟨failed, rfl⟩ | ⟨live, filled⟩⟩ := openHandle_cases made
  · constructor
    · intro initialised _
      cases initialised with
      | inl filled => cases filled
      | inr zero => exact allocated.trans (congrArg some zero)
    · intro cleared
      exact Or.inr (Option.some.inj (allocated.symm.trans (cleared failed)))
  · refine ⟨fun _ failed => ?_, fun _ => Or.inl filled⟩
    rw [live] at failed
    cases failed

private theorem openHandles_made {selected : List Nat} (made : world.openHandles op selected = some handles) :
    (∀ serv ∈ selected, ∃ handle, world.openHandle op serv = some handle) ∧
      ∀ serv, handles serv = if serv ∈ selected then world.openHandle op serv else none := by
  rw [openHandles] at made
  split at made
  case isTrue all =>
    refine ⟨fun serv member => Option.isSome_iff_exists.mp (List.all_eq_true.mp all serv member), fun serv => ?_⟩
    exact (congrFun (Option.some.inj made) serv).symm
  case isFalse => cases made

private theorem openHandles_initialised_iff {selected : List Nat} (made : world.openHandles op selected = some handles) :
    AllInitialised handles ↔ Cleared world selected := by
  obtain ⟨succeed, entries⟩ := openHandles_made made
  constructor
  · intro initialised serv member
    obtain ⟨handle, entry⟩ := succeed serv member
    have kept : handles serv = some handle := by rw [entries, if_pos member, entry]
    exact (openHandle_initialised_iff entry).mp (initialised serv handle kept)
  · intro cleared serv handle kept
    rw [entries] at kept
    split at kept
    case isTrue member => exact (openHandle_initialised_iff kept).mpr (cleared serv member)
    case isFalse => cases kept

/-- The hash of a file and, where it is not created, the one of its directory are servers. -/
def Addressed (part : XpnPartition) (path : Path) (flags : Nat) : Prop :=
  (hasFlag flags oDirectory = false → 0 ≤ hash path part.dataNserv 1) ∧
    (hasFlag flags oCreat = false → 0 ≤ hash path part.dataNserv 0)

def servers (world : World) (part : XpnPartition) (path : Path) (flags : Nat) : List Nat :=
  ((world.openMetadata part path flags).map fun read => (selected part path flags read).map Int.toNat).getD []

private theorem inTable_hash (path : Path) (positive : 0 < part.dataNserv) (isFile : Int) :
    InTable part.dataNserv (hash path part.dataNserv isFile) ↔ 0 ≤ hash path part.dataNserv isFile :=
  and_iff_left (Int.tmod_lt_of_pos _ (by omega))

private theorem inTable_search {n : Nat} (positive : 0 < n) (error : Int → Bool) : ∀ (fuel i : Nat) (start : Int), InTable n start →
    InTable n (xpnReadMetadataServer error n fuel i start)
  | 0, _, _, inside => inside
  | fuel + 1, i, start, inside => by
    have next : InTable n ((start + i).tmod n) :=
      ⟨Int.tmod_nonneg _ (Int.add_nonneg inside.1 (Int.natCast_nonneg i)), Int.tmod_lt_of_pos _ (by omega)⟩
    rw [xpnReadMetadataServer]
    split
    · exact inTable_search positive error fuel (i + 1) _ next
    · exact next

private theorem search_outside {n : Nat} {error : Int → Bool} {start : Int} (small : start.tmod n = start) (up : error start = false)
    (level : Nat) : xpnReadMetadataServer error n level 0 start = start := by
  cases level with
  | zero => rfl
  | succ level => simp only [xpnReadMetadataServer, Nat.cast_zero, Int.add_zero, small, up, Bool.false_eq_true, if_false]

private theorem read_inside_iff (positive : 0 < part.dataNserv) :
    (world.xpnReadMetadata part path).isSome ↔ 0 ≤ hash path part.dataNserv 1 := by
  have inside := inTable_hash path positive 1
  rw [xpnReadMetadata]
  constructor
  · intro found
    by_contra negative
    have outside : ¬InTable part.dataNserv (hash path part.dataNserv 1) := mt inside.mp negative
    have small : (hash path part.dataNserv 1).tmod part.dataNserv = hash path part.dataNserv 1 := Int.tmod_tmod _ _
    rw [search_outside small (by simp [outside]), if_neg outside] at found
    cases found
  · intro nonneg
    rw [if_pos (inTable_search positive _ _ _ _ (inside.mpr nonneg))]
    rfl

private theorem copies_inside (positive : 0 < part.dataNserv) (nonneg : 0 ≤ hash path part.dataNserv 1) :
    (List.range (part.replicationLevel + 1)).all fun i => InTable part.dataNserv (metadataServer part path i) := by
  rw [List.all_eq_true]
  exact fun i _ => decide_eq_true
    ⟨Int.tmod_nonneg _ (Int.add_nonneg nonneg (Int.natCast_nonneg i)), Int.tmod_lt_of_pos _ (by omega)⟩

private theorem opened_handles (opened : world.xpnInternalOpen part path flags = .done handles) :
    Addressed part path flags ∧ ∃ op, world.openHandles op (servers world part path flags) = some handles := by
  rw [xpnInternalOpen] at opened
  split at opened
  case isTrue => cases opened
  case isFalse some_ =>
    have positive : 0 < part.dataNserv := Nat.pos_of_ne_zero some_
    split at opened
    case h_1 => cases opened
    case h_2 read found =>
      dsimp only at opened
      split at opened
      case isTrue => cases opened
      case isFalse =>
        split at opened
        case isTrue => cases opened
        case isFalse inside =>
          split at opened
          case h_1 => cases opened
          case h_2 made all =>
            have same : made = handles := by
              split at opened
              · split at opened
                · cases opened
                · split at opened
                  · cases opened
                  · exact CallResult.done.inj opened
              · exact CallResult.done.inj opened
            refine ⟨⟨fun file => ?_, fun existing => ?_⟩, ?_⟩
            · rw [openMetadata, if_neg (by simp [file])] at found
              exact (read_inside_iff positive).mp (Option.isSome_of_eq_some found)
            · push Not at inside
              exact (inside (hash path part.dataNserv 0) (by rw [selected, if_neg (by simp [existing])]; exact List.mem_singleton_self _)).1
            · rw [servers, found, ← same]
              exact ⟨_, all⟩

private theorem not_stray (addressed : Addressed part path flags) : world.xpnInternalOpen part path flags ≠ .stray := by
  rw [xpnInternalOpen]
  split
  case isTrue => simp
  case isFalse some_ =>
    have positive : 0 < part.dataNserv := Nat.pos_of_ne_zero some_
    split
    case h_1 missing =>
      rw [openMetadata] at missing
      split at missing
      case isTrue => cases missing
      case isFalse file =>
        have found : (world.xpnReadMetadata part path).isSome := (read_inside_iff positive).mpr (addressed.1 (by simpa using file))
        rw [missing] at found
        cases found
    case h_2 read found =>
      dsimp only
      split
      case isTrue => simp
      case isFalse =>
        split
        case isTrue outside =>
          obtain ⟨serv, member, outside⟩ := outside
          refine absurd ?_ outside
          rw [selected] at member
          split at member
          case isTrue =>
            obtain ⟨chosen, inside, rfl⟩ := List.mem_map.mp member
            have := List.mem_range.mp (List.mem_filter.mp inside).1
            exact ⟨Int.natCast_nonneg _, by omega⟩
          case isFalse existing =>
            rw [List.mem_singleton.mp member]
            exact (inTable_hash path positive 0).mpr (addressed.2 (by simpa using existing))
        case isFalse =>
          split
          case h_1 => simp
          case h_2 =>
            split
            case isTrue file =>
              rw [Bool.and_eq_true, Bool.not_eq_true'] at file
              rw [xpnUpdateMetadata, if_pos (copies_inside positive (addressed.1 file.1))]
              dsimp only
              split
              · simp
              · simp
            case isFalse => simp

private theorem fetched_zero {fetched : KeptHandle}
    (made : world.nfiworkerOpen serv op NfiFhandle.zero = some fetched) : Initialised serv fetched := by
  cases failed : world.failed serv with
  | true =>
    rw [open_failed failed] at made
    cases made
    exact Or.inr rfl
  | false => exact Or.inl (open_live failed made)

private theorem fetchHandle_initialised (initialised : AllInitialised handles) (op : NfiOperation) (asked : Nat) :
    AllInitialised (world.fetchHandle op asked handles) := by
  unfold fetchHandle
  split
  case h_1 => exact initialised
  case h_2 =>
    split
    case h_1 => exact initialised
    case h_2 =>
      split
      case h_1 => exact initialised
      case h_2 fetched made =>
        intro serv handle kept
        by_cases same : serv = asked
        · subst same
          rw [Function.update_self] at kept
          cases kept
          exact fetched_zero made
        · rw [Function.update_of_ne same] at kept
          exact initialised serv handle kept

theorem perform_initialised (fetch : Fetch) (initialised : AllInitialised handles) : AllInitialised (fetch.perform handles) := by
  cases fetch with
  | file world path serv => exact fetchHandle_initialised initialised _ serv
  | directory world path serv => exact fetchHandle_initialised initialised _ serv

theorem fetches_initialised (fetches : List Fetch) (initialised : AllInitialised handles) :
    AllInitialised (fetches.foldl Fetch.perform handles) := by
  induction fetches generalizing handles with
  | nil => exact initialised
  | cons fetch rest ih => exact ih (perform_initialised fetch initialised)

/-- A handle that is all zero is freed without a call. -/
theorem AllInitialised.closes (initialised : AllInitialised handles) (n : Nat) : ClosesOpened (closedHandles n handles) := by
  intro handle closed
  obtain ⟨kept, pointer⟩ := List.mem_filter.mp closed
  obtain ⟨serv, -, entry⟩ := List.mem_filterMap.mp kept
  cases initialised serv handle entry with
  | inl filled => exact ⟨serv, filled⟩
  | inr zero =>
    rw [zero] at pointer
    cases pointer

/-- Unless it fails, an open makes a descriptor whose handles are initialised, and all that is
closed was opened whatever handles were fetched in between, exactly when it goes by numbers of
servers and the memory for the handles of the failed ones among those it selects was zero. -/
theorem handles_initialised_iff (returned : world.xpnInternalOpen part path flags ≠ .failed) :
    (∃ handles, world.xpnInternalOpen part path flags = .done handles ∧ AllInitialised handles ∧ ∀ fetches : List Fetch,
      ClosesOpened (xpnSimpleClose part.dataNserv (fetches.foldl Fetch.perform handles)) ∧
      ClosesOpened (xpnSimpleClosedir part.dataNserv (fetches.foldl Fetch.perform handles))) ↔
      Addressed part path flags ∧ Cleared world (servers world part path flags) := by
  constructor
  · rintro ⟨handles, opened, initialised, -⟩
    obtain ⟨addressed, op, made⟩ := opened_handles opened
    exact ⟨addressed, (openHandles_initialised_iff made).mp initialised⟩
  · rintro ⟨addressed, cleared⟩
    obtain ⟨handles, opened⟩ : ∃ handles, world.xpnInternalOpen part path flags = .done handles := by
      cases result : world.xpnInternalOpen part path flags with
      | stray => exact absurd result (not_stray addressed)
      | failed => exact absurd result returned
      | done handles => exact ⟨handles, rfl⟩
    obtain ⟨-, op, made⟩ := opened_handles opened
    have initialised := (openHandles_initialised_iff made).mpr cleared
    refine ⟨handles, opened, initialised, fun fetches => ?_⟩
    have later := (fetches_initialised fetches initialised).closes part.dataNserv
    exact ⟨later, later⟩

/-- Two servers, the second of which has failed; `malloc` returns the memory of a handle
that was freed before. -/
def oneFailed : World where
  failed serv := serv == 1
  memory _ := some ⟨0, 7, 7, 7, 0⟩
  opens serv _ := some ⟨0, 3, serv + 1, 5, 0⟩
  reads _ := ⟨-1, XpnMetadata.zero, 0⟩
  writes _ := 0

private def twoServers : XpnPartition := ⟨2, 4, 0, -1⟩

private def fileName : Path := [slash, 98]

/-- The new file is opened on the server that is up, and closing it goes through the stale
handle of the other one. -/
theorem stale_handle_closed : ∃ handles, oneFailed.xpnInternalOpen twoServers fileName (oCreat ||| oRdwr) = .done handles ∧
    ¬AllInitialised handles ∧ ¬ClosesOpened (xpnSimpleClose 2 handles) := by
  have stale : ∃ handles, oneFailed.xpnInternalOpen twoServers fileName (oCreat ||| oRdwr) = .done handles ∧
      handles 1 = some ⟨⟨0, 7, 7, 7, 0⟩, none⟩ := ⟨_, rfl, by decide⟩
  obtain ⟨handles, opened, stale⟩ := stale
  refine ⟨handles, opened, fun initialised => ?_, fun closes => ?_⟩
  · rcases initialised 1 _ stale with filled | zero
    · cases filled
    · cases zero
  · have closed : (⟨⟨0, 7, 7, 7, 0⟩, none⟩ : KeptHandle) ∈ xpnSimpleClose 2 handles :=
      List.mem_filter.mpr ⟨List.mem_filterMap.mpr ⟨1, by decide, stale⟩, rfl⟩
    obtain ⟨serv, filled⟩ := closes _ closed
    cases filled

private def clearedMemory : World := { oneFailed with memory := fun _ => some NfiFhandle.zero }

/-- With memory that happens to be zero the same open is fine. -/
theorem handles_initialised_cleared : ∃ handles, clearedMemory.xpnInternalOpen twoServers fileName (oCreat ||| oRdwr) = .done handles ∧
    AllInitialised handles ∧ ∀ fetches : List Fetch,
      ClosesOpened (xpnSimpleClose 2 (fetches.foldl Fetch.perform handles)) ∧
      ClosesOpened (xpnSimpleClosedir 2 (fetches.foldl Fetch.perform handles)) := by
  have returned : clearedMemory.xpnInternalOpen twoServers fileName (oCreat ||| oRdwr) ≠ .failed := by
    have opened : ∃ handles, clearedMemory.xpnInternalOpen twoServers fileName (oCreat ||| oRdwr) = .done handles := ⟨_, rfl⟩
    obtain ⟨handles, opened⟩ := opened
    rw [opened]
    simp
  exact (handles_initialised_iff returned).mpr ⟨⟨fun _ => by decide, fun _ => by decide⟩, fun _ _ _ => rfl⟩

end Xpn.Proofs.Handles
