import Xpn.Proofs.FileTable

/-! What `xpn_destroy_file_table` releases: the descriptors that the slots refer to, slot by
slot. It is right exactly when the slots name every live descriptor once. -/

namespace Xpn.Proofs.Teardown
open Xpn.FileTable FileCall Lib.Runs Proofs.FileTable

variable {nfih : Nat → List (Option Bool)} {table : FileTable}

def TableObject.address : TableObject → Nat
  | .privFh a _ | .handle a _ | .handles a | .dataVfh a | .mdata a | .desc a => a

private theorem address_objects {a : Nat} {object : TableObject} (member : object ∈ objects nfih a) : TableObject.address object = a := by
  simp only [objects, List.mem_append, List.mem_flatMap] at member
  rcases member with ⟨⟨entry, j⟩, -, released⟩ | fixed
  · cases entry with
    | none => exact absurd released List.not_mem_nil
    | some priv =>
      cases priv with
      | false =>
        rw [List.mem_singleton.mp released]
        rfl
      | true =>
        rcases List.mem_cons.mp released with rfl | last
        · rfl
        · rw [List.mem_singleton.mp last]
          rfl
  · simp only [List.mem_cons, List.not_mem_nil, or_false] at fixed
    rcases fixed with rfl | rfl | rfl | rfl
    · rfl
    · rfl
    · rfl
    · rfl

private def handleObjects (a : Nat) : List (Option Bool × Nat) → List TableObject :=
  List.flatMap fun
    | (none, _) => []
    | (some priv, j) => if priv then [.privFh a j, .handle a j] else [.handle a j]

private theorem handleObjects_nodup (a : Nat) : ∀ (handles : List (Option Bool)) (start : Nat),
    (handleObjects a (handles.zipIdx start)).Nodup ∧
      ∀ object ∈ handleObjects a (handles.zipIdx start), ∃ j, start ≤ j ∧ (object = .privFh a j ∨ object = .handle a j)
  | [], _ => ⟨List.nodup_nil, fun _ member => absurd member List.not_mem_nil⟩
  | entry :: handles, start => by
    obtain ⟨rest, later⟩ := handleObjects_nodup a handles (start + 1)
    have shape : handleObjects a ((entry :: handles).zipIdx start) =
        (match entry with
          | none => []
          | some priv => if priv then [.privFh a start, .handle a start] else [.handle a start]) ++
          handleObjects a (handles.zipIdx (start + 1)) := by
      cases entry with
      | none => rfl
      | some priv => rfl
    rw [shape]
    have here : ∀ object ∈ handleObjects a (handles.zipIdx (start + 1)), object ≠ .privFh a start ∧ object ≠ .handle a start := by
      intro object member
      obtain ⟨j, past, rfl | rfl⟩ := later object member
      · exact ⟨fun same => absurd (TableObject.privFh.inj same).2 (by omega), TableObject.noConfusion⟩
      · exact ⟨TableObject.noConfusion, fun same => absurd (TableObject.handle.inj same).2 (by omega)⟩
    have tail : ∀ object ∈ handleObjects a (handles.zipIdx (start + 1)),
        ∃ j, start ≤ j ∧ (object = .privFh a j ∨ object = .handle a j) := by
      intro object member
      obtain ⟨j, past, which⟩ := later object member
      exact ⟨j, by omega, which⟩
    cases entry with
    | none => exact ⟨rest, tail⟩
    | some priv =>
      cases priv with
      | false =>
        refine ⟨List.nodup_cons.mpr ⟨fun member => (here _ member).2 rfl, rest⟩, fun object member => ?_⟩
        rcases List.mem_cons.mp member with rfl | last
        · exact ⟨start, le_rfl, Or.inr rfl⟩
        · exact tail object last
      | true =>
        refine ⟨List.nodup_cons.mpr ⟨fun member => ?_, List.nodup_cons.mpr ⟨fun member => (here _ member).2 rfl, rest⟩⟩,
          fun object member => ?_⟩
        · rcases List.mem_cons.mp member with same | last
          · exact TableObject.noConfusion same
          · exact (here _ last).1 rfl
        · rcases List.mem_cons.mp member with rfl | next
          · exact ⟨start, le_rfl, Or.inl rfl⟩
          · rcases List.mem_cons.mp next with rfl | last
            · exact ⟨start, le_rfl, Or.inr rfl⟩
            · exact tail object last

theorem objects_nodup (nfih : Nat → List (Option Bool)) (a : Nat) : (objects nfih a).Nodup := by
  obtain ⟨front, kinds⟩ := handleObjects_nodup a (nfih a) 0
  refine List.Nodup.append front (by simp) ?_
  intro object member fixed
  obtain ⟨j, -, rfl | rfl⟩ := kinds object member
  · simp at fixed
  · simp at fixed

theorem desc_mem_objects (nfih : Nat → List (Option Bool)) (a : Nat) : .desc a ∈ objects nfih a := by
  simp [objects]

def named (table : FileTable) (i fuel : Nat) : List Nat := (List.range' i fuel).filterMap table.slots

/-- The loop gets through exactly when what the slots name is live and named once. -/
theorem destroyLoop_iff (nfih : Nat → List (Option Bool)) : ∀ fuel i (table : FileTable) (released : List TableObject),
    (destroyLoop nfih fuel i table released).map Prod.snd =
      if (named table i fuel).Nodup ∧ ∀ a ∈ named table i fuel, (table.heap a).isSome then
        some (released ++ (named table i fuel).flatMap (objects nfih))
      else none
  | 0, _, _, released => by simp [destroyLoop, named]
  | fuel + 1, i, table, released => by
    have split : named table i (fuel + 1) = (table.slots i).toList ++ named table (i + 1) fuel := by
      rw [named, List.range'_succ]
      cases found : table.slots i with
      | none => simp [found, named]
      | some a => simp [found, named]
    rw [destroyLoop]
    cases found : table.slots i with
    | none =>
      rw [split, found]
      exact destroyLoop_iff nfih fuel (i + 1) table released
    | some a =>
      rw [split, found]
      dsimp only
      have later : named { table with slots := Function.update table.slots i none, heap := Function.update table.heap a none } (i + 1) fuel =
          named table (i + 1) fuel := by
        apply List.filterMap_congr
        intro j member
        have past := (List.mem_range'_1.mp member).1
        exact Function.update_of_ne (by omega) _ _
      by_cases live : (table.heap a).isSome
      case neg =>
        rw [if_neg live, if_neg (fun all => live (all.2 a (by simp)))]
        rfl
      case pos =>
        rw [if_pos live, destroyLoop_iff nfih fuel (i + 1), later]
        have heap : ∀ b, (Function.update table.heap a none b).isSome ↔ b ≠ a ∧ (table.heap b).isSome := by
          intro b
          by_cases same : b = a
          · simp [same]
          · simp [same]
        have conditions : ((named table (i + 1) fuel).Nodup ∧
              ∀ b ∈ named table (i + 1) fuel, (Function.update table.heap a none b).isSome) ↔
            ((some a).toList ++ named table (i + 1) fuel).Nodup ∧
              ∀ b ∈ (some a).toList ++ named table (i + 1) fuel, (table.heap b).isSome := by
          simp only [heap, Option.toList_some, List.singleton_append, List.nodup_cons, List.mem_cons, forall_eq_or_imp]
          constructor
          · rintro ⟨once, rest⟩
            exact ⟨⟨fun member => (rest a member).1 rfl, once⟩, live, fun b member => (rest b member).2⟩
          · rintro ⟨⟨absent, once⟩, -, rest⟩
            exact ⟨once, fun b member => ⟨fun same => absent (same ▸ member), rest b member⟩⟩
        simp only [conditions]
        split
        · simp [List.append_assoc]
        · rfl

/-- Every live descriptor is released with all that belongs to it, nothing is released twice
and nothing is read that was released. -/
def TornDown (table : FileTable) (nfih : Nat → List (Option Bool)) : Prop :=
  ∃ after released, table.xpnDestroyFileTable nfih = some (after, released) ∧ released.Nodup ∧
    ∀ a, (table.heap a).isSome → ∀ object ∈ objects nfih a, object ∈ released

theorem mem_named {a : Nat} : a ∈ named table 0 xpnMaxFile ↔ ∃ i, i < xpnMaxFile ∧ table.slots i = some a := by
  simp [named, List.mem_filterMap, List.mem_range'_1]

theorem named_nodup : (named table 0 xpnMaxFile).Nodup ↔
    ∀ i j a, i < j → j < xpnMaxFile → table.slots i = some a → table.slots j ≠ some a := by
  rw [named, List.Nodup, List.pairwise_filterMap, List.pairwise_iff_getElem]
  simp only [List.length_range', List.getElem_range', Nat.zero_add, Nat.one_mul]
  constructor
  · intro apart i j a before inside here there
    exact apart i j (by omega) inside before a here a there rfl
  · intro apart i j _ inside before a here b there same
    exact apart i j a before inside here (same ▸ there)

private theorem flatMap_nodup {addresses : List Nat} (once : addresses.Nodup) : (addresses.flatMap (objects nfih)).Nodup := by
  apply List.nodup_flatMap.mpr
  refine ⟨fun a _ => objects_nodup nfih a, ?_⟩
  apply once.imp
  intro a b different object here there
  exact different ((address_objects here).symm.trans (address_objects there))

/-- Exactly when every live descriptor is in one slot, and no slot has anything else. -/
theorem teardown_iff (table : FileTable) (nfih : Nat → List (Option Bool)) :
    TornDown table nfih ↔
      (∀ i a, i < xpnMaxFile → table.slots i = some a → (table.heap a).isSome) ∧
      (∀ i j a, i < j → j < xpnMaxFile → table.slots i = some a → table.slots j ≠ some a) ∧
      ∀ a, (table.heap a).isSome → ∃ i, i < xpnMaxFile ∧ table.slots i = some a := by
  have loop := destroyLoop_iff nfih xpnMaxFile 0 table []
  rw [List.nil_append] at loop
  constructor
  · rintro ⟨after, released, done, -, complete⟩
    rw [xpnDestroyFileTable] at done
    rw [done, Option.map_some] at loop
    split at loop
    next passes =>
      refine ⟨fun i a inside refers => passes.2 a (mem_named.mpr ⟨i, inside, refers⟩), named_nodup.mp passes.1, fun a live => ?_⟩
      have released_desc := complete a live _ (desc_mem_objects nfih a)
      have all : released = (named table 0 xpnMaxFile).flatMap (objects nfih) := Option.some.inj loop
      rw [all] at released_desc
      obtain ⟨b, member, object⟩ := List.mem_flatMap.mp released_desc
      have same : a = b := address_objects object
      exact mem_named.mp (same ▸ member)
    next => exact absurd loop (Option.some_ne_none _)
  · rintro ⟨live, once, all⟩
    have passes : (named table 0 xpnMaxFile).Nodup ∧ ∀ a ∈ named table 0 xpnMaxFile, (table.heap a).isSome := by
      refine ⟨named_nodup.mpr once, fun a member => ?_⟩
      obtain ⟨i, inside, refers⟩ := mem_named.mp member
      exact live i a inside refers
    rw [if_pos passes] at loop
    obtain ⟨⟨after, released⟩, done, rfl⟩ := Option.map_eq_some_iff.mp loop
    refine ⟨after, _, done, ?_, ?_⟩
    · exact flatMap_nodup passes.1
    · intro a present object member
      exact List.mem_flatMap.mpr ⟨a, mem_named.mpr (all a present), member⟩

/-- A descriptor in two slots is read after it was released. -/
theorem duplicate_read_after_release : ¬∀ table, Reachable FileStep (fun _ _ => True) FileTable.empty table →
    ∀ nfih, TornDown table nfih := by
  intro torn
  obtain ⟨after, released, done, -⟩ := torn duplicated (duplicated_run (fun _ _ => True) trivial trivial) fun _ => []
  have loop := destroyLoop_iff (fun _ => []) xpnMaxFile 0 duplicated []
  rw [xpnDestroyFileTable] at done
  rw [done, if_neg] at loop
  · exact absurd loop (Option.some_ne_none _)
  · intro passes
    exact named_nodup.mp passes.1 0 1 7 (by decide) (by decide) (by decide) (by decide)

end Xpn.Proofs.Teardown
