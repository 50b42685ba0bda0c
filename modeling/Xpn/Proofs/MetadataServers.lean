import Mathlib.Tactic.Ring
import Xpn.NfiWorker
import Xpn.Proofs.Namespace

/-! The servers that a client turns to for the metadata of a file. Copies of the metadata are
on the servers that follow the master node; a reader looks for one that is up, a writer
reports on all of them, and what removes a file has to visit every server it is on. -/

namespace Xpn.Proofs.MetadataServers
open Lib.Launching Lib.Striping NfiClient Namespace

variable {part : XpnPartition} {servers : Servers} {path : Path}

section
variable (part servers path) (outcome : Int → NfiReply)

def CopyFails (i : Nat) : Prop :=
  ¬servers.Failed (metadataServer part path i).toNat ∧ (outcome (metadataServer part path i)).result < 0

theorem value_launch {serv : Int} (op : NfiOperation) (answer : Int) :
    (nfiworkerLaunch part servers serv op).value outcome answer = if InTable part.dataNserv serv then some () else none := by
  rw [nfiworkerLaunch]
  split
  · split
    · rfl
    · rfl
  · rfl

theorem value_wait {serv : Int} (inside : InTable part.dataNserv serv) (answer : Int) :
    ∃ reply, (nfiworkerWait part servers serv noReply).value outcome answer = some reply ∧
      (reply.result < 0 ↔ ¬servers.Failed serv.toNat ∧ (outcome serv).result < 0) := by
  rw [nfiworkerWait, if_pos inside]
  split
  next failed => exact ⟨_, rfl, by simp [failed]⟩
  next up => exact ⟨_, rfl, by simp [up]⟩

theorem value_updateLaunches (op : NfiOperation) (answer : Int) : ∀ copies : List Nat,
    (updateLaunches part servers path op copies).value outcome answer =
      if ∀ i ∈ copies, InTable part.dataNserv (metadataServer part path i) then some () else none
  | [] => by simp [updateLaunches, Program.value, pure]
  | i :: rest => by
    rw [updateLaunches, Program.value_bind, value_launch]
    simp only [List.forall_mem_cons]
    by_cases here : InTable part.dataNserv (metadataServer part path i)
    · rw [if_pos here, Option.bind_some, value_updateLaunches op answer rest]
      simp only [here, true_and]
    · rw [if_neg here, if_neg (fun all => here all.1), Option.bind_none]

theorem value_updateWaits (answer : Int) : ∀ (copies : List Nat) (err : Int),
    (∀ i ∈ copies, InTable part.dataNserv (metadataServer part path i)) →
      ∃ res, (updateWaits part servers path copies err).value outcome answer = some res ∧
        (res < 0 ↔ err < 0 ∨ ∃ i ∈ copies, CopyFails part servers path outcome i)
  | [], err, _ => ⟨err, rfl, by simp⟩
  | i :: rest, err, inside => by
    obtain ⟨reply, waited, here⟩ := value_wait part servers outcome (inside i List.mem_cons_self) answer
    obtain ⟨res, value, reports⟩ := value_updateWaits answer rest (if reply.result < 0 then -1 else err)
      fun j member => inside j (List.mem_cons_of_mem _ member)
    refine ⟨res, ?_, ?_⟩
    · rw [updateWaits, Program.value_bind, waited]
      exact value
    · rw [reports]
      simp only [List.mem_cons, exists_eq_or_imp, CopyFails, ← here]
      split
      next fails => simp [fails]
      next fine => simp [fine]

/-- The last copy is waited for by nobody: its failure shows only through that of another one.
There is a result as long as all copies have a server. -/
theorem update_reports_iff (mdata : XpnMetadata) (onlyFileSize : Bool) (answer : Int) :
    (∃ res, (xpnUpdateMetadata part servers path mdata onlyFileSize).value outcome answer = some res ∧
        (res < 0 ↔ ∃ i ≤ part.replicationLevel, CopyFails part servers path outcome i)) ↔
      (∀ i ≤ part.replicationLevel, InTable part.dataNserv (metadataServer part path i)) ∧
        (CopyFails part servers path outcome part.replicationLevel →
          ∃ i < part.replicationLevel, CopyFails part servers path outcome i) := by
  have launched := value_updateLaunches part servers path outcome (.opWriteMdata path mdata onlyFileSize) answer
    (List.range (part.replicationLevel + 1))
  simp only [List.mem_range, Nat.lt_succ_iff] at launched
  rw [xpnUpdateMetadata, Program.value_bind, launched]
  by_cases inside : ∀ i ≤ part.replicationLevel, InTable part.dataNserv (metadataServer part path i)
  · obtain ⟨res, waited, reports⟩ := value_updateWaits part servers path outcome answer (List.range part.replicationLevel) 0
      fun i member => inside i (List.mem_range.mp member).le
    simp only [lt_self_iff_false, List.mem_range, false_or] at reports
    rw [if_pos inside, Option.bind_some, waited]
    constructor
    · rintro ⟨_, ⟨rfl⟩, reported⟩
      exact ⟨inside, fun last => reports.mp (reported.mpr ⟨_, le_rfl, last⟩)⟩
    · rintro ⟨-, seen⟩
      refine ⟨res, rfl, reports.trans ⟨?_, ?_⟩⟩
      · rintro ⟨i, below, fails⟩
        exact ⟨i, below.le, fails⟩
      · rintro ⟨i, inside, fails⟩
        rcases Nat.lt_or_eq_of_le inside with below | rfl
        · exact ⟨i, below, fails⟩
        · exact seen fails
  · rw [if_neg inside, Option.bind_none]
    constructor
    · rintro ⟨_, impossible, -⟩
      cases impossible
    · exact fun both => absurd both.1 inside

end

/-- Without replication the only copy is never waited for. -/
theorem update_failure_lost : ¬∀ (part : XpnPartition) (servers : Servers) (path : Path) (outcome : Int → NfiReply)
    (mdata : XpnMetadata) (onlyFileSize : Bool) (answer : Int), part.replicationLevel + 1 ≤ part.dataNserv →
      ∃ res, (xpnUpdateMetadata part servers path mdata onlyFileSize).value outcome answer = some res ∧
        (res < 0 ↔ ∃ i ≤ part.replicationLevel, CopyFails part servers path outcome i) := by
  intro always
  obtain ⟨res, value, reported⟩ := always ⟨1, 4, 0, -1⟩ (fun _ => ⟨[], 0⟩) [47, 97] (fun _ => ⟨-1, XpnMetadata.zero, 0⟩)
    XpnMetadata.zero false 0 (by decide)
  have silent : (xpnUpdateMetadata ⟨1, 4, 0, -1⟩ (fun _ => ⟨[], 0⟩) [47, 97] XpnMetadata.zero false).value
      (fun _ => ⟨-1, XpnMetadata.zero, 0⟩) 0 = some 0 := by decide
  obtain rfl := Option.some.inj (silent.symm.trans value)
  exact absurd (reported.mpr ⟨0, le_rfl, by decide, by decide⟩) (by decide)

/-- The server that round `i` of the selection looks at: its distance from the start grows by
one more each time. -/
def asked (start n : Int) (i : Nat) : Int := (start.tmod n + (i * (i + 1) / 2 : Nat)).tmod n

section
variable (part servers path)

def LiveCopy (serv : Int) : Prop :=
  (∃ i ≤ part.replicationLevel, serv = metadataServer part path i) ∧ InTable part.dataNserv serv ∧ ¬servers.Failed serv.toNat

/-- Without replication only the start is asked. Otherwise the first live server at a distance
0, 1, 3, 6, .. from it is met in as many rounds as the level has, and has a copy. -/
def FailsOver (start : Int) : Prop :=
  if part.replicationLevel = 0 then start = metadataServer part path 0 ∧ InTable part.dataNserv start
  else ∃ i < part.replicationLevel, (∀ j < i, errorAt part servers (asked start part.dataNserv j) = true) ∧
    LiveCopy part servers path (asked start part.dataNserv i)

end

theorem tmod_of_small {a n : Int} (above : -n < a) (below : a < n) : a.tmod n = a := by
  rcases Int.le_total 0 a with nonneg | negative
  · exact Int.tmod_eq_of_lt nonneg below
  · have mirrored := Int.tmod_eq_of_lt (show 0 ≤ -a by omega) (show -a < n by omega)
    rw [Int.neg_tmod] at mirrored
    omega

theorem asked_succ {n : Int} (positive : 0 < n) (start : Int) (i : Nat) :
    asked start n (i + 1) = (asked start n i + (i + 1 : Nat)).tmod n := by
  have above := Int.lt_tmod_of_pos start positive
  have triangle : (i + 1) * (i + 1 + 1) / 2 = i * (i + 1) / 2 + (i + 1) := by
    have grown : (i + 1) * (i + 1 + 1) = i * (i + 1) + 2 * (i + 1) := by ring
    rw [grown, Nat.add_mul_div_left _ _ (by decide)]
  rw [asked, asked, triangle]
  generalize i * (i + 1) / 2 = distance
  rcases Int.le_total 0 (start.tmod n + distance) with nonneg | negative
  · rw [Int.tmod_eq_emod_of_nonneg nonneg, Int.tmod_eq_emod_of_nonneg (by omega),
      Int.tmod_eq_emod_of_nonneg (Int.add_nonneg (Int.emod_nonneg _ positive.ne') (by omega)), Int.emod_add_emod]
    congr 1
    push_cast
    omega
  · rw [tmod_of_small (show -n < start.tmod n + distance by omega) (by omega)]
    congr 1
    push_cast
    omega

/-- The selection ends at the first server that is up, or in its last round. -/
theorem selected_spec {n : Int} (positive : 0 < n) (error : Int → Bool) (start : Int) : ∀ (fuel i : Nat) (masterNode : Int),
    (masterNode + i).tmod n = asked start n i →
      ∃ k ≤ fuel, xpnReadMetadataServer error n (fuel + 1) i masterNode = asked start n (i + k) ∧
        (∀ j < k, error (asked start n (i + j)) = true) ∧ (error (asked start n (i + k)) = true → k = fuel)
  | 0, i, masterNode, here => by
    refine ⟨0, le_rfl, ?_, fun j impossible => absurd impossible (Nat.not_lt_zero j), fun _ => rfl⟩
    simp only [xpnReadMetadataServer, here, Nat.add_zero, ite_self]
  | fuel + 1, i, masterNode, here => by
    rw [xpnReadMetadataServer]
    simp only [here]
    cases failed : error (asked start n i) with
    | false =>
      refine ⟨0, Nat.zero_le _, by simp, fun j impossible => absurd impossible (Nat.not_lt_zero j), fun up => ?_⟩
      rw [Nat.add_zero, failed] at up
      cases up
    | true =>
      obtain ⟨k, inside, found, before, last⟩ := selected_spec positive error start fuel (i + 1) (asked start n i)
        (asked_succ positive start i).symm
      have shifted : ∀ j, i + (j + 1) = i + 1 + j := fun j => by omega
      refine ⟨k + 1, by omega, by rw [if_pos rfl, found, ← shifted], ?_, fun down => ?_⟩
      · intro j below
        cases j with
        | zero => exact failed
        | succ j =>
          rw [shifted]
          exact before j (by omega)
      · rw [shifted] at down
        rw [last down]

section
variable (fits : part.replicationLevel + 1 ≤ part.dataNserv)
  (live : ∃ i ≤ part.replicationLevel, errorAt part servers (metadataServer part path i) = false)
include fits live

theorem selected_live_iff (start : Int) :
    LiveCopy part servers path (xpnReadMetadataServer (errorAt part servers) part.dataNserv part.replicationLevel 0 start) ↔
      FailsOver part servers path start := by
  rw [FailsOver]
  split
  next none =>
    obtain ⟨i, inside, up⟩ := live
    obtain rfl : i = 0 := by omega
    rw [none, xpnReadMetadataServer]
    constructor
    · rintro ⟨⟨i, inside, same⟩, known, -⟩
      obtain rfl : i = 0 := by omega
      exact ⟨same, known⟩
    · rintro ⟨same, known⟩
      rw [← same, errorAt, decide_eq_false_iff_not, not_and] at up
      exact ⟨⟨0, Nat.zero_le _, same⟩, known, up known⟩
  next some =>
    have positive : (0 : Int) < part.dataNserv := by omega
    obtain ⟨level, level_eq⟩ : ∃ level, part.replicationLevel = level + 1 := ⟨part.replicationLevel - 1, by omega⟩
    have start_eq : (start + (0 : Nat)).tmod part.dataNserv = asked start part.dataNserv 0 := by
      have small := tmod_of_small (Int.lt_tmod_of_pos start positive) (Int.tmod_lt_of_pos start positive)
      simp only [asked, Nat.zero_mul, Nat.zero_div, Nat.cast_zero, Int.add_zero, small]
    obtain ⟨k, inside, found, before, last⟩ := selected_spec positive (errorAt part servers) start level 0 start start_eq
    simp only [Nat.zero_add] at found before last
    rw [level_eq, found]
    constructor
    · intro alive
      exact ⟨k, by omega, before, alive⟩
    · rintro ⟨i, below, failed, alive⟩
      rcases Nat.lt_trichotomy k i with early | rfl | late
      · have := last (failed k early)
        omega
      · exact alive
      · exact absurd (of_decide_eq_true (before i late)).2 alive.2.2

/-- Each of the three selections meets a live copy exactly when the distances it goes by do. -/
theorem failover_live_iff (file : OpenFile) :
    (LiveCopy part servers path (readMetadataNode part servers path) ∧ LiveCopy part servers path (getAtribPathNode part servers path) ∧
        LiveCopy part servers path (getAtribFdNode part servers file)) ↔
      FailsOver part servers path (hash path part.dataNserv 1) ∧ FailsOver part servers path file.mdata.firstNode := by
  have byName := selected_live_iff fits live (hash path part.dataNserv 1)
  have byNode := selected_live_iff fits live file.mdata.firstNode
  rw [readMetadataNode, getAtribPathNode, getAtribFdNode, byName, byNode]
  exact ⟨fun both => ⟨both.1, both.2.2⟩, fun both => ⟨both.1, both.1, both.2⟩⟩

end

/-- `/a` on the last of two servers and, as copy 1, on the first. -/
def twoServers : XpnPartition := ⟨2, 4, 1, -1⟩

def oneDown (down : Nat) : Servers := fun serv => ⟨[], if serv = down then -1 else 0⟩

def openA : OpenFile := ⟨[47, 97], 0, xpnCreateMetadataExtern [47, 97] 2 4 1, 0, fun _ => false⟩

theorem failover_live_other : LiveCopy twoServers (oneDown 0) [47, 97] (readMetadataNode twoServers (oneDown 0) [47, 97]) := by
  have fails : FailsOver twoServers (oneDown 0) [47, 97] 1 := ⟨0, by decide, by simp, ⟨0, by decide, by decide⟩, by decide, by decide⟩
  refine ((failover_live_iff ?_ ?_ openA).mpr ⟨fails, fails⟩).1
  · decide
  · exact ⟨0, by decide, by decide⟩

/-- With one replica the selection has one round: it never leaves the master. -/
theorem failover_stays : ¬∀ (part : XpnPartition) (servers : Servers) (path : Path) (file : OpenFile),
    part.replicationLevel + 1 ≤ part.dataNserv →
    (∃ i ≤ part.replicationLevel, errorAt part servers (metadataServer part path i) = false) →
    LiveCopy part servers path (readMetadataNode part servers path) ∧ LiveCopy part servers path (getAtribPathNode part servers path) ∧
      LiveCopy part servers path (getAtribFdNode part servers file) := by
  intro always
  obtain ⟨read, -⟩ := always twoServers (oneDown 1) [47, 97] openA (by decide) ⟨1, by decide, by decide⟩
  have failed : (oneDown 1).Failed (readMetadataNode twoServers (oneDown 1) [47, 97]).toNat := by decide
  exact read.2.2 failed

variable {g : Layout} {mdata : XpnMetadata} {masterDir masterNode : Int} {serv : Nat}

/-- The server has the start of the file, where creating it makes a local file even if it stays empty. -/
def FirstBlock (mdata : XpnMetadata) (serv : Nat) : Prop :=
  ∃ r : Nat, (r : Int) ≤ mdata.replicationLevel ∧ (xpnCalculateBlockMdata mdata 0 r).2 = serv

theorem first_lt (describes : g.Describes mdata) (first : FirstBlock mdata serv) : serv < g.n := by
  obtain ⟨r, -, placed⟩ := first
  have place := describes.calculate 0 r
  rw [Nat.cast_zero] at place
  rw [place, Int.ofNat_inj] at placed
  exact placed ▸ g.server_lt 0 r

variable {cluster : Cluster}

/-- An unlink of the name, and a rename to another one, succeed and leave no local file of the name on
the servers that are meant. -/
def Cleans (part : XpnPartition) (cluster : Cluster) (path : Path) (meant : Nat → Prop) : Prop :=
  (∃ after, cluster.xpnInternalRemove part path = some after ∧ ∀ serv, meant serv → after.files serv path = none) ∧
    ∀ newpath, newpath ≠ path → ∃ after, cluster.xpnSimpleRename part path newpath = some after ∧
      ∀ serv, meant serv → after.files serv path = none

theorem Cleans.mono {meant fewer : Nat → Prop} (cleans : Cleans part cluster path meant) (within : ∀ serv, fewer serv → meant serv) :
    Cleans part cluster path fewer := by
  obtain ⟨⟨unlinked, unlink, left⟩, renames⟩ := cleans
  refine ⟨⟨unlinked, unlink, fun serv here => left serv (within serv here)⟩, fun newpath different => ?_⟩
  obtain ⟨renamed, rename, left⟩ := renames newpath different
  exact ⟨renamed, rename, fun serv here => left serv (within serv here)⟩

/-- `/a` of 6 bytes on three servers: it is listed by the last one, has its metadata and block 0 on the
middle one and block 1 on the last. -/
def threeServers : XpnPartition := ⟨3, 4, 0, -1⟩

end Xpn.Proofs.MetadataServers
