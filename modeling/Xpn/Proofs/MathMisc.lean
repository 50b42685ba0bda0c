import Xpn.MathMisc
import Mathlib.Tactic.Ring
import Mathlib.Tactic.Linarith
import Mathlib.Data.Int.ModEq

/-! Parity that rotates over the servers gives a layout: no two blocks share a place, the
blocks of a stripe fill all servers but one, and over any run of as many stripes as there
are servers each server keeps the parity once. -/

namespace Xpn.MathMisc

/-- The place of an offset on a line from which one place is taken out. -/
def skip (hole offset : Int) : Int := offset + if hole ≤ offset then 1 else 0

theorem skip_ne (hole offset : Int) : skip hole offset ≠ hole := by
  unfold skip
  split <;> omega

theorem skip_inj {hole first second : Int} (same : skip hole first = skip hole second) : first = second := by
  unfold skip at same
  split at same <;> split at same <;> omega

theorem skip_range (hole : Int) {offset bound : Int} (low : 0 ≤ offset) (high : offset < bound) :
    0 ≤ skip hole offset ∧ skip hole offset < bound + 1 := by
  unfold skip
  split <;> omega

/-- Every place but the hole is taken. -/
theorem skip_onto {hole place bound : Int} (inside : 0 ≤ hole) (below : hole ≤ bound) (low : 0 ≤ place)
    (high : place ≤ bound) (other : place ≠ hole) :
    ∃ offset, 0 ≤ offset ∧ offset < bound ∧ skip hole offset = place := by
  by_cases before : place < hole
  · refine ⟨place, low, by omega, ?_⟩
    rw [skip, if_neg (by omega), add_zero]
  · refine ⟨place - 1, by omega, by omega, ?_⟩
    rw [skip, if_pos (by omega), Int.sub_add_cancel]

def parity (m stripe : Int) : Int := (m - 1) - stripe % m

theorem parity_range {m : Int} (two : 2 ≤ m) (stripe : Int) : 0 ≤ parity m stripe ∧ parity m stripe < m := by
  have low := Int.emod_nonneg stripe (show m ≠ 0 by omega)
  have high := Int.emod_lt_of_pos stripe (show 0 < m by omega)
  unfold parity
  omega

/-- The remainders take each value once on as many consecutive numbers as the divisor. -/
theorem turn {m : Int} (first : Int) {wanted : Int} (positive : 0 < m) (low : 0 ≤ wanted) (high : wanted < m) :
    ∃! stripe, first ≤ stripe ∧ stripe < first + m ∧ stripe % m = wanted := by
  have below := Int.emod_nonneg (wanted - first) (show m ≠ 0 by omega)
  have above := Int.emod_lt_of_pos (wanted - first) positive
  refine ⟨first + (wanted - first) % m, ⟨by omega, by omega, ?_⟩, ?_⟩
  · rw [Int.add_emod_emod, add_sub_cancel, Int.emod_eq_of_lt low high]
  · rintro stripe ⟨after, before, same⟩
    have shifted : (stripe - first) % m = (wanted - first) % m := by
      rw [← same, Int.emod_sub_emod]
    rw [Int.emod_eq_of_lt (by omega) (by omega)] at shifted
    omega

variable {m : Int}

theorem locate_eq (two : 2 ≤ m) {i : Int} (low : 0 ≤ i) :
    locateInRAID5withInternalParity i m
      = some { sp := parity m (i / (m - 1)), ip := i / (m - 1),
               sd := skip (parity m (i / (m - 1))) (i % (m - 1)), id := i / (m - 1) } := by
  have stripe : 0 ≤ i / (m - 1) := Int.ediv_nonneg low (by omega)
  unfold locateInRAID5withInternalParity
  rw [if_neg (by omega), if_neg (by omega)]
  simp only [Int.tdiv_eq_ediv_of_nonneg low, Int.tmod_eq_emod_of_nonneg low, Int.tmod_eq_emod_of_nonneg stripe]
  rfl

theorem locate_nonneg {i : Int} {location : Location} (found : locateInRAID5withInternalParity i m = some location) :
    0 ≤ i := by
  by_contra negative
  rw [locateInRAID5withInternalParity, if_pos (by omega)] at found
  contradiction

/-- What is known of a block that is placed. -/
theorem locate_spec (two : 2 ≤ m) {i : Int} {location : Location}
    (found : locateInRAID5withInternalParity i m = some location) :
    location.id = i / (m - 1) ∧ location.ip = location.id ∧ location.sp = parity m location.id
      ∧ location.sd = skip (parity m location.id) (i % (m - 1)) := by
  rw [locate_eq two (locate_nonneg found)] at found
  cases found
  exact ⟨rfl, rfl, rfl, rfl⟩

/-- The block of a stripe at an offset. -/
theorem locate_block (two : 2 ≤ m) {stripe offset : Int} (low : 0 ≤ stripe) (inside : 0 ≤ offset)
    (below : offset < m - 1) :
    locateInRAID5withInternalParity (offset + (m - 1) * stripe) m
      = some { sp := parity m stripe, ip := stripe, sd := skip (parity m stripe) offset, id := stripe } := by
  have width : (0 : Int) < m - 1 := by omega
  have div : (offset + (m - 1) * stripe) / (m - 1) = stripe := by
    rw [Int.add_mul_ediv_left _ _ (by omega), Int.ediv_eq_zero_of_lt inside below, zero_add]
  have mod : (offset + (m - 1) * stripe) % (m - 1) = offset := by
    rw [Int.add_mul_emod_self_left, Int.emod_eq_of_lt inside below]
  have total : 0 ≤ offset + (m - 1) * stripe := Int.add_nonneg inside (Int.mul_nonneg width.le low)
  rw [locate_eq two total, div, mod]

/-- No result is larger than the arguments, so `int`s do not overflow. -/
theorem locate_fits (two : 2 ≤ m) {i : Int} {location : Location}
    (found : locateInRAID5withInternalParity i m = some location) :
    0 ≤ location.id ∧ location.id ≤ i ∧ 0 ≤ location.sp ∧ location.sp < m ∧ 0 ≤ location.sd ∧ location.sd < m := by
  have low := locate_nonneg found
  obtain ⟨stripe, -, keeps, place⟩ := locate_spec two found
  have places := skip_range (parity m location.id) (Int.emod_nonneg i (show m - 1 ≠ 0 by omega))
    (Int.emod_lt_of_pos i (show 0 < m - 1 by omega))
  rw [← place, Int.sub_add_cancel] at places
  have servers := parity_range two location.id
  rw [← keeps] at servers
  have index := Int.ediv_nonneg low (show 0 ≤ m - 1 by omega)
  have bound := Int.ediv_le_self (m - 1) low
  exact ⟨by omega, by omega, servers.1, servers.2, places.1, places.2⟩

theorem locate_inj (two : 2 ≤ m) {i j : Int} {first second : Location}
    (found : locateInRAID5withInternalParity i m = some first)
    (other : locateInRAID5withInternalParity j m = some second) (servers : first.sd = second.sd)
    (indices : first.id = second.id) : i = j := by
  obtain ⟨stripe, -, -, place⟩ := locate_spec two found
  obtain ⟨stripe', -, -, place'⟩ := locate_spec two other
  have offsets : i % (m - 1) = j % (m - 1) := by
    rw [place, place', indices] at servers
    exact skip_inj servers
  rw [← Int.mul_ediv_add_emod i (m - 1), ← Int.mul_ediv_add_emod j (m - 1), ← stripe, ← stripe', indices, offsets]

/-- The blocks of a stripe are as many as the servers that keep no parity of it. -/
theorem stripe_blocks (two : 2 ≤ m) {stripe : Int} (low : 0 ≤ stripe) (i : Int) :
    (∃ location, locateInRAID5withInternalParity i m = some location ∧ location.id = stripe)
      ↔ (m - 1) * stripe ≤ i ∧ i < (m - 1) * stripe + (m - 1) := by
  have width : (0 : Int) < m - 1 := by omega
  constructor
  · rintro ⟨location, found, same⟩
    have stripes := (locate_spec two found).1
    have split := Int.mul_ediv_add_emod i (m - 1)
    have offset := Int.emod_nonneg i (show m - 1 ≠ 0 by omega)
    have bound := Int.emod_lt_of_pos i width
    rw [← stripes, same] at split
    constructor <;> omega
  · rintro ⟨start, below⟩
    have placed := locate_block two low (show 0 ≤ i - (m - 1) * stripe by omega) (by omega)
    rw [Int.sub_add_cancel] at placed
    exact ⟨_, placed, rfl⟩

/-- Each server but the parity server holds one block of the stripe. -/
theorem stripe_server (two : 2 ≤ m) {stripe server : Int} (low : 0 ≤ stripe) (inside : 0 ≤ server) (below : server < m)
    (other : server ≠ parity m stripe) :
    ∃! i, ∃ location, locateInRAID5withInternalParity i m = some location
      ∧ location.id = stripe ∧ location.sd = server := by
  obtain ⟨first, last⟩ := parity_range two stripe
  obtain ⟨offset, start, finish, place⟩ := skip_onto first (show _ ≤ m - 1 by omega) inside (by omega) other
  refine ⟨offset + (m - 1) * stripe, ⟨_, locate_block two low start finish, rfl, place⟩, ?_⟩
  rintro i ⟨location, found, stripes, servers⟩
  exact locate_inj two found (locate_block two low start finish) (servers.trans place.symm) stripes

/-- Over as many consecutive stripes as there are servers, each keeps the parity once. -/
theorem parity_turn (two : 2 ≤ m) (first : Int) {server : Int} (inside : 0 ≤ server) (below : server < m) :
    ∃! stripe, first ≤ stripe ∧ stripe < first + m ∧ parity m stripe = server := by
  have turned := turn first (show 0 < m by omega) (show 0 ≤ m - 1 - server by omega) (by omega)
  refine (existsUnique_congr fun stripe => ?_).mp turned
  unfold parity
  constructor <;> (rintro ⟨after, before, same⟩; exact ⟨after, before, by omega⟩)

theorem raid5_layout_valid (two : 2 ≤ m) :
    (∀ i, 0 ≤ i → ∃ location, locateInRAID5withInternalParity i m = some location
      ∧ 0 ≤ location.sd ∧ location.sd < m ∧ 0 ≤ location.sp ∧ location.sp < m
      ∧ location.sd ≠ location.sp ∧ location.ip = location.id)
    ∧ (∀ i j first second, locateInRAID5withInternalParity i m = some first →
        locateInRAID5withInternalParity j m = some second →
        first.sd = second.sd → first.id = second.id → i = j)
    ∧ (∀ stripe, 0 ≤ stripe → ∃ server,
        (∀ i, (∃ location, locateInRAID5withInternalParity i m = some location ∧ location.id = stripe)
          ↔ (m - 1) * stripe ≤ i ∧ i < (m - 1) * stripe + (m - 1))
        ∧ (∀ i location, locateInRAID5withInternalParity i m = some location → location.id = stripe →
          location.sp = server)
        ∧ ∀ other, 0 ≤ other → other < m → other ≠ server →
          ∃! i, ∃ location, locateInRAID5withInternalParity i m = some location
            ∧ location.id = stripe ∧ location.sd = other)
    ∧ ∀ first, 0 ≤ first → ∀ server, 0 ≤ server → server < m →
        ∃! stripe, first ≤ stripe ∧ stripe < first + m
          ∧ ∃ i location, locateInRAID5withInternalParity i m = some location
            ∧ location.id = stripe ∧ location.sp = server := by
  refine ⟨?_, fun i j first second found other => locate_inj two found other, ?_, ?_⟩
  · intro i low
    obtain ⟨-, -, first, last, start, finish⟩ := locate_fits two (locate_eq two low)
    exact ⟨_, locate_eq two low, start, finish, first, last, skip_ne _ _, rfl⟩
  · intro stripe low
    refine ⟨parity m stripe, stripe_blocks two low, ?_, fun server inside below => stripe_server two low inside below⟩
    rintro i location found rfl
    exact (locate_spec two found).2.2.1
  · intro first low server inside below
    refine (existsUnique_congr fun stripe => ?_).mp (parity_turn two first inside below)
    refine and_congr_right fun after => and_congr_right fun before => ?_
    constructor
    · intro keeps
      have placed := locate_block two (le_trans low after) le_rfl (show (0 : Int) < m - 1 by omega)
      exact ⟨_, _, placed, rfl, keeps⟩
    · rintro ⟨i, location, found, rfl, keeps⟩
      rw [← keeps, (locate_spec two found).2.2.1]

theorem raid5_layout_valid_three :
    ∃ location, locateInRAID5withInternalParity 5 3 = some location ∧ 0 ≤ location.sd ∧ location.sd < 3
      ∧ 0 ≤ location.sp ∧ location.sp < 3 ∧ location.sd ≠ location.sp ∧ location.ip = location.id :=
  (raid5_layout_valid (show (2 : Int) ≤ 3 by decide)).1 5 (by decide)

end Xpn.MathMisc
