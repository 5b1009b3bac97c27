import Mathlib.Algebra.Order.Field.Rat
import Mathlib.Algebra.Order.Ring.Int
import Mathlib.Tactic.Linarith
import Mathlib.Tactic.Ring
import Emitlane.Consumer.Config

/-!
# Consumer.Retry — the cap of the delay before a retry (`consumer/retry.go`)

The cap of the delay is doubled in a loop over `int64` values; what scales it then is in `Consumer.Backoff`.  `capLoop`
is the loop with its break: the cap it ends with and the variables at the start of every turn.  A loop that does not end
in `fuel` tests has no result.

The test `capDelay > maximum/2` decides both questions at once: as long as it fails twice the cap is at most the
maximum, and when it holds twice the cap is above it, also for an odd maximum.
-/

namespace Emitlane.Consumer

/-- The variables of the loop. -/
structure Backoff where
  current : Int
  capDelay : Int
  deriving DecidableEq

def capLoop (attempt maximum : Int) : Nat → Backoff → Option (Int × List Backoff)
  | 0, _ => none
  | fuel + 1, s =>
    if s.current < attempt ∧ s.capDelay < maximum then
      if maximum.tdiv 2 < s.capDelay then some (maximum, [s])
      else
        (capLoop attempt maximum fuel ⟨addInt64 s.current 1, mulInt64 s.capDelay 2⟩).map fun x => (x.1, s :: x.2)
    else some (s.capDelay, [])

/-- The part of retryDelay before the jitter. -/
def capDelay (fuel : Nat) (attempt base maximum : Int) : Option (Int × List Backoff) :=
  let attempt := if attempt < 1 then 1 else attempt
  (capLoop attempt maximum fuel ⟨1, base⟩).map fun x => (if maximum < x.1 then maximum else x.1, x.2)

/-! ## The loop -/

section

variable {attempt base maximum : Int}

/-- `base * 2^(attempt-1)` cut at the maximum. -/
def exactCap (attempt base maximum : Int) : Int := min maximum (base * 2 ^ (attempt - 1).toNat)

/-- A turn starts below the maximum, and what it computes stays in the range of `int64`. -/
structure Backoff.Exact (attempt maximum : Int) (s : Backoff) : Prop where
  current : 1 ≤ s.current ∧ s.current + 1 ≤ attempt
  capDelay : 0 < s.capDelay ∧ s.capDelay < maximum
  doubles : ¬ maximum.tdiv 2 < s.capDelay → s.capDelay * 2 ≤ maximum

theorem le_mul_two_pow {a : Int} (ha : 0 < a) (n : Nat) : a ≤ a * 2 ^ n := by
  have hpow : (1 : Int) ≤ 2 ^ n := one_le_pow₀ (by decide)
  nlinarith

/-- The break: one doubling is above the maximum, and so are all further ones. -/
theorem le_of_half_lt {a : Int} (ha : 0 < a) (hhalf : maximum / 2 < a) (m : Nat) : maximum ≤ a * 2 ^ (m + 1) := by
  have hmore := le_mul_two_pow (a := a * 2) (by omega) m
  calc maximum ≤ a * 2 := by omega
    _ ≤ a * 2 * 2 ^ m := hmore
    _ = a * 2 ^ (m + 1) := by ring

/-- The end of the loop: the attempts are used up, or the maximum is reached. -/
theorem min_eq_of_end {s : Backoff} (hpos : 0 < s.capDelay) (hle : s.capDelay ≤ maximum)
    (hend : ¬ (s.current < attempt ∧ s.capDelay < maximum)) :
    min maximum (s.capDelay * 2 ^ (attempt - s.current).toNat) = s.capDelay := by
  by_cases hlast : s.current < attempt
  · have hreached : s.capDelay = maximum := by omega
    have hmore := le_mul_two_pow hpos (attempt - s.current).toNat
    rw [min_eq_left (by omega), hreached]
  · have hzero : (attempt - s.current).toNat = 0 := by omega
    rw [hzero, pow_zero, mul_one, min_eq_right hle]

/-- From any point of the loop `n` doublings of the cap would pass the maximum: then at most `n` turns follow, and the
cap at the end is exact. -/
theorem capLoop_spec (hattempt : attempt ≤ maxInt64) (hmax : maximum ≤ maxInt64) (n : Nat) :
    ∀ (fuel : Nat) (s : Backoff), n ≤ fuel → 1 ≤ s.current → 0 < s.capDelay → s.capDelay ≤ maximum →
      maximum < s.capDelay * 2 ^ n →
      ∃ turns, capLoop attempt maximum (fuel + 1) s =
          some (min maximum (s.capDelay * 2 ^ (attempt - s.current).toNat), turns) ∧
        turns.length ≤ n ∧ ∀ t ∈ turns, t.Exact attempt maximum := by
  induction n with
  | zero =>
    intro fuel s _ _ _ hle hpass
    simp at hpass
    omega
  | succ n ih =>
    intro fuel s hfuel hcurrent hpos hle hpass
    obtain ⟨fuel, rfl⟩ : ∃ m, fuel = m + 1 := ⟨fuel - 1, by omega⟩
    rw [capLoop]
    have hhalf : maximum.tdiv 2 = maximum / 2 := Int.tdiv_eq_ediv_of_nonneg (by omega)
    by_cases htest : s.current < attempt ∧ s.capDelay < maximum
    · rw [if_pos htest]
      obtain ⟨m, hm⟩ : ∃ m, (attempt - s.current).toNat = m + 1 := ⟨(attempt - s.current).toNat - 1, by omega⟩
      have hexact : s.Exact attempt maximum := by
        refine ⟨⟨hcurrent, by omega⟩, ⟨hpos, htest.2⟩, fun hnot => ?_⟩
        rw [hhalf] at hnot
        omega
      by_cases hbreak : maximum.tdiv 2 < s.capDelay
      · rw [if_pos hbreak]
        refine ⟨[s], ?_, by simp, by simpa using hexact⟩
        rw [hhalf] at hbreak
        rw [hm, min_eq_left (le_of_half_lt hpos hbreak m)]
      · rw [if_neg hbreak]
        have hdouble := hexact.doubles hbreak
        have hadd : addInt64 s.current 1 = s.current + 1 := addInt64_eq (by omega) (by omega)
        have hmul : mulInt64 s.capDelay 2 = s.capDelay * 2 := mulInt64_eq (by omega) (by omega)
        rw [hadd, hmul]
        have hpass' : maximum < s.capDelay * 2 * 2 ^ n := by
          calc maximum < s.capDelay * 2 ^ (n + 1) := hpass
            _ = s.capDelay * 2 * 2 ^ n := by ring
        obtain ⟨turns, hloop, hlength, hturns⟩ := ih fuel ⟨s.current + 1, s.capDelay * 2⟩ (by omega)
          (by show 1 ≤ s.current + 1; omega) (by show 0 < s.capDelay * 2; omega) hdouble hpass'
        refine ⟨s :: turns, ?_, by simpa using hlength, by simpa using ⟨hexact, hturns⟩⟩
        have hrest : (attempt - (s.current + 1)).toNat = m := by omega
        rw [hloop, Option.map_some, hrest, hm]
        have hpow : s.capDelay * 2 * 2 ^ m = s.capDelay * 2 ^ (m + 1) := by ring
        rw [hpow]
    · rw [if_neg htest]
      refine ⟨[], ?_, by simp, by simp⟩
      rw [min_eq_of_end hpos hle htest]

/-! ## The cap -/

theorem capDelay_spec (hattempt : attempt ≤ maxInt64) (hbase : 0 < base) (hle : base ≤ maximum)
    (hmax : maximum ≤ maxInt64) {fuel : Nat} (hfuel : 64 ≤ fuel) :
    ∃ turns, capDelay fuel attempt base maximum = some (exactCap (max attempt 1) base maximum, turns) ∧
      turns.length ≤ 63 ∧ ∀ t ∈ turns, t.Exact (max attempt 1) maximum := by
  obtain ⟨fuel, rfl⟩ : ∃ m, fuel = m + 1 := ⟨fuel - 1, by omega⟩
  have hclamp : (if attempt < 1 then 1 else attempt) = max attempt 1 := by
    split_ifs with h <;> omega
  have hlimit : max attempt 1 ≤ maxInt64 := max_le hattempt (by decide)
  have hpass : maximum < base * 2 ^ 63 := by
    unfold maxInt64 at hmax
    omega
  obtain ⟨turns, hloop, hlength, hturns⟩ :=
    capLoop_spec hlimit hmax 63 fuel ⟨1, base⟩ (by omega) le_rfl hbase hle hpass
  refine ⟨turns, ?_, hlength, hturns⟩
  unfold capDelay
  simp only [hclamp, hloop, Option.map_some]
  rw [if_neg (not_lt.mpr (min_le_left _ _))]
  rfl

theorem exactCap_mono {later : Int} (hbase : 0 < base) (h : attempt ≤ later) :
    exactCap attempt base maximum ≤ exactCap later base maximum := by
  unfold exactCap
  apply min_le_min_left
  apply mul_le_mul_of_nonneg_left _ hbase.le
  exact pow_le_pow_right₀ (by decide) (by omega)

/-- **The cap is exact**: it is the doubled base cut at the maximum, no turn of the loop overflows, there are at most 63
of them, and a later attempt does not have a smaller cap. -/
theorem retry_cap_exact (hattempt : attempt ≤ maxInt64) (hbase : 0 < base) (hle : base ≤ maximum)
    (hmax : maximum ≤ maxInt64) {fuel : Nat} (hfuel : 64 ≤ fuel) :
    (∃ turns, capDelay fuel attempt base maximum =
        some (min maximum (base * 2 ^ (max attempt 1 - 1).toNat), turns) ∧ turns.length ≤ 63 ∧
      ∀ t ∈ turns, t.Exact (max attempt 1) maximum) ∧
    ∀ later, attempt ≤ later → later ≤ maxInt64 → ∃ d d' turns turns',
      capDelay fuel attempt base maximum = some (d, turns) ∧
      capDelay fuel later base maximum = some (d', turns') ∧ d ≤ d' := by
  obtain ⟨turns, hcap, hrest⟩ := capDelay_spec hattempt hbase hle hmax hfuel
  refine ⟨⟨turns, hcap, hrest⟩, fun later hlater hlimit => ?_⟩
  obtain ⟨turns', hcap', -⟩ := capDelay_spec hlimit hbase hle hmax hfuel
  exact ⟨_, _, turns, turns', hcap, hcap', exactCap_mono hbase (max_le_max_right 1 hlater)⟩

/-- The smallest base and the largest maximum, which is odd. -/
theorem retry_cap_exact_largest : ∃ turns, capDelay 64 64 1 maxInt64 = some (maxInt64, turns) ∧
    turns.length ≤ 63 := by
  have hattempt : (64 : Int) ≤ maxInt64 := by decide
  obtain ⟨⟨turns, hcap, hlength, -⟩, -⟩ := retry_cap_exact hattempt one_pos
    (by decide : (1 : Int) ≤ maxInt64) le_rfl (le_refl 64)
  exact ⟨turns, hcap, hlength⟩

end

end Emitlane.Consumer
