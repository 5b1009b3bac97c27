import Mathlib.Data.Int.Log
import Mathlib.Data.Rat.Floor
import Mathlib.Tactic.FieldSimp
import Mathlib.Tactic.Linarith
import Mathlib.Tactic.NormNum
import Mathlib.Tactic.Positivity
import Mathlib.Tactic.Ring

/-!
# Binary64 — rounding to float64

A finite float64 is the rational number it stands for (`IsFloat`), and an operation gives the exact result rounded to
nearest, ties to even (`fl`).  Numbers of 2^1024 and more, which overflow to infinity, are not treated.

* `fl_mono`, `fl_eq`: rounding is monotone and keeps floats, so a float on one side of a number stays on that side of
  its rounding (`fl_le`, `le_fl`).
* `abs_fl_sub_le`: in the normal range the relative error is at most 2^-53.
* `toInt64`: the conversion of a float64 to int64.
* `Value`: a float64 that may be infinite or NaN, with the comparison that a NaN always fails.
-/

namespace Binary64

/-! ## Ties to even -/

def roundEven (q : ℚ) : ℤ :=
  if 2 * (q - ⌊q⌋) < 1 then ⌊q⌋
  else if 1 < 2 * (q - ⌊q⌋) then ⌊q⌋ + 1
  else if ⌊q⌋ % 2 = 0 then ⌊q⌋ else ⌊q⌋ + 1

theorem roundEven_bounds (q : ℚ) : ⌊q⌋ ≤ roundEven q ∧ roundEven q ≤ ⌊q⌋ + 1 := by
  unfold roundEven
  split_ifs <;> omega

theorem roundEven_intCast (n : ℤ) : roundEven n = n := by
  unfold roundEven
  rw [Int.floor_intCast, if_pos (by norm_num)]

theorem roundEven_mono {q q' : ℚ} (h : q ≤ q') : roundEven q ≤ roundEven q' := by
  have hfloor : ⌊q⌋ ≤ ⌊q'⌋ := Int.floor_mono h
  rcases hfloor.lt_or_eq with hlt | heq
  · have h1 := (roundEven_bounds q).2
    have h2 := (roundEven_bounds q').1
    omega
  · unfold roundEven
    rw [heq]
    split_ifs <;> first | omega | linarith

theorem abs_roundEven_sub_le (q : ℚ) : |(roundEven q : ℚ) - q| ≤ 1 / 2 := by
  have h0 := Int.floor_le q
  have h1 := Int.lt_floor_add_one q
  rw [abs_le]
  unfold roundEven
  split_ifs <;> push_cast <;> constructor <;> linarith

theorem roundEven_le {q : ℚ} {n : ℤ} (h : q ≤ n) : roundEven q ≤ n := by
  have := roundEven_mono h
  rwa [roundEven_intCast] at this

theorem le_roundEven {q : ℚ} {n : ℤ} (h : (n : ℚ) ≤ q) : n ≤ roundEven q := by
  have := roundEven_mono h
  rwa [roundEven_intCast] at this

/-! ## Rounding -/

/-- The exponent of the last place: 53 significant bits, or fewer below the normal range. -/
def ulpExp (q : ℚ) : ℤ := max (Int.log 2 |q| - 52) (-1074)

def ulp (q : ℚ) : ℚ := 2 ^ ulpExp q

def fl (q : ℚ) : ℚ := roundEven (q / ulp q) * ulp q

/-- The value of a finite float64. -/
def IsFloat (q : ℚ) : Prop := ∃ m e : ℤ, |m| ≤ 2 ^ 53 ∧ -1074 ≤ e ∧ q = m * 2 ^ e

theorem ulp_pos (q : ℚ) : 0 < ulp q := zpow_pos two_pos _

theorem isFloat_intCast {n : ℤ} (h : |n| ≤ 2 ^ 53) : IsFloat n := ⟨n, 0, h, by norm_num, by simp⟩

theorem isFloat_two_pow (k : ℕ) : IsFloat (2 ^ k) :=
  ⟨1, k, by norm_num, by omega, by rw [Int.cast_one, one_mul, zpow_natCast]⟩

/-- Scaling by a power of two is exact. -/
theorem IsFloat.mul_two_pow {q : ℚ} (h : IsFloat q) (k : ℕ) : IsFloat (q * 2 ^ k) := by
  obtain ⟨m, e, hm, he, rfl⟩ := h
  refine ⟨m, e + k, hm, by omega, ?_⟩
  rw [zpow_add₀ two_ne_zero, zpow_natCast]
  ring

theorem two_zpow_log_le {q : ℚ} (h : 0 < q) : (2 : ℚ) ^ Int.log 2 q ≤ q := by
  exact_mod_cast Int.zpow_log_le_self (R := ℚ) Nat.one_lt_two h

theorem lt_two_zpow_log {q : ℚ} : q < (2 : ℚ) ^ (Int.log 2 q + 1) := by
  exact_mod_cast Int.lt_zpow_succ_log_self (R := ℚ) Nat.one_lt_two q

/-- A power of two that is a whole number of places. -/
theorem two_zpow_div_ulp {q : ℚ} {k : ℤ} (h : ulpExp q ≤ k) :
    (2 : ℚ) ^ k / ulp q = ((2 : ℤ) ^ (k - ulpExp q).toNat : ℤ) := by
  unfold ulp
  rw [← zpow_sub₀ two_ne_zero, Int.cast_pow, Int.cast_ofNat, ← zpow_natCast, Int.toNat_of_nonneg (by omega)]

theorem div_ulp_lt {q : ℚ} (h : 0 < q) : q / ulp q < 2 ^ 53 := by
  rw [div_lt_iff₀ (ulp_pos q)]
  have hlog := lt_two_zpow_log (q := q)
  have hexp : Int.log 2 q + 1 ≤ 53 + ulpExp q := by
    have := le_max_left (Int.log 2 |q| - 52) (-1074)
    rw [abs_of_pos h] at this
    unfold ulpExp
    rw [abs_of_pos h]
    omega
  calc q < 2 ^ (Int.log 2 q + 1) := hlog
    _ ≤ 2 ^ (53 + ulpExp q) := zpow_le_zpow_right₀ (by norm_num) hexp
    _ = 2 ^ 53 * ulp q := by
      unfold ulp
      rw [zpow_add₀ two_ne_zero]
      norm_num

theorem fl_zero : fl 0 = 0 := by
  unfold fl
  rw [zero_div]
  have : roundEven 0 = 0 := by exact_mod_cast roundEven_intCast 0
  rw [this, Int.cast_zero, zero_mul]

theorem fl_nonneg {q : ℚ} (h : 0 ≤ q) : 0 ≤ fl q := by
  have hdiv : ((0 : ℤ) : ℚ) ≤ q / ulp q := by
    rw [Int.cast_zero]
    exact div_nonneg h (ulp_pos q).le
  have hround : (0 : ℚ) ≤ roundEven (q / ulp q) := by exact_mod_cast le_roundEven hdiv
  exact mul_nonneg hround (ulp_pos q).le

theorem isFloat_fl {q : ℚ} (h : 0 ≤ q) : IsFloat (fl q) := by
  rcases h.eq_or_lt with rfl | hpos
  · rw [fl_zero]
    exact_mod_cast isFloat_intCast (n := 0) (by norm_num)
  · refine ⟨roundEven (q / ulp q), ulpExp q, ?_, le_max_right _ _, rfl⟩
    have hdiv : ((0 : ℤ) : ℚ) ≤ q / ulp q := by
      rw [Int.cast_zero]
      exact div_nonneg h (ulp_pos q).le
    have hlt : q / ulp q ≤ ((2 ^ 53 : ℤ) : ℚ) := by
      push_cast
      exact (div_ulp_lt hpos).le
    rw [abs_of_nonneg (le_roundEven hdiv)]
    exact roundEven_le hlt

/-- The significand may be taken below 2^53. -/
theorem IsFloat.lt {q : ℚ} (h : IsFloat q) : ∃ m e : ℤ, |m| < 2 ^ 53 ∧ -1074 ≤ e ∧ q = m * 2 ^ e := by
  obtain ⟨m, e, hm, he, rfl⟩ := h
  rcases hm.lt_or_eq with hlt | heq
  · exact ⟨m, e, hlt, he, rfl⟩
  · rcases (abs_eq (by norm_num)).mp heq with rfl | rfl
    · refine ⟨2 ^ 52, e + 1, by norm_num, by omega, ?_⟩
      rw [zpow_add₀ two_ne_zero]
      push_cast
      ring
    · refine ⟨-2 ^ 52, e + 1, by norm_num, by omega, ?_⟩
      rw [zpow_add₀ two_ne_zero]
      push_cast
      ring

/-- Rounding keeps floats. -/
theorem fl_eq {q : ℚ} (h : IsFloat q) : fl q = q := by
  obtain ⟨m, e, hm, he, hq⟩ := h.lt
  rcases eq_or_ne q 0 with rfl | hne
  · exact fl_zero
  · -- the last place of the number is not above the last place of `m`
    have hpe : (0 : ℚ) < 2 ^ e := zpow_pos two_pos e
    have hlog : Int.log 2 |q| < 53 + e := by
      have hbound : |q| < ((2 : ℕ) : ℚ) ^ (53 + e) := by
        have hm : |(m : ℚ)| < 2 ^ (53 : ℤ) := by exact_mod_cast hm
        rw [hq, abs_mul, abs_of_pos hpe, Nat.cast_ofNat, zpow_add₀ two_ne_zero]
        exact mul_lt_mul_of_pos_right hm hpe
      exact (Int.lt_zpow_iff_log_lt Nat.one_lt_two (abs_pos.mpr hne)).mp hbound
    have hle : ulpExp q ≤ e := max_le (by omega) he
    have hwhole : q / ulp q = (m * 2 ^ (e - ulpExp q).toNat : ℤ) := by
      rw [Int.cast_mul, ← two_zpow_div_ulp hle, ← mul_div_assoc, ← hq]
    unfold fl
    rw [hwhole, roundEven_intCast, ← hwhole, div_mul_cancel₀ _ (ulp_pos q).ne']

theorem fl_mono {q q' : ℚ} (h0 : 0 ≤ q) (h : q ≤ q') : fl q ≤ fl q' := by
  rcases h0.eq_or_lt with rfl | hpos
  · rw [fl_zero]
    exact fl_nonneg h
  · have hpos' : 0 < q' := hpos.trans_le h
    have hlog : Int.log 2 |q| ≤ Int.log 2 |q'| := by
      rw [abs_of_pos hpos, abs_of_pos hpos']
      exact Int.log_mono_right hpos h
    have hexp : ulpExp q ≤ ulpExp q' := max_le_max (by omega) le_rfl
    rcases hexp.lt_or_eq with hlt | heq
    · -- a power of two lies between the two numbers, and is a whole number of places for both
      have hq' : ulpExp q' = Int.log 2 |q'| - 52 := by
        unfold ulpExp at hlt ⊢
        omega
      have hlt' : Int.log 2 |q| < Int.log 2 |q'| := by
        unfold ulpExp at hlt hq'
        omega
      rw [abs_of_pos hpos, abs_of_pos hpos'] at hlt'
      rw [abs_of_pos hpos'] at hq'
      have hmid : q ≤ 2 ^ Int.log 2 q' :=
        lt_two_zpow_log.le.trans (zpow_le_zpow_right₀ (by norm_num) (by omega))
      have hmid' : (2 : ℚ) ^ Int.log 2 q' ≤ q' := two_zpow_log_le hpos'
      have hleft : fl q ≤ 2 ^ Int.log 2 q' := by
        have hdiv := two_zpow_div_ulp (q := q) (k := Int.log 2 q') (by omega)
        have hround : roundEven (q / ulp q) ≤ 2 ^ (Int.log 2 q' - ulpExp q).toNat := by
          refine roundEven_le ?_
          rw [← hdiv]
          exact (div_le_div_iff_of_pos_right (ulp_pos q)).mpr hmid
        have hround : (roundEven (q / ulp q) : ℚ) ≤ 2 ^ Int.log 2 q' / ulp q := by
          rw [hdiv]
          exact_mod_cast hround
        exact (le_div_iff₀ (ulp_pos q)).mp hround
      have hright : (2 : ℚ) ^ Int.log 2 q' ≤ fl q' := by
        have hdiv := two_zpow_div_ulp (q := q') (k := Int.log 2 q') (by omega)
        have hround : 2 ^ (Int.log 2 q' - ulpExp q').toNat ≤ roundEven (q' / ulp q') := by
          refine le_roundEven ?_
          rw [← hdiv]
          exact (div_le_div_iff_of_pos_right (ulp_pos q')).mpr hmid'
        have hround : (2 : ℚ) ^ Int.log 2 q' / ulp q' ≤ roundEven (q' / ulp q') := by
          rw [hdiv]
          exact_mod_cast hround
        exact (div_le_iff₀ (ulp_pos q')).mp hround
      exact hleft.trans hright
    · have hulp : ulp q = ulp q' := by unfold ulp; rw [heq]
      unfold fl
      rw [hulp]
      refine mul_le_mul_of_nonneg_right ?_ (ulp_pos q').le
      exact_mod_cast roundEven_mono ((div_le_div_iff_of_pos_right (ulp_pos q')).mpr h)

theorem fl_le {q y : ℚ} (h0 : 0 ≤ q) (hy : IsFloat y) (h : q ≤ y) : fl q ≤ y := by
  have := fl_mono h0 h
  rwa [fl_eq hy] at this

theorem le_fl {q y : ℚ} (h0 : 0 ≤ y) (hy : IsFloat y) (h : y ≤ q) : y ≤ fl q := by
  have := fl_mono h0 h
  rwa [fl_eq hy] at this

theorem abs_fl_sub_le {q : ℚ} (h : 2 ^ (-1022 : ℤ) ≤ q) : |fl q - q| ≤ q / 2 ^ 53 := by
  have hpos : 0 < q := (zpow_pos two_pos _).trans_le h
  have hexp : ulpExp q = Int.log 2 q - 52 := by
    have hlog : (-1022 : ℤ) ≤ Int.log 2 q :=
      (Int.zpow_le_iff_le_log Nat.one_lt_two hpos).mp (by exact_mod_cast h)
    unfold ulpExp
    rw [abs_of_pos hpos]
    omega
  have hsplit : fl q - q = (roundEven (q / ulp q) - q / ulp q) * ulp q := by
    rw [sub_mul, div_mul_cancel₀ _ (ulp_pos q).ne']
    rfl
  rw [hsplit, abs_mul, abs_of_pos (ulp_pos q)]
  have hulp : ulp q * 2 ^ 52 ≤ q := by
    calc ulp q * 2 ^ 52 = 2 ^ Int.log 2 q := by
          unfold ulp
          rw [hexp, zpow_sub₀ two_ne_zero]
          norm_num
      _ ≤ q := two_zpow_log_le hpos
  calc |(roundEven (q / ulp q) : ℚ) - q / ulp q| * ulp q ≤ 1 / 2 * ulp q :=
        mul_le_mul_of_nonneg_right (abs_roundEven_sub_le _) (ulp_pos q).le
    _ ≤ q / 2 ^ 53 := by
      rw [le_div_iff₀ (by norm_num)]
      linarith

/-- An integer is rounded to an integer. -/
theorem fl_intCast (n : ℤ) : ∃ k : ℤ, fl n = k := by
  by_cases hexp : ulpExp n ≤ 0
  · -- at most 53 bits
    have hlog : Int.log 2 |(n : ℚ)| ≤ 52 := by
      have := le_max_left (Int.log 2 |(n : ℚ)| - 52) (-1074)
      unfold ulpExp at hexp
      omega
    have hlt : |(n : ℚ)| < 2 ^ (53 : ℤ) :=
      lt_two_zpow_log.trans_le (zpow_le_zpow_right₀ (by norm_num) (by omega))
    have hlt : |n| ≤ 2 ^ 53 := by exact_mod_cast hlt.le
    exact ⟨n, fl_eq (isFloat_intCast hlt)⟩
  · refine ⟨roundEven (n / ulp n) * 2 ^ (ulpExp n).toNat, ?_⟩
    have hulp : ulp n = 2 ^ (ulpExp n).toNat := by
      unfold ulp
      rw [← zpow_natCast, Int.toNat_of_nonneg (by omega)]
    unfold fl
    rw [Int.cast_mul, Int.cast_pow, Int.cast_ofNat, ← hulp]

/-- A float below 1 leaves room for one more rounding. -/
theorem IsFloat.le_of_lt_one {q : ℚ} (h : IsFloat q) (hlt : q < 1) : q ≤ 1 - 1 / 2 ^ 53 := by
  obtain ⟨m, e, hm, he, rfl⟩ := h
  by_contra hnot
  have hnot : 1 - 1 / 2 ^ 53 < (m : ℚ) * 2 ^ e := not_le.mp hnot
  have hm1 : (m : ℚ) ≤ 2 ^ 53 := by exact_mod_cast (le_abs_self m).trans hm
  have hpe : (0 : ℚ) < 2 ^ e := zpow_pos two_pos e
  -- the exponent is -53 or more, so the number is a multiple of 2^-53
  have hexp : -53 ≤ e := by
    by_contra hlow
    have hle : (2 : ℚ) ^ e ≤ 2 ^ (-54 : ℤ) := zpow_le_zpow_right₀ (by norm_num) (by omega)
    have h54 : (2 : ℚ) ^ (-54 : ℤ) = 1 / 2 ^ 54 := by norm_num
    rw [h54] at hle
    nlinarith
  have hint : ∃ n : ℤ, (m : ℚ) * 2 ^ e * 2 ^ 53 = n := by
    refine ⟨m * 2 ^ (e + 53).toNat, ?_⟩
    rw [mul_assoc, Int.cast_mul, Int.cast_pow, Int.cast_ofNat, ← zpow_natCast, ← zpow_natCast,
      ← zpow_add₀ two_ne_zero, Int.toNat_of_nonneg (by omega)]
    norm_num
  obtain ⟨n, hn⟩ := hint
  have h1 : (n : ℚ) < 2 ^ 53 := by rw [← hn]; linarith
  have h2 : (2 : ℚ) ^ 53 - 1 < n := by rw [← hn]; linarith
  have h1 : n < 2 ^ 53 := by exact_mod_cast h1
  have h2 : (2 : ℤ) ^ 53 - 1 < n := by exact_mod_cast h2
  omega

/-- A sum that misses 1 by no more than half a place above it is rounded to 1 at most. -/
theorem fl_le_one {q : ℚ} (h0 : 0 ≤ q) (h : q ≤ 1 + 1 / 2 ^ 53) : fl q ≤ 1 := by
  have hlog : Int.log 2 |(1 + 1 / 2 ^ 53 : ℚ)| = 0 := by
    rw [abs_of_pos (by norm_num)]
    have hlow : (0 : ℤ) ≤ Int.log 2 (1 + 1 / 2 ^ 53 : ℚ) :=
      (Int.zpow_le_iff_le_log Nat.one_lt_two (by norm_num)).mp (by norm_num)
    have hhigh : Int.log 2 (1 + 1 / 2 ^ 53 : ℚ) < 1 :=
      (Int.lt_zpow_iff_log_lt Nat.one_lt_two (by norm_num)).mp (by norm_num)
    omega
  have hexp : ulpExp (1 + 1 / 2 ^ 53) = -52 := by
    unfold ulpExp
    rw [hlog]
    rfl
  have hdiv : (1 + 1 / 2 ^ 53 : ℚ) / ulp (1 + 1 / 2 ^ 53) = 2 ^ 52 + 1 / 2 := by
    unfold ulp
    rw [hexp]
    norm_num
  -- the tie goes to the even significand
  have hround : roundEven (2 ^ 52 + 1 / 2) = 2 ^ 52 := by
    have hfloor : ⌊(2 ^ 52 + 1 / 2 : ℚ)⌋ = 2 ^ 52 := by
      rw [Int.floor_eq_iff]
      norm_num
    unfold roundEven
    rw [hfloor]
    norm_num
  have htie : fl (1 + 1 / 2 ^ 53) = 1 := by
    unfold fl
    rw [hdiv, hround]
    unfold ulp
    rw [hexp]
    norm_num
  exact htie ▸ fl_mono h0 h

/-- A float in [0, 1) times a float of at least 1 is rounded to less than the latter. -/
theorem fl_mul_lt {f c : ℚ} (hf : IsFloat f) (h0 : 0 ≤ f) (h1 : f < 1) (hc : 1 ≤ c) : fl (f * c) < c := by
  have hle := hf.le_of_lt_one h1
  by_cases hnormal : (2 : ℚ) ^ (-1022 : ℤ) ≤ f * c
  · have herr := (abs_le.mp (abs_fl_sub_le hnormal)).2
    have hprod : f * c ≤ (1 - 1 / 2 ^ 53) * c := mul_le_mul_of_nonneg_right hle (by linarith)
    have hfl : fl (f * c) ≤ f * c * (1 + 1 / 2 ^ 53) := by linarith
    have hbound : f * c * (1 + 1 / 2 ^ 53) ≤ (1 - 1 / 2 ^ 53) * c * (1 + 1 / 2 ^ 53) :=
      mul_le_mul_of_nonneg_right hprod (by norm_num)
    nlinarith
  · have hsmall : f * c ≤ 1 / 2 := by
      have hle : (2 : ℚ) ^ (-1022 : ℤ) ≤ 2 ^ (-1 : ℤ) := zpow_le_zpow_right₀ (by norm_num) (by norm_num)
      have hhalf : (2 : ℚ) ^ (-1 : ℤ) = 1 / 2 := by norm_num
      exact (not_le.mp hnormal).le.trans (hle.trans hhalf.le)
    have hhalf : IsFloat (1 / 2) := ⟨1, -1, by norm_num, by norm_num, by norm_num⟩
    have := fl_le (mul_nonneg h0 (by linarith)) hhalf hsmall
    linarith

/-! ## Conversion to int64 -/

/-- Toward zero. -/
def trunc (q : ℚ) : ℤ := if 0 ≤ q then ⌊q⌋ else ⌈q⌉

/-- `int64(q)`; out of range the language leaves the result open (`other`). -/
def toInt64 (other : ℚ → ℤ) (q : ℚ) : ℤ :=
  if -2 ^ 63 ≤ trunc q ∧ trunc q ≤ 2 ^ 63 - 1 then trunc q else other q

theorem toInt64_of_nonneg {other : ℚ → ℤ} {q : ℚ} (h0 : 0 ≤ q) (h : q < 2 ^ 63) :
    toInt64 other q = ⌊q⌋ := by
  have htrunc : trunc q = ⌊q⌋ := if_pos h0
  have hlt : ⌊q⌋ < 2 ^ 63 := by
    rw [Int.floor_lt]
    exact_mod_cast h
  have hnonneg : 0 ≤ ⌊q⌋ := Int.floor_nonneg.mpr h0
  unfold toInt64
  rw [htrunc, if_pos (by omega)]

/-! ## Infinities and NaN -/

/-- A float64; its two zeros are one here. -/
inductive Value
  | finite (q : ℚ) (h : IsFloat q)
  | infinite (negative : Bool)
  | nan
  deriving DecidableEq

namespace Value

theorem isFloat_zero : IsFloat 0 := ⟨0, 0, by norm_num, by norm_num, by norm_num⟩

theorem isFloat_one : IsFloat 1 := ⟨1, 0, by norm_num, by norm_num, by norm_num⟩

def zero : Value := finite 0 isFloat_zero

def one : Value := finite 1 isFloat_one

/-- `x < y`. -/
def lt : Value → Value → Bool
  | finite p _, finite q _ => p < q
  | finite _ _, infinite negative => !negative
  | infinite negative, finite _ _ => negative
  | infinite negative, infinite negative' => negative && !negative'
  | nan, _ => false
  | _, nan => false

/-- A range check made of two comparisons lets NaN through. -/
theorem in_unit {x : Value} (h : (x.lt zero || one.lt x) = false) :
    x = nan ∨ ∃ q hq, x = finite q hq ∧ 0 ≤ q ∧ q ≤ 1 := by
  cases x with
  | nan => exact .inl rfl
  | infinite negative => cases negative <;> cases h
  | finite q hq =>
    simp only [lt, zero, one, Bool.or_eq_false_iff, decide_eq_false_iff_not, not_lt] at h
    exact .inr ⟨q, hq, rfl, h⟩

end Value

end Binary64
