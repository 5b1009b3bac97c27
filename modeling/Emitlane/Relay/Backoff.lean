import Emitlane.Lib.Binary64
import Emitlane.System.Next

/-!
# Relay.Backoff — the delay before the next attempt (`relay/retry.go`)

The cap `min(maxDelay, baseDelay * 2^(attempt-1))` is computed in float64 to keep clear of an int64 overflow, and the
jitter scales it by a random number of [0, 1).  `other` is what the conversion of a float64 outside the range of int64
gives; no result depends on it.

Two comparisons carry the rounding.  `pow < maxFactor` was tested with a rounded quotient, but `pow` is a float, so the
exact quotient is above it as well, and the product `base * pow`, which is exact up to the rounding of `base`, stays
below the rounded maximum and with it at most the maximum itself.  A jitter below 1 scales a float to a smaller float.
-/

namespace Emitlane.Relay

open Binary64

/-- `cappedExp`. -/
def cappedExp (other : ℚ → ℤ) (attempt base maxDelay : Int) : Int :=
  if base ≤ 0 then 0
  else if maxDelay < base then maxDelay
  else if attempt ≤ 0 then (if maxDelay < base then maxDelay else base)
  else if 62 < attempt then maxDelay
  else
    let maxFactor := fl (fl maxDelay / fl base)
    let pow : ℚ := 2 ^ attempt.toNat
    if maxFactor ≤ pow then maxDelay else toInt64 other (fl (fl base * pow))

/-- `delay`; `rnd` is what `rnd.Float64()` returns, `none` a nil source. -/
def delay (other : ℚ → ℤ) (attempt base maxDelay : Int) (rnd : Option ℚ) : Int :=
  let attempt := if attempt < 1 then 1 else attempt
  let capDelay := cappedExp other (attempt - 1) base maxDelay
  if capDelay ≤ 0 then 0
  else
    let f := rnd.getD 0
    let f := if f < 0 then 0 else f
    let f := if 1 < f then 1 else f
    toInt64 other (fl (f * fl capDelay))

/-! ## The cap -/

section Cap

variable {other : ℚ → ℤ} {attempt base maxDelay : Int}

/-- `base * 2^attempt` cut at the maximum. -/
def exponential (attempt base maxDelay : Int) : Int := min maxDelay (base * 2 ^ attempt.toNat)

/-- No int64 is above the 63rd doubling. -/
theorem le_mul_two_pow_of_last (hbase : 0 < base) (hmax : maxDelay ≤ maxInt64) (h : 62 < attempt) :
    maxDelay ≤ base * 2 ^ attempt.toNat := by
  have hpow : (2 : ℤ) ^ 63 ≤ 2 ^ attempt.toNat := pow_le_pow_right₀ (by norm_num) (by omega)
  have hmul : (1 : ℤ) * 2 ^ attempt.toNat ≤ base * 2 ^ attempt.toNat :=
    mul_le_mul_of_nonneg_right (by omega) (by positivity)
  unfold maxInt64 at hmax
  omega

theorem one_le_fl {n : ℤ} (h : 0 < n) : (1 : ℚ) ≤ fl n := by
  have hone : IsFloat 1 := by exact_mod_cast isFloat_intCast (n := 1) (by norm_num)
  exact le_fl (by norm_num) hone (by exact_mod_cast h)

/-- A duration is in the normal range. -/
theorem fl_bounds {q : ℚ} (h : 1 ≤ q) : q - q / 2 ^ 53 ≤ fl q ∧ fl q ≤ q + q / 2 ^ 53 := by
  have hnormal : (2 : ℚ) ^ (-1022 : ℤ) ≤ q := by
    refine le_trans ?_ h
    exact zpow_le_one_of_nonpos₀ (by norm_num) (by norm_num)
  have herr := abs_le.mp (abs_fl_sub_le hnormal)
  constructor <;> linarith

/-- Below the factor the product with the power of two is exact, and at most the maximum. -/
theorem fl_mul_pow_le (hbase : 0 < base) (hle : base ≤ maxDelay) {a : ℕ}
    (ha : (2 : ℚ) ^ a < fl (fl maxDelay / fl base)) : fl base * 2 ^ a ≤ maxDelay := by
  have hB := one_le_fl hbase
  have hM := one_le_fl (hbase.trans_le hle)
  have hquot : (2 : ℚ) ^ a < fl maxDelay / fl base := by
    by_contra hnot
    have := fl_le (div_nonneg (by linarith) (by linarith)) (isFloat_two_pow a) (not_lt.mp hnot)
    linarith
  rw [lt_div_iff₀ (by linarith)] at hquot
  have hprod : IsFloat (fl base * 2 ^ a) := (isFloat_fl (by exact_mod_cast hbase.le)).mul_two_pow a
  by_contra hnot
  have := fl_le (by exact_mod_cast (hbase.trans_le hle).le) hprod (not_le.mp hnot).le
  linarith

/-- What cappedExp returns on a valid configuration. -/
inductive Capped (attempt base maxDelay cap : Int) : Prop
  | first (h : attempt ≤ 0) (hcap : cap = base)
  | maximal (h : 62 < attempt ∨ (0 < attempt ∧ fl (fl maxDelay / fl base) ≤ 2 ^ attempt.toNat))
      (hcap : cap = maxDelay)
  | scaled (h : 0 < attempt ∧ attempt ≤ 62) (hpow : (2 : ℚ) ^ attempt.toNat < fl (fl maxDelay / fl base))
      (hcap : (cap : ℚ) = fl base * 2 ^ attempt.toNat)

theorem cappedExp_spec (hbase : 0 < base) (hle : base ≤ maxDelay) (hmax : maxDelay ≤ maxInt64) :
    Capped attempt base maxDelay (cappedExp other attempt base maxDelay) := by
  unfold cappedExp
  have hpos : ¬ base ≤ 0 := by omega
  have hord : ¬ maxDelay < base := by omega
  simp only [if_neg hpos, if_neg hord]
  by_cases hfirst : attempt ≤ 0
  · rw [if_pos hfirst]
    exact .first hfirst rfl
  · rw [if_neg hfirst]
    by_cases hlast : 62 < attempt
    · rw [if_pos hlast]
      exact .maximal (.inl hlast) rfl
    · rw [if_neg hlast]
      split_ifs with hpow
      · exact .maximal (.inr ⟨by omega, hpow⟩) rfl
      · have hpow := not_le.mp hpow
        have hB := one_le_fl hbase
        have hprod : IsFloat (fl base * 2 ^ attempt.toNat) :=
          (isFloat_fl (by exact_mod_cast hbase.le)).mul_two_pow _
        have hbound := fl_mul_pow_le hbase hle hpow
        refine .scaled (by omega) hpow ?_
        have hnonneg : (0 : ℚ) ≤ fl base * 2 ^ attempt.toNat := by positivity
        have hrange : fl base * 2 ^ attempt.toNat < 2 ^ 63 := by
          have hmax : (maxDelay : ℚ) ≤ 2 ^ 63 - 1 := by
            unfold maxInt64 at hmax
            exact_mod_cast hmax
          linarith
        obtain ⟨k, hk⟩ := fl_intCast base
        rw [fl_eq hprod, toInt64_of_nonneg hnonneg hrange, hk]
        have hint : (k : ℚ) * 2 ^ attempt.toNat = ((k * 2 ^ attempt.toNat : ℤ) : ℚ) := by push_cast; rfl
        rw [hint, Int.floor_intCast]

variable {cap : Int}

theorem Capped.bounds (h : Capped attempt base maxDelay cap) (hbase : 0 < base) (hle : base ≤ maxDelay) :
    0 < cap ∧ cap ≤ maxDelay := by
  cases h with
  | first _ hcap => omega
  | maximal _ hcap => omega
  | scaled h hpow hcap =>
    have hB := one_le_fl hbase
    have hpos : (0 : ℚ) < cap := by
      rw [hcap]
      positivity
    have hmax : (cap : ℚ) ≤ maxDelay := by
      rw [hcap]
      exact fl_mul_pow_le hbase hle hpow
    exact ⟨by exact_mod_cast hpos, by exact_mod_cast hmax⟩

/-- A later attempt has no smaller cap. -/
theorem Capped.mono {attempt' cap' : Int} (h : Capped attempt base maxDelay cap)
    (h' : Capped attempt' base maxDelay cap') (hbase : 0 < base) (hle : base ≤ maxDelay)
    (hatt : attempt ≤ attempt') : cap ≤ cap' := by
  have hbounds := h.bounds hbase hle
  cases h' with
  | first hfirst hcap' =>
    cases h with
    | first _ hcap => omega
    | maximal h _ => omega
    | scaled h _ _ => omega
  | maximal _ hcap' => omega
  | scaled hpos' hpow' hcap' =>
    have hB := one_le_fl hbase
    cases h with
    | first _ hcap =>
      have hhalf : (base : ℚ) ≤ fl base * 2 := by
        have := (fl_bounds (q := base) (by exact_mod_cast hbase)).1
        have hpos : (0 : ℚ) < base := by exact_mod_cast hbase
        linarith
      have htwo : (2 : ℚ) ≤ 2 ^ attempt'.toNat := le_self_pow₀ (by norm_num) (by omega)
      have hmul : fl (base : ℚ) * 2 ≤ fl base * 2 ^ attempt'.toNat := mul_le_mul_of_nonneg_left htwo (by linarith)
      have : (cap : ℚ) ≤ cap' := by
        rw [hcap, hcap']
        exact hhalf.trans hmul
      exact_mod_cast this
    | maximal h hcap =>
      have hpow : (2 : ℚ) ^ attempt.toNat ≤ 2 ^ attempt'.toNat := pow_le_pow_right₀ (by norm_num) (by omega)
      rcases h with h | ⟨-, h⟩
      · omega
      · linarith
    | scaled _ _ hcap =>
      have hpow : (2 : ℚ) ^ attempt.toNat ≤ 2 ^ attempt'.toNat := pow_le_pow_right₀ (by norm_num) (by omega)
      have : (cap : ℚ) ≤ cap' := by
        rw [hcap, hcap']
        exact mul_le_mul_of_nonneg_left hpow (by linarith)
      exact_mod_cast this

/-- The cap is the exponential one, up to the rounding of float64. -/
theorem Capped.close (h : Capped attempt base maxDelay cap) (hbase : 0 < base) (hle : base ≤ maxDelay)
    (hmax : maxDelay ≤ maxInt64) :
    |cap - exponential attempt base maxDelay| * 2 ^ 51 ≤ exponential attempt base maxDelay := by
  have hB := fl_bounds (q := base) (by exact_mod_cast hbase)
  have hM := fl_bounds (q := maxDelay) (by exact_mod_cast hbase.trans_le hle)
  have hB1 := one_le_fl hbase
  have hBpos : (0 : ℚ) < base := by exact_mod_cast hbase
  have hMB : fl (base : ℚ) ≤ fl maxDelay := fl_mono hBpos.le (by exact_mod_cast hle)
  unfold exponential
  cases h with
  | first h hcap =>
    have hzero : attempt.toNat = 0 := by omega
    rw [hzero, pow_zero, mul_one, min_eq_right hle, hcap, sub_self, abs_zero, zero_mul]
    exact hbase.le
  | maximal h hcap =>
    subst hcap
    rcases le_or_gt cap (base * 2 ^ attempt.toNat) with hbig | hsmall
    · rw [min_eq_left hbig, sub_self, abs_zero, zero_mul]
      omega
    · rw [min_eq_right hsmall.le, abs_of_pos (by omega)]
      rcases h with h | ⟨-, h⟩
      · exact absurd (le_mul_two_pow_of_last hbase hmax h) (by omega)
      · -- the quotient was rounded down to the power of two, or was below it
        have hquot : (1 : ℚ) ≤ fl cap / fl base := by
          rw [le_div_iff₀ (by linarith), one_mul]
          exact hMB
        have hq := (fl_bounds hquot).1.trans h
        have hmul : fl (cap : ℚ) * (1 - 1 / 2 ^ 53) ≤ fl base * 2 ^ attempt.toNat := by
          have hsplit : fl (cap : ℚ) / fl base - fl cap / fl base / 2 ^ 53 = fl cap * (1 - 1 / 2 ^ 53) / fl base := by
            ring
          rw [hsplit, div_le_iff₀ (by linarith)] at hq
          linarith
        have hN : fl (base : ℚ) * 2 ^ attempt.toNat ≤ base * 2 ^ attempt.toNat * (1 + 1 / 2 ^ 53) := by
          have hpow : (0 : ℚ) ≤ 2 ^ attempt.toNat := by positivity
          have := mul_le_mul_of_nonneg_right hB.2 hpow
          linarith
        have hfinal : ((cap : ℚ) - base * 2 ^ attempt.toNat) * 2 ^ 51 ≤ base * 2 ^ attempt.toNat := by
          have hcap : (0 : ℚ) < cap := by exact_mod_cast hbase.trans_le hle
          linarith
        exact_mod_cast hfinal
  | scaled h hpow hcap =>
    have hle' : (cap : ℚ) ≤ maxDelay := by
      rw [hcap]
      exact fl_mul_pow_le hbase hle hpow
    have hpow0 : (0 : ℚ) < 2 ^ attempt.toNat := by positivity
    have hlow : base * 2 ^ attempt.toNat * (1 - 1 / 2 ^ 53) ≤ (cap : ℚ) := by
      have := mul_le_mul_of_nonneg_right hB.1 hpow0.le
      rw [hcap]
      linarith
    have hhigh : (cap : ℚ) ≤ base * 2 ^ attempt.toNat * (1 + 1 / 2 ^ 53) := by
      have := mul_le_mul_of_nonneg_right hB.2 hpow0.le
      rw [hcap]
      linarith
    have hNpos : (0 : ℚ) < base * 2 ^ attempt.toNat := mul_pos hBpos hpow0
    rcases le_or_gt maxDelay (base * 2 ^ attempt.toNat) with hbig | hsmall
    · rw [min_eq_left hbig]
      have hfinal : |(cap : ℚ) - maxDelay| * 2 ^ 51 ≤ maxDelay := by
        have hbig : (maxDelay : ℚ) ≤ base * 2 ^ attempt.toNat := by exact_mod_cast hbig
        rw [abs_of_nonpos (by linarith)]
        linarith
      exact_mod_cast hfinal
    · rw [min_eq_right hsmall.le]
      have hfinal : |(cap : ℚ) - base * 2 ^ attempt.toNat| * 2 ^ 51 ≤ base * 2 ^ attempt.toNat := by
        have habs : |(cap : ℚ) - base * 2 ^ attempt.toNat| ≤ base * 2 ^ attempt.toNat / 2 ^ 53 := by
          rw [abs_le]
          constructor <;> linarith
        linarith
      exact_mod_cast hfinal

/-- Durations below 2^53 ns, about 104 days, are floats: the cap is exact. -/
theorem Capped.exact (h : Capped attempt base maxDelay cap) (hbase : 0 < base) (hle : base ≤ maxDelay)
    (hmax : maxDelay < 2 ^ 53) : cap = exponential attempt base maxDelay := by
  have hB : fl (base : ℚ) = base := fl_eq (isFloat_intCast (by rw [abs_of_pos hbase]; omega))
  have hM : fl (maxDelay : ℚ) = maxDelay := fl_eq (isFloat_intCast (by rw [abs_of_pos (by omega)]; omega))
  have hBpos : (0 : ℚ) < base := by exact_mod_cast hbase
  unfold exponential
  cases h with
  | first h hcap =>
    have hzero : attempt.toNat = 0 := by omega
    rw [hzero, pow_zero, mul_one, min_eq_right hle, hcap]
  | maximal h hcap =>
    subst hcap
    rcases le_or_gt cap (base * 2 ^ attempt.toNat) with hbig | hsmall
    · rw [min_eq_left hbig]
    · -- the quotient of two integers below 2^53 is not that close to a power of two
      exfalso
      rcases h with h | ⟨-, h⟩
      · have hrange : cap ≤ maxInt64 := by unfold maxInt64; omega
        exact absurd (le_mul_two_pow_of_last hbase hrange h) (by omega)
      · rw [hB, hM] at h
        have hquot : (1 : ℚ) ≤ cap / base := by
          rw [le_div_iff₀ hBpos, one_mul]
          exact_mod_cast hle
        have hq := (fl_bounds hquot).1.trans h
        have hsplit : (cap : ℚ) / base - cap / base / 2 ^ 53 = cap * (1 - 1 / 2 ^ 53) / base := by ring
        rw [hsplit, div_le_iff₀ hBpos] at hq
        have hnext : (base : ℚ) * 2 ^ attempt.toNat + 1 ≤ cap := by exact_mod_cast hsmall
        have hlt : (cap : ℚ) < 2 ^ 53 := by exact_mod_cast hmax
        linarith
  | scaled h hpow hcap =>
    have hcap' : cap = base * 2 ^ attempt.toNat := by
      rw [hB] at hcap
      exact_mod_cast hcap
    have hle' : cap ≤ maxDelay := by
      have := fl_mul_pow_le hbase hle hpow
      rw [← hcap] at this
      exact_mod_cast this
    rw [← hcap', min_eq_right hle']

end Cap

/-! ## The jitter -/

/-- What `rnd.Float64()` promises: a float of [0, 1). -/
def Sample (rnd : Option ℚ) : Prop := ∀ x, rnd = some x → IsFloat x ∧ x < 1

/-- The cap of `delay`. -/
def Config.capDelay (other : ℚ → ℤ) (c : Config) (attempt : Int) : Int :=
  cappedExp other ((if attempt < 1 then 1 else attempt) - 1) c.baseDelay c.maxDelay

/-- The delay onPublishFailure asks for. -/
def Config.delay (other : ℚ → ℤ) (c : Config) (attempt : Int) (rnd : Option ℚ) : Int :=
  Relay.delay other attempt c.baseDelay c.maxDelay rnd

theorem Config.Valid.delays {c : Config} (h : c.Valid) : 0 < c.baseDelay ∧ c.baseDelay ≤ c.maxDelay := by
  have h := h.passes
  simp only [Config.checks, List.forall_mem_cons, decide_eq_false_iff_not] at h
  obtain ⟨-, -, -, -, -, -, -, hbase, hmax, -⟩ := h
  exact ⟨by omega, by omega⟩

section Jitter

variable {other : ℚ → ℤ} {c : Config} {attempt : Int} {rnd : Option ℚ}

/-- The sample behind the two tests on its range. -/
theorem Sample.clamped (h : Sample rnd) :
    ∃ f, (if 1 < (if rnd.getD 0 < 0 then 0 else rnd.getD 0) then (1 : ℚ) else
      if rnd.getD 0 < 0 then 0 else rnd.getD 0) = f ∧ IsFloat f ∧ 0 ≤ f ∧ f < 1 := by
  have hzero : IsFloat 0 := by exact_mod_cast isFloat_intCast (n := 0) (by norm_num)
  cases rnd with
  | none => exact ⟨0, by norm_num, hzero, le_rfl, by norm_num⟩
  | some x =>
    obtain ⟨hx, hlt⟩ := h x rfl
    simp only [Option.getD_some]
    by_cases hneg : x < 0
    · exact ⟨0, by rw [if_pos hneg]; norm_num, hzero, le_rfl, by norm_num⟩
    · exact ⟨x, by rw [if_neg hneg, if_neg (by linarith)], hx, not_lt.mp hneg, hlt⟩

theorem Config.delay_range (hcap : 0 < c.capDelay other attempt) (hmax : c.capDelay other attempt ≤ maxInt64)
    (hrnd : Sample rnd) : 0 ≤ c.delay other attempt rnd ∧ c.delay other attempt rnd < c.capDelay other attempt := by
  obtain ⟨f, hf, hfloat, hf0, hf1⟩ := hrnd.clamped
  have hC := one_le_fl hcap
  have hdelay : c.delay other attempt rnd = toInt64 other (fl (f * fl (c.capDelay other attempt))) := by
    unfold Config.delay Relay.delay
    rw [← hf]
    exact if_neg (not_le.mpr hcap)
  have hnonneg : 0 ≤ fl (f * fl (c.capDelay other attempt)) := fl_nonneg (mul_nonneg hf0 (by linarith))
  -- the product is a float below the rounded cap, so it is below the cap as well
  have hlt : fl (f * fl (c.capDelay other attempt)) < c.capDelay other attempt := by
    by_contra hnot
    have hy := isFloat_fl (mul_nonneg hf0 (by linarith : (0 : ℚ) ≤ fl (c.capDelay other attempt)))
    have hle := fl_le (by exact_mod_cast hcap.le) hy (not_lt.mp hnot)
    have hless := fl_mul_lt hfloat hf0 hf1 hC
    linarith
  have hrange : fl (f * fl (c.capDelay other attempt)) < 2 ^ 63 := by
    have hmax : ((c.capDelay other attempt : ℤ) : ℚ) ≤ 2 ^ 63 - 1 := by
      unfold maxInt64 at hmax
      exact_mod_cast hmax
    linarith
  rw [hdelay, toInt64_of_nonneg hnonneg hrange]
  exact ⟨Int.floor_nonneg.mpr hnonneg, Int.floor_lt.mpr hlt⟩

/-- The row that is tried again. -/
theorem onPublishFailure_retried {db db' : Db} {now d : Int} {ctxDone : Bool} {ev : RelayEvent} {err : PublishError}
    (h : onPublishFailure c db now ctxDone ev err d = some (.retried, .ok db')) :
    ∃ row, db'.row ev.id = some row ∧ row.status = .pending ∧ row.availableAt = addMS now (intervalMS d) := by
  unfold onPublishFailure at h
  split_ifs at h
  · cases h
  · have hok : markRetry c db now ev d err.text = .ok db' := (Prod.mk.inj (Option.some.inj h)).2
    obtain ⟨r, hheld, ht⟩ := mark_ok (isOrdered ev) hok
    have hid : ev.id = r.id := (EventRow.heldBy_iff.mp hheld).1.symm
    refine ⟨r.progress (reschedule now d err.text), ?_, rfl, rfl⟩
    rw [ht.row, if_pos hid]

/-- The backoff of a relay with a valid configuration.  The cap never falls from one attempt to the next, stays between
1 ns and the maximum, and is `min(maxDelay, baseDelay * 2^(attempt-1))`, exactly for a maximum below 2^53 ns and up to
one part in 2^51 otherwise; the delay is at least 0 and below the cap; and an event that is tried again becomes
available not before now and less than the cap and a millisecond later. -/
theorem retry_backoff (hc : c.Valid) (hmax : c.maxDelay ≤ maxInt64) :
    (∀ attempt, 1 ≤ attempt → 0 < c.capDelay other attempt ∧ c.capDelay other attempt ≤ c.maxDelay ∧
      |c.capDelay other attempt - exponential (attempt - 1) c.baseDelay c.maxDelay| * 2 ^ 51 ≤
        exponential (attempt - 1) c.baseDelay c.maxDelay ∧
      (c.maxDelay < 2 ^ 53 →
        c.capDelay other attempt = exponential (attempt - 1) c.baseDelay c.maxDelay)) ∧
    (∀ attempt attempt', attempt ≤ attempt' → c.capDelay other attempt ≤ c.capDelay other attempt') ∧
    (∀ attempt rnd, Sample rnd →
      0 ≤ c.delay other attempt rnd ∧ c.delay other attempt rnd < c.capDelay other attempt) ∧
    ∀ db db' now ctxDone ev err rnd, Sample rnd →
      onPublishFailure c db now ctxDone ev err (c.delay other ev.attempts rnd) = some (.retried, .ok db') →
      ∃ row, db'.row ev.id = some row ∧ row.status = .pending ∧ now ≤ row.availableAt ∧
        (row.availableAt - now) * 1000 < c.capDelay other ev.attempts + millisecond := by
  obtain ⟨hbase, hle⟩ := hc.delays
  have hspec : ∀ attempt, Capped ((if attempt < 1 then 1 else attempt) - 1) c.baseDelay c.maxDelay
      (c.capDelay other attempt) := fun _ => cappedExp_spec hbase hle hmax
  have hrange : ∀ attempt rnd, Sample rnd →
      0 ≤ c.delay other attempt rnd ∧ c.delay other attempt rnd < c.capDelay other attempt := by
    intro attempt rnd hrnd
    have hbounds := (hspec attempt).bounds hbase hle
    exact Config.delay_range hbounds.1 (hbounds.2.trans hmax) hrnd
  refine ⟨fun attempt hatt => ?_, fun attempt attempt' hatt => ?_, hrange, ?_⟩
  · have h := hspec attempt
    rw [if_neg (by omega)] at h
    have hbounds := h.bounds hbase hle
    exact ⟨hbounds.1, hbounds.2, h.close hbase hle hmax, h.exact hbase hle⟩
  · refine (hspec attempt).mono (hspec attempt') hbase hle ?_
    split_ifs <;> omega
  · intro db db' now ctxDone ev err rnd hrnd hretried
    obtain ⟨hnonneg, hlt⟩ := hrange ev.attempts rnd hrnd
    obtain ⟨row, hrow, hstatus, havail⟩ := onPublishFailure_retried hretried
    refine ⟨row, hrow, hstatus, ?_, ?_⟩
    · have := intervalMS_nonneg (c.delay other ev.attempts rnd)
      rw [havail, addMS]
      omega
    · rw [havail]
      unfold addMS intervalMS millisecond at *
      split_ifs <;> omega

/-- The fifth attempt with the default settings: a cap of 16 s. -/
def exampleBackoff : Config := { defaultConfig with instanceID := "relay-a" }

theorem retry_backoff_fifth : exampleBackoff.Valid ∧ exampleBackoff.maxDelay ≤ maxInt64 ∧
    exampleBackoff.capDelay (fun _ => -1) 5 = 16 * second ∧
    0 ≤ exampleBackoff.delay (fun _ => -1) 5 (some (3 / 4)) ∧
    exampleBackoff.delay (fun _ => -1) 5 (some (3 / 4)) < 16 * second := by
  have hvalid : exampleBackoff.Valid := by decide +kernel
  have hmax : exampleBackoff.maxDelay ≤ maxInt64 := by decide
  obtain ⟨hcap, -, hdelay, -⟩ := @retry_backoff (fun _ => -1) exampleBackoff hvalid hmax
  have hfifth : exampleBackoff.capDelay (fun _ => -1) 5 = 16 * second :=
    (hcap 5 (by decide)).2.2.2 (by decide)
  have hsample : Sample (some (3 / 4)) := by
    rintro x hx
    obtain rfl := Option.some.inj hx
    exact ⟨⟨3, -2, by norm_num, by norm_num, by norm_num⟩, by norm_num⟩
  have hrange := hdelay 5 (some (3 / 4)) hsample
  rw [hfifth] at hrange
  exact ⟨hvalid, hmax, hfifth, hrange⟩

end Jitter

end Emitlane.Relay
