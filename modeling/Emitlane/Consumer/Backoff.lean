import Emitlane.Consumer.Retry
import Emitlane.Inbox.Store

/-!
# Consumer.Backoff — the jittered delay in float64 (`consumer/retry.go`)

`Consumer.Retry` is about the cap; here is the arithmetic behind it.  The factor `1 - jitter + jitter*sample` has three
roundings, or two where the compiler fuses the product with the sum (`fused`).  The roundings may carry the sum past 1,
but never by more than half a place, and the tie goes back to 1; so the delay never exceeds the cap.

The cap itself has to be a float for that: a maximum above 2^53 ns, about 104 days, may be rounded up by the
conversion, and past the range of int64.

A jitter that is NaN passes Validate.  The delay is then what the conversion of a NaN to int64 gives, which the language
leaves open.
-/

namespace Emitlane.Consumer

open Binary64

/-- The factor of a finite jitter. -/
def finiteFactor (fused : Bool) (jitter sample : ℚ) : ℚ :=
  let sample := if sample < 0 then 0 else sample
  let sample := if 1 < sample then 1 else sample
  if fused then fl (fl (1 - jitter) + jitter * sample) else fl (fl (1 - jitter) + fl (jitter * sample))

/-- `1 - jitter + jitter*sample`; `none` is NaN.  The two terms of an infinite jitter are opposite infinities, or one of
them is NaN. -/
def jitterFactor (fused : Bool) (jitter : Value) (sample : ℚ) : Option ℚ :=
  match jitter with
  | .finite jitter _ => some (finiteFactor fused jitter sample)
  | .infinite _ | .nan => none

/-- What int64 conversions give that the language leaves open. -/
structure Conversions where
  /-- Of a float64 out of range. -/
  outside : ℚ → ℤ
  /-- Of a NaN: the least int64 on amd64, 0 on arm64. -/
  nan : ℤ

def retryDelay (conv : Conversions) (fused : Bool) (fuel : Nat) (attempt base maximum : Int) (jitter : Value)
    (sample : ℚ) : Option Int :=
  (capDelay fuel attempt base maximum).map fun x =>
    match jitterFactor fused jitter sample with
    | some factor => toInt64 conv.outside (fl (fl x.1 * factor))
    | none => conv.nan

/-- `sample` is what `rand.Float64()` returns. -/
def Config.nextRetryDelay (c : Config) (conv : Conversions) (fused : Bool) (fuel : Nat) (attempt : Int) (sample : ℚ) :
    Option Int := retryDelay conv fused fuel attempt c.baseDelay c.maxDelay c.jitter sample

section Factor

variable {jitter : ℚ}

/-- The rounded `1 - jitter`, and how close it is. -/
theorem fl_one_sub (hj : IsFloat jitter) (h0 : 0 ≤ jitter) (h1 : jitter ≤ 1) :
    (1 - jitter) * (1 - 1 / 2 ^ 53) ≤ fl (1 - jitter) ∧ fl (1 - jitter) ≤ (1 - jitter) * (1 + 1 / 2 ^ 53) ∧
      (jitter = 1 ∨ 1 / 2 ^ 54 ≤ fl (1 - jitter)) := by
  rcases h1.eq_or_lt with rfl | hlt
  · rw [sub_self, fl_zero]
    norm_num
  · have hle := hj.le_of_lt_one hlt
    have hnormal : (2 : ℚ) ^ (-1022 : ℤ) ≤ 1 - jitter := by
      have h53 : (2 : ℚ) ^ (-1022 : ℤ) ≤ 2 ^ (-53 : ℤ) := zpow_le_zpow_right₀ (by norm_num) (by norm_num)
      have hval : (2 : ℚ) ^ (-53 : ℤ) = 1 / 2 ^ 53 := by norm_num
      refine (h53.trans hval.le).trans ?_
      linarith
    have herr := abs_le.mp (abs_fl_sub_le hnormal)
    refine ⟨by linarith, by linarith, .inr ?_⟩
    have : (1 - jitter) * (1 - 1 / 2 ^ 53) ≤ fl (1 - jitter) := by linarith
    refine le_trans ?_ this
    have hpos : (1 : ℚ) / 2 ^ 53 ≤ 1 - jitter := by linarith
    linarith

theorem finiteFactor_bounds (hj : IsFloat jitter) (h0 : 0 ≤ jitter) (h1 : jitter ≤ 1) (fused : Bool)
    (sample : ℚ) :
    fl (1 - jitter) ≤ finiteFactor fused jitter sample ∧ finiteFactor fused jitter sample ≤ 1 := by
  obtain ⟨x, hx0, hx1, hx⟩ : ∃ x : ℚ, 0 ≤ x ∧ x ≤ 1 ∧ finiteFactor fused jitter sample =
      if fused then fl (fl (1 - jitter) + jitter * x) else fl (fl (1 - jitter) + fl (jitter * x)) := by
    refine ⟨_, ?_, ?_, rfl⟩
    · split_ifs <;> linarith
    · split_ifs <;> linarith
  have hprod0 : 0 ≤ jitter * x := mul_nonneg h0 hx0
  have hprod1 : jitter * x ≤ jitter := mul_le_of_le_one_right h0 hx1
  -- either way a float `1 - jitter` and a part of the jitter are added
  obtain ⟨y, hy0, hy1, hy⟩ : ∃ y, 0 ≤ y ∧ y ≤ jitter ∧
    finiteFactor fused jitter sample = fl (fl (1 - jitter) + y) := by
    cases fused with
    | true => exact ⟨jitter * x, hprod0, hprod1, hx⟩
    | false => exact ⟨fl (jitter * x), fl_nonneg hprod0, fl_le hprod0 hj hprod1, hx⟩
  have hsub : 0 ≤ 1 - jitter := by linarith
  have hfl := fl_nonneg hsub
  obtain ⟨-, hhigh, -⟩ := fl_one_sub hj h0 h1
  rw [hy]
  constructor
  · exact le_fl hfl (isFloat_fl hsub) (by linarith)
  · refine fl_le_one (by linarith) ?_
    have hless : (1 - jitter) * (1 + 1 / 2 ^ 53) + jitter ≤ 1 + 1 / 2 ^ 53 := by
      have : (1 - jitter) * (1 / 2 ^ 53 : ℚ) ≤ 1 / 2 ^ 53 := mul_le_of_le_one_left (by norm_num) (by linarith)
      linarith
    linarith

end Factor

/-- The scaled cap. -/
theorem scaled_bounds (other : ℚ → ℤ) {cap : ℤ} {jitter factor : ℚ} (hcap : 0 < cap) (hmax : cap ≤ 2 ^ 53)
    (hj : IsFloat jitter) (h0 : 0 ≤ jitter) (h1 : jitter ≤ 1) (hlow : fl (1 - jitter) ≤ factor)
    (hhigh : factor ≤ 1) :
    0 ≤ toInt64 other (fl (fl cap * factor)) ∧ toInt64 other (fl (fl cap * factor)) ≤ cap ∧
      (1 - jitter) * cap - 3 < toInt64 other (fl (fl cap * factor)) := by
  have hfloat : IsFloat (cap : ℚ) := isFloat_intCast (by rw [abs_of_pos hcap]; exact hmax)
  have hC : fl (cap : ℚ) = cap := fl_eq hfloat
  have hpos : (1 : ℚ) ≤ cap := by exact_mod_cast hcap
  have hbig : (cap : ℚ) ≤ 2 ^ 53 := by exact_mod_cast hmax
  have hfactor : 0 ≤ factor := (fl_nonneg (by linarith)).trans hlow
  have hprod : 0 ≤ cap * factor := mul_nonneg (by linarith) hfactor
  have hle : fl (cap * factor) ≤ cap := fl_le hprod hfloat (mul_le_of_le_one_right (by linarith) hhigh)
  rw [hC, toInt64_of_nonneg (fl_nonneg hprod) (by linarith)]
  refine ⟨Int.floor_nonneg.mpr (fl_nonneg hprod), ?_, ?_⟩
  · exact_mod_cast (Int.floor_le _).trans hle
  · have hfloor := Int.lt_floor_add_one (fl (cap * factor))
    have hnonneg := Int.floor_nonneg.mpr (fl_nonneg hprod)
    obtain ⟨hone, -, hjitter⟩ := fl_one_sub hj h0 h1
    rcases hjitter with rfl | hmin
    · have : (0 : ℚ) ≤ ⌊fl (cap * factor)⌋ := by exact_mod_cast hnonneg
      linarith
    · have hnormal : (2 : ℚ) ^ (-1022 : ℤ) ≤ cap * factor := by
        have h54 : (2 : ℚ) ^ (-1022 : ℤ) ≤ 2 ^ (-54 : ℤ) := zpow_le_zpow_right₀ (by norm_num) (by norm_num)
        have hval : (2 : ℚ) ^ (-54 : ℤ) = 1 / 2 ^ 54 := by norm_num
        refine (h54.trans hval.le).trans ?_
        have hmul : 1 * factor ≤ cap * factor := mul_le_mul_of_nonneg_right hpos hfactor
        linarith
      have herr := (abs_le.mp (abs_fl_sub_le hnormal)).1
      have hscaled : (1 - jitter) * cap * (1 - 1 / 2 ^ 53) ≤ cap * factor := by
        have := mul_le_mul_of_nonneg_left (hone.trans hlow) (by linarith : (0 : ℚ) ≤ cap)
        linarith
      have hpart : (1 - jitter) * cap ≤ 2 ^ 53 := by
        have : (1 - jitter) * cap ≤ 1 * cap := mul_le_mul_of_nonneg_right (by linarith) (by linarith)
        linarith
      have hfl : (1 - jitter) * cap - 2 ≤ fl (cap * factor) := by
        have hge : cap * factor * (1 - 1 / 2 ^ 53) ≤ fl (cap * factor) := by linarith
        have hmul := mul_le_mul_of_nonneg_right hscaled (by norm_num : (0 : ℚ) ≤ 1 - 1 / 2 ^ 53)
        linarith
      linarith

theorem Config.Valid.delays {c : Config} (h : c.Valid) : 0 < c.baseDelay ∧ c.baseDelay ≤ c.maxDelay ∧
    (c.jitter = .nan ∨ ∃ j hj, c.jitter = .finite j hj ∧ 0 ≤ j ∧ j ≤ 1) := by
  have hpass : ∀ x ∈ c.checks, x.1 = false := by
    intro x hx
    unfold Config.Valid Config.validate at h
    split at h
    · cases h
    · rename_i hnone
      exact Bool.eq_false_iff.mpr (List.find?_eq_none.mp hnone x hx)
  simp only [Config.checks, List.forall_mem_cons, decide_eq_false_iff_not, not_or, not_le, not_lt] at hpass
  obtain ⟨-, -, -, -, hdelays, hjitter, -⟩ := hpass
  exact ⟨hdelays.1, hdelays.2, Value.in_unit hjitter⟩

/-- What MarkRetry makes of a delay that is not negative: the row becomes available in that time, rounded up to a
millisecond. -/
theorem markRetry_delay {d : Int} (hd : 0 ≤ d) (db : Inbox.Db) (now : Int) (k : Inbox.Key) (token : Uuid)
    (lastError : Bytes) :
    db.markRetry now k token d lastError =
      db.updateLease "inbox mark retry" k token (Inbox.Row.retried now d lastError) ∧
    ∀ db', db.markRetry now k token d lastError = .ok db' → ∃ row, db'.row k = some row ∧
      row.status = .retryWait ∧ d ≤ (row.availableAt - now) * 1000 ∧
      (row.availableAt - now) * 1000 < d + millisecond := by
  refine ⟨if_neg (not_lt.mpr hd), fun db' hdb => ?_⟩
  obtain ⟨r, -, -, hrow⟩ := Inbox.Db.markRetry_ok hdb
  refine ⟨_, by rw [hrow, if_pos rfl], rfl, ?_⟩
  show _ ≤ (addMS now (intervalMS _) - now) * 1000 ∧ (addMS now (intervalMS _) - now) * 1000 < _
  unfold addMS intervalMS millisecond
  split_ifs <;> constructor <;> omega

/-- The delay before a retry of a consumer with a valid configuration and a maximum of at most 2^53 ns, with or without
fused operations and whatever the sample.  The jitter is a number or NaN.  If it is a number, the delay lies between
`(1 - jitter) * cap` less 3 ns and the exact cap, so MarkRetry never refuses it, and the row becomes available in that
time, rounded up to a millisecond.  If it is NaN, the delay is what the conversion of a NaN gives, and where that is
negative MarkRetry refuses every retry. -/
theorem consumer_backoff {conv : Conversions} {c : Config} (hc : c.Valid) (hmax : c.maxDelay ≤ 2 ^ 53) {fuel : Nat}
    (hfuel : 64 ≤ fuel) {attempt : Int} (hattempt : attempt ≤ maxInt64) (fused : Bool) (sample : ℚ) :
    (c.jitter = .nan ∨ ∃ j hj, c.jitter = .finite j hj ∧ 0 ≤ j ∧ j ≤ 1) ∧
    (∀ j hj, c.jitter = .finite j hj → ∃ d, c.nextRetryDelay conv fused fuel attempt sample = some d ∧
      0 ≤ d ∧ d ≤ exactCap (max attempt 1) c.baseDelay c.maxDelay ∧
      (1 - j) * exactCap (max attempt 1) c.baseDelay c.maxDelay - 3 < d ∧
      ∀ (db : Inbox.Db) (now : Int) (k : Inbox.Key) (token : Uuid) (lastError : Bytes),
        db.markRetry now k token d lastError =
          db.updateLease "inbox mark retry" k token (Inbox.Row.retried now d lastError) ∧
        ∀ db', db.markRetry now k token d lastError = .ok db' → ∃ row, db'.row k = some row ∧
          row.status = .retryWait ∧ d ≤ (row.availableAt - now) * 1000 ∧
          (row.availableAt - now) * 1000 < d + millisecond) ∧
    (c.jitter = .nan → c.nextRetryDelay conv fused fuel attempt sample = some conv.nan ∧
      (conv.nan < 0 → ∀ (db : Inbox.Db) (now : Int) (k : Inbox.Key) (token : Uuid) (lastError : Bytes),
        db.markRetry now k token conv.nan lastError =
          .error (.wrap .errInvalidRequest "retry delay must not be negative"))) := by
  obtain ⟨hbase, hle, hjitter⟩ := hc.delays
  obtain ⟨turns, hcap, -⟩ := capDelay_spec hattempt hbase hle (hmax.trans (by decide)) hfuel
  refine ⟨hjitter, fun j hj hfinite => ?_, fun hnan => ⟨?_, fun hneg db now k token lastError => if_pos hneg⟩⟩
  · obtain ⟨h0, h1⟩ : 0 ≤ j ∧ j ≤ 1 := by
      rcases hjitter with hnan | ⟨j', hj', heq, hrange⟩
      · rw [hfinite] at hnan
        cases hnan
      · rw [hfinite] at heq
        cases heq
        exact hrange
    have hpos : 0 < exactCap (max attempt 1) c.baseDelay c.maxDelay := by
      unfold exactCap
      exact lt_min (hbase.trans_le hle) (by positivity)
    have hbig : exactCap (max attempt 1) c.baseDelay c.maxDelay ≤ 2 ^ 53 := (min_le_left _ _).trans hmax
    obtain ⟨hlow, hhigh⟩ := finiteFactor_bounds hj h0 h1 fused sample
    obtain ⟨hd0, hd1, hd2⟩ := scaled_bounds conv.outside hpos hbig hj h0 h1 hlow hhigh
    refine ⟨_, ?_, hd0, hd1, hd2, fun db now k token lastError => markRetry_delay hd0 db now k token lastError⟩
    rw [Config.nextRetryDelay, retryDelay, hcap, hfinite]
    rfl
  · rw [Config.nextRetryDelay, retryDelay, hcap, hnan]
    rfl

theorem isFloat_half : IsFloat (1 / 2) := ⟨1, -1, by norm_num, by norm_num, by norm_num⟩

/-- Half of the delay is jitter. -/
def exampleBackoff : Config :=
  { defaultConfig with consumer := "billing", instanceID := "a", jitter := .finite (1 / 2) isFloat_half }

def exampleNaN : Config := { exampleBackoff with jitter := .nan }

/-- The third attempt of a valid configuration, and the delay of one whose jitter is NaN on amd64. -/
theorem consumer_backoff_third : exampleBackoff.Valid ∧
    (∃ d, exampleBackoff.nextRetryDelay ⟨fun _ => -1, -2 ^ 63⟩ true 64 3 (1 / 4) = some d ∧ d ≤ 4 * second ∧
      2 * second - 3 < d) ∧
    exampleNaN.Valid ∧ exampleNaN.nextRetryDelay ⟨fun _ => -1, -2 ^ 63⟩ true 64 3 (1 / 4) = some (-2 ^ 63) := by
  have hvalid : exampleBackoff.Valid := by decide +kernel
  have hnan : exampleNaN.Valid := by decide +kernel
  obtain ⟨-, hnumber, -⟩ := @consumer_backoff ⟨fun _ => -1, -2 ^ 63⟩ exampleBackoff hvalid (by decide) 64 le_rfl
    3 (by decide) true (1 / 4)
  obtain ⟨d, hd, -, hle, hlt, -⟩ := hnumber _ _ rfl
  obtain ⟨-, -, hrefused⟩ := @consumer_backoff ⟨fun _ => -1, -2 ^ 63⟩ exampleNaN hnan (by decide) 64 le_rfl
    3 (by decide) true (1 / 4)
  have hcap : exactCap (max 3 1) exampleBackoff.baseDelay exampleBackoff.maxDelay = 4 * second := by decide
  rw [hcap] at hle hlt
  refine ⟨hvalid, ⟨d, hd, hle, ?_⟩, hnan, (hrefused rfl).1⟩
  have hlt : ((2 * second - 3 : ℤ) : ℚ) < d := by
    refine lt_of_le_of_lt (le_of_eq ?_) hlt
    norm_num [second]
  exact_mod_cast hlt

end Emitlane.Consumer
