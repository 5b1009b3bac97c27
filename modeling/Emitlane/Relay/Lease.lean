import Emitlane.Store.Enabled
import Emitlane.System.Model

/-!
# Relay.Lease — which configurations can do ordered work

Validate compares durations in nanoseconds, and the sum of publish timeout and safety margin wraps around.  The
reconciliation stores the publish timeout in milliseconds in an INTEGER column, and the gates of ClaimOrdered and
BeginOrderedAttempt compare the remaining partition lease with the window rounded up to milliseconds.  So the
configurations for which a freshly leased partition passes the gates are fewer than the accepted ones: `Fits` says
which they are.
-/

namespace Emitlane

open Relay

variable {c : Config} {now : Int} {members : List String} {row : PartitionRow}

/-- The call leases the row to the caller: it renews, acquires or takes over. -/
def Grants (c : Config) (now : Int) (members : List String) (row : PartitionRow) : Prop :=
  decideRow c.reconcileArgs now members row = .renew ∨ ∃ b, decideRow c.reconcileArgs now members row = .acquire b

/-- A row that a reconciliation of the relay leases to it stores a publish timeout that fits its column and is not
below the configured one; the publish window does not wrap around; and past the barrier the lease passes the gates of
the ordered claim and the ordered begin at the same instant. -/
def CanDoOrderedWork (c : Config) : Prop :=
  ∀ now members row, row.check = true → Grants c now members row →
    (∃ ms, (reconcileRow c.reconcileArgs now members row).publishTimeoutMS = some ms ∧ ms ≤ maxInt32 ∧
      c.publishTimeout ≤ ms * millisecond) ∧
    c.window = c.publishTimeout + c.orderingSafetyMargin ∧
    (reconcileRow c.reconcileArgs now members row).leaseUntil = some (addDuration now c.orderingLeaseDuration) ∧
    addMS now (intervalMS c.window) ≤ addDuration now c.orderingLeaseDuration ∧
    ((reconcileRow c.reconcileArgs now members row).handoffPassed now = true →
      (reconcileRow c.reconcileArgs now members row).authority c.instanceID now
        (addMS now (intervalMS c.window) ≤ ·) = true)

/-- The publish timeout fits its column, the window does not overflow, and the lease is at least as long as the window
rounded up to milliseconds. -/
structure Relay.Config.Fits (c : Config) : Prop where
  publishTimeout : intervalMS c.publishTimeout ≤ maxInt32
  window : c.publishTimeout + c.orderingSafetyMargin ≤ maxInt64
  lease : intervalMS (c.publishTimeout + c.orderingSafetyMargin) * millisecond ≤ c.orderingLeaseDuration

/-- The window is the sum of its parts exactly if the sum is in range. -/
theorem Relay.Config.Valid.window_eq_iff (hvalid : c.Valid) :
    c.window = c.publishTimeout + c.orderingSafetyMargin ↔
    c.publishTimeout + c.orderingSafetyMargin ≤ maxInt64 := by
  have h1 := hvalid.bounds.publishTimeout
  have h2 := hvalid.bounds.orderingSafetyMargin
  constructor
  · intro heq
    have hlt : Int.bmod (c.publishTimeout + c.orderingSafetyMargin) (2 ^ 64) < (2 ^ 64 + 1) / 2 :=
      Int.bmod_lt (by decide)
    unfold Config.window addInt64 at heq
    unfold maxInt64
    omega
  · exact addInt64_eq (by omega)

/-- The gate at the instant of the reconciliation, for a lease of `d` nanoseconds. -/
theorem gate_iff {d w : Int} : addMS now (intervalMS w) ≤ addDuration now d ↔ intervalMS w * millisecond ≤ d := by
  unfold addMS addDuration millisecond
  omega

theorem Relay.Config.Fits.gate (h : c.Fits) (hvalid : c.Valid) (now : Int) :
    addMS now (intervalMS c.window) ≤ addDuration now c.orderingLeaseDuration := by
  rw [gate_iff, hvalid.window_eq_iff.mpr h.window]
  exact h.lease

/-- What the reconciliation writes to a row it leases. -/
theorem Grants.written (h : Grants c now members row) (hvalid : c.Valid) (hcheck : row.check = true) :
    (reconcileRow c.reconcileArgs now members row).leaseOwner = some c.instanceID ∧
      (reconcileRow c.reconcileArgs now members row).leaseUntil = some (addDuration now c.orderingLeaseDuration) ∧
      (reconcileRow c.reconcileArgs now members row).publishTimeoutMS = some (intervalMS c.publishTimeout) := by
  have hdecided : Decided c.reconcileArgs now (Ordering.desiredOwner row.id members) row
      (decideRow c.reconcileArgs now members row) := decided_decideRow hcheck
  have howner : c.reconcileArgs.owner ≠ "" := ne_empty_of_trimSpace hvalid.bounds.instanceID
  unfold reconcileRow Decision.written
  rcases h with h | ⟨b, h⟩
  · rw [h] at hdecided ⊢
    rw [if_pos (hdecided.matches_eq howner (by simp))]
    cases hdecided with
    | renew ho _ _ _ => exact ⟨ho, rfl, rfl⟩
  · rw [h] at hdecided ⊢
    rw [if_pos (hdecided.matches_eq howner (by simp))]
    exact ⟨rfl, rfl, rfl⟩

theorem Relay.Config.Fits.canDoOrderedWork (h : c.Fits) (hvalid : c.Valid) : CanDoOrderedWork c := by
  intro now members row hcheck hgrants
  obtain ⟨howner, huntil, hms⟩ := hgrants.written hvalid hcheck
  have hgate := h.gate hvalid now
  refine ⟨⟨_, hms, h.publishTimeout, le_intervalMS _⟩, hvalid.window_eq_iff.mpr h.window, huntil, hgate,
    fun hpassed => ?_⟩
  rw [PartitionRow.authority_iff]
  refine ⟨howner, ⟨_, huntil, decide_eq_true hgate⟩, fun b hb => ?_⟩
  exact of_decide_eq_true ((Option.all_eq_true ..).mp hpassed b hb)

/-- The first partition, as it is seeded. -/
def seedRow : PartitionRow :=
  { id := 0, leaseOwner := none, leaseUntil := none, epoch := 0, handoffNotBefore := none, publishTimeoutMS := none,
    updatedAt := 0 }

/-- A relay that is the only member acquires a partition that nobody owns. -/
theorem grants_seedRow (hvalid : c.Valid) (now : Int) : Grants c now [c.instanceID] seedRow := by
  have howner : c.instanceID ≠ "" := ne_empty_of_trimSpace hvalid.bounds.instanceID
  refine .inr ⟨none, ?_⟩
  unfold decideRow
  simp [seedRow, deref, Config.reconcileArgs, Ordering.desiredOwner_alone 0 howner, howner.symm]

theorem CanDoOrderedWork.fits (h : CanDoOrderedWork c) (hvalid : c.Valid) : c.Fits := by
  have hcheck : seedRow.check = true := by decide
  have hgrants := grants_seedRow hvalid 0
  obtain ⟨⟨ms, hms, hfits, -⟩, hwindow, -, hgate, -⟩ := h 0 [c.instanceID] seedRow hcheck hgrants
  have hstored := (hgrants.written hvalid hcheck).2.2
  rw [hstored] at hms
  obtain rfl := Option.some.inj hms
  refine ⟨hfits, hvalid.window_eq_iff.mp hwindow, ?_⟩
  rw [gate_iff, hwindow] at hgate
  exact hgate

/-- **Which accepted configurations can do ordered work.** -/
theorem ordered_work_iff (hvalid : c.Valid) : CanDoOrderedWork c ↔ c.Fits :=
  ⟨fun h => h.fits hvalid, fun h => h.canDoOrderedWork hvalid⟩

def exampleOrdered : Config := { defaultConfig with instanceID := "relay-a" }

theorem ordered_work_iff_default : CanDoOrderedWork exampleOrdered :=
  (ordered_work_iff (by decide +kernel)).mpr ⟨by decide, by decide, by decide⟩

/-- The window of 1.2 ms counts as 2 ms at the gates, and the lease is 1.5 ms. -/
def coarseConfig : Config :=
  { exampleOrdered with publishTimeout := millisecond, orderingSafetyMargin := 200000,
                        orderingLeaseDuration := 1500000, orderingRebalanceInterval := millisecond }

/-- The publish timeout is 2^31 ms. -/
def wideConfig : Config :=
  { exampleOrdered with publishTimeout := 2 ^ 31 * millisecond, leaseDuration := 2 ^ 32 * millisecond,
                        orderingLeaseDuration := 2 ^ 32 * millisecond }

/-- The safety margin is the largest `int64`. -/
def wrappingConfig : Config := { exampleOrdered with orderingSafetyMargin := maxInt64 }

/-- Validate accepts a lease that never passes the gates, a publish timeout that does not fit its column, and a window
that wraps around. -/
theorem accepted_without_ordered_work :
    (coarseConfig.Valid ∧ ¬ CanDoOrderedWork coarseConfig ∧
      ∀ now, addDuration now coarseConfig.orderingLeaseDuration < addMS now (intervalMS coarseConfig.window)) ∧
    (wideConfig.Valid ∧ ¬ CanDoOrderedWork wideConfig ∧ maxInt32 < intervalMS wideConfig.publishTimeout) ∧
    (wrappingConfig.Valid ∧ ¬ CanDoOrderedWork wrappingConfig ∧ wrappingConfig.window < 0) := by
  have hcoarse : coarseConfig.Valid := by decide +kernel
  have hwide : wideConfig.Valid := by decide +kernel
  have hwrapping : wrappingConfig.Valid := by decide +kernel
  refine ⟨⟨hcoarse, fun h => ?_, fun now => ?_⟩, ⟨hwide, fun h => ?_, by decide⟩, hwrapping,
    fun h => ?_, by decide⟩
  · exact absurd (h.fits hcoarse).lease (by decide)
  · rw [← not_le, gate_iff]
    decide
  · exact absurd (h.fits hwide).publishTimeout (by decide)
  · exact absurd (h.fits hwrapping).window (by decide)

end Emitlane
