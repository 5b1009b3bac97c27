import Emitlane.Basic

/-!
# Relay.Config — the relay's configuration and its validation (`relay/config.go`)

Durations are `int64` nanoseconds, so the sum of publish timeout and safety margin wraps around (`window`).
-/

namespace Emitlane.Relay

structure Config where
  batchSize : Int
  concurrency : Int
  pollInterval : Int
  idleBackoffMax : Int
  leaseDuration : Int
  maxAttempts : Int
  baseDelay : Int
  maxDelay : Int
  publishTimeout : Int
  shutdownTimeout : Int
  statsInterval : Int
  controlInterval : Int
  heartbeatInterval : Int
  presenceStaleAfter : Int
  cleanupInterval : Int
  retention : Int
  cleanupBatch : Int
  orderingRebalanceInterval : Int
  orderingLeaseDuration : Int
  orderingSafetyMargin : Int
  instanceID : String
  deriving DecidableEq

def defaultConfig : Config where
  batchSize := 100
  concurrency := 4
  pollInterval := 5 * second
  idleBackoffMax := 5 * second
  leaseDuration := 30 * second
  maxAttempts := 10
  baseDelay := second
  maxDelay := 30 * 60 * second
  publishTimeout := 10 * second
  shutdownTimeout := 15 * second
  statsInterval := 5 * second
  controlInterval := 2 * second
  heartbeatInterval := 10 * second
  presenceStaleAfter := 30 * second
  cleanupInterval := 60 * second
  retention := 7 * 24 * 3600 * second
  cleanupBatch := 1000
  orderingRebalanceInterval := 2 * second
  orderingLeaseDuration := 30 * second
  orderingSafetyMargin := second
  instanceID := ""

/-- `PublishTimeout + OrderingSafetyMargin`. -/
def Config.window (c : Config) : Int := addInt64 c.publishTimeout c.orderingSafetyMargin

/-- The checks of Validate in order: what is rejected, and the message. -/
def Config.checks (c : Config) : List (Bool × String) :=
  [ (c.batchSize ≤ 0, "relay: batch size must be > 0"),
    (c.concurrency ≤ 0, "relay: concurrency must be > 0"),
    (c.pollInterval ≤ 0, "relay: poll interval must be > 0"),
    (c.idleBackoffMax ≤ 0, "relay: idle backoff max must be > 0"),
    (c.idleBackoffMax < c.pollInterval, "relay: idle backoff max must be >= poll interval"),
    (c.leaseDuration ≤ 0, "relay: lease duration must be > 0"),
    (c.maxAttempts < 1, "relay: max attempts must be >= 1"),
    (c.baseDelay ≤ 0, "relay: base delay must be > 0"),
    (c.maxDelay < c.baseDelay, "relay: max delay must be >= base delay"),
    (c.publishTimeout ≤ 0, "relay: publish timeout must be > 0"),
    (c.leaseDuration ≤ c.publishTimeout, "relay: publish timeout must be < lease duration"),
    (c.shutdownTimeout ≤ 0, "relay: shutdown timeout must be > 0"),
    (c.statsInterval < 0, "relay: stats interval must be >= 0"),
    (c.controlInterval ≤ 0, "relay: control interval must be > 0"),
    (c.heartbeatInterval ≤ 0, "relay: heartbeat interval must be > 0"),
    (c.presenceStaleAfter ≤ c.heartbeatInterval,
      "relay: presence stale threshold must be greater than heartbeat interval"),
    (c.cleanupInterval < 0, "relay: cleanup interval must be >= 0"),
    (c.retention < 0, "relay: delivered retention must be >= 0"),
    (trimSpace c.instanceID = "", "relay: instance id is required"),
    (c.instanceID ≠ trimSpace c.instanceID, "relay: instance id must not have surrounding whitespace"),
    (c.cleanupBatch < 0, "relay: cleanup batch must be >= 0"),
    (0 < c.retention ∧ c.cleanupInterval = 0, "relay: cleanup interval must be > 0 when retention is enabled"),
    (0 < c.retention ∧ c.cleanupBatch = 0, "relay: cleanup batch must be > 0 when retention is enabled"),
    (c.orderingRebalanceInterval ≤ 0, "relay: ordering rebalance interval must be > 0"),
    (c.orderingLeaseDuration ≤ 0, "relay: ordering lease duration must be > 0"),
    (c.orderingSafetyMargin ≤ 0, "relay: ordering safety margin must be > 0"),
    (c.orderingLeaseDuration ≤ c.window,
      "relay: ordering lease duration must exceed publish timeout plus safety margin"),
    (c.orderingLeaseDuration ≤ c.orderingRebalanceInterval,
      "relay: ordering rebalance interval must be less than ordering lease duration") ]

def Config.validate (c : Config) : Except String Unit :=
  match c.checks.find? (·.1) with
  | some (_, message) => .error message
  | none => .ok ()

/-- A configuration that passes Validate. -/
def Config.Valid (c : Config) : Prop := c.validate = .ok ()

instance (c : Config) : Decidable c.Valid := by unfold Config.Valid; infer_instance

/-- Nothing that a check rejects holds of a valid configuration. -/
theorem Config.Valid.passes {c : Config} (h : c.Valid) : ∀ x ∈ c.checks, x.1 = false := by
  intro x hx
  unfold Config.Valid Config.validate at h
  split at h
  · cases h
  · rename_i hnone
    simpa using List.find?_eq_none.mp hnone x hx

/-- The checks the delivery protocol relies on. -/
structure Config.Bounds (c : Config) : Prop where
  maxAttempts : 1 ≤ c.maxAttempts
  publishTimeout : 0 < c.publishTimeout
  instanceID : trimSpace c.instanceID ≠ ""
  trimmed : c.instanceID = trimSpace c.instanceID
  orderingSafetyMargin : 0 < c.orderingSafetyMargin
  window : c.window < c.orderingLeaseDuration

theorem Config.Valid.bounds {c : Config} (h : c.Valid) : c.Bounds := by
  have h := h.passes
  simp only [Config.checks, List.forall_mem_cons, decide_eq_false_iff_not, not_not] at h
  obtain ⟨-, -, -, -, -, -, hmax, -, -, hpub, -, -, -, -, -, -, -, -, hid, htrim, -, -, -, -, -, hmargin,
    hwin, -⟩ := h
  exact ⟨by omega, by omega, hid, htrim, by omega, by omega⟩

/-- The intervals the ordering loop and the claims rely on. -/
theorem Config.Valid.intervals {c : Config} (h : c.Valid) :
    0 < c.leaseDuration ∧ 0 < c.orderingRebalanceInterval ∧
    c.orderingRebalanceInterval < c.orderingLeaseDuration := by
  have h := h.passes
  simp only [Config.checks, List.forall_mem_cons, decide_eq_false_iff_not] at h
  obtain ⟨-, -, -, -, -, hlease, -, -, -, -, -, -, -, -, -, -, -, -, -, -, -, -, -, hbalance, -, -, -, hlt, -⟩ := h
  exact ⟨by omega, by omega, by omega⟩

/-- The sizes the scheduler relies on. -/
theorem Config.Valid.sizes {c : Config} (h : c.Valid) : 0 < c.batchSize ∧ 0 < c.concurrency := by
  have h := h.passes
  simp only [Config.checks, List.forall_mem_cons, decide_eq_false_iff_not] at h
  obtain ⟨hbatch, hconcurrency, -⟩ := h
  exact ⟨by omega, by omega⟩

end Emitlane.Relay
