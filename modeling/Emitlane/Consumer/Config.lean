import Emitlane.Basic
import Emitlane.Lib.Binary64

/-!
# Consumer.Config — the managed consumer's configuration (`consumer/config.go`)

Durations are `int64` nanoseconds, so twice the renewal interval wraps around.  The check of the jitter is made of two
comparisons, which a NaN passes.
-/

namespace Emitlane.Consumer

structure Config where
  consumer : String
  instanceID : String
  concurrency : Int
  maxAttempts : Int
  baseDelay : Int
  maxDelay : Int
  jitter : Binary64.Value
  handlerTimeout : Int
  leaseDuration : Int
  leaseRenewInterval : Int
  maintenancePoll : Int
  shutdownTimeout : Int
  deriving DecidableEq

def defaultConfig : Config where
  consumer := ""
  instanceID := ""
  concurrency := 1
  maxAttempts := 10
  baseDelay := second
  maxDelay := 30 * 60 * second
  jitter := .one
  handlerTimeout := 2 * 60 * second
  leaseDuration := 30 * second
  leaseRenewInterval := 10 * second
  maintenancePoll := 250 * millisecond
  shutdownTimeout := 10 * second

/-- The checks of Validate in order: what is rejected, and the message. -/
def Config.checks (c : Config) : List (Bool × String) :=
  [ (trimSpace c.consumer = "", "consumer: durable consumer name is required"),
    (trimSpace c.instanceID = "", "consumer: instance ID is required"),
    (c.concurrency < 1 ∨ 128 < c.concurrency, "consumer: concurrency must be between 1 and 128"),
    (c.maxAttempts < 1, "consumer: max attempts must be >= 1"),
    (c.baseDelay ≤ 0 ∨ c.maxDelay < c.baseDelay, "consumer: retry delays must be positive and max must be >= base"),
    (c.jitter.lt .zero || Binary64.Value.one.lt c.jitter, "consumer: jitter must be between 0 and 1"),
    (c.handlerTimeout ≤ 0, "consumer: handler timeout must be > 0"),
    (c.leaseDuration ≤ 0, "consumer: lease duration must be > 0"),
    (c.leaseRenewInterval ≤ 0 ∨ c.leaseDuration ≤ addInt64 c.leaseRenewInterval c.leaseRenewInterval,
      "consumer: lease renew interval must be positive and less than half the lease duration"),
    (c.maintenancePoll ≤ 0 ∨ c.leaseDuration ≤ c.maintenancePoll,
      "consumer: maintenance poll must be positive and shorter than lease duration"),
    (c.shutdownTimeout ≤ 0, "consumer: shutdown timeout must be > 0") ]

def Config.validate (c : Config) : Except String Unit :=
  match c.checks.find? (·.1) with
  | some (_, message) => .error message
  | none => .ok ()

/-- A configuration that passes Validate. -/
def Config.Valid (c : Config) : Prop := c.validate = .ok ()

instance (c : Config) : Decidable c.Valid := by unfold Config.Valid; infer_instance

/-- A worker of the runtime with this configuration. -/
structure Member where
  config : Config
  index : Nat

/-- The id Runtime.Run gives its worker. -/
def Member.workerID (m : Member) : String := s!"{m.config.instanceID}-{m.index + 1}"

end Emitlane.Consumer
