import Mathlib.Data.List.Sort
import Emitlane.Basic

/-!
# Integrity.Report — findings and their accumulator (`integrity/types.go`)

A check walks over rows; for each row it counts in the summary and adds findings.  `Accumulator.visit` is this loop, and
`violations_visit` says what it does to the number of violations: it grows by the violations among the findings of the
rows, whatever is kept of the findings themselves.
-/

namespace Emitlane.Integrity

inductive Mode
  | summary
  | full
  | stream
  deriving DecidableEq, Repr

def Mode.text : Mode → String
  | .summary => "summary"
  | .full => "full"
  | .stream => "stream"

inductive Severity
  | info
  | warning
  | violation
  deriving DecidableEq, Repr

inductive Code
  | schemaVersionMismatch
  | partitionCountInvalid
  | partitionIDInvalid
  | partitionEpochInvalid
  | partitionLeaseShapeInvalid
  | partitionOwnerStale
  | partitionHandoffOverdue
  | orderingFieldsPartial
  | orderingPartitionMismatch
  | streamPartitionMismatch
  | streamCursorInvalid
  | activeSequenceBehindCursor
  | expectedSequenceDuplicate
  | streamGap
  | streamDeadBlocked
  | streamRetryWait
  | staleEventLease
  | runtimeControlInvalid
  | relayPresenceStale
  | inboxStateInvalid
  | inboxLeaseShapeInvalid
  | inboxSourceMetadataInvalid
  | inboxProcessedTimestampInvalid
  | inboxAttemptsInvalid
  | inboxStaleLease
  | inboxDeadBlocked
  | inboxRetryWait
  deriving DecidableEq, Repr

def Code.text : Code → String
  | .schemaVersionMismatch => "SCHEMA_VERSION_MISMATCH"
  | .partitionCountInvalid => "PARTITION_COUNT_INVALID"
  | .partitionIDInvalid => "PARTITION_ID_INVALID"
  | .partitionEpochInvalid => "PARTITION_EPOCH_INVALID"
  | .partitionLeaseShapeInvalid => "PARTITION_LEASE_SHAPE_INVALID"
  | .partitionOwnerStale => "PARTITION_OWNER_STALE"
  | .partitionHandoffOverdue => "PARTITION_HANDOFF_OVERDUE"
  | .orderingFieldsPartial => "ORDERING_FIELDS_PARTIAL"
  | .orderingPartitionMismatch => "ORDERING_PARTITION_MISMATCH"
  | .streamPartitionMismatch => "STREAM_PARTITION_MISMATCH"
  | .streamCursorInvalid => "STREAM_CURSOR_INVALID"
  | .activeSequenceBehindCursor => "ACTIVE_SEQUENCE_BEHIND_CURSOR"
  | .expectedSequenceDuplicate => "EXPECTED_SEQUENCE_DUPLICATE"
  | .streamGap => "STREAM_GAP"
  | .streamDeadBlocked => "STREAM_DEAD_BLOCKED"
  | .streamRetryWait => "STREAM_RETRY_WAIT"
  | .staleEventLease => "STALE_EVENT_LEASE"
  | .runtimeControlInvalid => "RUNTIME_CONTROL_INVALID"
  | .relayPresenceStale => "RELAY_PRESENCE_STALE"
  | .inboxStateInvalid => "INBOX_STATE_INVALID"
  | .inboxLeaseShapeInvalid => "INBOX_LEASE_SHAPE_INVALID"
  | .inboxSourceMetadataInvalid => "INBOX_SOURCE_METADATA_INVALID"
  | .inboxProcessedTimestampInvalid => "INBOX_PROCESSED_TIMESTAMP_INVALID"
  | .inboxAttemptsInvalid => "INBOX_ATTEMPTS_INVALID"
  | .inboxStaleLease => "INBOX_STALE_LEASE"
  | .inboxDeadBlocked => "INBOX_DEAD_BLOCKED"
  | .inboxRetryWait => "INBOX_RETRY_WAIT"

/-- What stands in the `any` fields of a finding. -/
inductive Scalar
  | int (n : Int)
  | text (s : String)
  | time (t : Int)
  deriving DecidableEq

inductive Detail
  | nil
  | scalar (x : Scalar)
  | fields (fs : List (String × Scalar))
  deriving DecidableEq

structure Finding where
  code : Code
  severity : Severity
  message : String
  destination : String := ""
  orderingKey : String := ""
  eventID : String := ""
  partitionID : Option Int := none
  consumer : String := ""
  sourcePartition : Option Int := none
  expected : Detail := .nil
  observed : Detail := .nil
  deriving DecidableEq

structure Summary where
  violations : Nat := 0
  warnings : Nat := 0
  infos : Nat := 0
  pendingEvents : Nat := 0
  inflightEvents : Nat := 0
  deadEvents : Nat := 0
  activeOrderedEvents : Nat := 0
  orderedStreams : Nat := 0
  readyStreams : Nat := 0
  inflightStreams : Nat := 0
  blockedStreams : Nat := 0
  gapStreams : Nat := 0
  deadBlockedStreams : Nat := 0
  retryWaitStreams : Nat := 0
  staleEventLeases : Nat := 0
  orderingPartitions : Nat := 0
  ownedPartitions : Nat := 0
  handoffPartitions : Nat := 0
  staleRelays : Nat := 0
  inboxPending : Nat := 0
  inboxInflight : Nat := 0
  inboxRetryWait : Nat := 0
  inboxProcessed : Nat := 0
  inboxDead : Nat := 0
  inboxStaleLeases : Nat := 0
  deriving DecidableEq

structure Report where
  result : String
  startedAt : Int
  finishedAt : Int
  mode : Mode
  clean : Bool
  summary : Summary
  findings : List Finding
  findingsTruncated : Bool

def exitCode (report : Report) (strict : Bool) : Nat :=
  if 0 < report.summary.violations ∨ (strict = true ∧ 0 < report.summary.warnings) then 2 else 0

/-! ## The accumulator -/

structure Accumulator where
  report : Report
  maxFindings : Nat

def newAccumulator (mode : Mode) (maxFindings : Nat) (startedAt : Int) : Accumulator where
  report :=
    { result := "", startedAt := startedAt, finishedAt := 0, mode := mode, clean := false, summary := {},
      findings := [],
      findingsTruncated := false }
  maxFindings := maxFindings

/-- The summary with one finding of a severity more. -/
def Summary.tally (s : Summary) : Severity → Summary
  | .info => { s with infos := s.infos + 1 }
  | .warning => { s with warnings := s.warnings + 1 }
  | .violation => { s with violations := s.violations + 1 }

def Accumulator.add (a : Accumulator) (f : Finding) : Accumulator :=
  let report := { a.report with summary := a.report.summary.tally f.severity }
  if report.findings.length < a.maxFindings then { a with report := { report with findings := report.findings ++ [f] } }
  else { a with report := { report with findingsTruncated := true } }

/-- Counters of the summary are set. -/
def Accumulator.count (a : Accumulator) (f : Summary → Summary) : Accumulator :=
  { a with report := { a.report with summary := f a.report.summary } }

/-- The columns findings are sorted by. -/
def Finding.sortKey (f : Finding) : List String × List Int :=
  ([f.code.text, f.destination, f.consumer, f.eventID], [f.partitionID.getD (-1), f.sourcePartition.getD (-1)])

/-- `left` does not come behind `right`. -/
def Finding.notBehind (left right : Finding) : Prop :=
  ¬ (right.sortKey.1 < left.sortKey.1 ∨ (right.sortKey.1 = left.sortKey.1 ∧ right.sortKey.2 < left.sortKey.2))

instance Finding.decidableNotBehind : DecidableRel Finding.notBehind := fun _ _ => by
  unfold Finding.notBehind
  infer_instance

def Accumulator.finish (a : Accumulator) (finishedAt : Int) : Report :=
  let summary := a.report.summary
  { a.report with
    finishedAt := finishedAt
    clean := summary.violations = 0
    result := if 0 < summary.violations then "violations" else if 0 < summary.warnings then "warnings" else "clean"
    findings := a.report.findings.insertionSort Finding.notBehind }

/-- One finding, if the condition holds. -/
def finding (c : Bool) (f : Finding) : List Finding := if c then [f] else []

def Accumulator.addAll (a : Accumulator) (fs : List Finding) : Accumulator := fs.foldl Accumulator.add a

/-- The loop of a check: for each row the counters and the findings. -/
def Accumulator.visit {α : Type} (a : Accumulator) (count : α → Summary → Summary)
    (findings : α → List Finding) (rows : List α) : Accumulator :=
  rows.foldl (fun a x => (a.count (count x)).addAll (findings x)) a

/-! ## Violations -/

def Accumulator.violations (a : Accumulator) : Nat := a.report.summary.violations

def violationsIn (fs : List Finding) : Nat := fs.countP fun f => f.severity = .violation

section Violations

variable {a : Accumulator}

theorem violations_add (f : Finding) : (a.add f).violations = a.violations + violationsIn [f] := by
  have htally : (a.report.summary.tally f.severity).violations = a.violations + violationsIn [f] := by
    cases hs : f.severity <;> simp [Summary.tally, violationsIn, Accumulator.violations, hs]
  rw [← htally]
  unfold Accumulator.add
  dsimp only
  split_ifs <;> rfl

@[simp] theorem violations_addAll (fs : List Finding) : (a.addAll fs).violations = a.violations + violationsIn fs := by
  induction fs generalizing a with
  | nil => rfl
  | cons f fs ih =>
    have hrest : (a.addAll (f :: fs)).violations = (a.add f).violations + violationsIn fs := ih
    rw [hrest, violations_add]
    simp only [violationsIn, List.countP_cons, List.countP_nil]
    omega

theorem violations_count {f : Summary → Summary} (h : ∀ s, (f s).violations = s.violations) :
    (a.count f).violations = a.violations := h _

/-- The violations a loop adds are those of its rows. -/
theorem violations_visit {α : Type} {count : α → Summary → Summary} {findings : α → List Finding}
    (h : ∀ x s, (count x s).violations = s.violations) (rows : List α) :
    (a.visit count findings rows).violations = a.violations + violationsIn (rows.flatMap findings) := by
  induction rows generalizing a with
  | nil => rfl
  | cons x rows ih =>
    have hrest : (a.visit count findings (x :: rows)).violations =
        ((a.count (count x)).addAll (findings x)).violations + violationsIn (rows.flatMap findings) := ih
    rw [hrest, violations_addAll, violations_count (h x), List.flatMap_cons, Nat.add_assoc]
    congr 1
    exact (List.countP_append ..).symm

/-- The order of the rows does not matter to their violations. -/
theorem violations_visit_sort {α : Type} {r : α → α → Prop} [DecidableRel r] {count : α → Summary → Summary}
    {findings : α → List Finding} (h : ∀ x s, (count x s).violations = s.violations) (rows : List α) :
    (a.visit count findings (rows.insertionSort r)).violations =
      a.violations + violationsIn (rows.flatMap findings) := by
  rw [violations_visit h]
  congr 1
  exact ((List.perm_insertionSort r rows).flatMap_right findings).countP_eq _

/-- No violation is among the findings. -/
def Quiet (fs : List Finding) : Prop := ∀ f ∈ fs, f.severity ≠ .violation

theorem violationsIn_eq_zero {fs : List Finding} : violationsIn fs = 0 ↔ Quiet fs := by
  unfold violationsIn Quiet
  rw [List.countP_eq_zero]
  simp

@[simp] theorem quiet_nil : Quiet [] := fun _ h => nomatch h

@[simp] theorem quiet_append {fs gs : List Finding} : Quiet (fs ++ gs) ↔ Quiet fs ∧ Quiet gs :=
  List.forall_mem_append

@[simp] theorem quiet_singleton {f : Finding} : Quiet [f] ↔ f.severity ≠ .violation := List.forall_mem_singleton

@[simp] theorem quiet_finding {c : Bool} {f : Finding} :
    Quiet (finding c f) ↔ (c = true → f.severity ≠ .violation) := by
  unfold finding
  cases c <;> simp

theorem quiet_flatMap {α : Type} {findings : α → List Finding} {rows : List α} :
    Quiet (rows.flatMap findings) ↔ ∀ x ∈ rows, Quiet (findings x) := by
  unfold Quiet
  constructor
  · intro h x hx f hf
    exact h f (List.mem_flatMap.mpr ⟨x, hx, hf⟩)
  · intro h f hf
    obtain ⟨x, hx, hf⟩ := List.mem_flatMap.mp hf
    exact h x hx f hf

theorem exitCode_of_quiet {report : Report} (h : report.summary.violations = 0) : exitCode report false = 0 := by
  simp [exitCode, h]

end Violations

end Emitlane.Integrity
