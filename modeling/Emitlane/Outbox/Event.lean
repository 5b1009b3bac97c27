import Emitlane.Schema

/-!
# Outbox.Event — the public envelope and its validation (`outbox/event.go`)
-/

namespace Emitlane.Outbox

/-- `outbox.Event`.  A nil map is the empty list and a zero `AvailableAt` is `none`. -/
structure Event where
  id : String
  destination : String
  type : String
  key : Option Bytes
  payload : Bytes
  contentType : String
  headers : List (String × String)
  schemaVersion : Int
  correlationID : String
  causationID : String
  availableAt : Option Int
  orderingKey : String
  sequence : Int
  orderingStartSequence : Int
  deriving DecidableEq

def defaultContentType : String := "application/json"
def defaultSchemaVersion : Int := 1
def kafkaTopicMaxLen : Nat := 249

/-- The errors callers test for with `errors.Is`. -/
inductive Sentinel
  | errInvalidEvent
  | errDuplicateSequence
  | errOrderingConflict
  | errSequenceAlreadyPassed
  deriving DecidableEq, Repr

def Sentinel.text : Sentinel → String
  | .errInvalidEvent => "outbox: invalid event"
  | .errDuplicateSequence => "outbox: duplicate ordered sequence"
  | .errOrderingConflict => "outbox: ordering stream conflict"
  | .errSequenceAlreadyPassed => "outbox: ordered sequence already passed"

structure Error where
  sentinel : Option Sentinel
  text : String
  deriving DecidableEq, Repr

/-- `fmt.Errorf("%w: %s", sentinel, detail)`. -/
def Sentinel.error (s : Sentinel) (detail : String) : Error := ⟨some s, s!"{s.text}: {detail}"⟩

/-- `fmt.Errorf("%w: %s", ErrInvalidEvent, detail)`. -/
def invalid (detail : String) : Except Error Unit := .error (Sentinel.errInvalidEvent.error detail)

/-- `Event.validate`, check by check. -/
def Event.validate (e : Event) : Except Error Unit :=
  if trimSpace e.destination = "" then invalid "destination is required"
  else if e.destination ≠ trimSpace e.destination then invalid "destination must not have surrounding whitespace"
  else if kafkaTopicMaxLen < (bytes e.destination).length then
    invalid s!"destination exceeds {kafkaTopicMaxLen} characters"
  else if trimSpace e.type = "" then invalid "type is required"
  else if e.type ≠ trimSpace e.type then invalid "type must not have surrounding whitespace"
  else match (if e.id ≠ "" then (uuidParse e.id).map some else .ok none) with
  | .error err => invalid s!"id must be a UUID: {err}"
  | .ok _ =>
  if e.schemaVersion < 0 then invalid "schema version must be >= 0"
  else if e.contentType ≠ "" ∧ e.contentType ≠ trimSpace e.contentType then
    invalid "content type must not have surrounding whitespace"
  else if (e.headers.any fun h => h.1 = "") = true then invalid "header name must not be empty"
  else if e.orderingKey = "" then
    if e.sequence ≠ 0 then invalid "sequence requires an ordering key"
    else if e.orderingStartSequence ≠ 0 then invalid "ordering start sequence requires an ordering key"
    else .ok ()
  else if trimSpace e.orderingKey = "" then invalid "ordering key must not be blank"
  else if e.orderingKey ≠ trimSpace e.orderingKey then invalid "ordering key must not have surrounding whitespace"
  else if e.sequence ≤ 0 then invalid "ordered sequence must be > 0"
  else if e.orderingStartSequence < 0 then invalid "ordering start sequence must be >= 0"
  else if e.sequence < e.orderingStartSequence then invalid "ordering start sequence must not exceed sequence"
  else if e.key.any (fun k => k ≠ [] && k ≠ bytes e.orderingKey) = true then
    invalid "message key must equal ordering key for ordered events"
  else .ok ()

end Emitlane.Outbox
