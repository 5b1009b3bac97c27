import Emitlane.Relay.Message

/-!
# Admin.Service — the requests the admin service accepts (`internal/admin/service.go`)

Each operation normalizes its request and hands it to the store, or refuses it with `ErrInvalid`.  The store is the
interface `adminapi.Store`: an operation takes the call it makes there as an argument.
-/

namespace Emitlane

/-- `fmt.Errorf("%w: %s", ErrInvalid, detail)`. -/
def StoreError.invalid (detail : String) : StoreError := ⟨some .errInvalid, s!"admin: invalid request: {detail}"⟩

namespace Service

def maxReplayBatch : Int := 1000
def defaultPageSize : Int := 50
def maxPageSize : Int := 200

/-! ## Normalization -/

/-- A Lean string is valid UTF-8. -/
def safeText (value : String) : Bool := textOk value

/-- `trace` is what `telemetry.InjectTrace` makes of the context of the request. -/
def normalizeMutation (trace : String × String) (m : Mutation) (reasonRequired : Bool) : Except StoreError Mutation :=
  let m := { m with
    actor := trimSpace m.actor
    reason := trimSpace m.reason
    requestID := trimSpace m.requestID
    orderingMode := toLower (trimSpace m.orderingMode) }
  if m.actor = "" ∨ 256 < (bytes m.actor).length then .error (.invalid "actor is required")
  else if safeText m.actor = false then .error (.invalid "actor contains invalid characters")
  else if reasonRequired ∧ m.reason = "" then .error (.invalid "reason is required")
  else if 4096 < (bytes m.reason).length then .error (.invalid "reason is too long")
  else if safeText m.reason = false then .error (.invalid "reason contains invalid characters")
  else if 128 < (bytes m.requestID).length then .error (.invalid "request id is too long")
  else if safeText m.requestID = false then .error (.invalid "request id contains invalid characters")
  else
    let m := if m.traceparent = "" then { m with traceparent := trace.1, tracestate := trace.2 } else m
    if m.orderingMode ≠ "" ∧ m.orderingMode ≠ "unordered" then .error (.invalid "ordering_mode must be unordered")
    else .ok m

/-- The loop over the statuses: trimmed, lower-cased, without blanks and repetitions. -/
def normalizeStatuses (replay : Bool) : List String → List String → Except StoreError (List String)
  | statuses, [] => .ok statuses
  | statuses, status :: rest =>
    let status := toLower (trimSpace status)
    if status = "" then normalizeStatuses replay statuses rest
    else if status ∉ ["pending", "inflight", "delivered", "dead"] ∨
        (replay ∧ status ≠ "delivered" ∧ status ≠ "dead") then
      .error (.invalid s!"unsupported status {quote (bytes status)}")
    else normalizeStatuses replay (if status ∈ statuses then statuses else statuses ++ [status]) rest

end Service

/-- `EventFilter.HasSelector`. -/
def EventFilter.hasSelector (f : EventFilter) : Bool :=
  f.statuses ≠ [] || trimSpaceBytes f.destination ≠ [] || trimSpaceBytes f.eventType ≠ [] ||
    f.createdFrom.isSome || f.createdTo.isSome || f.replayBatchID.isSome

namespace Service

def normalizeEventFilter (f : EventFilter) (replay : Bool) : Except StoreError EventFilter :=
  let f := { f with destination := trimSpaceBytes f.destination, eventType := trimSpaceBytes f.eventType }
  if f.createdFrom.any (fun a => f.createdTo.any (· < a)) then
    .error (.invalid "created_from must not be after created_to")
  else
    match normalizeStatuses replay [] f.statuses with
    | .error err => .error err
    | .ok statuses =>
      let f := { f with statuses := statuses }
      if replay then
        if f.hasSelector = false then .error (.invalid "replay requires a non-empty selector")
        else
          let f := if f.statuses = [] then { f with statuses := ["delivered"] } else f
          let f := if f.limit = 0 then { f with limit := maxReplayBatch } else f
          if f.limit < 1 ∨ maxReplayBatch < f.limit then
            .error (.invalid s!"replay limit must be between 1 and {maxReplayBatch}")
          else .ok f
      else
        let f := if f.limit = 0 then { f with limit := defaultPageSize } else f
        if f.limit < 1 ∨ maxPageSize < f.limit then .error (.invalid s!"limit must be between 1 and {maxPageSize}")
        else .ok f

/-! ## Operations -/

section Operations

variable {α : Type}

def inspectEvent (store : Uuid → Bool → Except StoreError α) (id : Uuid) (includeSensitive : Bool) :
    Except StoreError α :=
  if id = 0 then .error (.invalid "event id is required") else store id includeSensitive

/-- RetryDead and ReplayEvent differ in whether they ask for a reason. -/
def mutateEvent (store : Uuid → Mutation → Except StoreError α) (reasonRequired : Bool) (trace : String × String)
    (id : Uuid) (m : Mutation) : Except StoreError α :=
  if id = 0 then .error (.invalid "event id is required")
  else (normalizeMutation trace m reasonRequired).bind (store id)

def retryDead (store : Uuid → Mutation → Except StoreError α) (trace : String × String) (id : Uuid)
    (m : Mutation) : Except StoreError α := mutateEvent store false trace id m

def replayEvent (store : Uuid → Mutation → Except StoreError α) (trace : String × String) (id : Uuid)
    (m : Mutation) : Except StoreError α := mutateEvent store true trace id m

def previewReplay (store : EventFilter → Int → Int → Except StoreError α) (f : EventFilter) :
    Except StoreError α :=
  (normalizeEventFilter f true).bind fun f => store f 10 f.limit

def replayBatch (store : EventFilter → Mutation → Int → Except StoreError α) (trace : String × String)
    (f : EventFilter) (m : Mutation) : Except StoreError α :=
  (normalizeEventFilter f true).bind fun f => (normalizeMutation trace m true).bind fun m => store f m f.limit

/-- The check of the two operations on one Inbox event. -/
def inboxTarget (consumer : String) (eventID : Uuid) : Except StoreError String :=
  let consumer := trimSpace consumer
  if consumer = "" ∨ 256 < (bytes consumer).length ∨ eventID = 0 then
    .error (.invalid "consumer and event ID are required")
  else .ok consumer

def inspectInbox (store : String → Uuid → Except StoreError α) (consumer : String) (eventID : Uuid) :
    Except StoreError α :=
  (inboxTarget consumer eventID).bind fun consumer => store consumer eventID

def retryDeadInbox (store : String → Uuid → Mutation → Except StoreError α) (trace : String × String)
    (consumer : String) (eventID : Uuid) (m : Mutation) : Except StoreError α :=
  (inboxTarget consumer eventID).bind fun consumer =>
    (normalizeMutation trace m true).bind fun m => store consumer eventID m

end Operations

/-! ## What the normalized requests look like -/

theorem normalizeMutation_ok {trace : String × String} {m m' : Mutation} {reasonRequired : Bool}
    (h : normalizeMutation trace m reasonRequired = .ok m') :
    m'.actor = trimSpace m.actor ∧ m'.actor ≠ "" ∧ textOk m'.actor = true ∧ textOk m'.reason = true ∧
      textOk m'.requestID = true := by
  unfold normalizeMutation at h
  simp only at h
  split_ifs at h with h1 h2 h3 h4 h5 h6 h7 h8 h9
  all_goals
    obtain rfl := Except.ok.inj h
    exact ⟨rfl, fun h => h1 (.inl h), Bool.eq_true_of_not_eq_false h2, Bool.eq_true_of_not_eq_false h5,
      Bool.eq_true_of_not_eq_false h7⟩

theorem mem_normalizeStatuses {replay : Bool} {rest statuses out : List String}
    (h : normalizeStatuses replay statuses rest = .ok out) {s : String} (hs : s ∈ out) :
    s ∈ statuses ∨ s ∈ (if replay then ["delivered", "dead"]
      else ["pending", "inflight", "delivered", "dead"]) := by
  induction rest generalizing statuses with
  | nil =>
    obtain rfl := Except.ok.inj h
    exact .inl hs
  | cons status rest ih =>
    unfold normalizeStatuses at h
    simp only at h
    by_cases hblank : toLower (trimSpace status) = ""
    · rw [if_pos hblank] at h
      exact ih h
    · rw [if_neg hblank] at h
      split_ifs at h with hbad hseen
      · exact ih h
      · rcases ih h with hmem | hmem
        · rcases List.mem_append.mp hmem with hmem | hmem
          · exact .inl hmem
          · obtain rfl := List.mem_singleton.mp hmem
            refine .inr ?_
            push Not at hbad
            cases replay with
            | false => exact hbad.1
            | true =>
              have := hbad.2 rfl
              by_cases hd : toLower (trimSpace status) = "delivered"
              · simp [hd]
              · simp [this hd]
        · exact .inr hmem

/-- The statuses of a filter that was accepted are known ones. -/
theorem normalizeEventFilter_statuses {f f' : EventFilter} {replay : Bool}
    (h : normalizeEventFilter f replay = .ok f') :
    ∀ s ∈ f'.statuses, s ∈ ["pending", "inflight", "delivered", "dead"] := by
  have hknown : ∀ (replay : Bool) (s : String),
      s ∈ (if replay then ["delivered", "dead"] else ["pending", "inflight", "delivered", "dead"]) →
        s ∈ ["pending", "inflight", "delivered", "dead"] := by
    intro replay
    cases replay with
    | false => exact fun _ => id
    | true => exact List.forall_mem_cons.mpr ⟨by decide, by decide⟩
  unfold normalizeEventFilter at h
  simp only at h
  split_ifs at h
  all_goals
    split at h
    · cases h
    · rename_i statuses hstatuses
      have hmem : ∀ s ∈ statuses, s ∈ ["pending", "inflight", "delivered", "dead"] := by
        intro s hs
        rcases mem_normalizeStatuses hstatuses hs with hnil | hs
        · cases hnil
        · exact hknown replay s hs
      have hdefault : ∀ s ∈ ["delivered"], s ∈ ["pending", "inflight", "delivered", "dead"] := by decide
      split_ifs at h
      all_goals
        obtain rfl := Except.ok.inj h
        first
          | exact hmem
          | exact hdefault

/-- Of the arguments of an accepted filter only the destination and the type can be refused. -/
theorem argsOk_normalized {f f' : EventFilter} {replay : Bool} (h : normalizeEventFilter f replay = .ok f') :
    f'.argsOk = true ↔ argOk f'.destination = true ∧ argOk f'.eventType = true := by
  have hknown : ∀ s ∈ ["pending", "inflight", "delivered", "dead"], textOk s = true := by decide
  have hstatuses : f'.statuses.all textOk = true :=
    List.all_eq_true.mpr fun s hs => hknown s (normalizeEventFilter_statuses h s hs)
  rw [EventFilter.argsOk, hstatuses, Bool.true_and, Bool.and_eq_true]

/-- A replay filter that was accepted selects delivered or dead events only, and has a limit. -/
theorem normalizeEventFilter_replay {f f' : EventFilter} (h : normalizeEventFilter f true = .ok f') :
    f'.statuses ≠ [] ∧ (∀ s ∈ f'.statuses, s ∈ ["delivered", "dead"]) ∧ 1 ≤ f'.limit ∧
    f'.limit ≤ maxReplayBatch := by
  unfold normalizeEventFilter at h
  simp only at h
  split_ifs at h
  split at h
  · cases h
  · rename_i statuses hstatuses
    have hmem : ∀ s ∈ statuses, s ∈ ["delivered", "dead"] := by
      intro s hs
      rcases mem_normalizeStatuses hstatuses hs with hnil | hs
      · cases hnil
      · exact hs
    have hdefault : ∀ s ∈ ["delivered"], s ∈ ["delivered", "dead"] := by decide
    split_ifs at h with hsel hnil hzero hlimit hlimit hzero hlimit hlimit
    all_goals
      obtain rfl := Except.ok.inj h
      push Not at hlimit
      first
        | exact ⟨by simp, hdefault, hlimit⟩
        | exact ⟨hnil, hmem, hlimit⟩

end Service

end Emitlane
