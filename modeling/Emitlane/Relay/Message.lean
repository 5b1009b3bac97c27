import Emitlane.Store.Admin

/-!
# Relay.Message — the broker message of a claimed event (`toMessage`, `setHeader`)
-/

namespace Emitlane

/-! ## Header maps -/

/-- `m[k]` on a map kept as a list with one entry a key. -/
def getEntry (m : List (String × String)) (k : String) : Option String := (m.find? (·.1 = k)).map (·.2)

theorem getEntry_erase {m : List (String × String)} {k k' : String} (h : k' ≠ k) :
    getEntry (m.filter (·.1 ≠ k)) k' = getEntry m k' := by
  unfold getEntry
  rw [List.find?_filter]
  congr 2
  funext a
  by_cases ha : a.1 = k' <;> simp [ha, h]

theorem getEntry_erase_self (m : List (String × String)) (k : String) : getEntry (m.filter (·.1 ≠ k)) k = none := by
  unfold getEntry
  rw [List.find?_filter, Option.map_eq_none_iff, List.find?_eq_none]
  intro a _
  by_cases ha : a.1 = k <;> simp [ha]

theorem getEntry_setEntry (m : List (String × String)) (k v k' : String) :
    getEntry (setEntry m k v) k' = if k' = k then some v else getEntry m k' := by
  have hsplit : getEntry (setEntry m k v) k' =
      (getEntry (m.filter (·.1 ≠ k)) k').or (getEntry [(k, v)] k') := by
    unfold getEntry setEntry
    rw [List.find?_append, Option.map_or]
  rw [hsplit]
  by_cases h : k' = k
  · subst h
    rw [getEntry_erase_self, if_pos rfl]
    simp [getEntry]
  · rw [getEntry_erase h, if_neg h]
    simp [getEntry, Ne.symm h]

/-- `delete(headers, name)` where the value is empty. -/
def setHeader (headers : List (String × String)) (name value : String) : List (String × String) :=
  if value = "" then headers.filter (·.1 ≠ name) else setEntry headers name value

theorem getEntry_setHeader {m : List (String × String)} {k v k' : String} (h : k' ≠ k) :
    getEntry (setHeader m k v) k' = getEntry m k' := by
  unfold setHeader
  split_ifs
  · exact getEntry_erase h
  · rw [getEntry_setEntry, if_neg h]

/-! ## broker.Message -/

def headerEventID : String := "emitlane-event-id"
def headerEventType : String := "emitlane-event-type"
def headerSchemaVersion : String := "emitlane-schema-version"
def headerAttempt : String := "emitlane-attempt"
def headerOriginalEvent : String := "emitlane-original-event-id"
def headerReplayBatch : String := "emitlane-replay-batch-id"
def headerOrderingKey : String := "emitlane-ordering-key"
def headerSequence : String := "emitlane-sequence"
def headerPartition : String := "emitlane-ordering-partition"
def headerTraceparent : String := "traceparent"
def headerTracestate : String := "tracestate"
def headerCorrelationID : String := "emitlane-correlation-id"
def headerCausationID : String := "emitlane-causation-id"

/-- The names toMessage does not take from the stored headers. -/
def reservedHeaders : List String :=
  [headerEventID, headerEventType, headerSchemaVersion, headerAttempt, headerOriginalEvent, headerReplayBatch,
   headerOrderingKey, headerSequence, headerPartition, headerTraceparent, headerTracestate,
   headerCorrelationID, headerCausationID]

/-- `unicode.ToLower` as far as it can give an ASCII letter: besides A to Z only U+0130 and U+212A do.  Other letters
keep their case, which shows in nothing but the text of an error that quotes the word. -/
def toLowerChar (c : Char) : Char :=
  if c = '\u0130' then 'i' else if c = '\u212a' then 'k' else c.toLower

def toLower (s : String) : String := s.map toLowerChar

theorem toLower_eq (s : String) : toLower s = String.ofList (s.toList.map toLowerChar) := by
  rw [← String.toList_inj, toLower, String.toList_map, String.toList_ofList]

structure Message where
  id : String
  destination : String
  key : Option Bytes
  payload : Bytes
  headers : List (String × String)
  deriving DecidableEq

/-- `headers[name] = value` under a condition. -/
def setIf (b : Prop) [Decidable b] (m : List (String × String)) (name value : String) : List (String × String) :=
  if b then setEntry m name value else m

def toMessage (ev : RelayEvent) : Message :=
  let headers := ev.headers.filter fun h => toLower (trimSpace h.1) ∉ reservedHeaders
  let headers := setEntry headers headerEventID ev.id.text
  let headers := setEntry headers headerEventType ev.type
  let headers := setEntry headers headerSchemaVersion (toString ev.schemaVersion)
  let headers := setEntry headers headerAttempt (toString ev.attempts)
  let headers := match ev.replayedFromEventID with
    | some id => setEntry headers headerOriginalEvent id.text
    | none => headers
  let headers := match ev.replayBatchID with
    | some id => setEntry headers headerReplayBatch id.text
    | none => headers
  let headers := match ev.orderingPartition with
    | some p =>
      if ev.orderingKey ≠ "" then
        setEntry (setEntry (setEntry headers headerOrderingKey ev.orderingKey)
          headerSequence (toString ev.orderingSequence)) headerPartition (toString p)
      else headers
    | none => headers
  let headers := setIf (ev.traceparent ≠ "") headers headerTraceparent ev.traceparent
  let headers := setIf (ev.tracestate ≠ "") headers headerTracestate ev.tracestate
  let headers := setIf (ev.correlationID ≠ "") headers headerCorrelationID ev.correlationID
  let headers := setIf (ev.causationID ≠ "") headers headerCausationID ev.causationID
  { id := ev.id.text, destination := ev.destination, key := ev.key, payload := ev.payload, headers := headers }

theorem getEntry_setIf {b : Prop} [Decidable b] {m : List (String × String)} {k v k' : String} (h : k' ≠ k) :
    getEntry (setIf b m k v) k' = getEntry m k' := by
  unfold setIf
  split_ifs
  · rw [getEntry_setEntry, if_neg h]
  · rfl

/-- The attempt header carries the attempt number of the event, whatever the stored headers are. -/
theorem toMessage_attempt (ev : RelayEvent) :
    getEntry (toMessage ev).headers headerAttempt = some (toString ev.attempts) := by
  have hne : ∀ {k}, k ∈ [headerOriginalEvent, headerReplayBatch, headerOrderingKey, headerSequence, headerPartition,
      headerTraceparent, headerTracestate, headerCorrelationID, headerCausationID] → headerAttempt ≠ k := by decide
  unfold toMessage
  simp only
  rw [getEntry_setIf (hne (by simp)), getEntry_setIf (hne (by simp)), getEntry_setIf (hne (by simp)),
    getEntry_setIf (hne (by simp))]
  cases ev.replayedFromEventID <;> cases ev.replayBatchID <;> cases ev.orderingPartition <;> simp only
  all_goals
    try split_ifs
    all_goals simp [getEntry_setEntry, headerAttempt, headerOriginalEvent, headerReplayBatch, headerOrderingKey,
      headerSequence, headerPartition]

/-! ## The headers of a message -/

theorem mem_setEntry {m : List (String × String)} {k v : String} {h : String × String} :
    h ∈ setEntry m k v ↔ (h ∈ m ∧ h.1 ≠ k) ∨ h = (k, v) := by
  simp [setEntry]

/-- `headers[name] = value` where there is a value. -/
def setSome (m : List (String × String)) (x : String × Option String) : List (String × String) :=
  match x.2 with
  | some v => setEntry m x.1 v
  | none => m

/-- The metadata of the event, by header name.  The three columns of the ordering stand together. -/
def durableHeaders (ev : RelayEvent) : List (String × Option String) :=
  let ordered (v : String) := if ev.orderingPartition.isSome ∧ ev.orderingKey ≠ "" then some v else none
  [(headerEventID, some ev.id.text), (headerEventType, some ev.type),
   (headerSchemaVersion, some (toString ev.schemaVersion)), (headerAttempt, some (toString ev.attempts)),
   (headerOriginalEvent, ev.replayedFromEventID.map Uuid.text), (headerReplayBatch, ev.replayBatchID.map Uuid.text),
   (headerOrderingKey, ordered ev.orderingKey), (headerSequence, ordered (toString ev.orderingSequence)),
   (headerPartition, ev.orderingPartition.bind fun p => ordered (toString p)),
   (headerTraceparent, nullString ev.traceparent), (headerTracestate, nullString ev.tracestate),
   (headerCorrelationID, nullString ev.correlationID), (headerCausationID, nullString ev.causationID)]

theorem durableHeaders_names (ev : RelayEvent) : (durableHeaders ev).map (·.1) = reservedHeaders := rfl

/-- The stored headers a message takes over. -/
def RelayEvent.userHeaders (ev : RelayEvent) : List (String × String) :=
  ev.headers.filter fun h => toLower (trimSpace h.1) ∉ reservedHeaders

theorem setIf_eq (m : List (String × String)) (name value : String) :
    setIf (value ≠ "") m name value = setSome m (name, nullString value) := by
  unfold setIf setSome nullString
  by_cases h : value = "" <;> simp [h]

theorem toMessage_headers (ev : RelayEvent) :
    (toMessage ev).headers = (durableHeaders ev).foldl setSome ev.userHeaders := by
  have hid : ∀ (m : List (String × String)) (name : String) (id : Option Uuid),
      (match id with
        | some id => setEntry m name id.text
        | none => m) = setSome m (name, id.map Uuid.text) := by
    intro m name id
    cases id <;> rfl
  have hordered : ∀ m : List (String × String),
      (match ev.orderingPartition with
        | some p =>
          if ev.orderingKey ≠ "" then
            setEntry (setEntry (setEntry m headerOrderingKey ev.orderingKey)
              headerSequence (toString ev.orderingSequence)) headerPartition (toString p)
          else m
        | none => m) = (((durableHeaders ev).drop 6).take 3).foldl setSome m := by
    intro m
    unfold durableHeaders
    cases hp : ev.orderingPartition with
    | none => simp [setSome]
    | some p => by_cases hk : ev.orderingKey = "" <;> simp [setSome, hk]
  unfold toMessage
  simp only [hid, hordered, setIf_eq]
  rfl

/-- What setting the entries of a table leaves: the table over the old map. -/
theorem mem_foldl_setSome {table : List (String × Option String)} (hnodup : (table.map (·.1)).Nodup)
    (m : List (String × String)) (name value : String) :
    (name, value) ∈ table.foldl setSome m ↔
      (name, some value) ∈ table ∨ ((name, value) ∈ m ∧ ∀ v, (name, some v) ∉ table) := by
  induction table generalizing m with
  | nil => simp
  | cons x table ih =>
    obtain ⟨k, v⟩ := x
    obtain ⟨hk, hnodup⟩ := List.nodup_cons.mp hnodup
    have hnotin : ∀ w, (k, w) ∉ table := fun w hw => hk (List.mem_map_of_mem (f := (·.1)) hw)
    rw [List.foldl_cons, ih hnodup]
    by_cases hname : name = k
    · subst hname
      cases v with
      | none => simp [setSome, hnotin]
      | some v => simp [setSome, mem_setEntry, hnotin]
    · cases v with
      | none => simp [setSome, hname]
      | some v => simp [setSome, mem_setEntry, hname]

/-- No reserved name has surrounding blanks or upper-case letters. -/
theorem normalize_reserved : ∀ name ∈ reservedHeaders, toLower (trimSpace name) = name := by
  have hlist : ∀ name ∈ reservedHeaders, (trimSpace name).toList.map toLowerChar = name.toList := by decide
  intro name hname
  rw [toLower_eq, hlist name hname, String.ofList_toList]

theorem mem_reserved_of_durable {ev : RelayEvent} {name : String} {v : Option String}
    (h : (name, v) ∈ durableHeaders ev) : toLower (trimSpace name) ∈ reservedHeaders := by
  have hname : name ∈ reservedHeaders := by
    rw [← durableHeaders_names ev]
    exact List.mem_map_of_mem (f := (·.1)) h
  rw [normalize_reserved name hname]
  exact hname

/-- The headers of a message: the durable metadata, and the stored headers whose names are not reserved. -/
theorem mem_toMessage_headers (ev : RelayEvent) (name value : String) :
    (name, value) ∈ (toMessage ev).headers ↔
      if toLower (trimSpace name) ∈ reservedHeaders then (name, some value) ∈ durableHeaders ev
      else (name, value) ∈ ev.headers := by
  have hnodup : ((durableHeaders ev).map (·.1)).Nodup := by
    rw [durableHeaders_names]
    decide
  rw [toMessage_headers, mem_foldl_setSome hnodup, RelayEvent.userHeaders, List.mem_filter]
  split_ifs with hres
  · simp [hres]
  · have hnot : ∀ v, (name, v) ∉ durableHeaders ev := fun v hv => hres (mem_reserved_of_durable hv)
    simp [hres, hnot]

/-- The columns of the row behind the headers. -/
def EventRow.durableColumns (r : EventRow) : List (String × Option String) :=
  let text (s : Option String) := s.filter (· ≠ "")
  [(headerEventID, some r.id.text), (headerEventType, some r.eventType),
   (headerSchemaVersion, some (toString r.schemaVersion)), (headerAttempt, some (toString r.attempts)),
   (headerOriginalEvent, r.replayedFromEventID.map Uuid.text), (headerReplayBatch, r.replayBatchID.map Uuid.text),
   (headerOrderingKey, r.orderingKey), (headerSequence, r.orderingSequence.map toString),
   (headerPartition, r.orderingPartition.map toString),
   (headerTraceparent, text r.traceparent), (headerTracestate, text r.tracestate),
   (headerCorrelationID, text r.correlationID), (headerCausationID, text r.causationID)]

theorem nullString_deref (s : Option String) : nullString (deref s) = s.filter (· ≠ "") := by
  cases s with
  | none => rfl
  | some s => by_cases h : s = "" <;> simp [nullString, deref, h, Option.filter]

/-- For an event read from the table the ordering columns are all set or all NULL. -/
theorem durableHeaders_scanEvent {r : EventRow} (h : r.check = true) (epoch : Option Int) :
    durableHeaders (scanEvent r epoch) = r.durableColumns := by
  have hstate : r.orderingStateCheck = true := by
    simp only [EventRow.check, Bool.and_eq_true] at h
    exact h.2
  unfold durableHeaders EventRow.durableColumns
  simp only [scanEvent, nullString_deref]
  unfold EventRow.orderingStateCheck at hstate
  split at hstate
  · rename_i hk hs hp
    simp [hk, hs, hp, deref]
  · rename_i k n p hk hs hp
    have hne : k ≠ "" := by
      rintro rfl
      simp at hstate
    simp [hk, hs, hp, deref, hne]
  · cases hstate

end Emitlane
