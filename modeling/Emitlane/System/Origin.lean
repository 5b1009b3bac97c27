import Emitlane.System.Next

/-!
# System.Origin — rows and copies come from enqueued rows

A row keeps the envelope it was enqueued with, and a handler works on a copy of such a row.  An id can come back: a
row that was delivered and cleaned up leaves its id to a later event, while a handler may still have a copy of the
old one.  Where ids are fresh (`FreshIDs`) a copy and the row it is about are of the same event.
-/

namespace Emitlane

open Relay Outbox Rel

section

variable {ι : Type}

/-- The ids in the order they were enqueued, newest first. -/
def enqueuedIDs (hist : List (Obs ι)) : List Uuid := hist.filterMap fun | .enqueued row => some row.id | _ => none

/-- No id is enqueued twice. -/
def FreshIDs (hist : List (Obs ι)) : Prop := (enqueuedIDs hist).Nodup

instance (hist : List (Obs ι)) : Decidable (FreshIDs hist) := inferInstanceAs (Decidable (enqueuedIDs hist).Nodup)

/-- What a handler keeps of the row it was claimed from: all that goes into the message, up to the number of the
attempt. -/
structure RelayEvent.CopyOf (ev : RelayEvent) (e : Envelope) : Prop where
  id : ev.id = e.id
  destination : ev.destination = e.destination
  type : ev.type = e.eventType
  key : ev.key = e.messageKey
  payload : ev.payload = e.payload
  headers : ev.headers = e.headers
  schemaVersion : ev.schemaVersion = e.schemaVersion
  correlationID : ev.correlationID = deref e.correlationID
  causationID : ev.causationID = deref e.causationID
  traceparent : ev.traceparent = deref e.traceparent
  tracestate : ev.tracestate = deref e.tracestate
  replayedFromEventID : ev.replayedFromEventID = e.replayedFromEventID
  replayBatchID : ev.replayBatchID = e.replayBatchID
  orderingKey : ev.orderingKey = deref e.orderingKey
  orderingSequence : ev.orderingSequence = e.orderingSequence.getD 0
  orderingPartition : ev.orderingPartition = e.orderingPartition

/-- The event was enqueued with this envelope. -/
def Enqueued (hist : List (Obs ι)) (e : Envelope) : Prop := ∃ row, Obs.enqueued row ∈ hist ∧ row.toEnvelope = e

variable {cfg : ι → Config} {s s' : State ι} {hist new : List (Obs ι)}

theorem Enqueued.append {e : Envelope} (h : Enqueued hist e) : Enqueued (new ++ hist) e := by
  obtain ⟨row, hmem, heq⟩ := h
  exact ⟨row, List.mem_append_right _ hmem, heq⟩

theorem mem_enqueuedIDs {row : EventRow} (h : Obs.enqueued row ∈ hist) : row.id ∈ enqueuedIDs hist :=
  List.mem_filterMap.mpr ⟨_, h, rfl⟩

/-- Fresh ids tell the enqueued rows apart. -/
theorem FreshIDs.row_ext : ∀ {hist : List (Obs ι)}, FreshIDs hist → ∀ {a b : EventRow},
    Obs.enqueued a ∈ hist → Obs.enqueued b ∈ hist → a.id = b.id → a = b
  | [], _, _, _, ha, _, _ => by cases ha
  | o :: hist, hf, a, b, ha, hb, hid => by
    have hrest : FreshIDs hist := hf.sublist ((List.sublist_cons_self o hist).filterMap _)
    rcases List.mem_cons.mp ha with rfl | ha'
    · rcases List.mem_cons.mp hb with hb' | hb'
      · exact (Obs.enqueued.inj hb').symm
      · exact absurd (hid ▸ mem_enqueuedIDs hb') (List.nodup_cons.mp hf).1
    · rcases List.mem_cons.mp hb with rfl | hb'
      · exact absurd (hid ▸ mem_enqueuedIDs ha') (List.nodup_cons.mp hf).1
      · exact hrest.row_ext ha' hb' hid

theorem FreshIDs.ext (hf : FreshIDs hist) {a b : Envelope} (ha : Enqueued hist a) (hb : Enqueued hist b)
    (hid : a.id = b.id) : a = b := by
  obtain ⟨ra, ha, rfl⟩ := ha
  obtain ⟨rb, hb, rfl⟩ := hb
  rw [hf.row_ext ha hb hid]

theorem FreshIDs.of_suffix {older : List (Obs ι)} (hf : FreshIDs hist) (hsuf : older <:+ hist) : FreshIDs older :=
  hf.sublist (hsuf.sublist.filterMap _)

theorem FreshIDs.of_next {x : Action ι} (hs : Next cfg s x s') (hf : FreshIDs s'.hist) : FreshIDs s.hist := by
  obtain ⟨new, hhist, -⟩ := hs.news
  exact hf.of_suffix (hhist ▸ List.suffix_append new s.hist)

/-- A claim copies the row. -/
theorem copyOf_scanEvent (r : EventRow) (epoch : Option Int) : (scanEvent r epoch).CopyOf r.toEnvelope := by
  constructor <;> rfl

theorem RelayEvent.CopyOf.attempts {ev : RelayEvent} {e : Envelope} (h : ev.CopyOf e) (n : Int) :
    RelayEvent.CopyOf { ev with attempts := n } e := { h with }

/-- Copies of one event have the same message, up to the number of the attempt. -/
theorem RelayEvent.CopyOf.publishMessage_eq {ev ev' : RelayEvent} {e : Envelope} (h : ev.CopyOf e) (h' : ev'.CopyOf e)
    (hn : ev.attempts = ev'.attempts) (traceparent tracestate : String) :
    publishMessage ev traceparent tracestate = publishMessage ev' traceparent tracestate := by
  unfold publishMessage toMessage
  simp only [h.id, h.destination, h.type, h.key, h.payload, h.headers, h.schemaVersion, h.correlationID, h.causationID,
    h.traceparent, h.tracestate, h.replayedFromEventID, h.replayBatchID, h.orderingKey, h.orderingSequence,
    h.orderingPartition, h'.id, h'.destination, h'.type, h'.key, h'.payload, h'.headers, h'.schemaVersion,
    h'.correlationID, h'.causationID, h'.traceparent, h'.tracestate, h'.replayedFromEventID, h'.replayBatchID,
    h'.orderingKey, h'.orderingSequence, h'.orderingPartition, hn]

/-! ## The invariant -/

theorem Reachable.row_enqueued (h : Reachable cfg s) {id : Uuid} {r : EventRow} (hr : s.db.row id = some r) :
    Enqueued s.hist r.toEnvelope := by
  refine h.inv (I := fun s => ∀ id r, s.db.row id = some r → Enqueued s.hist r.toEnvelope) ?_ ?_ id r hr
  · intro clock id r hr
    cases hr
  · intro s a s' _ hi hs id r hr
    rcases hs.row_origin hr with ⟨r₀, hr₀, henv⟩ | hnew
    · obtain ⟨new, hhist, -⟩ := hs.news
      rw [hhist, ← henv]
      exact (hi id r₀ hr₀).append
    · exact ⟨r, hnew, rfl⟩

theorem Reachable.copy_enqueued (h : Reachable cfg s) {k : Nat} {hd : Handler ι} (hk : s.handlers k = some hd) :
    ∃ e, Enqueued s.hist e ∧ hd.event.CopyOf e := by
  refine h.inv (I := fun s => ∀ k hd, s.handlers k = some hd → ∃ e, Enqueued s.hist e ∧ hd.event.CopyOf e)
    ?_ ?_ k hd hk
  · intro clock k hd hk
    cases hk
  · intro s a s' hreach hi hs k hd hk
    obtain ⟨new, hhist, -⟩ := hs.news
    rw [hhist]
    rcases hs.handler_origin hk with ⟨h₀, hk₀, -, n, hev⟩ | ⟨i, db, evs, hresult, -, -, ev, hev, rfl⟩
    · obtain ⟨e, he, hcopy⟩ := hi k h₀ hk₀
      rw [hev]
      exact ⟨e, he.append, hcopy.attempts n⟩
    · obtain ⟨r, epoch, hr, -, heq⟩ := (claimResult_leases hresult).old ev hev
      refine ⟨r.toEnvelope, (hreach.row_enqueued hr).append, ?_⟩
      rw [heq]
      exact copyOf_scanEvent _ _

/-- A message is that of an enqueued event. -/
theorem Reachable.published_copy (h : Reachable cfg s) {k : Nat} {msg : Message}
    (hmem : Obs.published k msg ∈ s.hist) : ∃ e ev traceparent tracestate, Enqueued s.hist e ∧
      RelayEvent.CopyOf ev e ∧ msg = publishMessage ev traceparent tracestate := by
  refine h.obs (P := fun hist o => ∀ k msg, o = .published k msg → ∃ e ev traceparent tracestate,
    Enqueued hist e ∧
    RelayEvent.CopyOf ev e ∧ msg = publishMessage ev traceparent tracestate) ?_ ?_ _ hmem k msg rfl
  · intro new hist o ho k msg heq
    obtain ⟨e, ev, traceparent, tracestate, he, hrest⟩ := ho k msg heq
    exact ⟨e, ev, traceparent, tracestate, he.append, hrest⟩
  · rintro s o hreach hfact k msg rfl
    obtain ⟨hd, traceparent, tracestate, hk, -, rfl⟩ := hfact
    obtain ⟨e, he, hcopy⟩ := hreach.copy_enqueued hk
    exact ⟨e, hd.event, traceparent, tracestate, he, hcopy, rfl⟩

end

end Emitlane
