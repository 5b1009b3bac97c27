import Emitlane.System.Lifecycle
import Emitlane.System.Origin
import Emitlane.System.Script

/-!
# Delivery — no silent loss, and bounded, numbered attempts

Both results put the two views of a run together: the life of an event (`Reachable.life`) says what its row went
through, the script of a handler (`Reachable.script`) says what the relay did for it.
-/

namespace Emitlane

open Relay Outbox Rel WorkItem

section

variable {ι : Type} {cfg : ι → Config} {s s' : State ι}

/-! ## No silent loss -/

/-- A Publish call for the event `id` has returned nil. -/
def PublishReturnedNil (id : Uuid) (hist : List (Obs ι)) : Prop :=
  ∃ k msg, Obs.published k msg ∈ hist ∧ Obs.acked k id ∈ hist ∧ msg.id = id.text

/-- An event that was finished as delivered was published. -/
theorem Reachable.acked_of_finished (h : Reachable cfg s) {id : Uuid} {k : Nat} {o : String}
    (hmem : Label.finished k o .done ∈ trace cfg id s.hist) : PublishReturnedNil id s.hist := by
  obtain ⟨obs, hobs, hlabel⟩ := mem_trace.mp hmem
  obtain ⟨i, m, ordered, row, rfl, -, hid, hphase⟩ := label_finished hlabel
  obtain rfl : m = .delivered := by
    cases m with
    | delivered => rfl
    | retried => cases hphase
    | killed => cases hphase
  obtain ⟨msg, hp, ha, hmsg⟩ := (h.script.script k).delivered_acked (mem_own.mpr ⟨hobs, rfl⟩)
  rw [hid] at ha hmsg
  exact ⟨k, msg, (mem_own.mp hp).1, (mem_own.mp ha).1, hmsg⟩

theorem Reachable.enqueued_kept (h : Reachable cfg s) {row : EventRow} (henq : Obs.enqueued row ∈ s.hist) :
    (∃ r, s.db.row row.id = some r) ∨ PublishReturnedNil row.id s.hist := by
  have hcreated : Label.created ∈ trace cfg row.id s.hist := mem_trace.mpr ⟨_, henq, by simp [label]⟩
  rcases (h.life row.id).kept hcreated with hsome | ⟨k, o, hfin⟩
  · rw [Option.isSome_map, Option.isSome_iff_exists] at hsome
    exact .inl hsome
  · exact .inr (h.acked_of_finished hfin)

theorem Reachable.delivered_acked (h : Reachable cfg s) {r : EventRow} (hr : r ∈ s.db.events.rows)
    (hst : r.status = .delivered) : PublishReturnedNil r.id s.hist := by
  have hlife := h.life r.id
  unfold Lives at hlife
  rw [s.db.row_mem hr] at hlife
  obtain ⟨k, o, hfin⟩ := hlife.done (itemOf r) rfl (phaseOf_eq_done.mpr hst)
  exact h.acked_of_finished hfin

/-- The message is one of the enqueued event: it has all from the row but the number of the attempt and the trace. -/
def IsMessageOf (msg : Message) (row : EventRow) : Prop :=
  ∃ n traceparent tracestate, msg = publishMessage { scanEvent row none with attempts := n } traceparent tracestate

/-- A Publish call with the message of the enqueued event has returned nil. -/
def EventPublished (row : EventRow) (hist : List (Obs ι)) : Prop :=
  ∃ k msg, Obs.published k msg ∈ hist ∧ Obs.acked k row.id ∈ hist ∧ IsMessageOf msg row

/-- Where ids are fresh, a publish for the id of an event is a publish of the event. -/
theorem Reachable.eventPublished (h : Reachable cfg s) (hf : FreshIDs s.hist) {row : EventRow}
    (henq : Obs.enqueued row ∈ s.hist) (hnil : PublishReturnedNil row.id s.hist) : EventPublished row s.hist := by
  obtain ⟨k, msg, hmsg, hacked, hid⟩ := hnil
  refine ⟨k, msg, hmsg, hacked, ?_⟩
  obtain ⟨e, ev, traceparent, tracestate, he, hcopy, rfl⟩ := h.published_copy hmsg
  have hids : ev.id = row.id := Uuid.text_injective hid
  obtain rfl := hf.ext he ⟨row, henq, rfl⟩ (hcopy.id.symm.trans hids)
  exact ⟨ev.attempts, traceparent, tracestate,
    hcopy.publishMessage_eq ((copyOf_scanEvent row none).attempts ev.attempts) rfl _ _⟩

/-- **No silent loss on the outbox.**  Where no id is enqueued twice, an enqueued event is still there or was published.
Whatever the ids: a delivered row had a publish for its id, stays delivered, and is what a cleanup deletes after the
retention; nothing else deletes rows. -/
theorem no_silent_loss (h : Reachable cfg s) :
    (FreshIDs s.hist → ∀ row, Obs.enqueued row ∈ s.hist →
      (∃ r, s.db.row row.id = some r ∧ r.toEnvelope = row.toEnvelope) ∨ EventPublished row s.hist) ∧
    (∀ r ∈ s.db.events.rows, r.status = .delivered → PublishReturnedNil r.id s.hist) ∧
    (∀ a s', step cfg s a = some s' → ∀ r ∈ s.db.events.rows,
      (r.status = .delivered → ∀ r' ∈ s'.db.events.rows, r'.id = r.id → r'.status = .delivered) ∧
      (s'.db.row r.id = none → ∃ retention limit locked t, a = .cleanup retention limit locked ∧ 0 < retention ∧
        r.status = .delivered ∧ r.deliveredAt = some t ∧ t < addMS s.clock (- intervalMS retention))) := by
  refine ⟨fun hf row hrow => ?_, fun r hr hst => h.delivered_acked hr hst, ?_⟩
  · rcases h.enqueued_kept hrow with ⟨r, hr⟩ | hnil
    · exact .inl ⟨r, hr, hf.ext (h.row_enqueued hr) ⟨row, hrow, rfl⟩ (s.db.row_eq_some.mp hr).2⟩
    · exact .inr (h.eventPublished hf hrow hnil)
  intro a s' hs r hr
  have hcases := (next_of_step hs).row_cases hr
  constructor
  · intro hst r' hr' hid
    have hnew := s'.db.row_mem hr'
    rw [hid] at hnew
    rcases hcases with hsame | ⟨hne, -⟩ | ⟨hnone, -⟩
    · rw [hsame] at hnew
      exact Option.some.inj hnew ▸ hst
    · exact absurd hst hne
    · rw [hnone] at hnew
      cases hnew
  · intro hgone
    rcases hcases with hsame | ⟨-, f, hsome⟩ | ⟨-, retention, limit, locked, ha, hpos, hexp⟩
    · rw [hsame] at hgone
      cases hgone
    · rw [hsome] at hgone
      cases hgone
    · obtain ⟨hst, hold⟩ := Bool.and_eq_true_iff.mp hexp
      obtain ⟨t, ht, hlt⟩ := Option.any_eq_true _ _ |>.mp hold
      exact ⟨retention, limit, locked, t, ha, hpos, of_decide_eq_true hst, ht, of_decide_eq_true hlt⟩

/-- One relay, an event, and the calls of an uneventful delivery. -/
def exampleRelay : Unit → Config := fun _ => { defaultConfig with instanceID := "relay-a" }

def exampleID : Uuid := ⟨7, by decide⟩

def exampleCall : Call where
  event :=
    { id := "", destination := "orders", type := "created", key := none, payload := [], contentType := "",
      headers := [], schemaVersion := 0, correlationID := "", causationID := "", availableAt := none,
      orderingKey := "", sequence := 0, orderingStartSequence := 0 }
  traceparent := ""
  tracestate := ""
  generated := some exampleID

def exampleDelivery : List (Action Unit) :=
  [.produce 0 [exampleCall] true, .claim () 10 (fun _ => false), .begin 0, .publish 0 "" "", .ack 0,
   .settle 0 false 0]

def Obs.enqueues (id : Uuid) : Obs ι → Bool
  | .enqueued row => row.id = id
  | _ => false

/-- An event that was delivered and cleaned up was published. -/
theorem no_silent_loss_after_cleanup : ∃ (s : State Unit) (row : EventRow), Reachable exampleRelay s ∧
    FreshIDs s.hist ∧ Obs.enqueued row ∈ s.hist ∧ row.id = exampleID ∧ s.db.row exampleID = none ∧
    EventPublished row s.hist := by
  obtain ⟨s, hreach, hp⟩ := exists_reachable exampleRelay
    (exampleDelivery ++ [.tick (8 * 24 * 3600 * 1000000), .cleanup (7 * 24 * 3600 * second) 10 (fun _ => false)])
    (fun s => FreshIDs s.hist && (s.db.row exampleID).isNone && s.hist.any (Obs.enqueues exampleID))
    (by decide +kernel)
  simp only [Bool.and_eq_true, decide_eq_true_eq, Option.isNone_iff_eq_none] at hp
  obtain ⟨⟨hfresh, hgone⟩, henq⟩ := hp
  obtain ⟨o, ho, hid⟩ := List.any_eq_true.mp henq
  cases o with
  | enqueued row =>
    have hid : row.id = exampleID := of_decide_eq_true hid
    rcases (no_silent_loss hreach).1 hfresh row ho with ⟨r, hr, -⟩ | hpub
    · rw [hid, hgone] at hr
      cases hr
    · exact ⟨s, row, hreach, hfresh, ho, hid, hgone, hpub⟩
  | _ => cases hid

/-- The caller names the event: it has the id of `exampleCall` and a payload. -/
def exampleReuse (payload : Bytes) : Call :=
  { exampleCall with event := { exampleCall.event with id := exampleID.text, payload := payload } }

/-- An id that comes back: the publish of handler 0 has returned nil, but before its MarkDelivered the lease expires,
handler 1 delivers the event too, it is cleaned up, and the id is enqueued again with another payload.  Handler 2 claims
the new event, and the MarkDelivered of handler 0 marks it. -/
def exampleStaleMark : List (Action Unit) :=
  [.produce 0 [exampleReuse []] true, .claim () 10 (fun _ => false), .begin 0, .publish 0 "" "", .ack 0,
   .tick (30 * 1000000), .claim () 10 (fun _ => false), .begin 1, .publish 1 "" "", .ack 1, .settle 1 false 0,
   .tick (2 * 1000000), .cleanup second 10 (fun _ => false), .produce 0 [exampleReuse [1]] true,
   .claim () 10 (fun _ => false), .settle 0 false 0, .crash 2, .tick (2 * 1000000),
   .cleanup second 10 (fun _ => false)]

/-- The second event of the run is enqueued. -/
def Obs.enqueuesReuse : Obs ι → Bool
  | .enqueued row => row.id = exampleID && row.payload = [1]
  | _ => false

/-- No payload but that of the first event is published. -/
def Obs.publishesEmpty : Obs ι → Bool
  | .published _ msg => msg.payload = []
  | _ => true

/-- Without fresh ids an event can be marked delivered and cleaned up that nobody has published. -/
theorem reused_id_lost : (∀ i, (exampleRelay i).Valid) ∧ ∃ (s : State Unit) (row : EventRow),
    Reachable exampleRelay s ∧ Obs.enqueued row ∈ s.hist ∧ s.db.row row.id = none ∧
      ¬ EventPublished row s.hist := by
  refine ⟨by decide +kernel, ?_⟩
  obtain ⟨s, hreach, hp⟩ := exists_reachable exampleRelay exampleStaleMark
    (fun s => s.hist.any Obs.enqueuesReuse && (s.db.row exampleID).isNone && s.hist.all Obs.publishesEmpty)
    (by decide +kernel)
  simp only [Bool.and_eq_true, Option.isNone_iff_eq_none] at hp
  obtain ⟨⟨henq, hgone⟩, hnone⟩ := hp
  obtain ⟨o, ho, htest⟩ := List.any_eq_true.mp henq
  cases o with
  | enqueued row =>
    obtain ⟨hid, hpayload⟩ := Bool.and_eq_true_iff.mp htest
    have hid : row.id = exampleID := of_decide_eq_true hid
    have hpayload : row.payload = [1] := of_decide_eq_true hpayload
    refine ⟨s, row, hreach, ho, hid ▸ hgone, ?_⟩
    -- every message has the payload of the first event
    rintro ⟨k, msg, hmsg, -, n, traceparent, tracestate, rfl⟩
    have hempty : row.payload = [] := of_decide_eq_true (List.all_eq_true.mp hnone _ hmsg)
    rw [hpayload] at hempty
    cases hempty
  | _ => cases htest

/-! ## Attempts -/

/-- No begin exceeds the budget of the relay that made it. -/
theorem Reachable.began_le (h : Reachable cfg s) {k : Nat} {i : ι} {ev : RelayEvent} {row : EventRow} {t : Int}
    (hmem : Obs.began k i ev row t ∈ s.hist) : ev.attempts ≤ (cfg i).maxAttempts := by
  refine h.obs (P := fun _ o => ∀ k i ev row t, o = .began k i ev row t → ev.attempts ≤ (cfg i).maxAttempts)
    (fun _ _ _ h => h) ?_ _ hmem k i ev row t rfl
  rintro s o - hfact k i ev row t rfl
  obtain ⟨-, -, hd, -, -, -, rfl, -, hlt, -⟩ := hfact
  show row.attempts + 1 ≤ _
  omega

theorem mem_attemptsSince {ls : List (Label String Nat)} {n : Int} (h : n ∈ attemptsSince ls) :
    ∃ k o, Label.began k o n ∈ ls := by
  induction ls with
  | nil => cases h
  | cons l ls ih =>
    cases l with
    | began k o m =>
      rcases List.mem_cons.mp h with rfl | h
      · exact ⟨k, o, List.mem_cons_self⟩
      · obtain ⟨k', o', hmem⟩ := ih h
        exact ⟨k', o', List.mem_cons_of_mem _ hmem⟩
    | created => cases h
    | revived => cases h
    | claimed k o => obtain ⟨k', o', hmem⟩ := ih h; exact ⟨k', o', List.mem_cons_of_mem _ hmem⟩
    | finished k o p => obtain ⟨k', o', hmem⟩ := ih h; exact ⟨k', o', List.mem_cons_of_mem _ hmem⟩
    | deleted => obtain ⟨k', o', hmem⟩ := ih h; exact ⟨k', o', List.mem_cons_of_mem _ hmem⟩

/-- The number of attempts since the event was created or revived is within the budget. -/
theorem Reachable.attempts_le (h : Reachable cfg s) (hshared : ∀ i j, (cfg i).maxAttempts = (cfg j).maxAttempts)
    {i : ι} (hpos : 0 ≤ (cfg i).maxAttempts) (id : Uuid) :
    ((attemptsSince (trace cfg id s.hist)).length : Int) ≤ (cfg i).maxAttempts := by
  have hcount := (h.life id).attempts.1
  cases hlen : (attemptsSince (trace cfg id s.hist)).length with
  | zero => exact hpos
  | succ n =>
    rw [hlen] at hcount
    -- the newest attempt has the number of attempts as its number
    have hmem : ((n : Int) + 1) ∈ attemptsSince (trace cfg id s.hist) := by
      rw [hcount]
      exact List.mem_cons_self
    obtain ⟨k, o, hbegan⟩ := mem_attemptsSince hmem
    obtain ⟨obs, hobs, hlabel⟩ := mem_trace.mp hbegan
    obtain ⟨i', ev, row, t, rfl, -, -, hn⟩ := label_began hlabel
    have hle := h.began_le hobs
    rw [hn, hshared i' i] at hle
    exact hle

/-- **Publish attempts are bounded and numbered.**  Since an event was created or last revived, its successful
begins returned 1, 2, 3, … and are within the budget; the attempts column is their number; and every publish follows
the one begin of its handler, is the only one of its handler, and carries the number of this begin. -/
theorem publish_attempts_bounded (hvalid : ∀ i, (cfg i).Valid)
    (hshared : ∀ i j, (cfg i).maxAttempts = (cfg j).maxAttempts) (h : Reachable cfg s) :
    (∀ id, attemptsSince (trace cfg id s.hist) = countdown (attemptsSince (trace cfg id s.hist)).length ∧
      (∀ i, ((attemptsSince (trace cfg id s.hist)).length : Int) ≤ (cfg i).maxAttempts) ∧
      ∀ r, s.db.row id = some r → r.attempts = (attemptsSince (trace cfg id s.hist)).length) ∧
    (∀ k, s.hist.countP (fun o => o.isBegan && o.serial = some k) ≤ 1 ∧
      s.hist.countP (fun o => o.isPublished && o.serial = some k) ≤ 1) ∧
    (∀ k msg pre, (Obs.published k msg :: pre) <:+ s.hist → ∃ i ev row t, Obs.began k i ev row t ∈ pre ∧
      row.id = ev.id ∧ ev.attempts = row.attempts + 1 ∧ msg.id = ev.id.text ∧
      getEntry msg.headers headerAttempt = some (toString ev.attempts)) := by
  refine ⟨fun id => ⟨(h.life id).attempts.1, fun i => ?_, fun r hr => ?_⟩, fun k => ?_,
    fun k msg pre hsuf => ?_⟩
  · have hpos := (hvalid i).bounds.maxAttempts
    exact h.attempts_le hshared (by omega) id
  · exact (h.life id).attempts.2 (itemOf r) (by rw [hr, Option.map_some])
  · obtain ⟨hb, hp, -⟩ := (h.script.script k).counts
    unfold own at hb hp
    rw [List.countP_filter] at hb hp
    exact ⟨hb, hp⟩
  · have hown : (Obs.published k msg :: own k pre) <:+ own k s.hist := by
      have hfilter := hsuf.filter fun o => decide (o.serial = some k)
      rw [List.filter_cons_of_pos (by simp [Obs.serial])] at hfilter
      exact hfilter
    obtain ⟨i, ev, row, t, hmem, hrest⟩ := (h.script.script k).publish_follows hown
    exact ⟨i, ev, row, t, (mem_own.mp hmem).1, hrest⟩

/-- An event that failed once: the second attempt is number 2. -/
theorem publish_attempts_bounded_retry : ∃ s : State Unit, Reachable exampleRelay s ∧
    attemptsSince (trace exampleRelay exampleID s.hist) = [2, 1] ∧
    ∃ r, s.db.row exampleID = some r ∧ r.attempts = 2 := by
  obtain ⟨s, hreach, hp⟩ := exists_reachable exampleRelay
    [.produce 0 [exampleCall] true, .claim () 10 (fun _ => false), .begin 0, .publish 0 "" "",
     .fail 0 ⟨[], false, true⟩, .settle 0 false 0, .claim () 10 (fun _ => false), .begin 1, .publish 1 "" ""]
    (fun s => attemptsSince (trace exampleRelay exampleID s.hist) = [2, 1] && (s.db.row exampleID).isSome)
    (by decide +kernel)
  obtain ⟨hatt, hrow⟩ := Bool.and_eq_true_iff.mp hp
  have hatt := of_decide_eq_true hatt
  obtain ⟨r, hr⟩ := Option.isSome_iff_exists.mp hrow
  have hvalid : ∀ i, (exampleRelay i).Valid := by decide +kernel
  have hbound := publish_attempts_bounded hvalid (fun _ _ => rfl) hreach
  refine ⟨s, hreach, hatt, r, hr, ?_⟩
  rw [(hbound.1 exampleID).2.2 r hr, hatt]
  rfl

end

end Emitlane
