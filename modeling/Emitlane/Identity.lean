import Emitlane.Outbox.Writer
import Emitlane.Consumer.Message
import Emitlane.Admin.Service

/-!
# Identity — the event id from the writer to the operator

The writer, the resolver of the managed consumer, the claim of the Inbox and the admin service each decide on their
own which ids they take.  `Usable` says that those downstream take the id; the writer admits exactly one id that is
not usable, the nil UUID.
-/

namespace Emitlane

open Consumer (resolveEventID recordHeaders)

/-- Every component behind the writer takes the id, whatever else the request holds, as long as that is in order. -/
structure Usable (id : Uuid) : Prop where
  resolved : ∀ (ev : RelayEvent) (message : Consumer.Message), ev.id = id →
    message.headers.Perm (recordHeaders (toMessage ev)) → resolveEventID message = .ok id
  claimed : ∀ req : Inbox.ClaimRequest, req.eventID = id → trimSpace req.consumer ≠ "" →
    trimSpace req.source.topic ≠ "" → trimSpace req.leaseOwner ≠ "" → 0 ≤ req.source.partition →
    0 ≤ req.source.offset → 0 < req.leaseDuration → Inbox.validateClaim req = .ok ()
  inspected : ∀ (α : Type) (store : Uuid → Bool → Except StoreError α) (sensitive : Bool),
    Service.inspectEvent store id sensitive = store id sensitive
  retried : ∀ (α : Type) (store : Uuid → Mutation → Except StoreError α) (trace : String × String)
    (m m' : Mutation),
    Service.normalizeMutation trace m false = .ok m' → Service.retryDead store trace id m = store id m'
  replayed : ∀ (α : Type) (store : Uuid → Mutation → Except StoreError α) (trace : String × String)
    (m m' : Mutation),
    Service.normalizeMutation trace m true = .ok m' → Service.replayEvent store trace id m = store id m'
  inboxInspected : ∀ (α : Type) (store : String → Uuid → Except StoreError α) (consumer : String),
    trimSpace consumer ≠ "" → (bytes (trimSpace consumer)).length ≤ 256 →
      Service.inspectInbox store consumer id = store (trimSpace consumer) id
  inboxRetried : ∀ (α : Type) (store : String → Uuid → Mutation → Except StoreError α)
    (trace : String × String)
    (consumer : String) (m m' : Mutation), trimSpace consumer ≠ "" → (bytes (trimSpace consumer)).length ≤ 256 →
      Service.normalizeMutation trace m true = .ok m' →
        Service.retryDeadInbox store trace consumer id m = store (trimSpace consumer) id m'
  requested : ∀ r : Inbox.RetryRequest, r.eventID = id → r.consumer ≠ "" → r.actor ≠ "" →
    r.reason ≠ "" →
    (bytes r.actor).length ≤ 256 → (bytes r.reason).length ≤ 4096 → (bytes r.requestID).length ≤ 256 →
      r.validate = .ok ()

theorem inboxTarget_eq {consumer : String} {id : Uuid} (hid : id ≠ 0) (hconsumer : trimSpace consumer ≠ "")
    (hlen : (bytes (trimSpace consumer)).length ≤ 256) :
    Service.inboxTarget consumer id = .ok (trimSpace consumer) := by
  unfold Service.inboxTarget
  rw [if_neg]
  rintro (h | h | h)
  · exact hconsumer h
  · omega
  · exact hid h

theorem mutateEvent_eq {α : Type} {store : Uuid → Mutation → Except StoreError α} {reasonRequired : Bool}
    {trace : String × String} {id : Uuid} {m m' : Mutation} (hid : id ≠ 0)
    (hm : Service.normalizeMutation trace m reasonRequired = .ok m') :
    Service.mutateEvent store reasonRequired trace id m = store id m' := by
  unfold Service.mutateEvent
  rw [if_neg hid, hm]
  rfl

theorem Usable.of_ne_zero {id : Uuid} (hid : id ≠ 0) : Usable id where
  resolved ev message hev hperm := by
    subst hev
    exact Consumer.resolveEventID_toMessage hperm
  claimed req hreq hconsumer htopic howner hpartition hoffset hlease := by
    unfold Inbox.validateClaim
    rw [if_neg]
    simp only [Bool.or_eq_true, decide_eq_true_eq, hreq, hid, hconsumer, htopic, howner, or_false, false_or]
    omega
  inspected _ _ _ := if_neg hid
  retried _ _ _ _ _ hm := mutateEvent_eq hid hm
  replayed _ _ _ _ _ hm := mutateEvent_eq hid hm
  inboxInspected _ _ _ hconsumer hlen := by
    unfold Service.inspectInbox
    rw [inboxTarget_eq hid hconsumer hlen]
    rfl
  inboxRetried _ _ _ _ _ _ hconsumer hlen hm := by
    unfold Service.retryDeadInbox
    rw [inboxTarget_eq hid hconsumer hlen, hm]
    rfl
  requested r hr hconsumer hactor hreason hactorLen hreasonLen hrequestLen := by
    unfold Inbox.RetryRequest.validate
    rw [if_neg (by simp [hr, hid, hconsumer, hactor, hreason]), if_neg]
    simp only [Bool.or_eq_true, decide_eq_true_eq]
    omega

theorem not_usable_zero : ¬Usable 0 := by
  intro h
  have hnil := h.inspected Unit (fun _ _ => .ok ()) false
  cases hnil

namespace Outbox

/-- The row of a successful Enqueue has the id of the call. -/
theorem enqueue_id {db db' : Db} {now : Int} {c : Call} {row : EventRow} (h : enqueue db now c = .ok db' row) :
    c.rowID = .ok row.id := by
  have hrow : ∀ db, enqueueRow db now c = .ok db' row → c.rowID = .ok row.id := by
    intro db h
    unfold enqueueRow at h
    split at h
    · cases h
    · rename_i id hid
      split at h
      · cases h
      · obtain ⟨-, rfl⟩ := Outcome.ok.inj h
        exact hid
  unfold enqueue at h
  split at h
  · cases h
  · split_ifs at h
    · exact hrow _ h
    · simp only at h
      split at h
      · cases h
      · cases h
      · exact hrow _ h

/-- The call succeeded with a database and a row that pass a test. -/
def Outcome.any (p : Db → EventRow → Bool) : Outcome → Bool
  | .ok db row => p db row
  | _ => false

theorem Outcome.exists_of_any {p : Db → EventRow → Bool} {o : Outcome} (h : o.any p = true) :
    ∃ db row, o = .ok db row ∧ p db row = true := by
  cases o with
  | ok db row => exact ⟨db, row, rfl, h⟩
  | rejected => cases h
  | aborted => cases h

/-- The id of a row is the one the caller wrote, in whatever spelling: validation has parsed it. -/
theorem uuidParse_of_rowID {c : Call} {id : Uuid} (hvalid : c.event.validate = .ok ()) (hid : c.rowID = .ok id)
    (hne : c.event.id ≠ "") : uuidParse c.event.id = .ok id := by
  unfold Call.rowID at hid
  rw [if_neg hne] at hid
  cases hparse : uuidParse c.event.id with
  | ok u =>
    rw [hparse] at hid
    obtain rfl := Except.ok.inj hid
    rfl
  | error err =>
    unfold Event.validate invalid at hvalid
    rw [if_pos hne, hparse] at hvalid
    dsimp only [Except.map] at hvalid
    split_ifs at hvalid

end Outbox

/-- The id an admitted event is stored and published with is the one its caller wrote or the generated one, and it is
usable downstream if and only if it is not the nil UUID. -/
theorem admitted_id_usable_iff {c : Outbox.Call} {id : Uuid} (hvalid : c.event.validate = .ok ())
    (hid : c.rowID = .ok id) :
    (∀ db now db' row, Outbox.enqueue db now c = .ok db' row → row.id = id) ∧
    (c.event.id ≠ "" → uuidParse c.event.id = .ok id) ∧ (Usable id ↔ id ≠ 0) := by
  refine ⟨fun db now db' row h => ?_, Outbox.uuidParse_of_rowID hvalid hid, ?_, Usable.of_ne_zero⟩
  · exact (Except.ok.inj (hid.symm.trans (Outbox.enqueue_id h))).symm
  · rintro h rfl
    exact not_usable_zero h

/-- A call with the id `text`. -/
def exampleIDCall (text : String) : Outbox.Call where
  event :=
    { id := text, destination := "orders", type := "created", key := none, payload := [], contentType := "",
      headers := [], schemaVersion := 0, correlationID := "", causationID := "", availableAt := none, orderingKey := "",
      sequence := 0, orderingStartSequence := 0 }
  traceparent := ""
  tracestate := ""
  generated := none

def exampleNilText : String := "00000000-0000-0000-0000-000000000000"

def exampleUrnText : String := "URN:UUID:00000000-0000-7000-8000-00000000000A"

theorem admitted_id_usable_iff_urn : Usable 0x7000800000000000000a :=
  (admitted_id_usable_iff (c := exampleIDCall exampleUrnText) (by decide +kernel) (by decide +kernel)).2.2.mpr
    (by decide +kernel)

def exampleNilClaim : Inbox.ClaimRequest where
  consumer := "billing"
  eventID := 0
  source := ⟨"orders", 0, 0, none⟩
  leaseOwner := "worker"
  leaseDuration := 1

/-- The writer takes the nil UUID and stores it; the claim of a consumer and the request of an operator are refused. -/
theorem nil_id_admitted_not_usable :
    (exampleIDCall exampleNilText).event.validate = .ok () ∧
    (∃ db row, Outbox.enqueue Db.empty 0 (exampleIDCall exampleNilText) = .ok db row ∧ row.id = 0 ∧
      (Inbox.validateClaim exampleNilClaim).isOk = false ∧
      (db.inspectEvent 0 false).isOk = true ∧ (Service.inspectEvent db.inspectEvent 0 false).isOk = false) ∧
    ¬Usable 0 := by
  refine ⟨by decide +kernel, ?_, not_usable_zero⟩
  obtain ⟨db, row, hdb, htest⟩ := Outbox.Outcome.exists_of_any
    (p := fun db row => decide (row.id = 0) && (db.inspectEvent 0 false).isOk)
    (o := Outbox.enqueue Db.empty 0 (exampleIDCall exampleNilText)) (by decide +kernel)
  obtain ⟨hrow, hfound⟩ := Bool.and_eq_true_iff.mp htest
  exact ⟨db, row, hdb, of_decide_eq_true hrow, by decide +kernel, hfound, rfl⟩

end Emitlane
