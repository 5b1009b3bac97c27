import Emitlane.AuditTrail
import Emitlane.Inbox.Effect

/-!
# Journal — the one audit log of the outbox and the Inbox

InboxStore.RetryDead writes its record to the log that the operators of the outbox write to.  Here the outbox and the
Inbox run on one database: after a step of one half the other one sees the log it has left.  Nothing else is shared.

* `Inbox.recorded_of_step`: what a step of the Inbox adds to the log.
* `journal`: the records of the audited calls of a run that succeeded, in their order.
* `audit_trail`: the log is this journal, and what it accounts for.
-/

namespace Emitlane

/-! ## What the Inbox records -/

namespace Inbox

/-- The audit record of a step: that of a RetryDead that succeeds. -/
def auditRecord (s : State) : Action → Option AuditRow
  | .retryDead request auditID =>
    if (s.db.retryDead s.clock request auditID).isOk then some (request.trim.auditRow s.clock auditID) else none
  | _ => none

section

variable {s s' : State}

/-- Only RetryDead writes to the log. -/
theorem Effect.audit_eq {a : Action} (h : Effect s a s')
    (hretry : ∀ request auditID, a ≠ .retryDead request auditID) : s'.db.audit = s.db.audit := by
  cases h with
  | retryDead => exact absurd rfl (hretry _ _)
  | none _ haudit _ | claim _ _ _ _ _ haudit _ | token _ _ _ _ haudit _ | commit _ _ haudit _ => exact haudit

theorem recorded_of_step {a : Action} (hi : Inv s) (h : step s a = some s') :
    s'.db.audit.rows = s.db.audit.rows ++ (auditRecord s a).toList := by
  cases a with
  | retryDead request auditID =>
    rcases State.call_some h with ⟨rfl, e, hretry⟩ | ⟨db, hretry, rfl⟩
    · simp [auditRecord, hretry, Except.isOk, Except.toBool]
    · simpa [auditRecord, hretry, Except.isOk, Except.toBool] using Db.retryDead_audit hretry
  | _ =>
    rw [(effect_of_step hi h).audit_eq fun _ _ heq => by cases heq]
    exact (List.append_nil _).symm

/-- The invariant does not look at the log. -/
theorem Inv.withAudit (hi : Inv s) (log : Rel.Table auditSchema) :
    Inv { s with db := { s.db with audit := log } } where
  bounded := hi.bounded
  held := hi.held
  txs := hi.txs
  spent := hi.spent
  once := hi.once
  newest := hi.newest

end

end Inbox

/-! ## One database -/

namespace Journal

/-- The outbox and the Inbox of a database. -/
structure State (ι : Type) where
  outbox : Emitlane.State ι
  inbox : Inbox.State

/-- A step of the outbox or of the Inbox; time passes for both. -/
inductive Action (ι : Type)
  | tick (d : Nat)
  | outbox (a : Emitlane.Action ι)
  | inbox (a : Inbox.Action)

section

variable {ι : Type}

/-- The log as the other half has left it. -/
def readOutbox (s : Emitlane.State ι) (log : Rel.Table auditSchema) : Emitlane.State ι :=
  { s with db := { s.db with audit := log } }

def readInbox (s : Inbox.State) (log : Rel.Table auditSchema) : Inbox.State :=
  { s with db := { s.db with audit := log } }

variable (cfg : ι → Relay.Config)

def step (v : State ι) : Action ι → Option (State ι)
  | .tick d =>
    (Emitlane.step cfg v.outbox (.tick d)).bind fun o => (Inbox.step v.inbox (.tick d)).map fun i => ⟨o, i⟩
  | .outbox (.tick _) | .inbox (.tick _) => none
  | .outbox a => (Emitlane.step cfg v.outbox a).map fun o => ⟨o, readInbox v.inbox o.db.audit⟩
  | .inbox a => (Inbox.step v.inbox a).map fun i => ⟨readOutbox v.outbox i.db.audit, i⟩

def State.init (ι : Type) (clock : Int) : State ι := ⟨Emitlane.State.init ι clock, Inbox.State.init clock⟩

/-- The states reached from the migrated empty schema. -/
def Reachable (v : State ι) : Prop := ∃ clock, Runs.Reach (step cfg) Runs.Free (State.init ι clock) v

/-- The audit record of a step. -/
def record (v : State ι) : Action ι → Option AuditRow
  | .tick _ => none
  | .outbox a => auditRecord v.outbox.clock a
  | .inbox a => Inbox.auditRecord v.inbox a

/-- The records of the audited calls of a run that succeeded, in their order. -/
def journal (v : State ι) : List (Action ι) → List AuditRow
  | [] => []
  | a :: as => (record v a).toList ++ (step cfg v a).elim [] fun v' => journal v' as

/-! ## What a step does -/

variable {cfg} {v v' : State ι} {a : Action ι}

/-- A step is one of both halves or of one of them, and the other one reads the log. -/
inductive Half (cfg : ι → Relay.Config) (v : State ι) : Action ι → State ι → Prop
  | tick (d : Nat) {o : Emitlane.State ι} {i : Inbox.State} (ho : Emitlane.step cfg v.outbox (.tick d) = some o)
      (hi : Inbox.step v.inbox (.tick d) = some i) : Half cfg v (.tick d) ⟨o, i⟩
  | outbox (a : Emitlane.Action ι) {o : Emitlane.State ι} (ho : Emitlane.step cfg v.outbox a = some o) :
      Half cfg v (.outbox a) ⟨o, readInbox v.inbox o.db.audit⟩
  | inbox (a : Inbox.Action) {i : Inbox.State} (hi : Inbox.step v.inbox a = some i) :
      Half cfg v (.inbox a) ⟨readOutbox v.outbox i.db.audit, i⟩

theorem half_of_step (h : step cfg v a = some v') : Half cfg v a v' := by
  unfold step at h
  split at h
  · obtain ⟨o, ho, h⟩ := Option.bind_eq_some_iff.mp h
    obtain ⟨i, hi, rfl⟩ := Option.map_eq_some_iff.mp h
    exact .tick _ ho hi
  · cases h
  · cases h
  · obtain ⟨o, ho, rfl⟩ := Option.map_eq_some_iff.mp h
    exact .outbox _ ho
  · obtain ⟨i, hi, rfl⟩ := Option.map_eq_some_iff.mp h
    exact .inbox _ hi

theorem inboxInv_of_step (hi : Inbox.Inv v.inbox) (h : step cfg v a = some v') : Inbox.Inv v'.inbox := by
  cases half_of_step h with
  | tick d _ hs => exact hi.next hs
  | outbox a _ => exact hi.withAudit _
  | inbox a hs => exact hi.next hs

/-- The log grows by the record of the step. -/
theorem audit_of_step (hi : Inbox.Inv v.inbox) (hshared : v.inbox.db.audit = v.outbox.db.audit)
    (h : step cfg v a = some v') :
    v'.outbox.db.audit.rows = v.outbox.db.audit.rows ++ (record v a).toList ∧
      v'.inbox.db.audit = v'.outbox.db.audit := by
  cases half_of_step h with
  | tick d ho hs =>
    obtain rfl := Option.some.inj ho
    obtain rfl := Option.some.inj hs
    exact ⟨(List.append_nil _).symm, hshared⟩
  | outbox a ho => exact ⟨(recorded_of_step ho).audit, rfl⟩
  | inbox a hs =>
    refine ⟨?_, rfl⟩
    rw [← hshared]
    exact Inbox.recorded_of_step hi hs

/-! ## Whole runs -/

/-- What the log accounts for in the outbox. -/
structure Inv (v : State ι) : Prop where
  shared : v.inbox.db.audit = v.outbox.db.audit
  control : v.outbox.db.control.rows = [controlRow v.outbox.db.audit.rows]
  rows : ∀ id r, v.outbox.db.row id = some r → Enqueued v.outbox.hist r.toEnvelope
  lineage : ∀ row, Obs.enqueued row ∈ v.outbox.hist → Lineage v.outbox row

theorem Inv.init (clock : Int) : Inv (State.init ι clock) where
  shared := rfl
  control := rfl
  rows := fun _ _ hr => by cases hr
  lineage := fun _ hrow => by cases hrow

/-- A step of the outbox, from any state. -/
theorem Inv.outbox (h : Inv v) {a : Emitlane.Action ι} {o : Emitlane.State ι}
    (ho : Emitlane.step cfg v.outbox a = some o) {i : Inbox.State} (hi : i.db.audit = o.db.audit) : Inv ⟨o, i⟩ := by
  have hrecorded := recorded_of_step ho
  have hnext := next_of_step ho
  obtain ⟨new, hhist, -⟩ := hnext.news
  refine ⟨hi, ?_, fun id r hr => ?_, hrecorded.lineage (hhist ▸ List.subset_append_right _ _) h.rows h.lineage⟩
  · show o.db.control.rows = _
    rw [hrecorded.control, hrecorded.audit, h.control, List.map_singleton, if_pos (controlRow_singleton _), controlRow,
      controlRow, List.foldl_append, apply_record]
  · rcases hnext.row_origin hr with ⟨r₀, hr₀, henv⟩ | hnew
    · show Enqueued o.hist _
      rw [hhist, ← henv]
      exact (h.rows id r₀ hr₀).append
    · exact ⟨r, hnew, rfl⟩

/-- The record of the Inbox leaves the control row alone. -/
theorem apply_inboxRecord (s : Inbox.State) (a : Inbox.Action) (c : ControlRow) :
    (Inbox.auditRecord s a).toList.foldl AuditRow.apply c = c := by
  unfold Inbox.auditRecord
  split
  · split_ifs <;> rfl
  · rfl

theorem Inv.inbox (h : Inv v) (hi : Inbox.Inv v.inbox) {a : Inbox.Action} {i : Inbox.State}
    (hs : Inbox.step v.inbox a = some i) : Inv ⟨readOutbox v.outbox i.db.audit, i⟩ := by
  have haudit : i.db.audit.rows = v.outbox.db.audit.rows ++ (Inbox.auditRecord v.inbox a).toList := by
    rw [← h.shared]
    exact Inbox.recorded_of_step hi hs
  refine ⟨rfl, ?_, h.rows, fun row hrow => (h.lineage row hrow).mono (fun _ => id) ?_⟩
  · show v.outbox.db.control.rows = [controlRow i.db.audit.rows]
    rw [h.control, haudit, controlRow, controlRow, List.foldl_append, apply_inboxRecord]
  · show _ ⊆ i.db.audit.rows
    rw [haudit]
    exact List.subset_append_left _ _

theorem Inv.step (h : Inv v) (hi : Inbox.Inv v.inbox) (hs : Journal.step cfg v a = some v') : Inv v' := by
  cases half_of_step hs with
  | tick d ho hstep =>
    refine h.outbox ho ?_
    obtain rfl := Option.some.inj ho
    obtain rfl := Option.some.inj hstep
    exact h.shared
  | outbox a ho => exact h.outbox ho rfl
  | inbox a hstep => exact h.inbox hi hstep

theorem Reachable.inv (h : Reachable cfg v) : Inbox.Inv v.inbox ∧ Inv v := by
  obtain ⟨clock, hrun⟩ := h
  exact hrun.inv (I := fun v => Inbox.Inv v.inbox ∧ Inv v)
    (fun v a v' hv _ hs => ⟨inboxInv_of_step hv.1 hs, hv.2.step hv.1 hs⟩) ⟨Inbox.Inv.init clock, .init clock⟩

theorem audit_of_exec : ∀ (as : List (Action ι)) {v v' : State ι}, Inbox.Inv v.inbox →
    v.inbox.db.audit = v.outbox.db.audit → Runs.exec (step cfg) v as = some v' →
    v'.outbox.db.audit.rows = v.outbox.db.audit.rows ++ journal cfg v as
  | [], v, v', _, _, h => by
    obtain rfl : v = v' := Option.some.inj h
    exact (List.append_nil _).symm
  | a :: as, v, v', hi, hshared, h => by
    obtain ⟨v₁, hs, h⟩ := Option.bind_eq_some_iff.mp h
    obtain ⟨haudit, hshared'⟩ := audit_of_step hi hshared hs
    rw [audit_of_exec as (inboxInv_of_step hi hs) hshared' h, haudit, journal, hs, List.append_assoc]
    rfl

end

/-! ## Examples -/

/-- A step of the outbox in a run of both. -/
def ofOutbox {ι : Type} : Emitlane.Action ι → Action ι
  | .tick d => .tick d
  | a => .outbox a

/-- The event is delivered and replayed, its replay is replayed, and the relays are paused. -/
def exampleReplays : List (Emitlane.Action Unit) :=
  exampleDelivery ++
    [.replayEvent exampleID exampleMutation 8 20 30,
     .claim () 10 (fun _ => false), .begin 1, .publish 1 "" "", .ack 1, .settle 1 false 0,
     .replayEvent 8 exampleMutation 9 21 31,
     .setPaused true exampleMutation 32]

/-- A row of the Inbox dies, and is opened again; a second RetryDead finds it waiting and writes no record. -/
def exampleInboxRetry : List (Action Unit) :=
  [.inbox (.claim (Inbox.exampleClaim "w1") 1), .inbox (.markDead Inbox.exampleKey 1 []),
   .inbox (.retryDead ⟨"billing", 7, "ops", "rerun", ""⟩ 40),
   .inbox (.retryDead ⟨"billing", 7, "ops", "rerun", ""⟩ 41)]

/-- The observation is of a replay of the event. -/
def replayOf {ι : Type} (id : Uuid) : Obs ι → Bool
  | .enqueued row => row.replayedFromEventID = some id
  | _ => false

theorem exists_of_replayOf {ι : Type} {id : Uuid} {hist : List (Obs ι)} (h : hist.any (replayOf id) = true) :
    ∃ row, Obs.enqueued row ∈ hist ∧ row.replayedFromEventID = some id := by
  obtain ⟨o, ho, htest⟩ := List.any_eq_true.mp h
  cases o with
  | enqueued row => exact ⟨row, ho, of_decide_eq_true htest⟩
  | _ => cases htest

end Journal

end Emitlane
