import Emitlane.Inbox.Effect
import Emitlane.Consumer.PartitionOrder

/-!
# Consumer.DeadLetters — why an Inbox row becomes dead

`transitionFailure` gets errors of many origins: the handler, its timeout, a cancelled context, `pool.Begin`, the
renewal of the lease.  It marks the row dead if the error is permanent or the attempt is the last one, and does not ask
where the error came from.  So an outage at the last attempt makes a row dead whose handler never ran
(`dead_without_handler`).  If the infrastructure holds during last attempts, only handlers do (`dead_by_handler`).
-/

namespace Emitlane.Consumer

open Inbox (Key)

variable {ω : Type}

/-- The handler returned an error, or ran into its timeout. -/
def Failure.ByHandler : Failure → Prop
  | .handler _ _ => True
  | .context deadlineExceeded => deadlineExceeded = true
  | .begin _ | .renew _ => False

/-- The attempt is the last one of the budget. -/
def Deployment.LastAttempt (d : Deployment ω) (w : ω) (event : Inbox.Event) : Prop :=
  (d.config w).maxAttempts ≤ event.attempts

/-- During last attempts `pool.Begin` succeeds, no renewal fails with a database error, and the runtime cancels no
handler (unless that returns a permanent error all the same). -/
def InfrastructureHolds (d : Deployment ω) (s : State ω) : Action ω → Prop
  | .party w (.beginTx (some _)) =>
    ∀ record event, (s.party w).pc = .beginning record event → ¬d.LastAttempt w event
  | .party w (.handlerReturned err ctxErr _) =>
    ∀ record event t renewed, (s.party w).pc = .handling record event t renewed → d.LastAttempt w event →
      (∀ deadline, renewed ≠ some (.database deadline)) ∧
      (ctxErr = some false → ∃ deadline, err = some (true, deadline))
  | _ => True

/-! ## The steps of the Inbox behind the steps of a worker -/

section Steps

variable {d : Deployment ω} {w : ω} {v v' : World ω} {x x' : Worker} {a : WorkerAction}

/-- The step of the Inbox that a step of a worker makes. -/
inductive StoreCall (d : Deployment ω) (w : ω) (v : World ω) (pc : Pc) : WorkerAction → Inbox.Action → Prop
  | claim {token : Uuid} {reply : Reply} {now : Int} {record : SourceRecord} {eventID : Uuid}
      (hpc : pc = .claiming record eventID) :
      StoreCall d w v pc (.claim token reply now) (.claim (claimRequest d w record eventID) token)
  | begin {a : WorkerAction} (managed : Option (Key × Uuid)) : StoreCall d w v pc a (.begin managed)
  | renew {a : WorkerAction} (k : Key) (token : Uuid) (lease : Int) : StoreCall d w v pc a (.renew k token lease)
  | markProcessed {a : WorkerAction} (t : Nat) : StoreCall d w v pc a (.markProcessed t)
  | commit {a : WorkerAction} (t : Nat) : StoreCall d w v pc a (.commit t)
  | rollback {a : WorkerAction} (t : Nat) : StoreCall d w v pc a (.rollback t)
  | transition {delay : Int} {reply : Reply} {now : Int} {record : SourceRecord} {event : Inbox.Event}
      {failure : Failure} (hpc : pc = .failing record event failure) :
      StoreCall d w v pc (.transitionFailure delay reply now) (transition d w v event failure delay).1

/-- A step of a worker is at most one step of the Inbox. -/
theorem Next.inbox (hs : Next d w v x a v' x') : v'.inbox = v.inbox ∨
    ∃ b, StoreCall d w v x.pc a b ∧ Inbox.step v.inbox b = some v'.inbox := by
  cases hs with
  | aborted => exact .inr ⟨_, .rollback _, rfl⟩
  | claimLost hpc hs => exact .inr ⟨_, .claim hpc, hs⟩
  | claimed hpc hs => exact .inr ⟨_, .claim hpc, hs⟩
  | began _ hs => exact .inr ⟨_, .begin _, hs⟩
  | renewed _ hs => exact .inr ⟨_, .renew _ _ _, hs⟩
  | handlerFailed => exact .inr ⟨_, .rollback _, rfl⟩
  | marked _ hs => exact .inr ⟨_, .markProcessed _, hs⟩
  | commitLost _ hs => exact .inr ⟨_, .commit _, hs⟩
  | committed _ hs => exact .inr ⟨_, .commit _, hs⟩
  | transitioned hpc hs => exact .inr ⟨_, .transition hpc, hs⟩
  | _ => exact .inl rfl

/-- The step of the Inbox that a step of the environment makes. -/
inductive EnvCall : Inbox.Action → Prop
  | tick (n : Nat) : EnvCall (.tick n)
  | retryDead (request : Inbox.RetryRequest) (auditID : Uuid) : EnvCall (.retryDead request auditID)
  | rollback (t : Nat) : EnvCall (.rollback t)

theorem envStep_inbox {e : EnvAction} (hs : envStep v e = some v') : v'.inbox = v.inbox ∨
    ∃ b, EnvCall b ∧ Inbox.step v.inbox b = some v'.inbox := by
  have hinbox : ∀ b : Inbox.Action, EnvCall b → (Inbox.step v.inbox b).map v.withInbox = some v' →
      v'.inbox = v.inbox ∨ ∃ b, EnvCall b ∧ Inbox.step v.inbox b = some v'.inbox := by
    intro b hb hmap
    obtain ⟨i, hi, rfl⟩ := Option.map_eq_some_iff.mp hmap
    exact .inr ⟨b, hb, hi⟩
  cases e with
  | tick n => exact hinbox _ (.tick n) hs
  | retryDead request auditID => exact hinbox _ (.retryDead request auditID) hs
  | rollback t => exact hinbox _ (.rollback t) hs
  | produce tp e =>
    cases hs
    exact .inl rfl

theorem Next.events (hs : Next d w v x a v' x') : ∀ e ∈ v.events, e ∈ v'.events := by
  cases hs with
  | passed | dropped | began | offsetLost | offsetCommitted | rewound => exact fun e he => List.mem_append_right _ he
  | _ => exact fun e he => he

end Steps

/-! ## What a worker that fails knows -/

section Blame

variable {d : Deployment ω} {w : ω} {v v' : World ω} {x x' : Worker} {a : WorkerAction}

/-- A handler that runs was started, and a failure that makes the row dead is the handler's. -/
structure Blame (d : Deployment ω) (w : ω) (v : World ω) (pc : Pc) : Prop where
  handling : ∀ record event t renewed, pc = .handling record event t renewed →
    .started w (d.key event.eventID) event.attempts ∈ v.events
  failing : ∀ record event failure, pc = .failing record event failure →
    failure.isPermanent = true ∨ d.LastAttempt w event →
    failure.ByHandler ∧ .started w (d.key event.eventID) event.attempts ∈ v.events

theorem Blame.mono {pc : Pc} (h : Blame d w v pc) (hv : ∀ e ∈ v.events, e ∈ v'.events) : Blame d w v' pc where
  handling record event t renewed hpc := hv _ (h.handling record event t renewed hpc)
  failing record event failure hpc hdead :=
    (h.failing record event failure hpc hdead).imp_right (hv _)

/-- A worker that neither handles nor fails. -/
theorem Blame.of_other {pc : Pc} (hhandling : ∀ record event t renewed, pc ≠ .handling record event t renewed)
    (hfailing : ∀ record event failure, pc ≠ .failing record event failure) : Blame d w v pc :=
  ⟨fun _ _ _ _ h => absurd h (hhandling _ _ _ _), fun _ _ _ h => absurd h (hfailing _ _ _)⟩

theorem Blame.dispatch {record : SourceRecord} {eventID : Uuid} {result : Inbox.ClaimResult} :
    Blame d w v (dispatch x record eventID result).pc := by
  unfold Consumer.dispatch
  split <;> exact .of_other (fun _ _ _ _ h => nomatch h) (fun _ _ _ h => nomatch h)

theorem Blame.startProcess {record : SourceRecord} : Blame d w v (startProcess d x record).pc := by
  unfold Consumer.startProcess
  split <;> exact .of_other (fun _ _ _ _ h => nomatch h) (fun _ _ _ h => nomatch h)

theorem Next.blame {s : State ω} (hC : InfrastructureHolds d s (.party w a)) (h : Blame d w s.world (s.party w).pc)
    (hs : Next d w s.world (s.party w) a v' x') : Blame d w v' x'.pc := by
  have hev := hs.events
  cases hs with
  | assigned | released | connected | polled => exact h
  | passed => exact .startProcess
  | claimed => exact .dispatch
  | beginFailed hpc =>
    refine ⟨(fun _ _ _ _ h => nomatch h), fun record event failure heq hdead => ?_⟩
    cases heq
    rcases hdead with hperm | hlast
    · cases hperm
    · exact absurd hlast (hC _ _ hpc)
  | began hpc =>
    refine ⟨fun record event t renewed heq => ?_, (fun _ _ _ h => nomatch h)⟩
    cases heq
    exact List.mem_cons_self
  | renewFailed hpc =>
    refine ⟨fun record event t renewed heq => ?_, (fun _ _ _ h => nomatch h)⟩
    cases heq
    exact h.handling _ _ _ _ hpc
  | renewed hpc =>
    refine ⟨fun record event t renewed heq => ?_, (fun _ _ _ h => nomatch h)⟩
    cases heq
    exact h.handling _ _ _ _ hpc
  | handlerFailed hpc hfails =>
    refine ⟨(fun _ _ _ _ h => nomatch h), fun record event failure heq hdead => ?_⟩
    cases heq
    refine ⟨?_, h.handling _ _ _ _ hpc⟩
    cases hfails with
    | renew deadline =>
      rcases hdead with hperm | hlast
      · cases hperm
      · exact absurd rfl ((hC _ _ _ _ hpc hlast).1 deadline)
    | handler => trivial
    | context deadline =>
      rcases hdead with hperm | hlast
      · cases hperm
      · by_contra hcancelled
        obtain ⟨_, herr⟩ := (hC _ _ _ _ hpc hlast).2 (by simpa [Failure.ByHandler] using hcancelled)
        cases herr
  | _ => exact .of_other (fun _ _ _ _ h => nomatch h) (fun _ _ _ h => nomatch h)

end Blame

/-! ## Runs -/

section Runs

variable [DecidableEq ω] {d : Deployment ω} {s s' : State ω} {a : Action ω}

/-- The states of the runs in which the infrastructure holds during last attempts. -/
def Supported (d : Deployment ω) (s : State ω) : Prop :=
  ∃ clock logs start, Runs.Reach (system d).run (InfrastructureHolds d) (State.init clock logs start) s

theorem Supported.inv (h : Supported d s) :
    Inbox.Inv s.world.inbox ∧ ∀ w, Blame d w s.world (s.party w).pc := by
  obtain ⟨clock, logs, start, hrun⟩ := h
  refine Parties.inv (G := fun v : World ω => Inbox.Inv v.inbox) (P := fun w v x => Blame d w v x.pc)
    (E := fun v v' => ∀ e ∈ v.events, e ∈ v'.events) ?_ ?_ ?_ hrun (Inbox.Inv.init clock)
    fun w => .of_other (fun _ _ _ _ h => nomatch h) (fun _ _ _ h => nomatch h)
  · intro t w a v' x' hC hinv hblame hs
    have hnext := next_of_workerStep hs
    refine ⟨?_, hnext.events, hnext.blame hC hblame⟩
    rcases hnext.inbox with hsame | ⟨b, -, hb⟩
    · exact hsame ▸ hinv
    · exact hinv.next hb
  · intro v e v' hinv hs
    refine ⟨?_, fun e he => by rwa [envStep_events hs]⟩
    rcases envStep_inbox hs with hsame | ⟨b, -, hb⟩
    · exact hsame ▸ hinv
    · exact hinv.next hb
  · intro w v v' x hx hv
    exact hx.mono hv

/-- **Only a failed handler makes a row dead**, in a run in which the infrastructure holds during last attempts: the row
enters `dead` in a worker whose handler was started for this attempt, and returned a permanent error, or returned an
error or ran into its timeout at the last attempt. -/
theorem dead_by_handler (h : Supported d s) (hC : InfrastructureHolds d s a) (hs : (system d).run s a = some s')
    {k : Key} {r : Inbox.Row} (hr : s'.world.inbox.db.row k = some r) (hdead : r.status = .dead)
    (hold : ∀ r0, s.world.inbox.db.row k = some r0 → r0.status ≠ .dead) :
    ∃ w delay reply now record event failure, a = .party w (.transitionFailure delay reply now) ∧
      (s.party w).pc = .failing record event failure ∧ k = d.key event.eventID ∧
      .started w k event.attempts ∈ s.world.events ∧
      ((∃ deadline, failure = .handler true deadline) ∨ failure.ByHandler ∧ d.LastAttempt w event) := by
  obtain ⟨hinv, hblame⟩ := h.inv
  cases a with
  | env e =>
    obtain ⟨v', hv, rfl⟩ := Option.map_eq_some_iff.mp hs
    rcases envStep_inbox hv with hsame | ⟨b, hcall, hb⟩
    · rw [hsame] at hr
      exact absurd hdead (hold r hr)
    · obtain ⟨token, lastError, rfl⟩ := (Inbox.effect_of_step hinv hb).dead hr hdead hold
      cases hcall
  | party w a =>
    obtain ⟨⟨v', x'⟩, hstep, rfl⟩ := Option.map_eq_some_iff.mp hs
    rcases (next_of_workerStep hstep).inbox with hsame | ⟨b, hcall, hb⟩
    · rw [show v'.inbox = s.world.inbox from hsame] at hr
      exact absurd hdead (hold r hr)
    · obtain ⟨token, lastError, rfl⟩ := (Inbox.effect_of_step hinv hb).dead hr hdead hold
      generalize hb' : Inbox.Action.markDead k token lastError = b at hcall
      cases hcall with
      | @transition delay reply now record event failure hpc =>
        unfold Consumer.transition at hb'
        dsimp only at hb'
        split_ifs at hb' with hcond
        cases hb'
        obtain ⟨hby, hstarted⟩ := (hblame w).failing _ _ _ hpc hcond
        refine ⟨w, delay, reply, now, record, event, failure, rfl, hpc, rfl, hstarted, ?_⟩
        rcases hcond with hperm | hlast
        · cases failure with
          | handler permanent deadline =>
            obtain rfl : permanent = true := hperm
            exact .inl ⟨deadline, rfl⟩
          | _ => cases hperm
        · exact .inr ⟨hby, hlast⟩
      | _ => cases hb'

end Runs

/-- A test for `InfrastructureHolds` that looks at every attempt. -/
def calm (s : State ω) : Action ω → Bool
  | .party _ (.beginTx (some _)) => false
  | .party w (.handlerReturned _ ctxErr _) =>
    ctxErr ≠ some false && match (s.party w).pc with
      | .handling _ _ _ renewed => renewed.isNone
      | _ => true
  | _ => true

theorem calm_sound {d : Deployment ω} {s : State ω} {a : Action ω} (h : calm s a = true) :
    InfrastructureHolds d s a := by
  match a with
  | .party w (.beginTx (some _)) => cases h
  | .party w (.handlerReturned err ctxErr now) =>
    intro record event t renewed hpc _
    simp only [calm, hpc, Bool.and_eq_true, decide_eq_true_eq] at h
    refine ⟨fun deadline hr => ?_, fun hc => absurd hc h.1⟩
    rw [hr] at h
    cases h.2
  | .party w (.beginTx none) | .party w (.assigned _) | .party w (.released _) | .party w (.resumeDue _ _)
  | .party w (.ping _) | .party w (.pollRecords _ _) | .party w (.claim _ _ _) | .party w (.renew _ _)
  | .party w (.markProcessed _) | .party w (.commitTx _ _) | .party w (.commitOffset _ _)
  | .party w (.transitionFailure _ _ _) | .party w .rewind | .party w .crash | .env _ => trivial

/-- Two workers with a budget of one attempt. -/
def exampleBudget : Deployment Bool :=
  { exampleDeployment with
    member := fun w =>
      ⟨{ defaultConfig with consumer := "billing", instanceID := if w then "b" else "a", maxAttempts := 1 }, 0⟩
    one := fun _ => rfl }

/-- A worker takes the first record and claims it. -/
def exampleFirstClaim : List (Action Bool) :=
  [.party false (.assigned examplePartition), .party false (.resumeDue 0 fun _ => false), .party false (.ping true),
   .party false (.pollRecords ⟨some examplePartition, []⟩ false), .party false (.claim 1 .ok 0)]

/-- The row of the first record is dead. -/
def exampleDead (s : State Bool) : Bool := (s.world.inbox.db.row ("billing", 7)).any (·.status = .dead)

theorem dead_by_handler_error : ∃ s s' : State Bool, Supported exampleBudget s ∧
    (system exampleBudget).run s (.party false (.transitionFailure 0 .ok 0)) = some s' ∧ exampleDead s' = true ∧
    ∃ n, .started false ("billing", 7) n ∈ s.world.events := by
  obtain ⟨s, hrun, hp⟩ := Runs.exists_of_guarded (system exampleBudget).run
    (C := InfrastructureHolds exampleBudget) calm
    (I := fun _ => True) (fun _ _ _ _ _ => trivial) (fun _ _ _ => calm_sound)
      (State.init 0 exampleLogs fun _ => 0) trivial
    (exampleFirstClaim ++ [.party false (.beginTx none), .party false (.handlerReturned (some (false, false)) none 0)])
    (fun s => !exampleDead s &&
      ((system exampleBudget).run s (.party false (.transitionFailure 0 .ok 0))).any exampleDead) (by decide +kernel)
  obtain ⟨halive, hnext⟩ := Bool.and_eq_true_iff.mp hp
  obtain ⟨s', hs', hdead⟩ := (Option.any_eq_true ..).mp hnext
  have hsup : Supported exampleBudget s := ⟨0, exampleLogs, _, hrun⟩
  obtain ⟨r, hr, hstatus⟩ := (Option.any_eq_true ..).mp hdead
  refine ⟨s, s', hsup, hs', hdead, ?_⟩
  have hholds : InfrastructureHolds exampleBudget s (.party false (.transitionFailure 0 .ok 0)) := trivial
  obtain ⟨w, _, _, _, _, event, _, ha, _, _, hstarted, _⟩ :=
    dead_by_handler hsup hholds hs' hr (of_decide_eq_true hstatus) fun r0 hr0 hdead0 => by
      simp [exampleDead, hr0, hdead0] at halive
  cases ha
  exact ⟨_, hstarted⟩

/-- `pool.Begin` fails at the only attempt: the row is dead, and no handler was started. -/
theorem dead_without_handler : (∀ w, (exampleBudget.config w).Valid) ∧ ∃ s : State Bool,
    Runs.Reach (system exampleBudget).run Runs.Free (State.init 0 exampleLogs fun _ => 0) s ∧ exampleDead s = true ∧
    ∀ w k n, .started w k n ∉ s.world.events := by
  refine ⟨by decide +kernel, ?_⟩
  obtain ⟨s, hrun, hp⟩ := Runs.exists_of_exec (system exampleBudget).run (State.init 0 exampleLogs fun _ => 0)
    (exampleFirstClaim ++ [.party false (.beginTx (some false)), .party false (.transitionFailure 0 .ok 0)])
    (fun s => exampleDead s &&
      s.world.events = [.passed false examplePartition 0, .handed false examplePartition 0]) (by decide +kernel)
  obtain ⟨hdead, hevents⟩ := Bool.and_eq_true_iff.mp hp
  refine ⟨s, hrun, hdead, fun w k n hmem => ?_⟩
  rw [of_decide_eq_true hevents] at hmem
  simp at hmem

end Emitlane.Consumer
