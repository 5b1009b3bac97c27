import Emitlane.Consumer.Worker

/-!
# Consumer.Next — what a step of a worker does

`Next` has a constructor for each outcome of each call, and `next_of_workerStep` says that there are no others.  The
invariants of the workers are case analyses over it; none of them looks into the step function again.

Most calls may fail, and the worker then gives up on its record: with no effect on the world (`gaveUp`), or with its
transaction rolled back (`aborted`).  A call that took effect may fail too (`claimLost`, `commitLost`, `offsetLost`).
-/

namespace Emitlane.Consumer

/-- The record in hand. -/
def Pc.record : Pc → Option SourceRecord
  | .top | .polling => none
  | .claiming r _ | .beginning r _ | .handling r _ _ _ | .marking r _ _ | .committing r _ _ | .offset r _
  | .failing r _ _ => some r
  | .unresolved b => some b.record

/-- The record in hand with its identity. -/
def Pc.pair : Pc → Option (SourceRecord × Uuid)
  | .claiming r id | .offset r id => some (r, id)
  | .beginning r ev | .handling r ev _ _ | .marking r ev _ | .committing r ev _ | .failing r ev _ =>
    some (r, ev.eventID)
  | .top | .polling | .unresolved _ => none

/-- The transaction of the handler. -/
def Pc.tx : Pc → Option (Inbox.Event × Nat)
  | .handling _ ev t _ | .marking _ ev t | .committing _ ev t => some (ev, t)
  | _ => none

/-- The claim a worker has in hand. -/
def Pc.event : Pc → Option Inbox.Event
  | .beginning _ ev | .handling _ ev _ _ | .marking _ ev _ | .committing _ ev _ | .failing _ ev _ => some ev
  | .top | .polling | .claiming _ _ | .offset _ _ | .unresolved _ => none

/-- The pair whose row is known to be processed. -/
def Pc.settled : Pc → Option Uuid
  | .offset _ id => some id
  | _ => none

variable {ω : Type}

/-- The client is past the record at `o`. -/
def Worker.advance (x : Worker) (tp : TopicPartition) (o : Nat) : Worker :=
  { x with position := Function.update x.position tp (some (o + 1)) }

/-- The offset behind the record is committed. -/
def World.commitOffset (v : World ω) (w : ω) (record : SourceRecord) : World ω :=
  World.emit
    { v with
      kafka := { v.kafka with
        committed := Function.update v.kafka.committed record.source (record.offset + 1) } }
    [.committed w record.source (record.offset + 1)]

/-- What sends a handler that has returned to transitionFailure. -/
inductive FailsWith : Option RenewError → Option (Bool × Bool) → Option Bool → Failure → Prop
  | renew (deadline : Bool) (err : Option (Bool × Bool)) (ctxErr : Option Bool) :
      FailsWith (some (.database deadline)) err ctxErr (.renew deadline)
  | handler (permanent deadline : Bool) (ctxErr : Option Bool) :
      FailsWith none (some (permanent, deadline)) ctxErr (.handler permanent deadline)
  | context (deadline : Bool) : FailsWith none none (some deadline) (.context deadline)

/-- What makes a worker roll back and give up on its record. -/
inductive Aborts (d : Deployment ω) (v : World ω) : Pc → WorkerAction → Prop
  | leaseLost (record : SourceRecord) (event : Inbox.Event) (t : Nat) (err : Option (Bool × Bool))
      (ctxErr : Option Bool)
      (now : Int) : Aborts d v (.handling record event t (some .leaseLost)) (.handlerReturned err ctxErr now)
  | markFailed (record : SourceRecord) (event : Inbox.Event) (t : Nat) :
      Aborts d v (.marking record event t) (.markProcessed true)
  | markRefused {record : SourceRecord} {event : Inbox.Event} {t : Nat} {tx : Inbox.Tx} (htx : v.inbox.txs t = some tx)
      (hrefused : ∀ r, Inbox.markProcessed tx.startedAt event.leaseToken
        (tx.view v.inbox.db (d.key event.eventID)) ≠ .ok r) :
      Aborts d v (.marking record event t) (.markProcessed false)
  | commitFailed (record : SourceRecord) (event : Inbox.Event) (t : Nat) (now : Int) :
      Aborts d v (.committing record event t) (.commitTx .failed now)

inductive Next (d : Deployment ω) (w : ω) (v : World ω) (x : Worker) : WorkerAction → World ω → Worker → Prop
  | assigned {tp : TopicPartition} (hfree : x.position tp = none) :
      Next d w v x (.assigned tp) v { x with position := Function.update x.position tp (some (v.kafka.committed tp)) }
  | released (tps : List TopicPartition) : Next d w v x (.released tps) v (releasePartitions x tps)
  | crash : Next d w v x .crash v newWorker
  | resumed (now : Int) (getFails : TopicPartition → Bool) (hpc : x.pc = .top) :
      Next d w v x (.resumeDue now getFails) v ((resumeDue d v x now getFails).goto .polling)
  | connected (hpc : x.pc = .polling) : Next d w v x (.ping true) v { x with connected := true }
  /-- PollRecords is called again. -/
  | polled {a : WorkerAction} (hpc : x.pc = .polling) : Next d w v x a v x
  /-- Poll returns an error, or the end of its context. -/
  | noRecord {a : WorkerAction} (hpc : x.pc = .polling) : Next d w v x a v (x.goto .top)
  | passed {fetch : Fetch} {ctxDone : Bool} {tp : TopicPartition} {o : Nat} {record : SourceRecord}
      (hpc : x.pc = .polling)
      (hfetch : fetch.record = some tp) (herrors : fetch.errors = []) (hposition : x.position tp = some o)
      (hrecord : v.kafka.record tp o = some record) :
      Next d w v x (.pollRecords fetch ctxDone) (v.emit [.passed w tp o, .handed w tp o])
        (startProcess d (x.advance tp o) record)
  | dropped {fetch : Fetch} {ctxDone : Bool} {tp : TopicPartition} {o : Nat} {record : SourceRecord}
      (hpc : x.pc = .polling) (hfetch : fetch.record = some tp) (herrors : fetch.errors ≠ [])
      (hposition : x.position tp = some o) (hrecord : v.kafka.record tp o = some record) :
      Next d w v x (.pollRecords fetch ctxDone) (v.emit [.handed w tp o]) ((x.advance tp o).goto .top)
  | gaveUp {a : WorkerAction} {record : SourceRecord} {eventID : Uuid} {resumeAt : Option Int} {permanent : Bool}
      {reason : Reason} (hrecord : x.pc.record = some record)
      (hfailed : ∀ event, x.pc.event = some event → ∃ delay now, a = .transitionFailure delay .failed now) :
      Next d w v x a v (x.fail record eventID resumeAt permanent reason)
  | aborted {a : WorkerAction} {record : SourceRecord} {event : Inbox.Event} {t : Nat} {resumeAt : Option Int}
      {reason : Reason} (hrecord : x.pc.record = some record) (htx : x.pc.tx = some (event, t))
      (haborts : Aborts d v x.pc a) :
      Next d w v x a (v.rollback t) (x.fail record event.eventID resumeAt false reason)
  | claimLost {token : Uuid} {reply : Reply} {now : Int} {record : SourceRecord} {eventID : Uuid} {inbox : Inbox.State}
      {resumeAt : Option Int} (hpc : x.pc = .claiming record eventID)
      (hs : Inbox.step v.inbox (.claim (claimRequest d w record eventID) token) = some inbox)
      (hlost : reply = .lost ∨ inbox = v.inbox) :
      Next d w v x (.claim token reply now) (v.withInbox inbox) (x.fail record eventID resumeAt false .database)
  | claimed {token : Uuid} {now : Int} {record : SourceRecord} {eventID : Uuid} {inbox : Inbox.State} {db : Inbox.Db}
      {result : Inbox.ClaimResult} (hpc : x.pc = .claiming record eventID)
      (hs : Inbox.step v.inbox (.claim (claimRequest d w record eventID) token) = some inbox)
      (hclaim : v.inbox.db.claim v.inbox.clock (claimRequest d w record eventID) token = .ok (db, result)) :
      Next d w v x (.claim token .ok now) (v.withInbox inbox) (dispatch x record eventID result)
  | beginFailed {deadline : Bool} {record : SourceRecord} {event : Inbox.Event} (hpc : x.pc = .beginning record event) :
      Next d w v x (.beginTx (some deadline)) v (x.goto (.failing record event (.begin deadline)))
  | began {record : SourceRecord} {event : Inbox.Event} {inbox : Inbox.State} (hpc : x.pc = .beginning record event)
      (hs : Inbox.step v.inbox (.begin (some (d.key event.eventID, event.leaseToken))) = some inbox) :
      Next d w v x (.beginTx none) ((v.withInbox inbox).emit [.started w (d.key event.eventID) event.attempts])
        (x.goto (.handling record event v.inbox.next none))
  | renewFailed {reply : Reply} {deadline : Bool} {record : SourceRecord} {event : Inbox.Event} {t : Nat}
      (hpc : x.pc = .handling record event t none) :
      Next d w v x (.renew reply deadline) v (x.goto (.handling record event t (some (.database deadline))))
  | renewed {reply : Reply} {deadline : Bool} {record : SourceRecord} {event : Inbox.Event} {t : Nat}
      {inbox : Inbox.State} {result : Option RenewError} (hpc : x.pc = .handling record event t none)
      (hs : Inbox.step v.inbox (.renew (d.key event.eventID) event.leaseToken (d.config w).leaseDuration) = some inbox)
      (hlost : result = some .leaseLost →
        ∀ r, v.inbox.db.row (d.key event.eventID) = some r → r.holds event.leaseToken = false) :
      Next d w v x (.renew reply deadline) (v.withInbox inbox) (x.goto (.handling record event t result))
  | handlerFailed {err : Option (Bool × Bool)} {ctxErr : Option Bool} {now : Int} {record : SourceRecord}
      {event : Inbox.Event} {t : Nat} {renewed : Option RenewError} {failure : Failure}
      (hpc : x.pc = .handling record event t renewed) (hfails : FailsWith renewed err ctxErr failure) :
      Next d w v x (.handlerReturned err ctxErr now) (v.rollback t) (x.goto (.failing record event failure))
  | handled {now : Int} {record : SourceRecord} {event : Inbox.Event} {t : Nat}
      (hpc : x.pc = .handling record event t none) :
      Next d w v x (.handlerReturned none none now) v (x.goto (.marking record event t))
  | marked {record : SourceRecord} {event : Inbox.Event} {t : Nat} {inbox : Inbox.State}
      (hpc : x.pc = .marking record event t) (hs : Inbox.step v.inbox (.markProcessed t) = some inbox) :
      Next d w v x (.markProcessed false) (v.withInbox inbox) (x.goto (.committing record event t))
  | commitLost {reply : Reply} {now : Int} {record : SourceRecord} {event : Inbox.Event} {t : Nat} {inbox : Inbox.State}
      {resumeAt : Option Int} (hpc : x.pc = .committing record event t)
      (hs : Inbox.step v.inbox (.commit t) = some inbox) :
      Next d w v x (.commitTx reply now) (v.withInbox inbox) (x.fail record event.eventID resumeAt false .database)
  | committed {now : Int} {record : SourceRecord} {event : Inbox.Event} {t : Nat} {inbox : Inbox.State}
      (hpc : x.pc = .committing record event t) (hs : Inbox.step v.inbox (.commit t) = some inbox) :
      Next d w v x (.commitTx .ok now) (v.withInbox inbox) (x.goto (.offset record event.eventID))
  | offsetLost {reply : Reply} {now : Int} {record : SourceRecord} {eventID : Uuid} {resumeAt : Option Int}
      (hpc : x.pc = .offset record eventID) :
      Next d w v x (.commitOffset reply now) (v.commitOffset w record)
        (x.fail record eventID resumeAt false .offsetCommit)
  | offsetCommitted {now : Int} {record : SourceRecord} {eventID : Uuid} (hpc : x.pc = .offset record eventID) :
      Next d w v x (.commitOffset .ok now) (v.commitOffset w record) (x.goto .top)
  | transitioned {delay : Int} {reply : Reply} {now : Int} {record : SourceRecord} {event : Inbox.Event}
      {failure : Failure} {inbox : Inbox.State} {resumeAt : Option Int} {permanent : Bool} {reason : Reason}
      (hpc : x.pc = .failing record event failure)
      (hs : Inbox.step v.inbox (transition d w v event failure delay).1 = some inbox) (hreply : reply ≠ .failed) :
      Next d w v x (.transitionFailure delay reply now) (v.withInbox inbox)
        (x.fail record event.eventID resumeAt permanent reason)
  | rewound {b : BlockedPartition} (hpc : x.pc = .unresolved b) :
      Next d w v x .rewind (rewind w v x b).1 (rewind w v x b).2

section Inversion

variable {d : Deployment ω} {w : ω} {v v' : World ω} {x x' : Worker} {r : SourceRecord} {ev : Inbox.Event} {t : Nat}
  {id : Uuid} {reply : Reply} {now : Int}

theorem pollRecords_next {fetch : Fetch} {ctxDone : Bool} (hpc : x.pc = .polling)
    (hs : pollRecords d w v x fetch ctxDone = some (v', x')) : Next d w v x (.pollRecords fetch ctxDone) v' x' := by
  unfold pollRecords at hs
  split at hs
  · cases hs
    split_ifs
    · exact .polled hpc
    · exact .noRecord hpc
  rename_i tp htp
  by_cases hpaused : x.paused tp = true
  · rw [if_pos hpaused] at hs
    cases hs
  rw [if_neg hpaused] at hs
  split at hs
  · cases hs
  rename_i o ho
  split at hs
  · cases hs
  rename_i record hrecord
  dsimp only at hs
  split_ifs at hs with herrors <;> cases hs
  · exact .passed hpc htp (List.isEmpty_iff.mp herrors) ho hrecord
  · exact .dropped hpc htp (fun h => herrors (List.isEmpty_iff.mpr h)) ho hrecord

theorem claim_next {token : Uuid} (hpc : x.pc = .claiming r id)
    (hs : claim d w v x r id token reply now = some (v', x')) : Next d w v x (.claim token reply now) v' x' := by
  unfold claim at hs
  dsimp only at hs
  split_ifs at hs with hreply
  · cases hs
    exact .gaveUp (by rw [hpc]; rfl) fun event hevent => by rw [hpc] at hevent; cases hevent
  split at hs <;> cases hs
  rename_i inbox hstep
  split
  · rename_i db result hclaim
    exact .claimed hpc hstep hclaim
  · rename_i answer _ _ hother
    refine .claimLost hpc hstep ?_
    cases answer with
    | failed => exact absurd rfl hreply
    | lost => exact .inl rfl
    | ok =>
      cases hclaim : v.inbox.db.claim v.inbox.clock (claimRequest d w r id) token with
      | ok result => exact absurd hclaim (hother result.1 result.2 rfl)
      | error e =>
        simp only [Inbox.step, hclaim] at hstep
        split_ifs at hstep
        exact .inr (Option.some.inj hstep).symm

theorem beginTx_next {err : Option Bool} (hpc : x.pc = .beginning r ev)
    (hs : beginTx d w v x r ev err = some (v', x')) : Next d w v x (.beginTx err) v' x' := by
  unfold beginTx at hs
  split at hs
  · cases hs
    exact .beginFailed hpc
  · obtain ⟨inbox, hstep, heq⟩ := Option.map_eq_some_iff.mp hs
    cases heq
    exact .began hpc hstep

theorem renew_next {deadline : Bool} (hpc : x.pc = .handling r ev t none)
    (hs : renew d w v x r ev t reply deadline = some (v', x')) : Next d w v x (.renew reply deadline) v' x' := by
  have hstay : x.goto (.handling r ev t none) = x := by
    rw [← hpc]
    rfl
  unfold renew at hs
  dsimp only at hs
  split_ifs at hs with hreply
  · cases hs
    exact .renewFailed hpc
  split at hs <;> cases hs
  rename_i inbox hstep
  split
  · have hrenewed : Next d w v x (.renew .ok deadline) (v.withInbox inbox) (x.goto (.handling r ev t none)) :=
      .renewed hpc hstep fun h => nomatch h
    rwa [hstay] at hrenewed
  · rename_i e he
    split_ifs with hsentinel
    · exact .renewed hpc hstep fun _ r0 hr0 => Inbox.Db.renew_leaseLost he hsentinel hr0
    · exact .renewed hpc hstep fun h => nomatch h
  · exact .renewed hpc hstep fun h => nomatch h

theorem handlerReturned_next {renewed : Option RenewError} {err : Option (Bool × Bool)} {ctxErr : Option Bool}
    (hpc : x.pc = .handling r ev t renewed) (hs : handlerReturned d w v x r ev t renewed err ctxErr now = (v', x')) :
    Next d w v x (.handlerReturned err ctxErr now) v' x' := by
  unfold handlerReturned at hs
  split at hs <;> cases hs
  · exact .aborted (by rw [hpc]; rfl) (by rw [hpc]; rfl) (by rw [hpc]; exact .leaseLost ..)
  · exact .handlerFailed hpc (.renew ..)
  · exact .handlerFailed hpc (.handler ..)
  · exact .handlerFailed hpc (.context _)
  · exact .handled hpc

theorem markProcessed_next {fails : Bool} (hpc : x.pc = .marking r ev t)
    (hs : markProcessed d v x r ev t fails = some (v', x')) : Next d w v x (.markProcessed fails) v' x' := by
  have hfailed : Aborts d v (.marking r ev t) (.markProcessed fails) →
      Next d w v x (.markProcessed fails) (v.rollback t) (x.fail r ev.eventID ev.leaseUntil false .database) :=
    fun haborts => .aborted (by rw [hpc]; rfl) (by rw [hpc]; rfl) (by rw [hpc]; exact haborts)
  unfold markProcessed at hs
  dsimp only at hs
  split_ifs at hs with hfails
  · cases hs
    subst hfails
    exact hfailed (.markFailed r ev t)
  obtain rfl : fails = false := by simpa using hfails
  split at hs
  · rename_i tx inbox htx hstep
    split at hs <;> cases hs
    · exact .marked hpc hstep
    · rename_i e hrefused
      exact hfailed (.markRefused htx fun r' hr' => by rw [hrefused] at hr'; cases hr')
  · cases hs

theorem commitTx_next (hpc : x.pc = .committing r ev t) (hs : commitTx d w v x r ev t reply now = some (v', x')) :
    Next d w v x (.commitTx reply now) v' x' := by
  unfold commitTx at hs
  dsimp only at hs
  by_cases hreply : reply = .failed
  · rw [if_pos hreply] at hs
    cases hs
    subst hreply
    exact .aborted (by rw [hpc]; rfl) (by rw [hpc]; rfl) (by rw [hpc]; exact .commitFailed ..)
  rw [if_neg hreply] at hs
  obtain ⟨inbox, hstep, heq⟩ := Option.map_eq_some_iff.mp hs
  cases heq
  split_ifs with hok
  · subst hok
    exact .committed hpc hstep
  · exact .commitLost hpc hstep

theorem commitOffset_next (hpc : x.pc = .offset r id) (hs : commitOffset d w v x r id reply now = (v', x')) :
    Next d w v x (.commitOffset reply now) v' x' := by
  unfold commitOffset at hs
  dsimp only at hs
  split_ifs at hs with hfailed hok <;> cases hs
  · exact .gaveUp (by rw [hpc]; rfl) fun event hevent => by rw [hpc] at hevent; cases hevent
  · subst hok
    exact .offsetCommitted hpc
  · exact .offsetLost hpc

theorem transitionFailure_next {failure : Failure} {delay : Int} (hpc : x.pc = .failing r ev failure)
    (hs : transitionFailure d w v x r ev failure delay reply now = some (v', x')) :
    Next d w v x (.transitionFailure delay reply now) v' x' := by
  unfold transitionFailure at hs
  dsimp only at hs
  by_cases hreply : reply = .failed
  · rw [if_pos hreply] at hs
    cases hs
    subst hreply
    exact .gaveUp (by rw [hpc]; rfl) fun _ _ => ⟨delay, now, rfl⟩
  rw [if_neg hreply] at hs
  obtain ⟨inbox, hstep, heq⟩ := Option.map_eq_some_iff.mp hs
  cases heq
  split
  · split_ifs
    · exact .transitioned hpc hstep hreply
    · exact .transitioned hpc hstep hreply
  · exact .transitioned hpc hstep hreply

theorem next_of_workerStep {a : WorkerAction} (hs : workerStep d w v x a = some (v', x')) : Next d w v x a v' x' := by
  unfold workerStep at hs
  split at hs
  · split_ifs at hs with hassigned
    cases hs
    exact .assigned (by simpa using hassigned)
  · cases hs
    exact .released _
  · cases hs
    exact .crash
  · rename_i hpc
    cases hs
    exact .resumed _ _ hpc
  · rename_i ok hpc
    split_ifs at hs with hconnected hok <;> cases hs
    · subst hok
      exact .connected hpc
    · exact .noRecord hpc
  · rename_i hpc
    split_ifs at hs
    exact pollRecords_next hpc hs
  · rename_i hpc
    exact claim_next hpc hs
  · rename_i hpc
    exact beginTx_next hpc hs
  · rename_i hpc
    exact renew_next hpc hs
  · rename_i hpc
    exact handlerReturned_next hpc (Option.some.inj hs)
  · rename_i hpc
    exact markProcessed_next hpc hs
  · rename_i hpc
    exact commitTx_next hpc hs
  · rename_i hpc
    exact commitOffset_next hpc (Option.some.inj hs)
  · rename_i hpc
    exact transitionFailure_next hpc hs
  · rename_i b hpc
    cases hs
    exact .rewound hpc
  · cases hs

/-- A step of a worker leaves the logs alone. -/
theorem Next.logs {a : WorkerAction} (hs : Next d w v x a v' x') : v'.kafka.logs = v.kafka.logs := by
  cases hs <;> rfl

end Inversion

end Emitlane.Consumer
