import Emitlane.Consumer.Next
import Emitlane.Inbox.Earned
import Emitlane.Lib.Parties

/-!
# Consumer.System — the workers of one consumer

Any number of workers take steps in any order.  Around them time passes, producers append to the logs, operators retry
dead events, and the database rolls back transactions whose connection is gone.

The invariant of a worker says what it knows of the record it has in hand: everything before it in its partition, from
the group's initial position on, is processed (`InHand`).  `Evolves` is what no step can undo: records stay in their
log, processed rows stay processed, and a transaction stays the transaction of its handler.  So the invariant of a
worker survives the steps of all others.
-/

namespace Emitlane.Consumer

open Inbox (Key)

inductive EnvAction
  | tick (d : Nat)
  | retryDead (request : Inbox.RetryRequest) (auditID : Uuid)
  /-- The connection of a transaction is lost. -/
  | rollback (t : Nat)
  | produce (tp : TopicPartition) (e : Entry)

variable {ω : Type}

def envStep (v : World ω) : EnvAction → Option (World ω)
  | .tick d => (Inbox.step v.inbox (.tick d)).map v.withInbox
  | .retryDead request auditID => (Inbox.step v.inbox (.retryDead request auditID)).map v.withInbox
  | .rollback t => (Inbox.step v.inbox (.rollback t)).map v.withInbox
  | .produce tp e =>
    some { v with kafka := { v.kafka with logs := Function.update v.kafka.logs tp (v.kafka.logs tp ++ [e]) } }

theorem envStep_events {v v' : World ω} {e : EnvAction} (hs : envStep v e = some v') : v'.events = v.events := by
  have hinbox : ∀ a : Inbox.Action, (Inbox.step v.inbox a).map v.withInbox = some v' → v'.events = v.events := by
    intro a ha
    obtain ⟨i, -, rfl⟩ := Option.map_eq_some_iff.mp ha
    rfl
  cases e with
  | tick n => exact hinbox (.tick n) hs
  | retryDead request auditID => exact hinbox (.retryDead request auditID) hs
  | rollback t => exact hinbox (.rollback t) hs
  | produce tp e =>
    cases hs
    rfl

/-- Nobody appends to a log. -/
def EnvAction.quiet : EnvAction → Bool
  | .produce _ _ => false
  | _ => true

theorem envStep_logs {v v' : World ω} {e : EnvAction} (he : e.quiet = true) (hs : envStep v e = some v') :
    v'.kafka.logs = v.kafka.logs := by
  cases e with
  | tick | retryDead | rollback =>
    unfold envStep at hs
    obtain ⟨i, -, rfl⟩ := Option.map_eq_some_iff.mp hs
    rfl
  | produce => cases he

abbrev State (ω : Type) := Parties.State ω (World ω) Worker

abbrev Action (ω : Type) := Parties.Action ω WorkerAction EnvAction

variable (d : Deployment ω)

def system : Parties.System ω (World ω) Worker WorkerAction EnvAction where
  step := workerStep d
  env := envStep

/-- An empty Inbox, and the group at its initial position in logs with any content. -/
def State.init (clock : Int) (logs : TopicPartition → List Entry) (start : TopicPartition → Nat) : State ω where
  world := { inbox := Inbox.State.init clock, kafka := { logs := logs, committed := start }, events := [] }
  party _ := newWorker

/-! ## What the workers know -/

section Knowledge

variable (start : TopicPartition → Nat) (v : Shared)

/-- The identity of a record. -/
def Resolves (r : SourceRecord) (id : Uuid) : Prop := d.resolveIdentity r.message = .ok id

/-- The record at an offset has a processed row. -/
def Processed (tp : TopicPartition) (o : Nat) : Prop :=
  ∃ r id, v.kafka.record tp o = some r ∧ Resolves d r id ∧ Inbox.Row.isProcessed (v.inbox.db.row (d.key id))

/-- Every record from the initial position up to `p` is processed. -/
def ProcessedBelow (tp : TopicPartition) (p : Nat) :
    Prop := start tp ≤ p ∧ ∀ o, start tp ≤ o → o < p → Processed d v tp o

/-- A record of the log whose predecessors are processed. -/
def InHand (r : SourceRecord) : Prop :=
  v.kafka.record r.source r.offset = some r ∧ ProcessedBelow d start v r.source r.offset

/-- If the transaction `t` is open, it is that of the handler of `event`. -/
def HasTx (event : Inbox.Event) (t : Nat) : Prop :=
  t < v.inbox.next ∧ ∀ tx, v.inbox.txs t = some tx → tx.managed = some (d.key event.eventID, event.leaseToken)

end Knowledge

structure Pc.Ok (start : TopicPartition → Nat) (v : Shared) (pc : Pc) : Prop where
  hand : ∀ r, pc.record = some r → InHand d start v r
  pair : ∀ r id, pc.pair = some (r, id) → Resolves d r id
  tx : ∀ ev t, pc.tx = some (ev, t) → HasTx d v ev t
  settled : ∀ id, pc.settled = some id → Inbox.Row.isProcessed (v.inbox.db.row (d.key id))

/-- Everything before a position is processed, but for the record in hand. -/
structure Worker.Ok (start : TopicPartition → Nat) (v : Shared) (x : Worker) : Prop where
  pc : x.pc.Ok d start v
  position : ∀ tp p, x.position tp = some p →
    ProcessedBelow d start v tp p ∨ ∃ r, x.pc.record = some r ∧ r.source = tp ∧ r.offset + 1 = p

/-- What every step keeps. -/
structure Evolves (v v' : Shared) : Prop where
  record : ∀ tp o r, v.kafka.record tp o = some r → v'.kafka.record tp o = some r
  processed : ∀ k, Inbox.Row.isProcessed (v.inbox.db.row k) → Inbox.Row.isProcessed (v'.inbox.db.row k)
  next : v.inbox.next ≤ v'.inbox.next
  managed : ∀ t tx', t < v.inbox.next → v'.inbox.txs t = some tx' →
    ∃ tx, v.inbox.txs t = some tx ∧ tx'.managed = tx.managed

/-- There is a record with the pair `k`, and the effects of the records before it are in `older`. -/
def Follows (start : TopicPartition → Nat) (v : Shared) (older : List Inbox.Obs) (k : Key) : Prop :=
  ∃ r id, v.kafka.record r.source r.offset = some r ∧ Resolves d r id ∧ k = d.key id ∧
    ∀ o, start r.source ≤ o → o < r.offset →
      ∃ r0 id0, v.kafka.record r.source o = some r0 ∧ Resolves d r0 id0 ∧
      ∃ y ∈ older, y.carries (d.key id0) = true

/-- The invariant of the world. -/
structure Good (start : TopicPartition → Nat) (v : Shared) : Prop where
  inbox : Inbox.Inv v.inbox
  earned : Inbox.Earned v.inbox
  /-- No legacy calls run in the transactions. -/
  plain : ∀ {t tx}, v.inbox.txs t = some tx → tx.work.carries = []
  committed : ∀ tp, ProcessedBelow d start v tp (v.kafka.committed tp)
  /-- Effects were committed for records whose predecessors are processed. -/
  effects : ∀ o ∈ v.inbox.hist, ∀ k, o.carries k = true → ∃ r id, InHand d start v r ∧ Resolves d r id ∧
    k = d.key id
  follows : ∀ x older, (x :: older) <:+ v.inbox.hist → ∀ k, x.carries k = true → Follows d start v older k

variable {d} in
theorem Deployment.key_injective {a b : Uuid} (h : d.key a = d.key b) : a = b := (Prod.mk.inj h).2

/-! ## What the knowledge survives -/

section Stable

variable {d} {start : TopicPartition → Nat} {v v' : Shared}

theorem Evolves.refl (v : Shared) : Evolves v v :=
  ⟨fun _ _ _ h => h, fun _ h => h, le_refl _, fun _ tx _ h => ⟨tx, h, rfl⟩⟩

theorem ProcessedBelow.evolves {tp : TopicPartition} {p : Nat} (h : ProcessedBelow d start v tp p) (hv : Evolves v v') :
    ProcessedBelow d start v' tp p := by
  refine ⟨h.1, fun o hlo hhi => ?_⟩
  obtain ⟨r, id, hr, hid, hrow⟩ := h.2 o hlo hhi
  exact ⟨r, id, hv.record _ _ _ hr, hid, hv.processed _ hrow⟩

theorem InHand.evolves {r : SourceRecord} (h : InHand d start v r) (hv : Evolves v v') : InHand d start v' r :=
  ⟨hv.record _ _ _ h.1, h.2.evolves hv⟩

theorem HasTx.evolves {ev : Inbox.Event} {t : Nat} (h : HasTx d v ev t) (hv : Evolves v v') : HasTx d v' ev t := by
  refine ⟨h.1.trans_le hv.next, fun tx' htx' => ?_⟩
  obtain ⟨tx, htx, hmanaged⟩ := hv.managed t tx' h.1 htx'
  rw [hmanaged]
  exact h.2 tx htx

theorem Follows.evolves {older : List Inbox.Obs} {k : Key} (h : Follows d start v older k) (hv : Evolves v v') :
    Follows d start v' older k := by
  obtain ⟨r, id, hr, hid, hk, hbelow⟩ := h
  refine ⟨r, id, hv.record _ _ _ hr, hid, hk, fun o hlo hhi => ?_⟩
  obtain ⟨r0, id0, hr0, hid0, hdone⟩ := hbelow o hlo hhi
  exact ⟨r0, id0, hv.record _ _ _ hr0, hid0, hdone⟩

theorem Pc.Ok.evolves {pc : Pc} (h : pc.Ok d start v) (hv : Evolves v v') : pc.Ok d start v' where
  hand r hr := (h.hand r hr).evolves hv
  pair := h.pair
  tx ev t ht := (h.tx ev t ht).evolves hv
  settled id hid := hv.processed _ (h.settled id hid)

theorem Worker.Ok.evolves {x : Worker} (h : x.Ok d start v) (hv : Evolves v v') : x.Ok d start v' where
  pc := h.pc.evolves hv
  position tp p hp := (h.position tp p hp).imp_left fun hbelow => hbelow.evolves hv

theorem Worker.Ok.goto {x : Worker} {pc : Pc} (h : x.Ok d start v) (hrecord : pc.record = x.pc.record)
    (hpc : pc.Ok d start v) : (x.goto pc).Ok d start v where
  pc := hpc
  position tp p hp := by
    rcases h.position tp p hp with hbelow | ⟨r, hr, hsource, hoffset⟩
    · exact .inl hbelow
    · exact .inr ⟨r, hrecord.trans hr, hsource, hoffset⟩

/-- A worker that gives up on its record. -/
theorem Worker.Ok.fail {x : Worker} {r : SourceRecord} (h : x.Ok d start v) (hr : x.pc.record = some r) (eventID : Uuid)
    (resumeAt : Option Int) (permanent : Bool) (reason : Reason) :
    (x.fail r eventID resumeAt permanent reason).Ok d start v := by
  refine h.goto hr.symm ⟨fun r' hr' => ?_, (fun _ _ h => nomatch h), (fun _ _ h => nomatch h),
    (fun _ h => nomatch h)⟩
  obtain rfl : r = r' := Option.some.inj hr'
  exact h.pc.hand r hr

/-- A step outside the Inbox. -/
theorem Good.of_evolves (h : Good d start v) (hv : Evolves v v') (hinbox : v'.inbox = v.inbox)
    (hcommitted : ∀ tp, ProcessedBelow d start v' tp (v'.kafka.committed tp)) : Good d start v' := by
  refine ⟨hinbox ▸ h.inbox, hinbox ▸ h.earned, fun htx => h.plain (hinbox ▸ htx), hcommitted, ?_, ?_⟩
  · rw [hinbox]
    intro o ho k hk
    obtain ⟨r, id, hhand, hid, hkey⟩ := h.effects o ho k hk
    exact ⟨r, id, hhand.evolves hv, hid, hkey⟩
  · rw [hinbox]
    exact fun x older hsuf k hk => (h.follows x older hsuf k hk).evolves hv

end Stable

/-! ## Steps of the Inbox -/

section InboxSteps

variable {d} {start : TopicPartition → Nat} {v : Shared} {i : Inbox.State} {a : Inbox.Action}

theorem Evolves.inbox (hi : Inbox.Inv v.inbox) (hs : Inbox.Next v.inbox a i) : Evolves v { v with inbox := i } where
  record _ _ _ h := h
  processed _ h := hs.isProcessed hi h
  next := hs.next_le
  managed t tx' hlt htx' := by
    obtain ⟨tx, htx, hmanaged, -⟩ := hs.tx hlt htx'
    exact ⟨tx, htx, hmanaged⟩

theorem Good.plain_step (h : Good d start v) (hs : Inbox.Next v.inbox a i) (ha : a.isLegacy = false) {t : Nat}
    {tx' : Inbox.Tx} (htx' : i.txs t = some tx') : tx'.work.carries = [] := by
  by_cases hlt : t < v.inbox.next
  · obtain ⟨tx, htx, -, hcarries⟩ := hs.tx hlt htx'
    rw [hcarries ha]
    exact h.plain htx
  · exact hs.opened h.inbox (Nat.le_of_not_lt hlt) htx'

/-- The effects of the records before the one in hand are committed. -/
theorem Good.hand_follows (h : Good d start v) {r : SourceRecord} (hhand : InHand d start v r) {id : Uuid}
    (hid : Resolves d r id) : Follows d start v v.inbox.hist (d.key id) := by
  refine ⟨r, id, hhand.1, hid, rfl, fun o hlo hhi => ?_⟩
  obtain ⟨r0, id0, hr0, hid0, hrow⟩ := hhand.2.2 o hlo hhi
  exact ⟨r0, id0, hr0, hid0, h.earned.carried hrow⟩

/-- A step of the Inbox keeps the invariant of the world if what it commits are the effects of a record in hand. -/
theorem Good.inbox_step (h : Good d start v) (hs : Inbox.step v.inbox a = some i) (ha : a.isLegacy = false)
    {new : List Inbox.Obs} (hhist : i.hist = new ++ v.inbox.hist)
    (hnew : ∀ o ∈ new, ∀ k, o.carries k = true →
      new = [o] ∧ ∃ r id, InHand d start v r ∧ Resolves d r id ∧ k = d.key id) :
    Good d start { v with inbox := i } ∧ Evolves v { v with inbox := i } := by
  have hnext := Inbox.next_of_step h.inbox.bounded hs
  have hev : Evolves v { v with inbox := i } := Evolves.inbox h.inbox hnext
  refine ⟨⟨h.inbox.next hs, h.earned.next h.inbox ha hs, h.plain_step hnext ha,
    fun tp => (h.committed tp).evolves hev,
    ?_, ?_⟩, hev⟩
  · intro o ho k hcarries
    have ho : o ∈ new ++ v.inbox.hist := hhist ▸ ho
    obtain ⟨r, id, hhand, hid, hk⟩ := (List.mem_append.mp ho).elim (fun ho => (hnew o ho k hcarries).2)
      (fun ho => h.effects o ho k hcarries)
    exact ⟨r, id, hhand.evolves hev, hid, hk⟩
  · intro x older hsuf k hk
    have hsuf : (x :: older) <:+ new ++ v.inbox.hist := hhist ▸ hsuf
    refine Follows.evolves ?_ hev
    by_cases hx : x ∈ new
    · obtain ⟨hone, r, id, hhand, hid, rfl⟩ := hnew x hx k hk
      rw [hone] at hsuf
      rcases List.suffix_cons_iff.mp hsuf with heq | hsuf
      · rw [(List.cons.inj heq).2]
        exact h.hand_follows hhand hid
      · exact h.follows x older hsuf _ hk
    · exact h.follows x older (Runs.suffix_of_not_mem hx hsuf) k hk

/-- A step of the Inbox other than a commit. -/
theorem Good.quiet_step (h : Good d start v) (hs : Inbox.step v.inbox a = some i) (ha : a.isLegacy = false)
    (hcommit : ∀ t, a ≠ .commit t) : Good d start { v with inbox := i } ∧ Evolves v { v with inbox := i } := by
  obtain ⟨new, hhist, hquiet⟩ := (Inbox.next_of_step h.inbox.bounded hs).quiet hcommit
  refine h.inbox_step hs ha hhist fun o ho k hk => ?_
  rw [hquiet o ho k] at hk
  cases hk

/-- The commit of a handler's transaction leaves the row of its event processed. -/
theorem HasTx.processed (hi : Inbox.Inv v.inbox) {ev : Inbox.Event} {t : Nat} (htx : HasTx d v ev t)
    (hs : Inbox.step v.inbox (.commit t) = some i) : Inbox.Row.isProcessed (i.db.row (d.key ev.eventID)) := by
  obtain ⟨new, hnew, -, hspec⟩ := (Inbox.next_of_step hi.bounded hs).hist hi
  simp only [Inbox.step] at hs
  split at hs
  · cases hs
  rename_i tx htx'
  split_ifs at hs
  obtain ⟨db, -, rfl⟩ := Option.map_eq_some_iff.mp hs
  have hnew : new = [.committed t tx.effects] := List.append_cancel_right hnew.symm
  refine (hspec (.committed t tx.effects) (by rw [hnew]; exact List.mem_singleton_self _) _ ?_).2
  refine decide_eq_true (List.mem_append_left _ ?_)
  rw [htx.2 tx htx']
  exact List.mem_singleton_self _

/-- The commit of a handler's transaction, whose record is in hand. -/
theorem Good.commit_step (h : Good d start v) {t : Nat} {r : SourceRecord} {ev : Inbox.Event}
    (hs : Inbox.step v.inbox (.commit t) = some i) (hhand : InHand d start v r) (hid : Resolves d r ev.eventID)
    (htx : HasTx d v ev t) : Good d start { v with inbox := i } ∧ Evolves v { v with inbox := i } ∧
      Inbox.Row.isProcessed (i.db.row (d.key ev.eventID)) := by
  have hprocessed := htx.processed h.inbox hs
  obtain ⟨tx, htx', hhist⟩ : ∃ tx, v.inbox.txs t = some tx ∧
    i.hist = [.committed t tx.effects] ++ v.inbox.hist := by
    simp only [Inbox.step] at hs
    split at hs
    · cases hs
    rename_i tx htx'
    split_ifs at hs
    obtain ⟨db, -, rfl⟩ := Option.map_eq_some_iff.mp hs
    exact ⟨tx, htx', rfl⟩
  have heffects : tx.effects = [d.key ev.eventID] := by
    rw [Inbox.Tx.effects, htx.2 tx htx', h.plain htx']
    rfl
  obtain ⟨hgood, hev⟩ := h.inbox_step hs rfl hhist fun o ho k hk => by
    obtain rfl := List.mem_singleton.mp ho
    rw [heffects] at hk
    exact ⟨rfl, r, ev.eventID, hhand, hid, List.mem_singleton.mp (of_decide_eq_true hk)⟩
  exact ⟨hgood, hev, hprocessed⟩

end InboxSteps

end Emitlane.Consumer
