import Emitlane.Consumer.System

/-!
# Consumer.PartitionOrder — offsets and effects follow the order of a partition

The client is assumed to lose no record: a fetch that carries a record carries no error (`PollsClean`; what happens
otherwise is in `Consumer.Polls`).  Then a worker receives consecutive offsets, except after a rewind or a new
assignment, and the invariant of `Consumer.System` holds in every run.
-/

namespace Emitlane.Consumer

open Inbox (Key)

variable {ω : Type}

/-- The fetches of a run carry a record or errors, not both. -/
def PollsClean (_ : State ω) (a : Action ω) : Prop :=
  ∀ w fetch ctxDone, a = .party w (.pollRecords fetch ctxDone) → fetch.record.isSome = true → fetch.errors = []

/-- The states of the workers' runs with clean polls. -/
def Reachable [DecidableEq ω] (d : Deployment ω) (start : TopicPartition → Nat) (s : State ω) : Prop :=
  ∃ clock logs, Runs.Reach (system d).run PollsClean (State.init clock logs start) s

section Guarantee

variable (d : Deployment ω) (start : TopicPartition → Nat)

/-- What a step of a worker from `v` guarantees. -/
structure Guarantee (v v' : Shared) (x' : Worker) : Prop where
  good : Good d start v'
  evolves : Evolves v v'
  ok : x'.Ok d start v'

variable {d} {start} {w : ω} {v : World ω} {v' : World ω} {x x' : Worker} {r : SourceRecord} {ev : Inbox.Event}
    {t : Nat}
  {id : Uuid}

theorem Guarantee.stay {v : Shared} (h : Good d start v) (hx : x'.Ok d start v) : Guarantee d start v v x' :=
  ⟨h, Evolves.refl v, hx⟩

/-- A store call, after which the worker knows no more than before. -/
theorem Guarantee.quiet {v : Shared} {i : Inbox.State} {a : Inbox.Action} (h : Good d start v) (hx : x'.Ok d start v)
    (hs : Inbox.step v.inbox a = some i) (ha : a.isLegacy = false) (hcommit : ∀ t, a ≠ .commit t) :
    Guarantee d start v { v with inbox := i } x' := by
  obtain ⟨hgood, hev⟩ := h.quiet_step hs ha hcommit
  exact ⟨hgood, hev, hx.evolves hev⟩

theorem Guarantee.rollback {v : Shared} (h : Good d start v) (hx : x'.Ok d start v) (t : Nat) :
    Guarantee d start v { v with inbox := v.inbox.setTx t none } x' :=
  .quiet h hx (a := .rollback t) rfl rfl (fun _ h => nomatch h)

/-! ### The client -/

/-- At the top of the loop and in Poll, every position is past processed records only. -/
theorem Worker.Ok.idle {v : Shared} (h : x.Ok d start v) (hnone : x.pc.record = none) {tp : TopicPartition} {p : Nat}
    (hp : x.position tp = some p) : ProcessedBelow d start v tp p := by
  rcases h.position tp p hp with hbelow | ⟨r, hr, -⟩
  · exact hbelow
  · rw [hnone] at hr
    cases hr

/-- Nothing is in hand at the top of the loop and in Poll. -/
theorem Pc.ok_of_none {v : Shared} {pc : Pc} (h : pc = .top ∨ pc = .polling) : pc.Ok d start v := by
  rcases h with rfl | rfl <;>
    exact ⟨(fun _ h => nomatch h), (fun _ _ h => nomatch h), (fun _ _ h => nomatch h), (fun _ h => nomatch h)⟩

theorem newWorker_ok {v : Shared} : newWorker.Ok d start v := ⟨Pc.ok_of_none (.inl rfl), fun _ _ h => nomatch h⟩

theorem assigned_ok {v : Shared} (h : Good d start v) (hx : x.Ok d start v) (tp : TopicPartition) :
    Worker.Ok d start v { x with position := Function.update x.position tp (some (v.kafka.committed tp)) } where
  pc := hx.pc
  position tp' p hp := by
    dsimp only at hp
    by_cases htp : tp' = tp
    · subst htp
      rw [Function.update_self, Option.some.injEq] at hp
      exact .inl (hp ▸ h.committed tp')
    · rw [Function.update_of_ne htp] at hp
      exact hx.position tp' p hp

theorem releasePartitions_ok {v : Shared} (hx : x.Ok d start v) (tps : List TopicPartition) :
    (releasePartitions x tps).Ok d start v where
  pc := hx.pc
  position tp p hp := by
    simp only [releasePartitions] at hp
    split_ifs at hp
    exact hx.position tp p hp

/-- A record is handed out and goes to `process`. -/
theorem startProcess_ok {v : Shared} (hx : x.Ok d start v) (hnone : x.pc.record = none) {tp : TopicPartition} {o : Nat}
    (hp : x.position tp = some o) (hr : v.kafka.record tp o = some r) :
    (startProcess d (x.advance tp o) r).Ok d start v := by
  obtain ⟨e, he, rfl⟩ := Option.map_eq_some_iff.mp hr
  have hhand : InHand d start v { e with source := tp, offset := o } := ⟨hr, hx.idle hnone hp⟩
  have hpos : ∀ pc : Pc, pc.record = some { e with source := tp, offset := o } → ∀ tp' p,
      Function.update x.position tp (some (o + 1)) tp' = some p →
      ProcessedBelow d start v tp' p ∨ ∃ r, pc.record = some r ∧ r.source = tp' ∧ r.offset + 1 = p := by
    intro pc hpc tp' p hp'
    by_cases htp : tp' = tp
    · subst htp
      rw [Function.update_self, Option.some.injEq] at hp'
      exact .inr ⟨_, hpc, rfl, hp'⟩
    · rw [Function.update_of_ne htp] at hp'
      exact .inl (hx.idle hnone hp')
  unfold startProcess
  split
  · refine ⟨⟨fun r' hr' => ?_, (fun _ _ h => nomatch h), (fun _ _ h => nomatch h), (fun _ h => nomatch h)⟩,
      hpos _ rfl⟩
    obtain rfl := Option.some.inj hr'
    exact hhand
  · rename_i id hid
    refine ⟨⟨fun r' hr' => ?_, fun r' id' hpair => ?_, (fun _ _ h => nomatch h), (fun _ h => nomatch h)⟩,
      hpos _ rfl⟩
    · obtain rfl := Option.some.inj hr'
      exact hhand
    · obtain ⟨rfl, rfl⟩ := Prod.mk.inj (Option.some.inj hpair)
      exact hid

theorem rewind_ok {b : BlockedPartition} (h : Good d start v.toShared) (hx : x.Ok d start v.toShared)
    (hpc : x.pc = .unresolved b) : Guarantee d start v.toShared (rewind w v x b).1.toShared (rewind w v x b).2 := by
  have hhand : InHand d start v.toShared b.record := hx.pc.hand _ (by rw [hpc]; rfl)
  refine .stay h ⟨Pc.ok_of_none (.inl rfl), fun tp p hp => .inl ?_⟩
  by_cases htp : tp = b.record.source
  · subst htp
    simp only [rewind, Function.update_self] at hp
    obtain ⟨-, -, rfl⟩ := Option.map_eq_some_iff.mp hp
    exact hhand.2
  · simp only [rewind, Function.update_of_ne htp] at hp
    rcases hx.position tp p hp with hbelow | ⟨r, hr, hsource, -⟩
    · exact hbelow
    · rw [hpc] at hr
      obtain rfl := Option.some.inj hr
      exact absurd hsource.symm htp

/-! ### The store -/

/-- The worker goes on with its record, the same identity and the same transaction. -/
theorem Worker.Ok.next {v : Shared} {pc pc' : Pc} (h : x.Ok d start v) (hpc : x.pc = pc)
    (hrecord : pc'.record = pc.record) (hpair : pc'.pair = pc.pair) (htx : pc'.tx = pc.tx ∨ pc'.tx = none)
    (hsettled : pc'.settled = none) : (x.goto pc').Ok d start v := by
  subst hpc
  refine h.goto hrecord ⟨fun r hr => h.pc.hand r (hrecord ▸ hr), fun r id hid => h.pc.pair r id (hpair ▸ hid),
    ?_, ?_⟩
  · intro ev t ht
    rcases htx with hsame | hnone
    · exact h.pc.tx ev t (hsame ▸ ht)
    · rw [hnone] at ht
      cases ht
  · intro id hid
    rw [hsettled] at hid
    cases hid

/-- The row of the record in hand is known to be processed. -/
theorem Worker.Ok.settle {v : Shared} (h : x.Ok d start v) (hrecord : x.pc.record = some r)
    (hpair : x.pc.pair = some (r, id)) (hrow : Inbox.Row.isProcessed (v.inbox.db.row (d.key id))) :
    (x.goto (.offset r id)).Ok d start v := by
  refine h.goto hrecord.symm ⟨?_, ?_, (fun _ _ h => nomatch h), ?_⟩
  · exact fun r' hr' => h.pc.hand r' (hrecord.trans hr')
  · exact fun r' id' hid' => h.pc.pair r' id' (hpair.trans hid')
  · intro id' hid'
    obtain rfl := Option.some.inj hid'
    exact hrow

/-- What a claim tells the worker. -/
theorem claim_result {db db' : Inbox.Db} {now : Int} {req : Inbox.ClaimRequest} {token : Uuid}
    {result : Inbox.ClaimResult}
    (h : db.claim now req token = .ok (db', result)) : result.event.eventID = req.eventID ∧
      (result.disposition = .alreadyProcessed → Inbox.Row.isProcessed (db.row req.key)) := by
  obtain ⟨r, hr, hresult⟩ := Inbox.Db.claim_ok h
  have hid : r.eventID = req.eventID := by
    rcases hr with hr | ⟨-, rfl⟩
    · exact congrArg Prod.snd (Inbox.Db.row_eq_some.mp hr).2
    · rfl
  rcases hresult with ⟨-, rfl, -⟩ | ⟨-, hrow, -, rfl⟩
  · exact ⟨hid, fun h => nomatch h⟩
  · refine ⟨hid, fun hprocessed => ⟨r, hrow, ?_⟩⟩
    cases hs : r.status <;> simp [hs, Inbox.Status.disposition] at hprocessed ⊢

theorem dispatch_ok {v : Shared} {result : Inbox.ClaimResult} (hx : x.Ok d start v) (hpc : x.pc = .claiming r id)
    (hevent : result.event.eventID = id)
    (hprocessed : result.disposition = .alreadyProcessed → Inbox.Row.isProcessed (v.inbox.db.row (d.key id))) :
    (dispatch x r id result).Ok d start v := by
  have hrecord : x.pc.record = some r := by rw [hpc]; rfl
  have hpair : x.pc.pair = some (r, id) := by rw [hpc]; rfl
  unfold dispatch
  split
  · rename_i hdisp
    exact hx.settle hrecord hpair (hprocessed hdisp)
  · exact hx.fail hrecord ..
  · exact hx.fail hrecord ..
  · exact hx.next hpc rfl (congrArg (fun e => some (r, e)) hevent) (.inr rfl) rfl

theorem claimed_ok {v : Shared} {inbox : Inbox.State} {db : Inbox.Db} {result : Inbox.ClaimResult} {token : Uuid}
    (h : Good d start v) (hx : x.Ok d start v) (hpc : x.pc = .claiming r id)
    (hs : Inbox.step v.inbox (.claim (claimRequest d w r id) token) = some inbox)
    (hclaim : v.inbox.db.claim v.inbox.clock (claimRequest d w r id) token = .ok (db, result)) :
    Guarantee d start v { v with inbox := inbox } (dispatch x r id result) := by
  obtain ⟨hevent, hprocessed⟩ := claim_result hclaim
  have hkey : (claimRequest d w r id).key = d.key id := congrArg (·, id) (d.one w)
  rw [hkey] at hprocessed
  exact .quiet h (dispatch_ok hx hpc hevent hprocessed) hs rfl (fun _ h => nomatch h)

theorem began_ok {v : Shared} {inbox : Inbox.State} (h : Good d start v) (hx : x.Ok d start v)
    (hpc : x.pc = .beginning r ev)
    (hs : Inbox.step v.inbox (.begin (some (d.key ev.eventID, ev.leaseToken))) = some inbox) :
    Guarantee d start v { v with inbox := inbox } (x.goto (.handling r ev v.inbox.next none)) := by
  obtain ⟨hgood, hev⟩ := h.quiet_step hs rfl (fun _ h => nomatch h)
  have hx' := hx.evolves hev
  refine ⟨hgood, hev, hx'.goto (by rw [hpc]; rfl) ⟨?_, ?_, ?_, (fun _ h => nomatch h)⟩⟩
  · exact fun r' hr' => hx'.pc.hand r' (by rw [hpc]; exact hr')
  · exact fun r' id' hpair => hx'.pc.pair r' id' (by rw [hpc]; exact hpair)
  · intro ev' t' htx
    obtain ⟨rfl, rfl⟩ := Prod.mk.inj (Option.some.inj htx)
    obtain rfl := Option.some.inj hs
    refine ⟨Nat.lt_succ_self _, fun tx htx => ?_⟩
    rcases Runs.of_update htx with ⟨-, hnew⟩ | ⟨hne, -⟩
    · obtain rfl := Option.some.inj hnew
      rfl
    · exact absurd rfl hne

/-- The commit of the handler's transaction, and what the worker knows then. -/
theorem commit_ok {v : Shared} {inbox : Inbox.State} (h : Good d start v) (hx : x.Ok d start v)
    (hpc : x.pc = .committing r ev t) (hs : Inbox.step v.inbox (.commit t) = some inbox) :
    Good d start { v with inbox := inbox } ∧ Evolves v { v with inbox := inbox } ∧
      Inbox.Row.isProcessed (inbox.db.row (d.key ev.eventID)) :=
  h.commit_step hs (hx.pc.hand r (by rw [hpc]; rfl)) (hx.pc.pair r ev.eventID (by rw [hpc]; rfl))
    (hx.pc.tx ev t (by rw [hpc]; rfl))

theorem committed_ok {v : Shared} {inbox : Inbox.State} (h : Good d start v) (hx : x.Ok d start v)
    (hpc : x.pc = .committing r ev t) (hs : Inbox.step v.inbox (.commit t) = some inbox) :
    Guarantee d start v { v with inbox := inbox } (x.goto (.offset r ev.eventID)) := by
  obtain ⟨hgood, hev, hrow⟩ := commit_ok h hx hpc hs
  exact ⟨hgood, hev, (hx.evolves hev).settle (by rw [hpc]; rfl) (by rw [hpc]; rfl) hrow⟩

theorem commitLost_ok {v : Shared} {inbox : Inbox.State} (h : Good d start v) (hx : x.Ok d start v)
    (hpc : x.pc = .committing r ev t) (hs : Inbox.step v.inbox (.commit t) = some inbox) (resumeAt : Option Int) :
    Guarantee d start v { v with inbox := inbox } (x.fail r ev.eventID resumeAt false .database) := by
  obtain ⟨hgood, hev, -⟩ := commit_ok h hx hpc hs
  exact ⟨hgood, hev, (hx.evolves hev).fail (by rw [hpc]; rfl) ..⟩

/-- transitionFailure calls MarkDead or MarkRetry. -/
theorem transition_quiet (v : World ω) (ev : Inbox.Event) (failure : Failure) (delay : Int) :
    (transition d w v ev failure delay).1.isLegacy = false ∧
    ∀ t, (transition d w v ev failure delay).1 ≠ .commit t := by
  unfold transition
  dsimp only
  split_ifs
  · exact ⟨rfl, fun _ h => nomatch h⟩
  · exact ⟨rfl, fun _ h => nomatch h⟩

/-! ### The committed offset -/

/-- The record whose offset is committed is processed, like those before it. -/
theorem Worker.Ok.below {v : Shared} (hx : x.Ok d start v) (hpc : x.pc = .offset r id) :
    ProcessedBelow d start v r.source (r.offset + 1) := by
  have hhand := hx.pc.hand r (by rw [hpc]; rfl)
  refine ⟨Nat.le_succ_of_le hhand.2.1, fun o hlo hhi => ?_⟩
  rcases Nat.lt_or_eq_of_le (Nat.le_of_lt_succ hhi) with hlt | rfl
  · exact hhand.2.2 o hlo hlt
  · exact ⟨r, id, hhand.1, hx.pc.pair r id (by rw [hpc]; rfl), hx.pc.settled id (by rw [hpc]; rfl)⟩

/-- The committed offset is no part of what the workers know. -/
theorem Guarantee.commitOffset (h : Good d start v.toShared)
    (hbelow : ProcessedBelow d start v.toShared r.source (r.offset + 1)) (hx' : x'.Ok d start v.toShared) :
    Guarantee d start v.toShared (v.commitOffset w r).toShared x' := by
  have hev : Evolves v.toShared (v.commitOffset w r).toShared :=
    ⟨fun _ _ _ h => h, fun _ h => h, le_refl _, fun _ tx _ h => ⟨tx, h, rfl⟩⟩
  refine ⟨h.of_evolves hev rfl fun tp => ?_, hev, hx'.evolves hev⟩
  by_cases htp : tp = r.source
  · subst htp
    simp only [World.commitOffset, World.emit, Function.update_self]
    exact hbelow.evolves hev
  · simp only [World.commitOffset, World.emit, Function.update_of_ne htp]
    exact (h.committed tp).evolves hev

theorem offsetCommitted_ok {v : Shared} (hx : x.Ok d start v) (hpc : x.pc = .offset r id) :
    (x.goto .top).Ok d start v := by
  refine ⟨Pc.ok_of_none (.inl rfl), fun tp p hp => .inl ?_⟩
  rcases hx.position tp p hp with hpos | ⟨r', hr', rfl, rfl⟩
  · exact hpos
  · rw [hpc] at hr'
    obtain rfl := Option.some.inj hr'
    exact hx.below hpc

/-- **Every step of a worker keeps its invariant and the world's.** -/
theorem Next.guarantee {a : WorkerAction} (h : Good d start v.toShared) (hx : x.Ok d start v.toShared)
    (hclean : ∀ fetch ctxDone, a = .pollRecords fetch ctxDone → fetch.record.isSome = true → fetch.errors = [])
    (hs : Next d w v x a v' x') : Guarantee d start v.toShared v'.toShared x' := by
  cases hs with
  | assigned hfree => exact .stay h (assigned_ok h hx _)
  | released tps => exact .stay h (releasePartitions_ok hx tps)
  | crash => exact .stay h newWorker_ok
  | resumed now getFails hpc =>
    exact .stay h ⟨Pc.ok_of_none (.inr rfl), fun tp p hp => .inl (hx.idle (by rw [hpc]; rfl) hp)⟩
  | connected hpc => exact .stay h ⟨hx.pc, hx.position⟩
  | polled hpc => exact .stay h hx
  | noRecord hpc => exact .stay h (hx.goto (by rw [hpc]; rfl) (Pc.ok_of_none (.inl rfl)))
  | passed hpc hfetch herrors hposition hrecord =>
    exact .stay h (startProcess_ok hx (by rw [hpc]; rfl) hposition hrecord)
  | dropped hpc hfetch herrors hposition hrecord => exact absurd (hclean _ _ rfl (by rw [hfetch]; rfl)) herrors
  | gaveUp hrecord => exact .stay h (hx.fail hrecord ..)
  | aborted hrecord htx => exact .rollback h (hx.fail hrecord ..) _
  | claimLost hpc hs => exact .quiet h (hx.fail (by rw [hpc]; rfl) ..) hs rfl (fun _ h => nomatch h)
  | claimed hpc hs hclaim => exact claimed_ok h hx hpc hs hclaim
  | beginFailed hpc => exact .stay h (hx.next hpc rfl rfl (.inr rfl) rfl)
  | began hpc hs => exact began_ok h hx hpc hs
  | renewFailed hpc => exact .stay h (hx.next hpc rfl rfl (.inl rfl) rfl)
  | renewed hpc hs => exact .quiet h (hx.next hpc rfl rfl (.inl rfl) rfl) hs rfl (fun _ h => nomatch h)
  | handlerFailed hpc hfails =>
    refine .rollback h ?_ _
    exact hx.next hpc rfl rfl (.inr rfl) rfl
  | handled hpc => exact .stay h (hx.next hpc rfl rfl (.inl rfl) rfl)
  | marked hpc hs => exact .quiet h (hx.next hpc rfl rfl (.inl rfl) rfl) hs rfl (fun _ h => nomatch h)
  | commitLost hpc hs => exact commitLost_ok h hx hpc hs _
  | committed hpc hs => exact committed_ok h hx hpc hs
  | offsetLost hpc => exact .commitOffset h (hx.below hpc) (hx.fail (by rw [hpc]; rfl) ..)
  | offsetCommitted hpc => exact .commitOffset h (hx.below hpc) (offsetCommitted_ok hx hpc)
  | transitioned hpc hs =>
    obtain ⟨hlegacy, hcommit⟩ := transition_quiet (d := d) (w := w) v _ _ _
    exact .quiet h (hx.fail (by rw [hpc]; rfl) ..) hs hlegacy hcommit
  | rewound hpc => exact rewind_ok h hx hpc

theorem envStep_ok {e : EnvAction} (h : Good d start v.toShared) (hs : envStep v e = some v') :
    Good d start v'.toShared ∧ Evolves v.toShared v'.toShared := by
  have hquiet : ∀ a : Inbox.Action, a.isLegacy = false → (∀ t, a ≠ .commit t) →
      (Inbox.step v.inbox a).map v.withInbox = some v' →
      Good d start v'.toShared ∧ Evolves v.toShared v'.toShared := by
    intro a ha hcommit hs
    obtain ⟨i, hi, rfl⟩ := Option.map_eq_some_iff.mp hs
    exact h.quiet_step hi ha hcommit
  cases e with
  | tick n => exact hquiet (.tick n) rfl (fun _ h => nomatch h) hs
  | retryDead request auditID => exact hquiet (.retryDead request auditID) rfl (fun _ h => nomatch h) hs
  | rollback t => exact hquiet (.rollback t) rfl (fun _ h => nomatch h) hs
  | produce tp e =>
    cases hs
    have hev : Evolves v.toShared { v.toShared with kafka := { v.kafka with
        logs := Function.update v.kafka.logs tp (v.kafka.logs tp ++ [e]) } } := by
      refine ⟨fun tp' o r hr => ?_, fun _ h => h, le_refl _, fun _ tx _ h => ⟨tx, h, rfl⟩⟩
      by_cases htp : tp' = tp
      · subst htp
        obtain ⟨e', he', rfl⟩ := Option.map_eq_some_iff.mp hr
        have hlt := (List.getElem?_eq_some_iff.mp he').1
        simp only [Kafka.record, Function.update_self, List.getElem?_append_left hlt, he', Option.map_some]
      · simpa [Kafka.record, Function.update_of_ne htp] using hr
    exact ⟨h.of_evolves hev rfl fun tp' => (h.committed tp').evolves hev, hev⟩

end Guarantee

/-! ## Runs -/

section Runs

variable {d : Deployment ω} {start : TopicPartition → Nat} {s : State ω}

theorem good_init (clock : Int) (logs : TopicPartition → List Entry) :
    Good d start (State.init clock logs start : State ω).world.toShared where
  inbox := Inbox.Inv.init clock
  earned := Inbox.Earned.init clock
  plain h := nomatch h
  committed _ := ⟨le_refl _, fun _ hlo hhi => absurd hlo (Nat.not_le_of_lt hhi)⟩
  effects _ ho := nomatch ho
  follows _ _ hsuf := nomatch List.suffix_nil.mp hsuf

/-- The event id of a record that occurs in no other record. -/
structure OnlyAt (d : Deployment ω) (v : Shared) (tp : TopicPartition) (o : Nat) (id : Uuid) : Prop where
  here : ∃ r, v.kafka.record tp o = some r ∧ Resolves d r id
  only : ∀ tp' o' r, v.kafka.record tp' o' = some r → Resolves d r id → tp' = tp ∧ o' = o

section Order

variable {tp : TopicPartition} {o o' : Nat} {id id' : Uuid}

/-- When the later record's effects are committed, the earlier one's are in the older part of the history. -/
theorem Good.committed_before {v : Shared} (h : Good d start v) (hlt : o < o') (hstart : start tp ≤ o)
    (hid : OnlyAt d v tp o id) (hid' : OnlyAt d v tp o' id') {x : Inbox.Obs} {older : List Inbox.Obs}
    (hsuf : (x :: older) <:+ v.inbox.hist) (hx : x.carries (d.key id') = true) :
    ∃ y ∈ older, y.carries (d.key id) = true := by
  obtain ⟨r', id1, hr', hres', hk', hbelow⟩ := h.follows x older hsuf _ hx
  obtain rfl := Deployment.key_injective hk'
  obtain ⟨rfl, rfl⟩ := hid'.only _ _ r' hr' hres'
  obtain ⟨r0, id0, hr0, hres0, hdone⟩ := hbelow o hstart hlt
  obtain ⟨r1, hr1, hres1⟩ := hid.here
  obtain rfl : r0 = r1 := Option.some.inj (hr0.symm.trans hr1)
  obtain rfl : id0 = id := Except.ok.inj (hres0.symm.trans hres1)
  exact hdone

/-- So they are not committed again after it. -/
theorem Good.not_after {v : Shared} (h : Good d start v) (hlt : o < o') (hid : OnlyAt d v tp o id)
    (hid' : OnlyAt d v tp o' id') : v.inbox.hist.Pairwise fun newer older =>
      ¬ (newer.carries (d.key id) = true ∧ older.carries (d.key id') = true) := by
  suffices hsuf : ∀ l, l <:+ v.inbox.hist → l.Pairwise fun newer older =>
      ¬ (newer.carries (d.key id) = true ∧ older.carries (d.key id') = true) from hsuf _ List.suffix_rfl
  intro l
  induction l with
  | nil => exact fun _ => List.Pairwise.nil
  | cons x l ih =>
    intro hsuf
    have htail : l <:+ v.inbox.hist := (List.suffix_cons x l).trans hsuf
    refine List.pairwise_cons.mpr ⟨?_, ih htail⟩
    rintro y hy ⟨hcx, hcy⟩
    -- the earlier record was in hand when its effects were committed, so it is not before the initial position
    obtain ⟨r, id2, hhand, hres, hk⟩ := h.effects x (hsuf.subset List.mem_cons_self) _ hcx
    obtain rfl := Deployment.key_injective hk
    obtain ⟨rfl, rfl⟩ := hid.only _ _ r hhand.1 hres
    obtain ⟨newer, older, rfl⟩ := List.append_of_mem hy
    obtain ⟨z, hz, hcz⟩ := h.committed_before hlt hhand.2.1 hid hid' ((List.suffix_append newer _).trans htail) hcy
    -- and they are committed at most once
    have htwice : 2 ≤ ((x :: (newer ++ y :: older)).filter (Inbox.Obs.carries (d.key id))).length := by
      rw [List.filter_cons_of_pos hcx]
      have hmem : z ∈ newer ++ y :: older := List.mem_append_right newer (List.mem_cons_of_mem y hz)
      have := List.length_pos_of_mem (List.mem_filter.mpr ⟨hmem, hcz⟩)
      simp only [List.length_cons]
      omega
    have honce := (hsuf.sublist.filter _).length_le.trans (h.inbox.once (d.key id))
    omega

end Order

variable [DecidableEq ω]

theorem Reachable.good (h : Reachable d start s) :
    Good d start s.world.toShared ∧ ∀ w, (s.party w).Ok d start s.world.toShared := by
  obtain ⟨clock, logs, hrun⟩ := h
  refine Parties.inv (G := fun v : World ω => Good d start v.toShared) (P := fun _ v x => x.Ok d start v.toShared)
    (E := fun v v' => Evolves v.toShared v'.toShared) ?_ ?_ ?_ hrun (good_init clock logs) (fun _ => newWorker_ok)
  · intro t w a v' x' hclean hgood hok hs
    have hclean' := fun fetch ctxDone (ha : a = .pollRecords fetch ctxDone) => hclean w fetch ctxDone (by rw [ha])
    obtain ⟨hgood', hev, hok'⟩ := (next_of_workerStep hs).guarantee hgood hok hclean'
    exact ⟨hgood', hev, hok'⟩
  · intro v e v' hgood hs
    exact envStep_ok hgood hs
  · intro w v v' x hok hev
    exact hok.evolves hev

/-- **Offsets and effects follow the order of a partition.**  In every run: the records below the committed offset, from
the initial position on, are processed; and of two records with event ids of their own, the later one's effects are
never committed before the earlier one's: when they are committed, the earlier one's are, and these do not come
again. -/
theorem partition_order (h : Reachable d start s) :
    (∀ tp o, start tp ≤ o → o < s.world.kafka.committed tp → Processed d s.world.toShared tp o) ∧
    ∀ tp o o' id id', o < o' → OnlyAt d s.world.toShared tp o id → OnlyAt d s.world.toShared tp o' id' →
      (start tp ≤ o → ∀ x older, (x :: older) <:+ s.world.inbox.hist → x.carries (d.key id') = true →
        ∃ y ∈ older, y.carries (d.key id) = true) ∧
      s.world.inbox.hist.Pairwise fun newer older =>
        ¬ (newer.carries (d.key id) = true ∧ older.carries (d.key id') = true) := by
  have hgood := h.good.1
  refine ⟨fun tp => (hgood.committed tp).2, fun tp o o' id id' hlt hid hid' =>
    ⟨?_, hgood.not_after hlt hid hid'⟩⟩
  exact fun hstart x older hsuf hx => hgood.committed_before hlt hstart hid hid' hsuf hx

/-- The test for `PollsClean`. -/
def pollsClean (_ : State ω) : Action ω → Bool
  | .party _ (.pollRecords fetch _) => fetch.record.isNone || fetch.errors.isEmpty
  | _ => true

omit [DecidableEq ω] in
theorem pollsClean_sound {a : Action ω} (h : pollsClean s a = true) : PollsClean s a := by
  rintro w fetch ctxDone rfl hsome
  rcases Bool.or_eq_true_iff.mp h with hnone | hempty
  · rw [Option.isNone_iff_eq_none.mp hnone] at hsome
    cases hsome
  · exact List.isEmpty_iff.mp hempty

end Runs

/-! ## A handler that outlives its assignment -/

/-- Two workers of one consumer; the event id of a record is its one-byte key. -/
def exampleDeployment : Deployment Bool where
  consumer := "billing"
  member w := ⟨{ defaultConfig with consumer := "billing", instanceID := if w then "b" else "a" }, 0⟩
  resolveIdentity m := match m.key with
    | [b] => .ok (Fin.ofNat _ b.toNat)
    | _ => .error "consumer: missing emitlane-event-id header"
  one _ := rfl

def examplePartition : TopicPartition := ⟨"orders", 0⟩

/-- Two records, with the event ids 7 and 8. -/
def exampleLogs (tp : TopicPartition) : List Entry :=
  if tp = examplePartition then [⟨none, [7], [], []⟩, ⟨none, [8], [], []⟩] else []

/-- The steps of a worker from Poll to Claim. -/
def examplePoll (w : Bool) (now : Int) (token : Uuid) : List (Action Bool) :=
  [.party w (.resumeDue now fun _ => false), .party w (.pollRecords ⟨some examplePartition, []⟩ false),
   .party w (.claim token .ok now)]

/-- The handler returns nil and its transaction commits. -/
def exampleCommit (w : Bool) (now : Int) : List (Action Bool) :=
  [.party w (.handlerReturned none none now), .party w (.markProcessed false), .party w (.commitTx .ok now)]

/-- The partition moves to the second worker while the handler of the first one runs.  The second worker finds the lease
and waits; the first one commits its transaction, but not its offset; the second one goes on. -/
def exampleRebalance : List (Action Bool) :=
  [.party false (.assigned examplePartition), .party false (.resumeDue 0 fun _ => false), .party false (.ping true),
   .party false (.pollRecords ⟨some examplePartition, []⟩ false), .party false (.claim 1 .ok 0),
   .party false (.beginTx none),
   .party false (.released [examplePartition]), .party true (.assigned examplePartition),
   .party true (.resumeDue 0 fun _ => false), .party true (.ping true),
   .party true (.pollRecords ⟨some examplePartition, []⟩ false), .party true (.claim 2 .ok 0),
   .party true .rewind] ++
  exampleCommit false 0 ++ [.party false (.commitOffset .failed 0), .party false .rewind, .env (.tick 31000000)] ++
  examplePoll true 31000000 3 ++ [.party true (.commitOffset .ok 31000000)] ++
  examplePoll true 31000000 4 ++ [.party true (.beginTx none)] ++
  exampleCommit true 31000000 ++ [.party true (.commitOffset .ok 31000000)]

/-- The test for clean polls while nobody appends to a log. -/
def exampleQuiet (s : State Bool) (a : Action Bool) : Bool :=
  pollsClean s a && match a with
    | .env e => e.quiet
    | .party _ _ => true

theorem exampleQuiet_sound {s : State Bool} {a : Action Bool} (h : exampleQuiet s a = true) :
    PollsClean s a ∧ ∀ s', (system exampleDeployment).run s a = some s' →
      s'.world.kafka.logs = s.world.kafka.logs := by
  obtain ⟨hclean, hquiet⟩ := Bool.and_eq_true_iff.mp h
  refine ⟨pollsClean_sound hclean, fun s' hs => ?_⟩
  cases a with
  | party w a =>
    obtain ⟨⟨v, x⟩, hv, rfl⟩ := Option.map_eq_some_iff.mp hs
    exact (next_of_workerStep hv).logs
  | env e =>
    obtain ⟨v, hv, rfl⟩ := Option.map_eq_some_iff.mp hs
    exact envStep_logs hquiet hv

/-- The two records have event ids of their own. -/
theorem exampleLogs_onlyAt {v : Shared} (h : v.kafka.logs = exampleLogs) :
    OnlyAt exampleDeployment v examplePartition 0 7 ∧ OnlyAt exampleDeployment v examplePartition 1 8 := by
  have hrecord : ∀ {tp o r}, v.kafka.record tp o = some r → tp = examplePartition ∧
      (o = 0 ∧ Resolves exampleDeployment r 7 ∨ o = 1 ∧ Resolves exampleDeployment r 8) := by
    intro tp o r hr
    simp only [Kafka.record, h, exampleLogs] at hr
    by_cases htp : tp = examplePartition
    · rw [if_pos htp] at hr
      rcases o with _ | _ | o
      · obtain rfl := Option.some.inj hr
        exact ⟨htp, .inl ⟨rfl, rfl⟩⟩
      · obtain rfl := Option.some.inj hr
        exact ⟨htp, .inr ⟨rfl, rfl⟩⟩
      · cases hr
    · rw [if_neg htp] at hr
      cases hr
  have hhere : ∀ o, (v.kafka.record examplePartition o) = (exampleLogs examplePartition)[o]?.map fun e =>
      { e with source := examplePartition, offset := o } := fun o => by rw [Kafka.record, h]
  refine ⟨⟨⟨_, hhere 0, rfl⟩, fun tp o r hr hid => ?_⟩,
    ⟨⟨_, hhere 1, rfl⟩, fun tp o r hr hid => ?_⟩⟩
  · obtain ⟨htp, ⟨ho, -⟩ | ⟨-, hres⟩⟩ := hrecord hr
    · exact ⟨htp, ho⟩
    · exact absurd (Except.ok.inj (hid.symm.trans hres)) (by decide)
  · obtain ⟨htp, ⟨-, hres⟩ | ⟨ho, -⟩⟩ := hrecord hr
    · exact absurd (Except.ok.inj (hid.symm.trans hres)) (by decide)
    · exact ⟨htp, ho⟩

/-- After the rebalance both records are processed, and the effects of the second were committed behind those of the
first. -/
theorem partition_order_rebalance : ∃ s : State Bool, Reachable exampleDeployment (fun _ => 0) s ∧
    s.world.kafka.committed examplePartition = 2 ∧
    (∀ o, o < 2 → Processed exampleDeployment s.world.toShared examplePartition o) ∧
    ∃ x older, (x :: older) <:+ s.world.inbox.hist ∧ x.carries ("billing", 8) = true ∧
      ∃ y ∈ older, y.carries ("billing", 7) = true := by
  obtain ⟨s, hrun, hp⟩ := Runs.exists_of_guarded (system exampleDeployment).run
    (C := fun s a => PollsClean s a ∧ ∀ s', (system exampleDeployment).run s a = some s' →
      s'.world.kafka.logs = s.world.kafka.logs) exampleQuiet (I := fun _ => True)
    (fun _ _ _ _ _ => trivial) (fun _ _ _ => exampleQuiet_sound) (State.init 0 exampleLogs fun _ => 0) trivial
    exampleRebalance
    (fun s => s.world.kafka.committed examplePartition = 2 &&
      s.world.inbox.hist.any (Inbox.Obs.carries ("billing", 8))) (by decide +kernel)
  obtain ⟨hcommitted, heffects⟩ := Bool.and_eq_true_iff.mp hp
  have hcommitted : s.world.kafka.committed examplePartition = 2 := of_decide_eq_true hcommitted
  obtain ⟨x, hx, hcarries⟩ := List.any_eq_true.mp heffects
  obtain ⟨newer, older, hhist⟩ := List.append_of_mem hx
  have hlogs : s.world.kafka.logs = exampleLogs :=
    hrun.inv (I := fun s => s.world.kafka.logs = exampleLogs) (fun _ _ _ hi hC hs => (hC.2 _ hs).trans hi) rfl
  have hreach : Reachable exampleDeployment (fun _ => 0) s := ⟨0, exampleLogs, hrun.weaken fun _ _ hC => hC.1⟩
  obtain ⟨hfirst, hsecond⟩ := exampleLogs_onlyAt hlogs
  obtain ⟨hbelow, horder⟩ := partition_order hreach
  have hsuf : (x :: older) <:+ s.world.inbox.hist := hhist ▸ List.suffix_append newer _
  refine ⟨s, hreach, hcommitted, fun o ho => ?_, x, older, hsuf, hcarries, ?_⟩
  · exact hbelow examplePartition o (Nat.zero_le o) (by rw [hcommitted]; exact ho)
  · exact (horder examplePartition 0 1 7 8 (by decide) hfirst hsecond).1 (Nat.zero_le 0) x older hsuf hcarries

end Emitlane.Consumer
