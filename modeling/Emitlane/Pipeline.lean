import Emitlane.Consumer.Message
import Emitlane.Consumer.PartitionOrder
import Emitlane.Delivery
import Emitlane.System.Origin

/-!
# Pipeline — from the producer's transaction to the consumer's effects

The outbox system and the workers of one consumer, joined by the broker.  A publish that takes effect appends a record
to a partition of its topic (`append`): once, at any time in its window, also after the relay has given it up.  Publish
returns nil only for a record that is in the log, since the publisher asks for the acknowledgement of all in-sync
replicas.  Everything else the two systems do by themselves, in any order.

The group starts at the beginning of the topics, and nobody else writes to them.  As in `Consumer.PartitionOrder` the
client loses no record.

* `Inv`: the records are the publishes that took effect, and what was acknowledged is a record.
* `exactly_once`: an event that leaves the outbox is in the log, and its effects are committed exactly once by the time
  the group is past it; effects are committed for such events only.
-/

namespace Emitlane.Pipeline

open Relay (Config publishMessage)
open Consumer (Header Entry TopicPartition SourceRecord Deployment WorkerAction EnvAction Kafka resolveEventID
  recordHeaders)

variable {ι ω : Type}

/-! ## The model -/

structure State (ι ω : Type) where
  outbox : Emitlane.State ι
  consumers : Consumer.State ω

inductive Action (ι ω : Type)
  | outbox (a : Emitlane.Action ι)
  /-- Publish number `k` takes effect; `order` is the order in which its headers were emitted. -/
  | append (k : Nat) (partition : Int) (timestamp : Option Int) (order : List Header → List Header)
  | worker (w : ω) (a : WorkerAction)
  | env (e : EnvAction)

/-- The message of publish number `k`. -/
def publishedMessage (hist : List (Obs ι)) (k : Nat) : Option Message :=
  hist.findSome? fun
    | .published k' msg => if k' = k then some msg else none
    | _ => none

/-- The record `Publisher.Publish` produces. -/
def publisherRecord (msg : Message) (timestamp : Option Int) (order : List Header → List Header) : Entry where
  timestamp := timestamp
  key := msg.key.getD []
  payload := msg.payload
  headers := order (recordHeaders msg)

/-- Publish number `k` took effect. -/
def tookEffect (hist : List (Obs ι)) (k : Nat) : Bool := hist.any fun
  | .effect k' _ => k' = k
  | _ => false

/-- What the broker leaves to the outbox: a publish takes effect by `append` only, and is acknowledged after that. -/
def brokerAllows (hist : List (Obs ι)) : Emitlane.Action ι → Bool
  | .effect _ => false
  | .ack k => tookEffect hist k
  | _ => true

def State.init (ι ω : Type) (outboxClock inboxClock : Int) : State ι ω where
  outbox := Emitlane.State.init ι outboxClock
  consumers := Consumer.State.init inboxClock (fun _ => []) fun _ => 0

section Step

variable [DecidableEq ω] (cfg : ι → Config) (d : Deployment ω)

def State.append (s : State ι ω) (o : Emitlane.State ι) (tp : TopicPartition) (e : Entry) : Option (State ι ω) :=
  ((Consumer.system d).run s.consumers (.env (.produce tp e))).map fun c => ⟨o, c⟩

def step (s : State ι ω) : Action ι ω → Option (State ι ω)
  | .outbox a =>
    if brokerAllows s.outbox.hist a then (Emitlane.step cfg s.outbox a).map fun o => { s with outbox := o } else none
  | .append k partition timestamp order =>
    match publishedMessage s.outbox.hist k with
    | none => none
    | some msg =>
      if (order (recordHeaders msg)).Perm (recordHeaders msg) then
        (Emitlane.step cfg s.outbox (.effect k)).bind fun o =>
          s.append d o ⟨msg.destination, partition⟩ (publisherRecord msg timestamp order)
      else none
  | .worker w a => ((Consumer.system d).run s.consumers (.party w a)).map fun c => { s with consumers := c }
  | .env e =>
    if e.quiet then ((Consumer.system d).run s.consumers (.env e)).map fun c => { s with consumers := c } else none

/-- The fetches of a run carry a record or errors, not both. -/
def Clean (s : State ι ω) (a : Action ι ω) : Prop :=
  ∀ w b, a = .worker w b → Consumer.PollsClean s.consumers (.party w b)

def Reachable (s : State ι ω) : Prop :=
  ∃ outboxClock inboxClock, Runs.Reach (step cfg d) Clean (State.init ι ω outboxClock inboxClock) s

end Step

/-! ## Messages -/

/-- The record `r` in the partition `tp` is one of the event. -/
structure RecordOf (row : EventRow) (tp : TopicPartition) (r : SourceRecord) : Prop where
  topic : tp.topic = row.destination
  key : r.key = row.messageKey.getD []
  payload : r.payload = row.payload
  identity : resolveEventID r.message = .ok row.id

section Messages

theorem mem_setHeader {m : List (String × String)} {name value : String} {h : String × String} (hne : h.1 ≠ name) :
    h ∈ setHeader m name value ↔ h ∈ m := by
  unfold setHeader
  split_ifs
  · simp [hne]
  · rw [mem_setEntry]
    constructor
    · rintro (⟨hmem, -⟩ | rfl)
      · exact hmem
      · exact absurd rfl hne
    · exact fun hmem => .inl ⟨hmem, hne⟩

/-- The trace headers are not taken for the event id. -/
theorem mem_publishMessage {ev : RelayEvent} {traceparent tracestate name value : String}
    (hname : Consumer.equalFold (trimSpace name) Consumer.eventIDHeader = true) :
    (name, value) ∈ (publishMessage ev traceparent tracestate).headers ↔
    (name, value) ∈ (toMessage ev).headers := by
  have hother : ∀ other, Consumer.equalFold (trimSpace other) Consumer.eventIDHeader = false → name ≠ other := by
    rintro other hfalse rfl
    rw [hname] at hfalse
    cases hfalse
  unfold publishMessage
  rw [mem_setHeader (hother _ (by decide)), mem_setHeader (hother _ (by decide))]

theorem resolveEventID_publishMessage {ev : RelayEvent} {traceparent tracestate : String} {message : Consumer.Message}
    (h : message.headers.Perm (recordHeaders (publishMessage ev traceparent tracestate))) :
    resolveEventID message = .ok ev.id := by
  have hval : ∀ x ∈ message.headers, Consumer.equalFold (trimSpace x.key) Consumer.eventIDHeader = true →
      uuidParseBytes (trimSpaceBytes x.value) = .ok ev.id := by
    intro x hx hname
    obtain ⟨⟨name, value⟩, hmem, rfl⟩ := List.mem_map.mp (h.mem_iff.mp hx)
    have hname : Consumer.equalFold (trimSpace name) Consumer.eventIDHeader = true := hname
    have hvalue : value = ev.id.text := Consumer.value_of_equalFold ((mem_publishMessage hname).mp hmem) hname
    dsimp only
    rw [hvalue, Consumer.uuidParseBytes_trim]
  have hid : (headerEventID, ev.id.text) ∈ (publishMessage ev traceparent tracestate).headers := by
    rw [mem_publishMessage Consumer.equalFold_header, mem_toMessage_headers,
      if_pos (by rw [normalize_reserved _ (by decide)]; decide)]
    exact List.mem_cons_self
  have hany : message.headers.any (fun x => Consumer.equalFold (trimSpace x.key) Consumer.eventIDHeader) = true :=
    List.any_eq_true.mpr ⟨_, h.mem_iff.mpr (List.mem_map_of_mem hid), Consumer.equalFold_header⟩
  unfold resolveEventID
  rw [Consumer.resolveHeaders_eq hval (.inl rfl), hany]
  rfl

end Messages

/-! ## The outbox side -/

section Outbox

variable {cfg : ι → Config} {s s' : Emitlane.State ι} {k : Nat}

/-- The step that makes an observation of a publish. -/
def MadeBy (a : Emitlane.Action ι) : Obs ι → Prop
  | .effect k _ => a = .effect k
  | .acked k _ => a = .ack k
  | _ => True

theorem madeBy {a : Emitlane.Action ι} (hs : Next cfg s a s') {o : Obs ι} (ho : o ∈ s'.hist) :
    o ∈ s.hist ∨ MadeBy a o := by
  have hcons : ∀ {x : Obs ι}, o ∈ x :: s.hist → MadeBy a x → o ∈ s.hist ∨ MadeBy a o := by
    intro x ho hx
    rcases List.mem_cons.mp ho with rfl | ho
    · exact .inr hx
    · exact .inl ho
  have hmap : ∀ {α : Type} {f : α → Obs ι} {l : List α}, o ∈ l.map f ++ s.hist → (∀ x, MadeBy a (f x)) →
      o ∈ s.hist ∨ MadeBy a o := by
    intro α f l ho hf
    rcases List.mem_append.mp ho with ho | ho
    · obtain ⟨x, -, rfl⟩ := List.mem_map.mp ho
      exact .inr (hf x)
    · exact .inl ho
  cases hs with
  | insert => exact hmap ho fun _ => trivial
  | lease => exact hmap ho fun _ => trivial
  | deleted => exact hmap ho fun _ => trivial
  | began => exact hcons ho trivial
  | marked => exact hcons ho trivial
  | revived => exact hcons ho trivial
  | published => exact hcons ho trivial
  | acked => exact hcons ho rfl
  | effect => exact hcons ho rfl
  | tick | owned | failed | dropped => exact .inl ho

/-- A handler publishes one message. -/
theorem published_unique (h : Emitlane.Reachable cfg s) {msg msg' : Message} (hmem : Obs.published k msg ∈ s.hist)
    (hmem' : Obs.published k msg' ∈ s.hist) : msg = msg' := by
  have hone := (h.script.script k).counts.2.1
  rw [List.countP_eq_length_filter] at hone
  have hfilter : ∀ {m : Message}, Obs.published k m ∈ s.hist →
    Obs.published k m ∈ (own k s.hist).filter Obs.isPublished :=
    fun hm => List.mem_filter.mpr ⟨mem_own.mpr ⟨hm, rfl⟩, rfl⟩
  obtain ⟨x, hx⟩ : ∃ x, (own k s.hist).filter Obs.isPublished = [x] :=
    List.length_eq_one_iff.mp (Nat.le_antisymm hone (List.length_pos_of_mem (hfilter hmem)))
  have hm := List.mem_singleton.mp (hx ▸ hfilter hmem)
  have hm' := List.mem_singleton.mp (hx ▸ hfilter hmem')
  exact (Obs.published.inj (hm.trans hm'.symm)).2

theorem mem_of_publishedMessage {hist : List (Obs ι)} {msg : Message} (h : publishedMessage hist k = some msg) :
    Obs.published k msg ∈ hist := by
  obtain ⟨o, ho, hsome⟩ := List.exists_of_findSome?_eq_some h
  cases o with
  | published k' msg' =>
    dsimp only at hsome
    split_ifs at hsome with hk
    rw [← Option.some.inj hsome, ← hk]
    exact ho
  | _ => cases hsome

theorem effect_mem {hist : List (Obs ι)} (h : tookEffect hist k = true) :
    ∃ instant, Obs.effect k instant ∈ hist := by
  obtain ⟨o, ho, hk⟩ := List.any_eq_true.mp h
  cases o with
  | effect k' instant => exact ⟨instant, of_decide_eq_true hk ▸ ho⟩
  | _ => cases hk

end Outbox

/-! ## The consumer side -/

section Consumers

variable {d : Deployment ω} {w : ω} {v v' : Consumer.World ω} {x x' : Consumer.Worker}

theorem record_append (kafka : Kafka) (tp : TopicPartition) (e : Entry) (tp' : TopicPartition) (o : Nat)
    (r : SourceRecord) :
    Kafka.record { kafka with logs := Function.update kafka.logs tp (kafka.logs tp ++ [e]) } tp' o = some r ↔
      kafka.record tp' o = some r ∨
        (tp' = tp ∧ o = (kafka.logs tp).length ∧ r = { e with source := tp, offset := o }) := by
  by_cases htp : tp' = tp
  · subst htp
    simp only [Kafka.record, Function.update_self, Option.map_eq_some_iff]
    rcases Nat.lt_trichotomy o (kafka.logs tp').length with hlt | heq | hgt
    · simp only [List.getElem?_append_left hlt, Nat.ne_of_lt hlt, false_and, and_false, or_false]
    · subst heq
      simp [eq_comm]
    · rw [List.getElem?_eq_none (by simp; omega), List.getElem?_eq_none (by omega)]
      simp [Nat.ne_of_gt hgt]
  · simp [Kafka.record, htp]

end Consumers

/-! ## The invariant -/

/-- The record is that of a publish of the message. -/
structure Sent (msg : Message) (tp : TopicPartition) (r : SourceRecord) : Prop where
  topic : tp.topic = msg.destination
  key : r.key = msg.key.getD []
  payload : r.payload = msg.payload
  headers : r.headers.Perm (recordHeaders msg)

section Invariant

variable [DecidableEq ω]

structure Inv (cfg : ι → Config) (d : Deployment ω) (s : State ι ω) : Prop where
  outbox : Emitlane.Reachable cfg s.outbox
  consumers : Consumer.Reachable d (fun _ => 0) s.consumers
  /-- Every record is that of a publish. -/
  sent : ∀ {tp o r}, s.consumers.world.kafka.record tp o = some r →
    ∃ k msg, Obs.published k msg ∈ s.outbox.hist ∧ Sent msg tp r
  /-- A publish that took effect has its record. -/
  kept : ∀ {k instant}, Obs.effect k instant ∈ s.outbox.hist →
    ∃ msg tp o r, Obs.published k msg ∈ s.outbox.hist ∧
    s.consumers.world.kafka.record tp o = some r ∧ Sent msg tp r
  /-- What was acknowledged took effect. -/
  acked : ∀ {k id}, Obs.acked k id ∈ s.outbox.hist → ∃ instant, Obs.effect k instant ∈ s.outbox.hist

variable {cfg : ι → Config} {d : Deployment ω} {s s' : State ι ω}

theorem Inv.init (outboxClock inboxClock : Int) : Inv cfg d (State.init ι ω outboxClock inboxClock) where
  outbox := .init outboxClock
  consumers := ⟨inboxClock, fun _ => [], Runs.Reach.refl _⟩
  sent h := nomatch h
  kept h := nomatch h
  acked h := nomatch h

/-- A step of the outbox alone. -/
theorem Inv.outbox_step (h : Inv cfg d s) {a : Emitlane.Action ι} {o : Emitlane.State ι}
    (hallows : brokerAllows s.outbox.hist a = true) (hs : Emitlane.step cfg s.outbox a = some o) :
    Inv cfg d { s with outbox := o } := by
  have hnext := next_of_step hs
  obtain ⟨new, hhist, -⟩ := hnext.news
  have hold : ∀ {x}, x ∈ s.outbox.hist → x ∈ o.hist := fun hx => hhist ▸ List.mem_append_right new hx
  refine ⟨h.outbox.step hs, h.consumers, ?_, ?_, ?_⟩
  · intro tp off r hr
    obtain ⟨k, msg, hmsg, hsent⟩ := h.sent hr
    exact ⟨k, msg, hold hmsg, hsent⟩
  · intro k instant heffect
    rcases madeBy hnext heffect with heffect | rfl
    · obtain ⟨msg, tp, off, r, hmsg, hr, hsent⟩ := h.kept heffect
      exact ⟨msg, tp, off, r, hold hmsg, hr, hsent⟩
    · cases hallows
  · intro k id hacked
    rcases madeBy hnext hacked with hacked | rfl
    · obtain ⟨instant, heffect⟩ := h.acked hacked
      exact ⟨instant, hold heffect⟩
    · obtain ⟨instant, heffect⟩ := effect_mem hallows
      exact ⟨instant, hold heffect⟩

/-- The record of a publish that takes effect. -/
theorem Inv.append_step (h : Inv cfg d s) {k : Nat} {partition : Int} {timestamp : Option Int}
    {order : List Header → List Header} {msg : Message} {o : Emitlane.State ι}
    (hmsg : Obs.published k msg ∈ s.outbox.hist)
    (hperm : (order (recordHeaders msg)).Perm (recordHeaders msg))
    (hs : Emitlane.step cfg s.outbox (.effect k) = some o)
    (happend : s.append d o ⟨msg.destination, partition⟩ (publisherRecord msg timestamp order) = some s') :
    Inv cfg d s' := by
  have hreach := h.outbox.step hs
  obtain ⟨c, hrun, rfl⟩ := Option.map_eq_some_iff.mp happend
  have hconsumers : Consumer.Reachable d (fun _ => 0) c := by
    obtain ⟨clock, logs, hreach⟩ := h.consumers
    exact ⟨clock, logs, hreach.tail (fun w fetch ctxDone heq => by cases heq) hrun⟩
  obtain rfl := Option.some.inj hrun
  simp only [Emitlane.step] at hs
  split_ifs at hs
  cases hs
  refine ⟨hreach, hconsumers, ?_, ?_, ?_⟩
  · intro tp off r hr
    rcases (record_append _ _ _ _ _ _).mp hr with hr | ⟨rfl, -, rfl⟩
    · obtain ⟨k', msg', hmsg', hsent⟩ := h.sent hr
      exact ⟨k', msg', List.mem_cons_of_mem _ hmsg', hsent⟩
    · exact ⟨k, msg, List.mem_cons_of_mem _ hmsg, rfl, rfl, rfl, hperm⟩
  · intro k' instant heffect
    rcases List.mem_cons.mp heffect with heq | heffect
    · obtain ⟨rfl, -⟩ := Obs.effect.inj heq
      exact ⟨msg, _, _, _, List.mem_cons_of_mem _ hmsg, (record_append _ _ _ _ _ _).mpr (.inr ⟨rfl, rfl, rfl⟩),
        rfl, rfl,
        rfl, hperm⟩
    · obtain ⟨msg', tp, off, r, hmsg', hr, hsent⟩ := h.kept heffect
      exact ⟨msg', tp, off, r, List.mem_cons_of_mem _ hmsg', (record_append _ _ _ _ _ _).mpr (.inl hr), hsent⟩
  · intro k' id hacked
    rcases List.mem_cons.mp hacked with heq | hacked
    · cases heq
    · obtain ⟨instant, heffect⟩ := h.acked hacked
      exact ⟨instant, List.mem_cons_of_mem _ heffect⟩

/-- A step of the consumer that leaves the logs alone. -/
theorem Inv.consumer_step (h : Inv cfg d s) {a : Consumer.Action ω} {c : Consumer.State ω}
    (hclean : Consumer.PollsClean s.consumers a) (hs : (Consumer.system d).run s.consumers a = some c)
    (hlogs : c.world.kafka.logs = s.consumers.world.kafka.logs) : Inv cfg d { s with consumers := c } := by
  have hrecord : ∀ tp off, c.world.kafka.record tp off = s.consumers.world.kafka.record tp off := by
    intro tp off
    unfold Kafka.record
    rw [hlogs]
  obtain ⟨clock, logs, hreach⟩ := h.consumers
  refine ⟨h.outbox, ⟨clock, logs, hreach.tail hclean hs⟩, ?_, ?_, h.acked⟩
  · intro tp off r hr
    exact h.sent (hrecord tp off ▸ hr)
  · intro k instant heffect
    obtain ⟨msg, tp, off, r, hmsg, hr, hsent⟩ := h.kept heffect
    exact ⟨msg, tp, off, r, hmsg, (hrecord tp off).trans hr, hsent⟩

theorem Inv.next (h : Inv cfg d s) {a : Action ι ω} (hclean : Clean s a) (hs : step cfg d s a = some s') :
    Inv cfg d s' := by
  cases a with
  | outbox a =>
    simp only [step] at hs
    split_ifs at hs with hallows
    obtain ⟨o, ho, rfl⟩ := Option.map_eq_some_iff.mp hs
    exact h.outbox_step hallows ho
  | append k partition timestamp order =>
    simp only [step] at hs
    split at hs
    · cases hs
    · rename_i msg hmsg
      split_ifs at hs with hperm
      obtain ⟨o, ho, happend⟩ := Option.bind_eq_some_iff.mp hs
      exact h.append_step (mem_of_publishedMessage hmsg) hperm ho happend
  | worker w a =>
    obtain ⟨c, hc, rfl⟩ := Option.map_eq_some_iff.mp hs
    obtain ⟨⟨v, x⟩, hv, rfl⟩ := Option.map_eq_some_iff.mp hc
    exact h.consumer_step (hclean w a rfl) hc (Consumer.next_of_workerStep hv).logs
  | env e =>
    simp only [step] at hs
    split_ifs at hs with he
    obtain ⟨c, hc, rfl⟩ := Option.map_eq_some_iff.mp hs
    obtain ⟨v, hv, rfl⟩ := Option.map_eq_some_iff.mp hc
    exact h.consumer_step (fun w fetch ctxDone heq => by cases heq) hc (Consumer.envStep_logs he hv)

theorem Reachable.inv (h : Reachable cfg d s) : Inv cfg d s := by
  obtain ⟨outboxClock, inboxClock, hrun⟩ := h
  exact hrun.inv (fun _ _ _ hi hclean hs => hi.next hclean hs) (Inv.init outboxClock inboxClock)

/-! ## What the records are -/

/-- A publish of an event leaves a record of the event. -/
theorem Inv.recordOf (h : Inv cfg d s) {k : Nat} {msg : Message} (hmsg : Obs.published k msg ∈ s.outbox.hist)
    {tp : TopicPartition} {r : SourceRecord} (hsent : Sent msg tp r) :
    ∃ row, Obs.enqueued row ∈ s.outbox.hist ∧ msg.id = row.id.text ∧ RecordOf row tp r := by
  obtain ⟨_, ev, traceparent, tracestate, ⟨row, hrow, rfl⟩, hcopy, rfl⟩ := h.outbox.published_copy hmsg
  refine ⟨row, hrow, congrArg Uuid.text hcopy.id, ?_⟩
  exact
    { topic := hsent.topic.trans hcopy.destination
      key := hsent.key.trans (congrArg (Option.getD · []) hcopy.key)
      payload := hsent.payload.trans hcopy.payload
      identity := (resolveEventID_publishMessage hsent.headers).trans (congrArg Except.ok hcopy.id) }

/-- A publish of the event that returned nil left a record of it. -/
theorem Inv.record_of_acked (h : Inv cfg d s) (hfresh : FreshIDs s.outbox.hist) {row : EventRow}
    (hrow : Obs.enqueued row ∈ s.outbox.hist) (hnil : PublishReturnedNil row.id s.outbox.hist) :
    ∃ tp o r, s.consumers.world.kafka.record tp o = some r ∧ RecordOf row tp r := by
  obtain ⟨k, msg, hmsg, hacked, hid⟩ := hnil
  obtain ⟨instant, heffect⟩ := h.acked hacked
  obtain ⟨msg', tp, o, r, hmsg', hr, hsent⟩ := h.kept heffect
  obtain rfl := published_unique h.outbox hmsg hmsg'
  obtain ⟨row', hrow', hid', hof⟩ := h.recordOf hmsg hsent
  obtain rfl := hfresh.row_ext hrow hrow' (Uuid.text_injective (hid.symm.trans hid'))
  exact ⟨tp, o, r, hr, hof⟩

/-- **From commit to effect, exactly once.**  Take any run of producers, relays, operators and workers in which ids are
not used twice.  An event whose transaction committed is still to be delivered from the outbox, or has a record in its
topic with its key, payload and id; once the group has committed an offset past a record of the event, its effects are
committed exactly once.  And effects are committed at most once, and only for events that were enqueued and recorded. -/
theorem exactly_once (hd : d.resolveIdentity = resolveEventID) (h : Reachable cfg d s)
    (hfresh : FreshIDs s.outbox.hist) :
    (∀ row, Obs.enqueued row ∈ s.outbox.hist →
      ((∃ r, s.outbox.db.row row.id = some r ∧ r.status ≠ .delivered) ∨
        ∃ tp o r, s.consumers.world.kafka.record tp o = some r ∧ RecordOf row tp r) ∧
      ∀ tp o r, s.consumers.world.kafka.record tp o = some r → RecordOf row tp r →
        o < s.consumers.world.kafka.committed tp →
          (s.consumers.world.inbox.hist.filter (Inbox.Obs.carries (d.consumer, row.id))).length = 1) ∧
    ∀ key, (s.consumers.world.inbox.hist.filter (Inbox.Obs.carries key)).length ≤ 1 ∧
      ∀ o ∈ s.consumers.world.inbox.hist, o.carries key = true →
        ∃ row, Obs.enqueued row ∈ s.outbox.hist ∧ key = (d.consumer, row.id) ∧
          ∃ tp off r, s.consumers.world.kafka.record tp off = some r ∧ RecordOf row tp r := by
  have hi := h.inv
  have hgood := hi.consumers.good.1
  refine ⟨fun row hrow => ⟨?_, ?_⟩, fun key => ⟨hgood.inbox.once key, ?_⟩⟩
  · rcases hi.outbox.enqueued_kept hrow with ⟨r, hr⟩ | hnil
    · by_cases hst : r.status = .delivered
      · have hmem := s.outbox.db.row_eq_some.mp hr
        exact .inr (hi.record_of_acked hfresh hrow (hmem.2 ▸ hi.outbox.delivered_acked hmem.1 hst))
      · exact .inl ⟨r, hr, hst⟩
    · exact .inr (hi.record_of_acked hfresh hrow hnil)
  · intro tp o r hr hof hlt
    obtain ⟨r', id, hr', hid, hprocessed⟩ := (hgood.committed tp).2 o (Nat.zero_le o) hlt
    obtain rfl : r = r' := Option.some.inj (hr.symm.trans hr')
    have hid : resolveEventID r.message = .ok id := hd ▸ hid
    obtain rfl : row.id = id := Except.ok.inj (hof.identity.symm.trans hid)
    exact hgood.earned.once hgood.inbox hprocessed
  · intro o ho hcarries
    obtain ⟨r, id, hhand, hid, rfl⟩ := hgood.effects o ho key hcarries
    obtain ⟨k, msg, hmsg, hsent⟩ := hi.sent hhand.1
    obtain ⟨row, hrow, -, hof⟩ := hi.recordOf hmsg hsent
    have hid : resolveEventID r.message = .ok id := hd ▸ hid
    obtain rfl : row.id = id := Except.ok.inj (hof.identity.symm.trans hid)
    exact ⟨row, hrow, rfl, _, _, r, hhand.1, hof⟩

end Invariant

/-! ## One event on its way -/

/-- The test for `Clean`. -/
def clean (s : State ι ω) : Action ι ω → Bool
  | .worker w a => Consumer.pollsClean s.consumers (.party w a)
  | _ => true

theorem clean_sound {s : State ι ω} {a : Action ι ω} (h : clean s a = true) : Clean s a := by
  rintro w b rfl
  exact Consumer.pollsClean_sound h

def exampleConsumer : Deployment Unit where
  consumer := "billing"
  member _ := ⟨{ Consumer.defaultConfig with consumer := "billing", instanceID := "a" }, 0⟩
  resolveIdentity := resolveEventID
  one _ := rfl

def exampleTopic : TopicPartition := ⟨"orders", 0⟩

/-- The event is published, delivered and cleaned up, and a worker processes its record. -/
def exampleRun : List (Action Unit Unit) :=
  [.outbox (.produce 0 [exampleCall] true), .outbox (.claim () 10 fun _ => false), .outbox (.begin 0),
   .outbox (.publish 0 "" ""), .append 0 0 none List.reverse, .outbox (.ack 0), .outbox (.settle 0 false 0),
   .worker () (.assigned exampleTopic), .worker () (.resumeDue 0 fun _ => false), .worker () (.ping true),
   .worker () (.pollRecords ⟨some exampleTopic, []⟩ false), .worker () (.claim 1 .ok 0), .worker () (.beginTx none),
   .worker () (.handlerReturned none none 0), .worker () (.markProcessed false), .worker () (.commitTx .ok 0),
   .worker () (.commitOffset .ok 0), .outbox (.tick (8 * 24 * 3600 * 1000000)),
   .outbox (.cleanup (7 * 24 * 3600 * second) 10 fun _ => false)]

def exampleDone (s : State Unit Unit) : Bool :=
  (s.outbox.db.row exampleID).isNone && s.outbox.hist.any (Obs.enqueues exampleID) && decide (FreshIDs s.outbox.hist) &&
    s.consumers.world.kafka.committed exampleTopic = 1

theorem exactly_once_cleaned_up : ∃ s : State Unit Unit, Reachable exampleRelay exampleConsumer s ∧
    FreshIDs s.outbox.hist ∧ s.outbox.db.row exampleID = none ∧
    s.consumers.world.kafka.committed exampleTopic = 1 ∧
    ∃ row tp o r, Obs.enqueued row ∈ s.outbox.hist ∧ row.id = exampleID ∧
      s.consumers.world.kafka.record tp o = some r ∧ RecordOf row tp r ∧
      (o < s.consumers.world.kafka.committed tp →
        (s.consumers.world.inbox.hist.filter (Inbox.Obs.carries ("billing", exampleID))).length = 1) := by
  obtain ⟨s, hrun, hp⟩ := Runs.exists_of_guarded (step exampleRelay exampleConsumer) clean (I := fun _ => True)
    (fun _ _ _ _ _ => trivial) (fun _ _ _ => clean_sound) (State.init Unit Unit 0 0) trivial exampleRun exampleDone
    (by decide +kernel)
  simp only [exampleDone, Bool.and_eq_true, decide_eq_true_eq, Option.isNone_iff_eq_none] at hp
  obtain ⟨⟨⟨hgone, henq⟩, hfresh⟩, hcommitted⟩ := hp
  have hreach : Reachable exampleRelay exampleConsumer s := ⟨0, 0, hrun⟩
  obtain ⟨x, hx, hid⟩ := List.any_eq_true.mp henq
  cases x with
  | enqueued row =>
    have hid : row.id = exampleID := of_decide_eq_true hid
    obtain ⟨hkept, honce⟩ := (exactly_once rfl hreach hfresh).1 row hx
    rw [hid, hgone] at hkept
    rcases hkept with ⟨r, hr, -⟩ | ⟨tp, o, r, hr, hof⟩
    · cases hr
    · exact ⟨s, hreach, hfresh, hgone, hcommitted, row, tp, o, r, hx, hid, hr, hof, hid ▸ honce tp o r hr hof⟩
  | _ => cases hid

end Emitlane.Pipeline
