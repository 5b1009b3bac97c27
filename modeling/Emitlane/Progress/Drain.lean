import Mathlib.Data.Finset.Card
import Emitlane.Handoff
import Emitlane.Store.Enabled

/-!
# Progress.Drain — one relay works off what it can claim

A relay that runs alone (`Solo`), owns all partitions and finds every open event due and free (`Serving`) claims batch
by batch at one instant.  A claimed event is in its `Grip` until the handler is through with it, and the handlers of a
batch do not disturb each other: two events at the cursor are of different streams.  Each `round` leaves fewer open
events, so in the end nothing can be claimed (`drain`).
-/

namespace Emitlane

open Relay Rel

/-! ## Open events -/

/-- The event is pending or inflight. -/
def EventRow.isOpen (r : EventRow) : Bool := r.status = .pending || r.status = .inflight

theorem EventRow.isOpen_iff {r : EventRow} : r.isOpen = true ↔ r.status = .pending ∨ r.status = .inflight := by
  simp [EventRow.isOpen]

theorem EventRow.Claimable.isOpen {r : EventRow} {now : Int} (h : r.Claimable now) : r.isOpen = true := by
  rw [EventRow.isOpen_iff]
  rcases h with h | h
  · exact .inl h
  · exact .inr (of_decide_eq_true (Bool.and_eq_true_iff.mp h).1)

theorem EventRow.Claimable.mono {r : EventRow} {now now' : Int} (h : r.Claimable now) (hle : now ≤ now') :
    r.Claimable now' := by
  refine h.imp_right fun hexpired => ?_
  simp only [EventRow.leaseExpired, Bool.and_eq_true, decide_eq_true_eq, Option.any_eq_true] at hexpired ⊢
  obtain ⟨hs, u, hu, hover⟩ := hexpired
  exact ⟨hs, u, hu, hover.trans hle⟩

/-- `r'` is the event `r`, delivered or given up on an exhausted budget. -/
def EventRow.Closes (maxAttempts : Int) (r r' : EventRow) : Prop :=
  r'.toEnvelope = r.toEnvelope ∧ (r'.status = .delivered ∨ (r'.status = .dead ∧ maxAttempts ≤ r.attempts))

theorem EventRow.Closes.not_open {maxAttempts : Int} {r r' : EventRow} (h : r.Closes maxAttempts r') :
    r'.isOpen = false := by
  rcases h.2 with hs | ⟨hs, -⟩ <;> simp [EventRow.isOpen, hs]

/-- Every event of `db` is in `db'` as it was, or was open and is closed. -/
def Db.Settles (maxAttempts : Int) (db db' : Db) : Prop :=
  ∀ id, db'.row id = db.row id ∨ ∃ r r', db.row id = some r ∧ db'.row id = some r' ∧ r.isOpen = true ∧
    r.Closes maxAttempts r'

section Settles

variable {maxAttempts : Int} {a b c : Db}

theorem Db.Settles.refl (db : Db) : db.Settles maxAttempts db := fun _ => .inl rfl

/-- A closed event is not closed again. -/
theorem Db.Settles.trans (h : a.Settles maxAttempts b) (h' : b.Settles maxAttempts c) : a.Settles maxAttempts c := by
  intro id
  rcases h id with hsame | ⟨r, r', hr, hr', hopen, hclose⟩
  · rcases h' id with hsame' | hnew
    · exact .inl (hsame'.trans hsame)
    · rw [hsame] at hnew
      exact .inr hnew
  · rcases h' id with hsame' | ⟨x, x', hx, -, hxopen, -⟩
    · exact .inr ⟨r, r', hr, hsame'.trans hr', hopen, hclose⟩
    · rw [hr'] at hx
      obtain rfl := Option.some.inj hx
      rw [hclose.not_open] at hxopen
      cases hxopen

/-- What is open at the end was there at the start. -/
theorem Db.Settles.of_open (h : a.Settles maxAttempts b) {r : EventRow} (hr : r ∈ b.events.rows)
    (hopen : r.isOpen = true) : r ∈ a.events.rows := by
  have hrow := b.row_mem hr
  rcases h r.id with hsame | ⟨x, x', -, hx', -, hclose⟩
  · exact (a.row_eq_some.mp (hsame.symm.trans hrow)).1
  · rw [hrow] at hx'
    obtain rfl := Option.some.inj hx'
    rw [hclose.not_open] at hopen
    cases hopen

/-- Every event of the end was there at the start. -/
theorem Db.Settles.origin (h : a.Settles maxAttempts b) {r : EventRow} (hr : r ∈ b.events.rows) :
    ∃ r₀ ∈ a.events.rows, r₀.toEnvelope = r.toEnvelope := by
  have hrow := b.row_mem hr
  rcases h r.id with hsame | ⟨x, x', hx, hx', -, hclose⟩
  · exact ⟨r, (a.row_eq_some.mp (hsame.symm.trans hrow)).1, rfl⟩
  · rw [hrow] at hx'
    obtain rfl := Option.some.inj hx'
    exact ⟨x, (a.row_eq_some.mp hx).1, hclose.1.symm⟩

end Settles

/-! ## What a handler needs -/

/-- `db'` is `db` after a transition of the event `r`: other events, the cursors of other streams, the partitions, the
presence and the runtime control are as they were. -/
structure Db.Beside (db db' : Db) (r : EventRow) : Prop where
  row : ∀ id, id ≠ r.id → db'.row id = db.row id
  streams : ∀ st ∈ db.streams.rows, r.advances st = false → st ∈ db'.streams.rows
  partitions : db'.partitions = db.partitions
  relays : db'.relays = db.relays
  control : db'.control = db.control

/-- The relay can take the event `r`, of which `ev` is its copy, to the end: it holds the event and its lease lasts;
where the copy is ordered, it has authority over the partition and the cursor stands at the event. -/
structure Grip (c : Config) (now : Int) (db : Db) (ev : RelayEvent) (r : EventRow) : Prop where
  row : db.row r.id = some r
  held : r.heldBy ev.id c.instanceID = true
  lease : r.leaseUntil.any (now < ·) = true
  attempts : ev.attempts = r.attempts
  sequence : isOrdered ev = true → r.orderingSequence = some ev.orderingSequence
  authority : isOrdered ev = true → ∃ p, db.partitionOf r = some p ∧ p.epoch = ev.orderingEpoch ∧
    p.authority c.instanceID now (addMS now (intervalMS c.window) ≤ ·) = true
  cursor : isOrdered ev = true → ∃ st ∈ db.streams.rows, r.advances st = true ∧ st.nextSequence < maxInt64

section Grip

variable {c : Config} {now : Int} {db db' db'' : Db} {ev : RelayEvent} {r : EventRow}

theorem Db.Beside.trans {f : Progress → Progress} (h : db.Beside db' r) (h' : db'.Beside db'' (r.progress f)) :
    db.Beside db'' r where
  row id hid := (h'.row id hid).trans (h.row id hid)
  streams st hst hadv := h'.streams st (h.streams st hst hadv) hadv
  partitions := h'.partitions.trans h.partitions
  relays := h'.relays.trans h.relays
  control := h'.control.trans h.control

theorem Db.Touches.beside {f : Progress → Progress} (h : db.Touches db' r f) : db.Beside db' r where
  row id hid := (h.row id).trans (if_neg hid)
  streams st hst _ := by
    rw [h.frame.streams]
    exact hst
  partitions := h.frame.partitions
  relays := h.frame.relays
  control := h.frame.control

theorem Db.Advances.beside {f : Progress → Progress} (h : db.Advances db' now ev c.instanceID r)
    (hrow : db.Rewrites db' r f) : db.Beside db' r where
  row id hid := (hrow.row id).trans (if_neg hid)
  streams st hst hadv := by
    rw [Table.write_rows h.streams]
    refine List.mem_map.mpr ⟨st, hst, ?_⟩
    rw [hadv]
    rfl
  partitions := h.partitions
  relays := h.relays
  control := h.control

theorem Db.partitionOf_congr (h : db'.partitions = db.partitions) (r : EventRow) :
    db'.partitionOf r = db.partitionOf r := by
  unfold Db.partitionOf Db.partition
  rw [h]

/-- Two rows that advance one stream are one row. -/
theorem Db.eq_of_advances {x : EventRow} {st : StreamRow} (hr : db.row r.id = some r) (hx : db.row x.id = some x)
    (h : r.advances st = true) (h' : x.advances st = true) : r = x := by
  obtain ⟨hd, hk, -, hn⟩ := EventRow.advances_iff.mp h
  obtain ⟨hd', hk', -, hn'⟩ := EventRow.advances_iff.mp h'
  refine db.event_sequence_ext (db.row_eq_some.mp hr).1 (db.row_eq_some.mp hx).1 ?_
  simp only [EventRow.sameSequence, ← hk, ← hk', ← hd, ← hd', ← hn, ← hn', Option.isSome_some,
    decide_true, Bool.and_self]

/-- The grip on an event outlasts a transition of another one. -/
theorem Grip.beside {x : EventRow} (h : Grip c now db ev r) (hx : db.row x.id = some x) (hne : r.id ≠ x.id)
    (hbeside : db.Beside db' x) : Grip c now db' ev r where
  row := (hbeside.row r.id hne).trans h.row
  held := h.held
  lease := h.lease
  attempts := h.attempts
  sequence := h.sequence
  authority hord := by
    obtain ⟨p, hp, hrest⟩ := h.authority hord
    exact ⟨p, (Db.partitionOf_congr hbeside.partitions r).trans hp, hrest⟩
  cursor hord := by
    obtain ⟨st, hst, hadv, hmax⟩ := h.cursor hord
    refine ⟨st, hbeside.streams st hst ?_, hadv, hmax⟩
    rw [Bool.eq_false_iff]
    intro hxadv
    exact hne (congrArg (fun y : EventRow => y.id) (Db.eq_of_advances h.row hx hadv hxadv))

/-- The attempt is recorded in the row and in the copy. -/
theorem Grip.counted (h : Grip c now db ev r) (ht : db.Touches db' r countAttempt) :
    Grip c now db' { ev with attempts := r.attempts + 1 } (r.progress countAttempt) where
  row := (ht.row r.id).trans (if_pos rfl)
  held := h.held
  lease := h.lease
  attempts := rfl
  sequence := h.sequence
  authority hord := by
    obtain ⟨p, hp, hrest⟩ := h.authority hord
    exact ⟨p, (Db.partitionOf_congr ht.frame.partitions r).trans hp, hrest⟩
  cursor hord := by
    obtain ⟨st, hst, hadv, hmax⟩ := h.cursor hord
    exact ⟨st, by rw [ht.frame.streams]; exact hst, hadv, hmax⟩

/-- The fence of the ordered marks asks for less than the claim. -/
theorem Grip.fenced (h : Grip c now db ev r) (hwindow : 0 < c.window) (hord : isOrdered ev = true) :
    db.Fenced now ev c.instanceID r := by
  obtain ⟨p, hp, hepoch, hauth⟩ := h.authority hord
  obtain ⟨ho, ⟨u, hu, halive⟩, hpassed⟩ := PartitionRow.authority_iff.mp hauth
  refine ⟨h.held, h.sequence hord, p, hp, hepoch, PartitionRow.authority_iff.mpr ⟨ho, ⟨u, hu, ?_⟩, hpassed⟩⟩
  have hle := of_decide_eq_true halive
  have hms := le_intervalMS c.window
  unfold millisecond at hms
  unfold addMS at hle
  exact decide_eq_true (by omega)

theorem Grip.begins (h : Grip c now db ev r) (hlt : r.attempts < c.maxAttempts) (hmax : c.maxAttempts ≤ maxInt32) :
    ∃ db', beginAttempt c db now ev = .ok (db', r.attempts + 1) ∧ db.Touches db' r countAttempt := by
  unfold beginAttempt
  split_ifs with hord
  · obtain ⟨p, hp, hepoch, hauth⟩ := h.authority hord
    rw [← hepoch]
    exact Db.beginOrderedAttempt_enabled h.row h.held h.lease hlt (by omega) hp hauth
  · exact Db.beginAttempt_enabled h.row h.held hlt (by omega)

theorem Grip.dies (h : Grip c now db ev r) (hwindow : 0 < c.window) (reason : Bytes) :
    ∃ db', markDead c db now ev reason = .ok db' ∧ db.Touches db' r (kill reason) := by
  have hstatus : r.status ≠ .delivered := by
    rw [EventRow.status_of_heldBy h.held]
    decide
  unfold markDead
  split_ifs with hord
  · exact Db.markOrderedDead_enabled h.row (h.fenced hwindow hord) reason
  · exact Db.markHeld_enabled h.row h.held (fun hs => nomatch hs)
      (EventRow.check_kill (db.event_check (db.row_eq_some.mp h.row).1) hstatus reason)

theorem Grip.delivers (h : Grip c now db ev r) (hwindow : 0 < c.window) :
    ∃ db', markDelivered c db now ev = .ok db' ∧ db'.row r.id = some (r.progress (deliver now)) ∧
    db.Beside db' r := by
  unfold markDelivered
  split_ifs with hord
  · obtain ⟨st, hst, hadv, hmax⟩ := h.cursor hord
    obtain ⟨db', hok⟩ := Db.markOrderedDelivered_enabled h.row (h.fenced hwindow hord) h.lease hst hadv hmax
    obtain ⟨x, hmove, hrow⟩ := Db.markOrderedDelivered_ok hok
    have hid : x.id = r.id := heldBy_only h.held hmove.fenced.held
    obtain rfl : x = r := by
      have hold := hrow.old
      rw [hid, h.row] at hold
      exact (Option.some.inj hold).symm
    exact ⟨db', hok, (hrow.row x.id).trans (if_pos rfl), hmove.beside hrow⟩
  · have hmark : ∃ db', db.markHeld now "mark delivered" ev.id c.instanceID (deliver now) = .ok db' ∧
        db.Touches db' r (deliver now) :=
      Db.markHeld_enabled h.row h.held (fun hs => nomatch hs)
        (EventRow.check_deliver (db.event_check (db.row_eq_some.mp h.row).1))
    obtain ⟨db', hok, ht⟩ := hmark
    exact ⟨db', hok, (ht.row r.id).trans (if_pos rfl), ht.beside⟩

end Grip

/-! ## One relay alone -/

section

variable {ι : Type}

/-- Handler `k` is of relay `i`, and its publish has not failed. -/
def Working (i : ι) (s : State ι) (k : Nat) : Prop :=
  ∃ h, s.handlers k = some h ∧ h.relay = i ∧ ∀ err, h.pc ≠ .failed err

/-- Time passes, and relay `i` is the only one that takes steps: its publishes succeed, and no row is locked by
anyone else when it claims. -/
def Solo (cfg : ι → Config) (i : ι) (limit : Int) (s : State ι) : Action ι → Prop
  | .tick _ => True
  | .register presence => presence.instanceID = (cfg i).instanceID
  | .heartbeat j => j = i
  | .reconcile j => j = i
  | .claim j n locked => j = i ∧ n = limit ∧ ∀ id, locked id = false
  | .claimOrdered j n locked => j = i ∧ n = limit ∧ ∀ id, locked id = false
  | .begin k => Working i s k
  | .publish k _ _ => Working i s k
  | .ack k => Working i s k
  | .settle k _ _ => Working i s k
  | _ => False

variable {cfg : ι → Config} {i : ι} {limit : Int} {s s' : State ι} {k : Nat} {h : Handler ι}

theorem Reachable.run {C : State ι → Action ι → Prop} (h : Reachable cfg s)
    (hrun : Runs.Reach (Emitlane.step cfg) C s s') : Reachable cfg s' := by
  obtain ⟨clock, hpre⟩ := h
  exact ⟨clock, hpre.trans (hrun.weaken fun _ _ _ => trivial)⟩

/-! ## The steps of a handler -/

/-- What a step of handler `k` leaves of the rest of the state. -/
structure Alongside (k : Nat) (s s' : State ι) : Prop where
  clock : s'.clock = s.clock
  handlers : ∀ k', k' ≠ k → s'.handlers k' = s.handlers k'

theorem Alongside.trans {s'' : State ι} (h : Alongside k s s') (h' : Alongside k s' s'') : Alongside k s s'' :=
  ⟨h'.clock.trans h.clock, fun k' hk' => (h'.handlers k' hk').trans (h.handlers k' hk')⟩

theorem Alongside.of_update {x : Option (Handler ι)} (hclock : s'.clock = s.clock)
    (hhandlers : s'.handlers = Function.update s.handlers k x) : Alongside k s s' :=
  ⟨hclock, fun k' hk' => by rw [hhandlers, Function.update_of_ne hk']⟩

variable (cfg) in
theorem publish_enabled (hk : s.handlers k = some h) (hpc : h.pc = .began) :
    ∃ s', step cfg s (.publish k "" "") = some s' ∧ s'.handlers k = some { h with pc := .publishing } ∧
    s'.db = s.db ∧
      Alongside k s s' := by
  simp only [step, hk, hpc, if_true]
  exact ⟨_, rfl, Function.update_self .., rfl, .of_update rfl rfl⟩

variable (cfg) in
theorem ack_enabled (hk : s.handlers k = some h) (hpc : h.pc = .publishing) :
    ∃ s', step cfg s (.ack k) = some s' ∧ s'.handlers k = some { h with pc := .acked } ∧ s'.db = s.db ∧
      Alongside k s s' := by
  simp only [step, hk, hpc, if_true]
  exact ⟨_, rfl, Function.update_self .., rfl, .of_update rfl rfl⟩

/-- The attempt is recorded. -/
theorem begin_enabled {ev : RelayEvent} {r : EventRow} (hk : s.handlers k = some ⟨i, ev, .start⟩)
    (hgrip : Grip (cfg i) s.clock s.db ev r) (hlt : r.attempts < (cfg i).maxAttempts)
    (hmax : (cfg i).maxAttempts ≤ maxInt32) :
    ∃ s', step cfg s (.begin k) = some s' ∧
      s'.handlers k = some ⟨i, { ev with attempts := r.attempts + 1 }, .began⟩ ∧
      s.db.Touches s'.db r countAttempt ∧ Alongside k s s' := by
  obtain ⟨db, hok, ht⟩ := hgrip.begins hlt hmax
  have hbudget : ¬ (cfg i).maxAttempts ≤ ev.attempts := by
    rw [hgrip.attempts]
    omega
  simp only [step, hk, if_true, State.begin, hbudget, if_false, hok]
  exact ⟨_, rfl, Function.update_self .., ht, .of_update rfl rfl⟩

/-- The event is given up. -/
theorem kill_enabled {ev : RelayEvent} {r : EventRow} (hk : s.handlers k = some ⟨i, ev, .start⟩)
    (hgrip : Grip (cfg i) s.clock s.db ev r) (hle : (cfg i).maxAttempts ≤ r.attempts) (hwindow : 0 < (cfg i).window) :
    ∃ s', step cfg s (.begin k) = some s' ∧ s.db.Touches s'.db r (kill budgetExhausted) ∧ Alongside k s s' := by
  obtain ⟨db, hok, ht⟩ := hgrip.dies hwindow budgetExhausted
  have hbudget : (cfg i).maxAttempts ≤ ev.attempts := by
    rw [hgrip.attempts]
    exact hle
  simp only [step, hk, if_true, State.begin, hbudget, hok, State.finish]
  exact ⟨_, rfl, ht, .of_update rfl rfl⟩

/-- The event is delivered. -/
theorem settle_enabled {ev : RelayEvent} {r : EventRow} (hk : s.handlers k = some ⟨i, ev, .acked⟩)
    (hgrip : Grip (cfg i) s.clock s.db ev r) (hwindow : 0 < (cfg i).window) :
    ∃ s', step cfg s (.settle k false 0) = some s' ∧ s'.db.row r.id = some (r.progress (deliver s.clock)) ∧
      s.db.Beside s'.db r ∧ Alongside k s s' := by
  obtain ⟨db, hok, hrow, hbeside⟩ := hgrip.delivers hwindow
  simp only [step, hk, State.settle, hok, State.finish]
  exact ⟨_, rfl, hrow, hbeside, .of_update rfl rfl⟩

theorem Working.of_pc {ev : RelayEvent} {pc : Pc} (hk : s.handlers k = some ⟨i, ev, pc⟩)
    (hpc : ∀ err, pc ≠ .failed err) :
    Working i s k := ⟨_, hk, rfl, hpc⟩

variable (limit) in
/-- A handler takes the event in its grip to the end. -/
theorem handle_one {ev : RelayEvent} {r : EventRow} (hwindow : 0 < (cfg i).window)
    (hmax : (cfg i).maxAttempts ≤ maxInt32) (hk : s.handlers k = some ⟨i, ev, .start⟩)
    (hgrip : Grip (cfg i) s.clock s.db ev r) :
    ∃ s' r', Runs.Reach (step cfg) (Solo cfg i limit) s s' ∧ s'.db.row r.id = some r' ∧
      r.Closes (cfg i).maxAttempts r' ∧ s.db.Beside s'.db r ∧ Alongside k s s' := by
  have hworking : Working i s k := .of_pc hk (fun _ herr => nomatch herr)
  by_cases hlt : r.attempts < (cfg i).maxAttempts
  · obtain ⟨s₁, hs₁, hk₁, ht, halong₁⟩ := begin_enabled hk hgrip hlt hmax
    obtain ⟨s₂, hs₂, hk₂, hdb₂, halong₂⟩ := publish_enabled cfg hk₁ rfl
    obtain ⟨s₃, hs₃, hk₃, hdb₃, halong₃⟩ := ack_enabled cfg hk₂ rfl
    have halong := (halong₁.trans halong₂).trans halong₃
    have hgrip₃ := hgrip.counted ht
    rw [← hdb₂, ← hdb₃, ← halong.clock] at hgrip₃
    obtain ⟨s₄, hs₄, hrow, hbeside, halong₄⟩ := settle_enabled hk₃ hgrip₃ hwindow
    rw [hdb₃, hdb₂] at hbeside
    refine ⟨s₄, _, ?_, hrow, ⟨rfl, .inl rfl⟩, ht.beside.trans hbeside, halong.trans halong₄⟩
    have hrun₁ : Runs.Reach (step cfg) (Solo cfg i limit) s s₁ := .single (a := .begin k) hworking hs₁
    have hrun₂ := hrun₁.tail (a := .publish k "" "") (Working.of_pc hk₁ (fun _ herr => nomatch herr)) hs₂
    have hrun₃ := hrun₂.tail (a := .ack k) (Working.of_pc hk₂ (fun _ herr => nomatch herr)) hs₃
    exact hrun₃.tail (a := .settle k false 0) (Working.of_pc hk₃ (fun _ herr => nomatch herr)) hs₄
  · obtain ⟨s', hs', ht, halong⟩ := kill_enabled hk hgrip (by omega) hwindow
    refine ⟨s', _, .single (a := .begin k) hworking hs', (ht.row r.id).trans (if_pos rfl),
    ⟨rfl, .inr ⟨rfl, ?_⟩⟩, ht.beside,
      halong⟩
    omega

/-- The clock, the partitions, the presence and the runtime control are as they were. -/
structure Undisturbed (s s' : State ι) : Prop where
  clock : s'.clock = s.clock
  partitions : s'.db.partitions = s.db.partitions
  relays : s'.db.relays = s.db.relays
  control : s'.db.control = s.db.control

theorem Undisturbed.refl (s : State ι) : Undisturbed s s := ⟨rfl, rfl, rfl, rfl⟩

theorem Undisturbed.trans {s'' : State ι} (h : Undisturbed s s') (h' : Undisturbed s' s'') : Undisturbed s s'' :=
  ⟨h'.clock.trans h.clock, h'.partitions.trans h.partitions, h'.relays.trans h.relays, h'.control.trans h.control⟩

/-- The handlers of a batch, one after the other. -/
theorem handle_all (limit : Int) (hwindow : 0 < (cfg i).window) (hmax : (cfg i).maxAttempts ≤ maxInt32) :
    ∀ (l : List (RelayEvent × Nat)) {s : State ι}, l.Pairwise (fun x y => x.2 ≠ y.2 ∧ x.1.id ≠ y.1.id) →
      (∀ x ∈ l, s.handlers x.2 = some ⟨i, x.1, .start⟩ ∧ ∃ r, Grip (cfg i) s.clock s.db x.1 r) →
      ∃ s', Runs.Reach (step cfg) (Solo cfg i limit) s s' ∧ Undisturbed s s' ∧
        (∀ id, (∀ x ∈ l, x.1.id ≠ id) → s'.db.row id = s.db.row id) ∧
        ∀ x ∈ l, ∃ r r', s.db.row x.1.id = some r ∧ s'.db.row x.1.id = some r' ∧
        r.Closes (cfg i).maxAttempts r'
  | [], s, _, _ => ⟨s, .refl s, .refl s, fun _ _ => rfl, fun x hx => by cases hx⟩
  | y :: l, s, hdistinct, hgrips => by
    obtain ⟨hother, hdistinct⟩ := List.pairwise_cons.mp hdistinct
    obtain ⟨⟨hk, r, hgrip⟩, hgrips⟩ := List.forall_mem_cons.mp hgrips
    obtain ⟨s₁, r₁, hrun₁, hrow₁, hclose, hbeside, halong⟩ := handle_one limit hwindow hmax hk hgrip
    have hrid : r.id = y.1.id := (EventRow.heldBy_iff.mp hgrip.held).1
    -- the other handlers of the batch are where they were, and so is what they hold
    have hgrips₁ : ∀ x ∈ l, s₁.handlers x.2 = some ⟨i, x.1, .start⟩ ∧
      ∃ r, Grip (cfg i) s₁.clock s₁.db x.1 r := by
      intro x hx
      obtain ⟨hkx, rx, hgripx⟩ := hgrips x hx
      have hne : rx.id ≠ r.id := by
        rw [(EventRow.heldBy_iff.mp hgripx.held).1, hrid]
        exact (hother x hx).2.symm
      refine ⟨(halong.handlers x.2 (hother x hx).1.symm).trans hkx, rx, ?_⟩
      rw [halong.clock]
      exact hgripx.beside hgrip.row hne hbeside
    obtain ⟨s', hrun, hframe, hsame, hclosed⟩ := handle_all limit hwindow hmax l hdistinct hgrips₁
    refine ⟨s', hrun₁.trans hrun, ?_, fun id hid => ?_, fun x hx => ?_⟩
    · have hframe₁ : Undisturbed s s₁ := ⟨halong.clock, hbeside.partitions, hbeside.relays, hbeside.control⟩
      exact hframe₁.trans hframe
    · obtain ⟨hne, hid⟩ := List.forall_mem_cons.mp hid
      rw [hsame id hid]
      exact hbeside.row id (by rw [hrid]; exact hne.symm)
    · rcases List.mem_cons.mp hx with rfl | hx
      · refine ⟨r, r₁, hrid ▸ hgrip.row, ?_, hclose⟩
        rw [hsame _ fun z hz => (hother z hz).2.symm, ← hrid]
        exact hrow₁
      · obtain ⟨rx, rx', hrx, hrx', hclosex⟩ := hclosed x hx
        have hne : x.1.id ≠ r.id := by
          rw [hrid]
          exact (hother x hx).2.symm
        exact ⟨rx, rx', (hbeside.row _ hne).symm.trans hrx, hrx', hclosex⟩

/-! ## A round -/

/-- The relay can serve every event it may claim: it is registered and has authority over all partitions, and what is
open is due and not leased. -/
structure Serving (c : Config) (now : Int) (db : Db) : Prop where
  running : db.paused = false
  member : (db.relay c.instanceID).any (fun relay => relay.orderingCapable && relay.stoppedAt.isNone) = true
  due : ∀ r ∈ db.events.rows, r.isOpen = true → r.availableAt ≤ now ∧ r.Claimable now
  sequences : ∀ r ∈ db.events.rows, ∀ n, r.orderingSequence = some n → n < maxInt64
  authority : ∀ p ∈ db.partitions.rows, p.authority c.instanceID now (addMS now (intervalMS c.window) ≤ ·) = true

theorem Serving.of_settles {maxAttempts : Int} (h : Serving (cfg i) s.clock s.db) (hframe : Undisturbed s s')
    (hsettles : s.db.Settles maxAttempts s'.db) : Serving (cfg i) s'.clock s'.db where
  running := by
    unfold Db.paused
    rw [hframe.control]
    exact h.running
  member := by
    unfold Db.relay
    rw [hframe.relays]
    exact h.member
  due r hr hopen := by
    rw [hframe.clock]
    exact h.due r (hsettles.of_open hr hopen) hopen
  sequences r hr n hn := by
    obtain ⟨r₀, hr₀, henv⟩ := hsettles.origin hr
    exact h.sequences r₀ hr₀ n ((congrArg Envelope.orderingSequence henv).trans hn)
  authority := by
    rw [hframe.partitions, hframe.clock]
    exact h.authority

/-- The ids of the open events. -/
def Db.openIDs (db : Db) : Finset Uuid := ((db.events.rows.filter (·.isOpen)).map (·.id)).toFinset

theorem Db.mem_openIDs {db : Db} {id : Uuid} : id ∈ db.openIDs ↔ ∃ r, db.row id = some r ∧ r.isOpen = true := by
  unfold Db.openIDs
  rw [List.mem_toFinset, List.mem_map]
  constructor
  · rintro ⟨r, hr, hid⟩
    obtain ⟨hmem, hopen⟩ := List.mem_filter.mp hr
    exact ⟨r, db.row_eq_some.mpr ⟨hmem, hid⟩, hopen⟩
  · rintro ⟨r, hr, hopen⟩
    obtain ⟨hmem, hid⟩ := db.row_eq_some.mp hr
    exact ⟨r, List.mem_filter.mpr ⟨hmem, hopen⟩, hid⟩

/-- Nothing that is open can be claimed. -/
def Db.Exhausted (db : Db) : Prop :=
  ∀ r ∈ db.events.rows, r.isOpen = true → r.orderingKey ≠ none ∧ db.atCursor r = false

/-- The handler of a claimed event has a grip on it. -/
theorem Claims.grip {db : Db} {r : EventRow} {epoch : Option Int} {u : Int} (hreach : Reachable cfg s)
    (hserving : Serving (cfg i) s.clock s.db) (hr : s.db.row r.id = some r) (hclaims : Claims cfg s i r epoch)
    (hkeep : s.db.KeepsOrdering db) (hu : s.clock < u)
    (hrow : db.row r.id = some (r.progress (leaseTo (cfg i).instanceID u))) :
    Grip (cfg i) s.clock db (scanEvent (r.progress (leaseTo (cfg i).instanceID u)) epoch)
      (r.progress (leaseTo (cfg i).instanceID u)) := by
  have hordered : isOrdered (scanEvent (r.progress (leaseTo (cfg i).instanceID u)) epoch) = true →
      s.db.OrderedClaim s.clock (cfg i).instanceID (cfg i).window r epoch := by
    intro hord
    refine hclaims.2.resolve_left ?_
    rintro ⟨-, hnone⟩
    have hempty : (scanEvent (r.progress (leaseTo (cfg i).instanceID u)) epoch).orderingKey = "" := by
      show deref r.orderingKey = ""
      rw [hnone]
      rfl
    exact of_decide_eq_true hord hempty
  refine ⟨hrow, EventRow.heldBy_iff.mpr ⟨rfl, rfl, rfl⟩, decide_eq_true hu, rfl, fun hord => ?_, fun hord => ?_,
    fun hord => ?_⟩
  · obtain ⟨k, st, -, -, hn⟩ := Db.atCursor_iff.mp (hordered hord).1
    show r.orderingSequence = some (r.orderingSequence.getD 0)
    rw [hn]
    rfl
  · obtain ⟨-, -, p, hp, rfl, hauth⟩ := hordered hord
    exact ⟨p, (Db.partitionOf_congr hkeep.partitions r).trans hp, rfl, hauth⟩
  · obtain ⟨k, st, hk, hst, hn⟩ := Db.atCursor_iff.mp (hordered hord).1
    obtain ⟨st', n, hst', -, hpart, -⟩ := hreach.cursors r.id r hr k hk
    obtain rfl : st = st' := Option.some.inj (hst.symm.trans hst')
    obtain ⟨hmem, hd, hkey⟩ := s.db.stream_eq_some.mp hst
    refine ⟨st, hkeep.streams ▸ hmem, EventRow.advances_iff.mpr ⟨hd, ?_, hpart.symm, hn.symm⟩, ?_⟩
    · rw [hkey]
      exact hk.symm
    · exact hserving.sequences r (s.db.row_eq_some.mp hr).1 _ hn

/-- Claimed events are numbered from the next number on. -/
theorem dispatched {evs : List RelayEvent} (hids : (evs.map (·.id)).Nodup) (n : Nat) :
    (evs.zipIdx n).Pairwise fun x y => x.2 ≠ y.2 ∧ x.1.id ≠ y.1.id := by
  have hnumbers : (evs.zipIdx n).Pairwise fun x y => x.2 ≠ y.2 := by
    rw [← List.pairwise_map (f := Prod.snd), List.zipIdx_map_snd]
    exact List.nodup_range'
  have hevents : (evs.zipIdx n).Pairwise fun x y => x.1.id ≠ y.1.id := by
    have hfst : ((evs.zipIdx n).map fun x => x.1.id) = evs.map (·.id) := by
      have hcomp : ((evs.zipIdx n).map fun x => x.1.id) = ((evs.zipIdx n).map Prod.fst).map (·.id) :=
        List.map_map.symm
      rw [hcomp, List.zipIdx_map_fst]
    rw [← List.pairwise_map (f := fun x : RelayEvent × Nat => x.1.id), hfst]
    exact hids
  exact hnumbers.and hevents

/-- A claim that returned events, and their handlers: what was claimed is closed. -/
theorem round_of_claim {a : Action ι} {db : Db} {evs : List RelayEvent} {ev : RelayEvent} (hreach : Reachable cfg s)
    (hvalid : (cfg i).Valid) (hwindow : 0 < (cfg i).window) (hmax : (cfg i).maxAttempts ≤ maxInt32)
    (hserving : Serving (cfg i) s.clock s.db) (hsolo : Solo cfg i limit s a)
    (hclaim : claimResult cfg s a = some (i, db, evs)) (hstep : step cfg s a = some (s.dispatch i db evs))
    (hev : ev ∈ evs) :
    ∃ s', Runs.Reach (step cfg) (Solo cfg i limit) s s' ∧ Undisturbed s s' ∧
      s.db.Settles (cfg i).maxAttempts s'.db ∧ ev.id ∈ s.db.openIDs ∧ ev.id ∉ s'.db.openIDs := by
  have hlease := claimResult_leases hclaim
  have hu : s.clock < addMS s.clock (intervalMS (cfg i).leaseDuration) := by
    have hpos := hvalid.intervals.1
    have hms := le_intervalMS (cfg i).leaseDuration
    unfold millisecond at hms
    unfold addMS
    omega
  have hgrips : ∀ x ∈ evs.zipIdx s.next, (s.dispatch i db evs).handlers x.2 = some ⟨i, x.1, .start⟩ ∧
      ∃ r, Grip (cfg i) (s.dispatch i db evs).clock (s.dispatch i db evs).db x.1 r := by
    rintro ⟨x, n⟩ hx
    obtain ⟨hle, hget⟩ := List.mk_mem_zipIdx_iff_le_and_getElem?_sub.mp hx
    constructor
    · show (if n < s.next then s.handlers n else evs[n - s.next]?.map fun ev => (⟨i, ev, .start⟩ : Handler ι)) = _
      rw [if_neg (by omega), hget]
      rfl
    · obtain ⟨r, epoch, hr, hclaims, rfl⟩ := hlease.old x (List.mem_of_getElem? hget)
      have hr : s.db.row r.id = some r := hr
      have hrow : db.row r.id = some (r.progress (leaseTo (cfg i).instanceID
          (addMS s.clock (intervalMS (cfg i).leaseDuration)))) := by
        have hin : r.id ∈ evs.map (·.id) := List.mem_map.mpr ⟨_, List.mem_of_getElem? hget, rfl⟩
        rw [hlease.row, hr, Option.map_some, if_pos hin]
      exact ⟨_, Claims.grip (s := s) hreach hserving hr hclaims hlease.frame hu hrow⟩
  obtain ⟨s', hrun, hframe, hsame, hclosed⟩ :=
    handle_all limit hwindow hmax _ (dispatched hlease.nodup s.next) hgrips
  have hclosed : ∀ x ∈ evs, ∃ r r', s.db.row x.id = some r ∧ s'.db.row x.id = some r' ∧ r.isOpen = true ∧
      r.Closes (cfg i).maxAttempts r' := by
    intro x hx
    rw [← List.zipIdx_map_fst s.next evs] at hx
    obtain ⟨y, hy, rfl⟩ := List.mem_map.mp hx
    obtain ⟨r₁, r', hr₁, hr', hclose⟩ := hclosed y hy
    have hmem := List.fst_mem_of_mem_zipIdx hy
    obtain ⟨r, epoch, hr, hclaims, -⟩ := hlease.old y.1 hmem
    rw [State.dispatch_db, hlease.row, hr, Option.map_some, if_pos (List.mem_map_of_mem hmem)] at hr₁
    obtain rfl := Option.some.inj hr₁
    exact ⟨r, r', hr, hr', hclaims.1.isOpen, hclose⟩
  refine ⟨s', (Runs.Reach.single hsolo hstep).trans hrun, ?_, fun id => ?_, ?_, ?_⟩
  · have hframe₁ : Undisturbed s (s.dispatch i db evs) :=
      ⟨rfl, hlease.frame.partitions, hlease.frame.relays, hlease.frame.control⟩
    exact hframe₁.trans hframe
  · by_cases hmem : id ∈ evs.map (·.id)
    · obtain ⟨x, hx, rfl⟩ := List.mem_map.mp hmem
      exact .inr (hclosed x hx)
    · refine .inl ?_
      rw [hsame id, State.dispatch_db, hlease.row]
      · simp only [hmem, if_false, Option.map_id']
      · rintro x hx rfl
        exact hmem (List.mem_map_of_mem (List.fst_mem_of_mem_zipIdx hx))
  · obtain ⟨r, -, hr, -, hopen, -⟩ := hclosed ev hev
    exact Db.mem_openIDs.mpr ⟨r, hr, hopen⟩
  · obtain ⟨_, r', -, hr', -, hclose⟩ := hclosed ev hev
    intro hmem
    obtain ⟨x, hx, hopen⟩ := Db.mem_openIDs.mp hmem
    rw [hr'] at hx
    obtain rfl := Option.some.inj hx
    rw [hclose.not_open] at hopen
    cases hopen

/-- As long as something can be claimed, a round leaves fewer open events. -/
theorem round (hreach : Reachable cfg s) (hvalid : (cfg i).Valid) (hname : textOk (cfg i).instanceID = true)
    (hwindow : 0 < (cfg i).window) (hmax : (cfg i).maxAttempts ≤ maxInt32) (hlimit : 0 < limit)
    (hserving : Serving (cfg i) s.clock s.db) (hmore : ¬ s.db.Exhausted) :
    ∃ s', Runs.Reach (step cfg) (Solo cfg i limit) s s' ∧ Undisturbed s s' ∧
      s.db.Settles (cfg i).maxAttempts s'.db ∧ ∃ id ∈ s.db.openIDs, id ∉ s'.db.openIDs := by
  obtain ⟨r, hr, hopen, hclaimable⟩ : ∃ r ∈ s.db.events.rows, r.isOpen = true ∧
      (r.orderingKey = none ∨ s.db.atCursor r = true) := by
    by_contra hnone
    refine hmore fun r hr hopen => ⟨fun hkey => hnone ⟨r, hr, hopen, .inl hkey⟩, ?_⟩
    rw [Bool.eq_false_iff]
    exact fun hcursor => hnone ⟨r, hr, hopen, .inr hcursor⟩
  obtain ⟨hdue, hclaim⟩ := hserving.due r hr hopen
  rcases hclaimable with hkey | hcursor
  · have hclaims : ∃ db ev evs, s.db.claim s.clock (fun _ => false) (cfg i).instanceID limit (cfg i).leaseDuration =
        .ok (db, ev :: evs) := Db.claim_enabled hname hlimit hserving.running hr hkey hdue hclaim
    obtain ⟨db, ev, evs, hok⟩ := hclaims
    have hresult : claimResult cfg s (.claim i limit fun _ => false) = some (i, db, ev :: evs) := by
      simp only [claimResult, hok]
    obtain ⟨s', hrun, hframe, hsettles, hclosed⟩ :=
      round_of_claim (a := .claim i limit fun _ => false) hreach hvalid
      hwindow hmax hserving ⟨rfl, rfl, fun _ => rfl⟩ hresult (by simp only [step, hresult, Option.map_some])
      List.mem_cons_self
    exact ⟨s', hrun, hframe, hsettles, ev.id, hclosed⟩
  · obtain ⟨k, -, hk, -, -⟩ := Db.atCursor_iff.mp hcursor
    obtain ⟨st', n, hst', -, hp, -⟩ := hreach.cursors r.id r (s.db.row_mem hr) k hk
    have hcheck := s.db.streams.ok.2 st' (s.db.stream_eq_some.mp hst').1
    simp only [StreamRow.check, Bool.and_eq_true, decide_eq_true_eq] at hcheck
    obtain ⟨row, hrow⟩ := hreach.partition_exists hcheck.1.1.1.1.2 hcheck.1.1.1.2
    have hpart : s.db.partitionOf r = some row := by
      unfold Db.partitionOf
      rw [hp]
      exact hrow
    have hpositive : 0 < intervalMS (cfg i).window := by
      have hms := le_intervalMS (cfg i).window
      unfold millisecond at hms
      omega
    have hclaims : ∃ db ev evs, s.db.claimOrdered s.clock (fun _ => false) (cfg i).instanceID limit
        (cfg i).leaseDuration (cfg i).window = .ok (db, ev :: evs) :=
      Db.claimOrdered_enabled hname hlimit hpositive hserving.running hserving.member hr hcursor hdue hclaim hpart
        (hserving.authority row (s.db.partition_eq_some.mp hrow).1)
    obtain ⟨db, ev, evs, hok⟩ := hclaims
    have hresult : claimResult cfg s (.claimOrdered i limit fun _ => false) = some (i, db, ev :: evs) := by
      simp only [claimResult, hok]
    obtain ⟨s', hrun, hframe, hsettles, hclosed⟩ :=
      round_of_claim (a := .claimOrdered i limit fun _ => false) hreach
      hvalid hwindow hmax hserving ⟨rfl, rfl, fun _ => rfl⟩ hresult (by simp only [step, hresult, Option.map_some])
      List.mem_cons_self
    exact ⟨s', hrun, hframe, hsettles, ev.id, hclosed⟩

/-- Rounds until nothing is left to claim. -/
theorem drain (hvalid : (cfg i).Valid) (hname : textOk (cfg i).instanceID = true) (hwindow : 0 < (cfg i).window)
    (hmax : (cfg i).maxAttempts ≤ maxInt32) (hlimit : 0 < limit) (hreach : Reachable cfg s)
    (hserving : Serving (cfg i) s.clock s.db) :
    ∃ s', Runs.Reach (step cfg) (Solo cfg i limit) s s' ∧ s.db.Settles (cfg i).maxAttempts s'.db ∧
    s'.db.Exhausted := by
  -- on the number of open events
  induction hcard : s.db.openIDs.card using Nat.strong_induction_on generalizing s with
  | _ n ih =>
    by_cases hmore : s.db.Exhausted
    · exact ⟨s, .refl s, .refl s.db, hmore⟩
    · obtain ⟨s₁, hrun₁, hframe, hsettles₁, id, hin, hout⟩ :=
        round hreach hvalid hname hwindow hmax hlimit hserving hmore
      have hsub : s₁.db.openIDs ⊂ s.db.openIDs := by
        refine Finset.ssubset_iff_of_subset (fun x hx => ?_) |>.mpr ⟨id, hin, hout⟩
        obtain ⟨r, hr, hopen⟩ := Db.mem_openIDs.mp hx
        obtain ⟨hmem, hid⟩ := s₁.db.row_eq_some.mp hr
        exact Db.mem_openIDs.mpr ⟨r, hid ▸ s.db.row_mem (hsettles₁.of_open hmem hopen), hopen⟩
      obtain ⟨s', hrun, hsettles, hdone⟩ := ih _ (hcard ▸ Finset.card_lt_card hsub) (hreach.run hrun₁)
        (hserving.of_settles hframe hsettles₁) rfl
      exact ⟨s', hrun₁.trans hrun, hsettles₁.trans hsettles, hdone⟩

end

end Emitlane
