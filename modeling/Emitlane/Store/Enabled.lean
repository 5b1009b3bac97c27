import Mathlib.Data.List.ReduceOption
import Emitlane.Store.Admin
import Emitlane.Store.Ordered
import Emitlane.Store.Reconcile

/-!
# Store.Enabled — when the calls succeed

The lemmas beside the calls say what a successful call has done; these say what it needs to succeed.  An UPDATE fails
only if a row would break a constraint, so the question is always what the new row must satisfy.
-/

namespace Emitlane

open Rel

section Events

variable {db : Db} {now : Int} {p : EventRow → Bool} {f : Progress → Progress} {r : EventRow} {owner : String}

/-! ## Checks of a rewritten event -/

/-- The texts of the envelope. -/
def Envelope.texts (e : Envelope) : List String :=
  [e.destination, e.eventType, e.contentType] ++
    [e.correlationID, e.causationID, e.traceparent, e.tracestate, e.orderingKey].reduceOption ++
    e.headers.map (·.1) ++ e.headers.map (·.2)

/-- The lease owner is the only text of the progress. -/
theorem EventRow.mem_texts {t : String} : t ∈ r.texts ↔ t ∈ r.toEnvelope.texts ∨ r.leaseOwner = some t := by
  have hoptions : [r.correlationID, r.causationID, r.traceparent, r.tracestate, r.orderingKey, r.leaseOwner] =
      [r.correlationID, r.causationID, r.traceparent, r.tracestate, r.orderingKey] ++ [r.leaseOwner] := rfl
  have hlease : some t = r.leaseOwner ↔ r.leaseOwner = some t := eq_comm
  simp only [EventRow.texts, Envelope.texts, hoptions, List.mem_append, List.reduceOption_mem_iff, List.mem_singleton,
    hlease]
  tauto

/-- The checks that read the progress of a row. -/
theorem EventRow.check_progress (h : r.check = true) (howner : (f r.toProgress).leaseOwner.all textOk = true)
    (h0 : 0 ≤ (f r.toProgress).attempts) (hmax : (f r.toProgress).attempts ≤ maxInt32)
    (hlease : (r.progress f).leaseStateCheck = true)
    (hdelivered : decide ((f r.toProgress).status = .delivered) = (f r.toProgress).deliveredAt.isSome) :
    (r.progress f).check = true := by
  simp only [EventRow.check, Bool.and_eq_true, decide_eq_true_eq, beq_iff_eq] at h ⊢
  obtain ⟨⟨⟨⟨⟨⟨⟨⟨⟨⟨htexts, hd⟩, ht⟩, hc⟩, hv⟩, hv'⟩, -⟩, -⟩, -⟩, -⟩, hord⟩ := h
  refine ⟨⟨⟨⟨⟨⟨⟨⟨⟨⟨?_, hd⟩, ht⟩, hc⟩, hv⟩, hv'⟩, h0⟩, hmax⟩, hlease⟩,
    hdelivered⟩, hord⟩
  rw [List.all_eq_true] at htexts ⊢
  intro t ht
  rcases EventRow.mem_texts.mp ht with hold | hnew
  · exact htexts t (EventRow.mem_texts.mpr (.inl hold))
  · rw [show (f r.toProgress).leaseOwner = some t from hnew] at howner
    exact howner

/-- What a row that is not yet delivered has in its checked columns. -/
theorem EventRow.deliveredAt_eq_none (h : r.check = true) (hs : r.status ≠ .delivered) : r.deliveredAt = none := by
  simp only [EventRow.check, Bool.and_eq_true, beq_iff_eq] at h
  have hdelivered := h.1.2
  rw [decide_eq_false hs] at hdelivered
  exact Option.isSome_eq_false_iff.mp hdelivered.symm |> Option.isNone_iff_eq_none.mp

theorem EventRow.attempts_of_check (h : r.check = true) : 0 ≤ r.attempts ∧ r.attempts ≤ maxInt32 := by
  simp only [EventRow.check, Bool.and_eq_true, decide_eq_true_eq] at h
  exact ⟨h.1.1.1.1.2, h.1.1.1.2⟩

theorem EventRow.owner_of_check (h : r.check = true) : r.leaseOwner.all textOk = true := by
  simp only [EventRow.check, Bool.and_eq_true] at h
  have htexts := List.all_eq_true.mp h.1.1.1.1.1.1.1.1.1.1
  cases ho : r.leaseOwner with
  | none => rfl
  | some o => exact htexts o (EventRow.mem_texts.mpr (.inr ho))

theorem EventRow.check_leaseTo (h : r.check = true) (hs : r.status ≠ .delivered) (howner : textOk owner = true)
    (u : Int) : (r.progress (leaseTo owner u)).check = true := by
  obtain ⟨h0, hmax⟩ := EventRow.attempts_of_check h
  refine EventRow.check_progress h howner h0 hmax rfl ?_
  show false = r.deliveredAt.isSome
  rw [EventRow.deliveredAt_eq_none h hs]
  rfl

theorem EventRow.check_countAttempt (h : r.check = true) (hmax : r.attempts + 1 ≤ maxInt32) :
    (r.progress countAttempt).check = true := by
  have h0 := (EventRow.attempts_of_check h).1
  have hdelivered := h
  simp only [EventRow.check, Bool.and_eq_true, beq_iff_eq] at hdelivered
  refine EventRow.check_progress h (EventRow.owner_of_check h) ?_ hmax hdelivered.1.1.2 hdelivered.1.2
  show 0 ≤ r.attempts + 1
  omega

theorem EventRow.check_deliver (h : r.check = true) : (r.progress (deliver now)).check = true := by
  obtain ⟨h0, hmax⟩ := EventRow.attempts_of_check h
  exact EventRow.check_progress h rfl h0 hmax rfl rfl

theorem EventRow.check_kill (h : r.check = true) (hs : r.status ≠ .delivered) (e : Bytes) :
    (r.progress (kill e)).check = true := by
  obtain ⟨h0, hmax⟩ := EventRow.attempts_of_check h
  refine EventRow.check_progress h rfl h0 hmax rfl ?_
  show false = r.deliveredAt.isSome
  rw [EventRow.deliveredAt_eq_none h hs]
  rfl

/-! ## UPDATE of outbox_events -/

/-- Ids and sequences are in the envelope, so only the checks can fail. -/
theorem eventsSchema_progress {hit : EventRow → Bool} {rows : List EventRow} (h : eventsSchema.Ok rows)
    (hcheck : ∀ r ∈ rows, hit r = true → (r.progress f).check = true) :
    eventsSchema.Ok (rows.map fun r => if hit r then r.progress f else r) := by
  have henv : ∀ r, (if hit r then r.progress f else r).toEnvelope = r.toEnvelope := by
    intro r
    split_ifs <;> rfl
  refine ⟨?_, fun x hx => ?_, List.pairwise_map.mpr (h.2.2.imp fun {a b} hab => ?_)⟩
  · rw [List.map_map]
    have hids : (fun r : EventRow => r.id) ∘ (fun r => if hit r then r.progress f else r) = fun r => r.id :=
      funext fun r => congrArg Envelope.id (henv r)
    rw [hids]
    exact h.1
  · obtain ⟨r, hr, rfl⟩ := List.mem_map.mp hx
    split_ifs with hhit
    · exact hcheck r hr hhit
    · exact h.2.1 r hr
  · unfold EventRow.sameSequence at hab ⊢
    rw [henv a, henv b]
    exact hab

theorem Db.updateEvents_enabled
    (hcheck : ∀ r ∈ db.events.rows, db.hits now p f r = true → (r.progress f).check = true) :
    ∃ db', db.updateEvents now p f = some (db', (db.events.rows.filter (db.hits now p f)).map (·.progress f)) := by
  unfold Db.updateEvents
  rw [Table.update_of_ok (eventsSchema_progress db.events.ok hcheck)]
  exact ⟨_, rfl⟩

/-- An UPDATE of one row. -/
theorem Db.updateEvents_row (hr : db.row r.id = some r) (hp : p r = true) (honly : ∀ x, p x = true → x.id = r.id)
    (hguard : db.guardOrderedEventClaim now r (r.progress f) = true) (hcheck : (r.progress f).check = true) :
    ∃ db', db.updateEvents now p f = some (db', [r.progress f]) ∧ db.Touches db' r f := by
  have hhit : db.hits now p f r = true := Bool.and_eq_true_iff.mpr ⟨hp, hguard⟩
  have hmine : ∀ x ∈ db.events.rows, db.hits now p f x = true → x = r := by
    intro x hx hhit
    have hid := honly x (Bool.and_eq_true_iff.mp hhit).1
    exact eq_of_key db.events.ok.1 hx (db.row_eq_some.mp hr).1 hid
  have hfilter : db.events.rows.filter (db.hits now p f) = [r] := by
    have hkey : db.events.rows.filter (db.hits now p f) = db.events.rows.filter (fun x => x.id = r.id) := by
      refine List.filter_congr fun x hx => ?_
      rw [Bool.eq_iff_iff, decide_eq_true_eq]
      refine ⟨fun hhit => by rw [hmine x hx hhit], fun hid => ?_⟩
      rw [eq_of_key db.events.ok.1 hx (db.row_eq_some.mp hr).1 hid]
      exact hhit
    rw [hkey, filter_eq_lookup db.events.ok.1]
    have hlookup : lookup (fun r : EventRow => r.id) db.events.rows r.id = some r := hr
    rw [hlookup]
    rfl
  have hchecks : ∀ x ∈ db.events.rows, db.hits now p f x = true → (x.progress f).check = true := by
    intro x hx hhit
    rw [hmine x hx hhit]
    exact hcheck
  obtain ⟨db', hu⟩ := Db.updateEvents_enabled hchecks
  rw [hfilter] at hu
  obtain ⟨x, hid, -, -, -, ht⟩ := Db.updateEvents_one honly hu
  refine ⟨db', hu, ?_⟩
  have hx := ht.old
  rw [hid, hr] at hx
  exact Option.some.inj hx ▸ ht

/-! ## Transitions -/

theorem Db.exec_enabled {what : String} {affected : Nat → Bool} {missing : StoreError} (haffected : affected 1 = true)
    (hr : db.row r.id = some r) (hp : p r = true) (honly : ∀ x, p x = true → x.id = r.id)
    (hguard : db.guardOrderedEventClaim now r (r.progress f) = true) (hcheck : (r.progress f).check = true) :
    ∃ db', db.exec now what affected missing p f = .ok db' ∧ db.Touches db' r f := by
  obtain ⟨db', hu, ht⟩ := Db.updateEvents_row hr hp honly hguard hcheck
  refine ⟨db', ?_, ht⟩
  unfold Db.exec
  rw [hu]
  simp only [List.length_singleton, haffected, if_true]

theorem heldBy_only {id : Uuid} (hheld : r.heldBy id owner = true) {x : EventRow} (hx : x.heldBy id owner = true) :
    x.id = r.id := by
  rw [(EventRow.heldBy_iff.mp hx).1, (EventRow.heldBy_iff.mp hheld).1]

/-- Counting an attempt changes neither the status nor the owner, so the trigger lets it pass. -/
theorem Db.guard_countAttempt : db.guardOrderedEventClaim now r (r.progress countAttempt) = true := by
  have hstatus : (r.progress countAttempt).status = r.status := rfl
  have howner : (r.progress countAttempt).leaseOwner = r.leaseOwner := rfl
  unfold Db.guardOrderedEventClaim
  rw [hstatus, howner]
  by_cases hs : r.status = .inflight <;> simp [hs]

theorem Db.beginAttempt_enabled {id : Uuid} {maxAttempts : Int} (hr : db.row r.id = some r)
    (hheld : r.heldBy id owner = true) (hlt : r.attempts < maxAttempts) (hmax : r.attempts + 1 ≤ maxInt32) :
    ∃ db', db.beginAttempt now id owner maxAttempts = .ok (db', r.attempts + 1) ∧
    db.Touches db' r countAttempt := by
  have hp : (r.heldBy id owner && decide (r.attempts < maxAttempts)) = true := by simp [hheld, hlt]
  have hcheck := EventRow.check_countAttempt (db.event_check (db.row_eq_some.mp hr).1) hmax
  obtain ⟨db', hu, ht⟩ := Db.updateEvents_row (p := fun x => x.heldBy id owner &&
    decide (x.attempts < maxAttempts)) hr hp
    (fun x hx => heldBy_only hheld (Bool.and_eq_true_iff.mp hx).1) Db.guard_countAttempt hcheck
  refine ⟨db', ?_, ht⟩
  unfold Db.beginAttempt
  rw [hu]
  rfl

theorem Db.beginOrderedAttempt_enabled {id : Uuid} {maxAttempts minimumPartitionLease : Int} {part : PartitionRow}
    (hr : db.row r.id = some r) (hheld : r.heldBy id owner = true) (hlease : r.leaseUntil.any (now < ·) = true)
    (hlt : r.attempts < maxAttempts) (hmax : r.attempts + 1 ≤ maxInt32) (hpart : db.partitionOf r = some part)
    (hauth : part.authority owner now (addMS now (intervalMS minimumPartitionLease) ≤ ·) = true) :
    ∃ db', db.beginOrderedAttempt now id owner part.epoch maxAttempts minimumPartitionLease =
      .ok (db', r.attempts + 1) ∧
      db.Touches db' r countAttempt := by
  have hcheck := EventRow.check_countAttempt (db.event_check (db.row_eq_some.mp hr).1) hmax
  obtain ⟨db', hu, ht⟩ := Db.updateEvents_row
    (p := fun x => x.heldBy id owner && x.leaseUntil.any (now < ·) && x.attempts < maxAttempts &&
      (db.partitionOf x).any fun q =>
        q.authority owner now (addMS now (intervalMS minimumPartitionLease) ≤ ·) && q.epoch = part.epoch)
    hr (by simp only [hheld, hlease, hlt, hpart, hauth, Option.any_some, decide_true, Bool.and_self])
    (fun x hx => by
      simp only [Bool.and_eq_true] at hx
      exact heldBy_only hheld hx.1.1.1) Db.guard_countAttempt hcheck
  refine ⟨db', ?_, ht⟩
  unfold Db.beginOrderedAttempt
  rw [hu]
  rfl

theorem Db.markHeld_enabled {what : String} {id : Uuid} (hr : db.row r.id = some r) (hheld : r.heldBy id owner = true)
    (hs : (f r.toProgress).status ≠ .inflight) (hcheck : (r.progress f).check = true) :
    ∃ db', db.markHeld now what id owner f = .ok db' ∧ db.Touches db' r f :=
  Db.exec_enabled (by decide) hr hheld (fun _ hx => heldBy_only hheld hx) (Db.guardOrderedEventClaim_of_not_inflight hs)
    hcheck

theorem Db.orderedFence_of_fenced {event : RelayEvent} (h : db.Fenced now event owner r) :
    db.orderedFence now event owner r = true := by
  obtain ⟨part, hpart, hepoch, hauth⟩ := h.partition
  simp only [Db.orderedFence, h.held, h.sequence, hpart, hepoch, hauth, Option.any_some, decide_true, Bool.and_self]

theorem Db.markOrderedDead_enabled {event : RelayEvent} (hr : db.row r.id = some r)
    (hfence : db.Fenced now event owner r) (e : Bytes) :
    ∃ db', db.markOrderedDead now event owner e = .ok db' ∧ db.Touches db' r (kill e) := by
  have hstatus := (EventRow.heldBy_iff.mp hfence.held).2.2
  refine Db.exec_enabled (by decide) hr (Db.orderedFence_of_fenced hfence)
    (fun x hx => heldBy_only hfence.held (Db.fenced_of_orderedFence hx).held)
    (Db.guardOrderedEventClaim_of_not_inflight (fun h => nomatch h))
    (EventRow.check_kill (db.event_check (db.row_eq_some.mp hr).1) ?_ e)
  rw [hstatus]
  decide

theorem streamsSchema_keyed : streamsSchema.Keyed StreamRow.key StreamRow.check := fun _ => Iff.rfl

/-- The cursor can move as long as the next sequence is in the range of its column. -/
theorem Db.advance_enabled (db : Db) (now : Int) {st : StreamRow} (hadv : r.advances st = true)
    (hmax : st.nextSequence < maxInt64) : ∃ t, db.streams.update r.advances (StreamRow.advance now) = some t := by
  refine Table.update_keyed streamsSchema_keyed (fun x _ _ => rfl) fun x hx hxadv => ?_
  have hcheck := db.streams.ok.2 x hx
  have hnext : x.nextSequence = st.nextSequence := by
    simp only [EventRow.advances, Bool.and_eq_true, decide_eq_true_eq] at hadv hxadv
    exact Option.some.inj (hxadv.2.trans hadv.2.symm)
  unfold StreamRow.check StreamRow.advance
  dsimp only
  simp only [StreamRow.check, Bool.and_eq_true, decide_eq_true_eq] at hcheck ⊢
  refine ⟨⟨hcheck.1.1, ?_⟩, ?_⟩ <;> omega

theorem Db.markOrderedDelivered_enabled {event : RelayEvent} {st : StreamRow} (hr : db.row r.id = some r)
    (hfence : db.Fenced now event owner r) (hlease : r.leaseUntil.any (now < ·) = true) (hst : st ∈ db.streams.rows)
    (hadv : r.advances st = true) (hmax : st.nextSequence < maxInt64) :
    ∃ db', db.markOrderedDelivered now event owner = .ok db' := by
  have hid : r.id = event.id := (EventRow.heldBy_iff.mp hfence.held).1
  have hauthority : db.deliveryAuthority now event owner = some r := by
    rw [Db.deliveryAuthority, ← hid, hr, Option.filter_some, Db.orderedFence_of_fenced hfence, hlease]
    rfl
  have hany : db.streams.rows.any r.advances = true := List.any_eq_true.mpr ⟨st, hst, hadv⟩
  obtain ⟨t, ht⟩ := db.advance_enabled now hadv hmax
  have hupdate : ∃ db', db.updateEvents now (fun x => x.id = r.id) (deliver now) =
      some (db', [r.progress (deliver now)]) ∧ db.Touches db' r (deliver now) :=
    Db.updateEvents_row hr (by simp) (fun x hx => of_decide_eq_true hx)
      (Db.guardOrderedEventClaim_of_not_inflight (fun h => nomatch h))
      (EventRow.check_deliver (db.event_check (db.row_eq_some.mp hr).1))
  obtain ⟨db', hu, -⟩ := hupdate
  refine ⟨{ db' with streams := t }, ?_⟩
  unfold Db.markOrderedDelivered
  simp only [hauthority, hany, if_true, ht, hu, List.length_singleton]

/-! ## Claims -/

theorem topDue_ne_nil {limit : Int} {rows : List EventRow} (hlimit : 0 < limit) (h : rows ≠ []) :
    topDue limit rows ≠ [] := by
  have hsort : rows.insertionSort EventRow.dueBefore ≠ [] := by
    intro hnil
    have hperm := List.perm_insertionSort EventRow.dueBefore rows
    rw [hnil] at hperm
    exact h (List.nil_perm.mp hperm)
  unfold topDue
  intro hnil
  rcases List.take_eq_nil_iff.mp hnil with h0 | hnil
  · omega
  · exact hsort hnil

/-- The lease of a picked row passes the checks. -/
theorem Db.check_picked {picked : List EventRow} {leaseUntil : Int} (howner : textOk owner = true)
    (hpick : ∀ r ∈ picked, r ∈ db.events.rows ∧ r.Claimable now) :
    ∀ r ∈ db.events.rows, db.hits now (fun r => r.id ∈ picked.map (·.id)) (leaseTo owner leaseUntil) r = true →
      (r.progress (leaseTo owner leaseUntil)).check = true := by
  intro r hr hhit
  obtain ⟨x, hx, hid⟩ := List.mem_map.mp (of_decide_eq_true (Bool.and_eq_true_iff.mp hhit).1)
  obtain ⟨hxmem, hclaim⟩ := hpick x hx
  obtain rfl : x = r := eq_of_key db.events.ok.1 hxmem hr hid
  refine EventRow.check_leaseTo (db.event_check hr) ?_ howner _
  rcases hclaim with hs | hexp
  · rw [hs]
    decide
  · rw [of_decide_eq_true (Bool.and_eq_true_iff.mp hexp).1]
    decide

/-- A claim that picks a row the trigger lets pass returns events. -/
theorem Db.updateEvents_picked {picked : List EventRow} {leaseUntil : Int} (howner : textOk owner = true)
    (hpick : ∀ r ∈ picked, r ∈ db.events.rows ∧ r.Claimable now) (hr : r ∈ picked)
    (hguard : db.guardOrderedEventClaim now r (r.progress (leaseTo owner leaseUntil)) = true) :
    ∃ db' x out, db.updateEvents now (fun r => r.id ∈ picked.map (·.id)) (leaseTo owner leaseUntil) =
      some (db', x :: out) := by
  obtain ⟨db', hu⟩ := Db.updateEvents_enabled (Db.check_picked howner hpick)
  have hhit : db.hits now (fun r => r.id ∈ picked.map (·.id)) (leaseTo owner leaseUntil) r = true :=
    Bool.and_eq_true_iff.mpr ⟨decide_eq_true (List.mem_map_of_mem hr), hguard⟩
  have hmem := List.mem_map_of_mem (f := (·.progress (leaseTo owner leaseUntil)))
    (List.mem_filter.mpr ⟨(hpick r hr).1, hhit⟩)
  obtain ⟨x, out, hout⟩ := List.exists_cons_of_ne_nil (List.ne_nil_of_mem hmem)
  exact ⟨db', x, out, hout ▸ hu⟩

theorem Db.claim_enabled {limit lease : Int} (howner : textOk owner = true) (hlimit : 0 < limit)
    (hpaused : db.paused = false) (hr : r ∈ db.events.rows) (hkey : r.orderingKey = none)
    (hdue : r.availableAt ≤ now) (hclaim : r.Claimable now) :
    ∃ db' ev evs, db.claim now (fun _ => false) owner limit lease = .ok (db', ev :: evs) := by
  have hpicked : db.claimPicked now (fun _ => false) limit ≠ [] := by
    refine topDue_ne_nil hlimit fun hnil => ?_
    obtain ⟨hpending, hexpired⟩ := List.append_eq_nil_iff.mp hnil
    rcases hclaim with hs | hexp
    · refine topDue_ne_nil hlimit (List.ne_nil_of_mem (List.mem_filter.mpr ⟨hr, ?_⟩)) hpending
      simp [hkey, hdue, hs, hpaused]
    · refine topDue_ne_nil hlimit (List.ne_nil_of_mem (List.mem_filter.mpr ⟨hr, ?_⟩)) hexpired
      simp [hkey, hdue, hexp, hpaused]
  obtain ⟨x, xs, hx⟩ := List.exists_cons_of_ne_nil hpicked
  have hxmem : x ∈ db.claimPicked now (fun _ => false) limit := hx ▸ List.mem_cons_self
  have hguard : db.guardOrderedEventClaim now x (x.progress (leaseTo owner (addMS now (intervalMS lease)))) = true := by
    simp [Db.guardOrderedEventClaim, (Db.mem_claimPicked hxmem).2.1]
  obtain ⟨db', y, out, hu⟩ := Db.updateEvents_picked howner
    (fun z hz => ⟨(Db.mem_claimPicked hz).1, (Db.mem_claimPicked hz).2.2⟩) hxmem hguard
  refine ⟨db', scanEvent y none, out.map (scanEvent · none), ?_⟩
  unfold Db.claim
  rw [if_neg (by omega)]
  simp only [hu, List.map_cons]

theorem Db.claimOrdered_enabled {limit eventLease minimumPartitionLease : Int} {part : PartitionRow}
    (howner : textOk owner = true) (hlimit : 0 < limit) (hpositive : 0 < intervalMS minimumPartitionLease)
    (hpaused : db.paused = false)
    (hrelay : (db.relay owner).any (fun relay => relay.orderingCapable && relay.stoppedAt.isNone) = true)
    (hr : r ∈ db.events.rows) (hcursor : db.atCursor r = true) (hdue : r.availableAt ≤ now)
    (hclaim : r.Claimable now) (hpart : db.partitionOf r = some part)
    (hauth : part.authority owner now (addMS now (intervalMS minimumPartitionLease) ≤ ·) = true) :
    ∃ db' ev evs, db.claimOrdered now (fun _ => false) owner limit eventLease minimumPartitionLease =
      .ok (db', ev :: evs) := by
  have hpicked : db.claimOrderedPicked now (fun _ => false) owner limit minimumPartitionLease ≠ [] := by
    refine topDue_ne_nil hlimit (List.ne_nil_of_mem (List.mem_filter.mpr ⟨hr, ?_⟩))
    have hstatus : (decide (r.status = .pending) || r.leaseExpired now) = true := by
      rcases hclaim with hs | hexp
      · simp [hs]
      · simp [hexp]
    simp only [hcursor, hdue, hstatus, hpart, hauth, hpaused, Option.any_some, decide_true, Bool.not_false,
      Bool.and_self]
  obtain ⟨x, xs, hx⟩ := List.exists_cons_of_ne_nil hpicked
  have hxmem : x ∈ db.claimOrderedPicked now (fun _ => false) owner limit minimumPartitionLease :=
    hx ▸ List.mem_cons_self
  have hguard : db.guardOrderedEventClaim now x (x.progress (leaseTo owner (addMS now (intervalMS eventLease)))) =
    true := by
    -- the trigger asks for less of the partition lease than the claim
    obtain ⟨-, -, -, q, hq, -, hqauth⟩ := Db.mem_claimOrderedPicked hxmem
    obtain ⟨ho, ⟨u, hu, halive⟩, hpassed⟩ := PartitionRow.authority_iff.mp hqauth
    have hlt : now < u := by
      have hle := of_decide_eq_true halive
      unfold addMS at hle
      omega
    have hhandoff : q.handoffPassed now = true := by
      exact (Option.all_eq_true ..).mpr fun b hb => decide_eq_true (hpassed b hb)
    have howned : (decide (q.leaseOwner = some owner) && q.leaseUntil.any (now < ·) && q.handoffPassed now) =
      true := by
      simp [ho, hu, hlt, hhandoff]
    have hnew : (x.progress (leaseTo owner (addMS now (intervalMS eventLease)))).leaseOwner = some owner := rfl
    unfold Db.guardOrderedEventClaim
    simp only [hnew, Option.any_some, hrelay, hq, howned, Bool.and_self, Bool.not_true, Bool.and_false, Bool.not_false,
      Bool.or_true]
  obtain ⟨db', y, out, hu⟩ := Db.updateEvents_picked howner
    (fun z hz => ⟨(Db.mem_claimOrderedPicked hz).1, (Db.mem_claimOrderedPicked hz).2.2.1⟩) hxmem hguard
  refine ⟨db', scanEvent y ((db.partitionOf y).map (·.epoch)),
    out.map (fun r => scanEvent r ((db.partitionOf r).map (·.epoch))), ?_⟩
  unfold Db.claimOrdered
  rw [if_neg (by omega)]
  simp only [hu, List.map_cons]

end Events

/-! ## Presence -/

section Presence

variable {db db' : Db} {now staleAfter : Int} {owner : String}

theorem Db.relay_eq_some {r : RelayRow} : db.relay owner = some r ↔ r ∈ db.relays.rows ∧ r.instanceID = owner :=
  lookup_eq_some db.relays.ok.1

theorem relaysSchema_keyed : relaysSchema.Keyed RelayRow.instanceID RelayRow.check := fun _ => Iff.rfl

/-- `owner` runs as an ordering-capable relay whose last heartbeat was at `beat`. -/
def Db.Beats (db : Db) (owner : String) (beat : Int) : Prop :=
  ∃ r, db.relay owner = some r ∧ r.orderingCapable = true ∧ r.stoppedAt = none ∧ r.lastHeartbeatAt = beat

/-- No other relay is a member at `now`. -/
def Db.OthersStale (db : Db) (now staleAfter : Int) (owner : String) : Prop :=
  ∀ x r, x ≠ owner → db.relay x = some r → r.lastHeartbeatAt < addMS now (- intervalMS staleAfter)

theorem Db.OthersStale.mono {now' : Int} (h : db.OthersStale now staleAfter owner) (hle : now ≤ now') :
    db.OthersStale now' staleAfter owner := by
  intro x r hx hr
  have hlt := h x r hx hr
  unfold addMS at hlt ⊢
  omega

theorem Db.OthersStale.congr (h : db.OthersStale now staleAfter owner)
    (hrelay : ∀ x, x ≠ owner → db'.relay x = db.relay x) : db'.OthersStale now staleAfter owner := by
  intro x r hx hr
  rw [hrelay x hx] at hr
  exact h x r hx hr

/-- The row a registration writes. -/
def RelayPresence.row (presence : RelayPresence) (now : Int) : RelayRow where
  instanceID := presence.instanceID
  hostname := presence.hostname
  version := presence.version
  startedAt := presence.startedAt
  lastHeartbeatAt := now
  stoppedAt := none
  orderingCapable := presence.orderingCapable

/-- A registration is an upsert. -/
theorem Db.registerRelay_of_put {presence : RelayPresence} {t : Table relaysSchema}
    (h : db.relays.put RelayRow.instanceID (presence.row now) = some t) :
    db.registerRelay now presence = .ok { db with relays := t } := by
  have hany : (db.relay presence.instanceID).isSome =
      db.relays.rows.any fun r => decide (r.instanceID = presence.instanceID) := by
    unfold Db.relay lookup
    rw [Bool.eq_iff_iff, List.find?_isSome, List.any_eq_true]
  have hput : (if (db.relay presence.instanceID).isSome then
      db.relays.update (·.instanceID = presence.instanceID) (fun _ => presence.row now)
    else db.relays.insert (presence.row now)) = some t := by
    rw [hany]
    exact h
  unfold RelayPresence.row at hput
  unfold Db.registerRelay
  simp only [hput]

theorem Db.registerRelay_enabled {presence : RelayPresence} (hid : textOk presence.instanceID = true)
    (hblank : btrim presence.instanceID ≠ "") (htexts : textOk presence.hostname = true ∧
      textOk presence.version = true)
    (hblanks : btrim presence.hostname ≠ "" ∧ btrim presence.version ≠ "")
    (hcapable : presence.orderingCapable = true) :
    ∃ db', db.registerRelay now presence = .ok db' ∧ db'.Beats presence.instanceID now ∧
      ∀ x, x ≠ presence.instanceID → db'.relay x = db.relay x := by
  have hcheck : (presence.row now).check = true := by
    simp only [RelayRow.check, RelayPresence.row, hid, htexts, hblank, hblanks, ne_eq, not_false_eq_true, decide_true,
      Bool.and_self]
  obtain ⟨t, ht⟩ := Table.put_keyed (t := db.relays) relaysSchema_keyed hcheck
  have hlookup := Table.lookup_put ht
  refine ⟨{ db with relays := t }, Db.registerRelay_of_put ht, ⟨presence.row now, ?_, hcapable, rfl, rfl⟩,
    fun x hx => ?_⟩
  · exact (hlookup presence.instanceID).trans (if_pos rfl)
  · exact (hlookup x).trans (if_neg (Ne.symm hx))

theorem Db.heartbeatRelay_enabled {beat : Int} (h : db.Beats owner beat) :
    ∃ db', db.heartbeatRelay now owner = .ok db' ∧ db'.Beats owner now ∧ ∀ x, x ≠ owner →
    db'.relay x = db.relay x := by
  obtain ⟨r, hr, hcapable, -, -⟩ := h
  obtain ⟨t, ht⟩ := Table.update_keyed (t := db.relays) (p := fun r => decide (r.instanceID = owner))
    (f := fun r => { r with lastHeartbeatAt := now, stoppedAt := none }) relaysSchema_keyed (fun _ _ _ => rfl)
    (fun r hr _ => db.relays.ok.2 r hr)
  have hlookup : ∀ x, Db.relay { db with relays := t } x = (db.relay x).map fun r =>
      if decide (r.instanceID = owner) then { r with lastHeartbeatAt := now, stoppedAt := none } else r :=
    Table.lookup_update (fun _ _ => by rfl) ht
  refine ⟨{ db with relays := t }, ?_, ⟨{ r with lastHeartbeatAt := now, stoppedAt := none }, ?_, hcapable,
    rfl, rfl⟩,
    fun x hx => ?_⟩
  · unfold Db.heartbeatRelay Db.touchRelay
    rw [hr, Option.isSome_some, if_pos rfl, ht]
  · rw [hlookup, hr, Option.map_some, if_pos (decide_eq_true (Db.relay_eq_some.mp hr).2)]
  · rw [hlookup]
    cases hrx : db.relay x with
    | none => rfl
    | some y =>
      rw [Option.map_some, if_neg]
      rw [decide_eq_true_eq, (Db.relay_eq_some.mp hrx).2]
      exact hx

/-- A relay with a fresh heartbeat, all others being stale, is the only member. -/
theorem Db.activeOrderingMembers_alone (h : db.Beats owner now) (hothers : db.OthersStale now staleAfter owner) :
    db.activeOrderingMembers now staleAfter = [owner] := by
  obtain ⟨r, hr, hcapable, hstopped, hbeat⟩ := h
  have hfilter : (db.relays.rows.filter fun r => r.orderingCapable && r.stoppedAt.isNone &&
      addMS now (- intervalMS staleAfter) ≤ r.lastHeartbeatAt) = [r] := by
    have hkey : (db.relays.rows.filter fun r => r.orderingCapable && r.stoppedAt.isNone &&
        addMS now (- intervalMS staleAfter) ≤ r.lastHeartbeatAt) = db.relays.rows.filter (·.instanceID = owner) := by
      refine List.filter_congr fun x hx => ?_
      rw [Bool.eq_iff_iff, decide_eq_true_eq]
      constructor
      · intro hmember
        by_contra hne
        have hlt := hothers x.instanceID x hne (Db.relay_eq_some.mpr ⟨hx, rfl⟩)
        have hle := of_decide_eq_true (Bool.and_eq_true_iff.mp hmember).2
        omega
      · intro hid
        obtain rfl : x = r := eq_of_key db.relays.ok.1 hx (Db.relay_eq_some.mp hr).1
          (hid.trans (Db.relay_eq_some.mp hr).2.symm)
        have hle : addMS now (- intervalMS staleAfter) ≤ x.lastHeartbeatAt := by
          have := intervalMS_nonneg staleAfter
          unfold addMS
          omega
        simp [hcapable, hstopped, hle]
    rw [hkey, filter_eq_lookup db.relays.ok.1]
    have hlookup : lookup RelayRow.instanceID db.relays.rows owner = some r := hr
    rw [hlookup]
    rfl
  unfold Db.activeOrderingMembers
  rw [hfilter, List.map_singleton, (Db.relay_eq_some.mp hr).2]
  rfl

/-- The only member owns every partition. -/
theorem Ordering.desiredOwner_alone (partition : Int) (h : owner ≠ "") :
    Ordering.desiredOwner partition [owner] = owner := by
  rw [Ordering.desiredOwner_eq]
  exact List.mem_singleton.mp (Ordering.ownerBy_mem (by simpa using h) (List.cons_ne_nil _ _))

end Presence

/-! ## Reconciliation by the only member -/

theorem ne_empty_of_trimSpace {t : String} (h : trimSpace t ≠ "") : t ≠ "" := by
  rintro rfl
  exact btrim_ne_empty h btrim_empty

section Reconcile

variable {db : Db} {now : Int} {a : ReconcileArgs} {row row' : PartitionRow}

theorem Db.reconcile_alone_enabled (hbeats : db.Beats a.owner now)
    (hothers : db.OthersStale now a.presenceStaleAfter a.owner)
    (hsize : db.partitions.rows.length = Ordering.partitionCount) (howner : trimSpace a.owner ≠ "")
    (htext : textOk a.owner = true) (hepoch : ∀ r ∈ db.partitions.rows, ¬ r.Leased now → r.epoch < maxInt64)
    (hpublish : 0 < intervalMS a.publishTimeout ∧ intervalMS a.publishTimeout ≤ maxInt32) :
    ∃ db' result, db.reconcileOrderingPartitions now a = .ok (db', result) ∧
      db' = { db with partitions := db'.partitions } ∧
      ∀ row' ∈ db'.partitions.rows, ∃ row ∈ db.partitions.rows, Outcome a now a.owner row row' := by
  have hne : a.owner ≠ "" := ne_empty_of_trimSpace howner
  have hmoves : ∀ r ∈ db.partitions.rows, r.Moves a.owner now (Ordering.desiredOwner r.id [a.owner]) →
      r.epoch < maxInt64 := by
    intro r hr hmoves
    rw [Ordering.desiredOwner_alone r.id hne] at hmoves
    rcases hmoves with ⟨-, hd⟩ | ⟨-, hfree⟩
    · exact absurd rfl hd
    · exact hepoch r hr hfree
  obtain ⟨db', result, hok⟩ := (Db.reconcileWith_commits hsize howner).mpr fun r hr =>
    ⟨hmoves r hr, fun _ _ => ⟨htext, hpublish⟩⟩
  have hcall : db.reconcileOrderingPartitions now a = .ok (db', result) := by
    unfold Db.reconcileOrderingPartitions
    rw [Db.activeOrderingMembers_alone hbeats hothers]
    exact hok
  obtain ⟨hrows, hframe⟩ := Db.reconcileWith_ok hok
  refine ⟨db', result, hcall, hframe, fun row' hrow' => ?_⟩
  have hnew := hrows row'.id
  rw [db'.partition_eq_some.mpr ⟨hrow', rfl⟩] at hnew
  obtain ⟨row, hrow, heq⟩ := Option.map_eq_some_iff.mp hnew.symm
  have houtcome : Outcome a now (Ordering.desiredOwner row.id [a.owner]) row (reconcileRow a now [a.owner] row) :=
    outcome_reconcileRow (Db.partition_check hrow)
  rw [Ordering.desiredOwner_alone row.id hne, heq] at houtcome
  exact ⟨row, (db.partition_eq_some.mp hrow).1, houtcome⟩

/-- A row whose lease is over is taken. -/
theorem Outcome.takes (h : Outcome a now a.owner row row') (howner : a.owner ≠ "") (hover : ¬ row.Leased now) :
    row'.leaseOwner = some a.owner ∧ row'.leaseUntil = some (addDuration now a.leaseDuration) := by
  cases h with
  | kept hkept =>
    obtain ⟨o, u, ho, -, hu, hlt⟩ := (hkept howner).2.resolve_left (fun hne => hne rfl)
    exact absurd ⟨o, u, ho, hu, hlt⟩ hover
  | released _ hd => exact absurd rfl hd
  | renewed ho _ hu hlt => exact absurd ⟨_, _, ho, hu, hlt⟩ hover
  | acquired _ _ => exact ⟨rfl, rfl⟩
  | takenOver _ _ _ _ => exact ⟨rfl, rfl⟩

/-- A row that is still leased to the caller is renewed under its epoch and its barrier. -/
theorem Outcome.renews (h : Outcome a now a.owner row row') (howner : a.owner ≠ "")
    (ho : row.leaseOwner = some a.owner) {u : Int} (hu : row.leaseUntil = some u) (hlt : now < u) :
    row'.leaseOwner = some a.owner ∧ row'.leaseUntil = some (addDuration now a.leaseDuration) ∧
      row'.handoffNotBefore = row.handoffNotBefore := by
  cases h with
  | kept hkept => exact absurd ho (hkept howner).1
  | released _ hd => exact absurd rfl hd
  | renewed _ _ _ _ => exact ⟨ho, rfl, rfl⟩
  | acquired ho' _ =>
    rw [ho] at ho'
    cases ho'
  | takenOver _ _ hu' hle =>
    obtain rfl : u = _ := Option.some.inj (hu.symm.trans hu')
    omega

end Reconcile

end Emitlane
