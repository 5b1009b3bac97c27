import Mathlib.Data.Finset.Order
import Emitlane.Progress.Drain
import Emitlane.Relay.Lease

/-!
# Progress.Takeover — one relay can finish what others left behind

Whatever crashed relays left (event leases, partition leases, barriers, stale members), one relay that runs alone gets
through it.  The schedule has four parts.

1. Time passes until every lease is over, every event is due and every other member is stale.
2. The relay registers and reconciles, and so takes all partitions.
3. It keeps reconciling at its rebalance interval until all barriers are over: a renewal moves neither the epoch nor
   the barrier, while a lease that ran out would be taken again with a new barrier.
4. At that instant it drains what can be claimed.

The cursor of a stream then stands at a sequence without a row, or at a dead event.  Where an id was used twice it may
also stand at a delivered event, and then nothing but a cleanup helps.
-/

namespace Emitlane

open Relay Rel

section

variable {ι : Type} {cfg : ι → Config} {i : ι} {limit : Int} {s s' : State ι} {k : Nat} {h : Handler ι}

/-! ## Taking over -/

/-- The columns hold the name, the publish timeout and the attempts of the relay. -/
structure Relay.Config.Storable (c : Config) : Prop where
  name : textOk c.instanceID = true
  publishTimeout : intervalMS c.publishTimeout ≤ maxInt32
  maxAttempts : c.maxAttempts ≤ maxInt32

/-- The durations of the ordering loop are whole milliseconds, and the publish window does not overflow. -/
structure Relay.Config.Exact (c : Config) : Prop where
  publishTimeout : WholeMS c.publishTimeout
  orderingSafetyMargin : WholeMS c.orderingSafetyMargin
  orderingLeaseDuration : WholeMS c.orderingLeaseDuration
  orderingRebalanceInterval : WholeMS c.orderingRebalanceInterval
  window : c.publishTimeout + c.orderingSafetyMargin ≤ maxInt64

/-- So the relay can do ordered work. -/
theorem Relay.Config.Exact.fits {c : Config} (h : c.Exact) (hvalid : c.Valid) (hstorable : c.Storable) : c.Fits := by
  refine ⟨hstorable.publishTimeout, h.window, ?_⟩
  have hlt := hvalid.bounds.window
  rw [hvalid.window_eq_iff.mpr h.window] at hlt
  have h1 := hvalid.bounds.publishTimeout
  have h2 := hvalid.bounds.orderingSafetyMargin
  have hwhole : WholeMS (c.publishTimeout + c.orderingSafetyMargin) := by
    have hpublish := h.publishTimeout
    have hmargin := h.orderingSafetyMargin
    unfold WholeMS millisecond at hpublish hmargin ⊢
    omega
  rw [intervalMS_whole (by omega) hwhole]
  exact hlt.le

theorem Relay.Config.Fits.window_pos {c : Config} (h : c.Fits) (hvalid : c.Valid) : 0 < c.window := by
  have h1 := hvalid.bounds.publishTimeout
  have h2 := hvalid.bounds.orderingSafetyMargin
  rw [hvalid.window_eq_iff.mpr h.window]
  omega

/-- The relay is the only member, its heartbeat is fresh, and it has just leased all partitions. -/
structure Reigns (c : Config) (now : Int) (db : Db) : Prop where
  beats : db.Beats c.instanceID now
  others : db.OthersStale now c.presenceStaleAfter c.instanceID
  leases : ∀ p ∈ db.partitions.rows, p.leaseOwner = some c.instanceID ∧
    p.leaseUntil = some (addDuration now c.orderingLeaseDuration)

/-- Events and runtime control are as they were. -/
structure Quiescent (s s' : State ι) : Prop where
  events : s'.db.events = s.db.events
  control : s'.db.control = s.db.control

theorem Quiescent.trans {s'' : State ι} (h : Quiescent s s') (h' : Quiescent s' s'') : Quiescent s s'' :=
  ⟨h'.events.trans h.events, h'.control.trans h.control⟩

theorem reconcile_enabled (hreach : Reachable cfg s) (hvalid : (cfg i).Valid) (hstorable : (cfg i).Storable)
    (hbeats : s.db.Beats (cfg i).instanceID s.clock)
    (hothers : s.db.OthersStale s.clock (cfg i).presenceStaleAfter (cfg i).instanceID)
    (hepochs : ∀ p ∈ s.db.partitions.rows, ¬ p.Leased s.clock → p.epoch < maxInt64) :
    ∃ s', step cfg s (.reconcile i) = some s' ∧ s'.clock = s.clock ∧ s'.db.relays = s.db.relays ∧
    Quiescent s s' ∧
      ∀ row' ∈ s'.db.partitions.rows, ∃ row ∈ s.db.partitions.rows,
        Outcome (cfg i).reconcileArgs s.clock (cfg i).instanceID row row' := by
  have hsize : s.db.partitions.rows.length = Ordering.partitionCount := by
    have hlength := hreach.partition_ids.length_eq
    rw [List.length_map, List.length_map, List.length_range] at hlength
    exact hlength
  have hpublish : 0 < intervalMS (cfg i).publishTimeout ∧ intervalMS (cfg i).publishTimeout ≤ maxInt32 := by
    have hpos := hvalid.bounds.publishTimeout
    have hms := le_intervalMS (cfg i).publishTimeout
    unfold millisecond at hms
    exact ⟨by omega, hstorable.publishTimeout⟩
  obtain ⟨db, result, hok, hframe, hrows⟩ :=
    Db.reconcile_alone_enabled (a := (cfg i).reconcileArgs) hbeats hothers hsize
    hvalid.bounds.instanceID hstorable.name hepochs hpublish
  refine ⟨{ s with db := db }, ?_, rfl, ?_, ⟨?_, ?_⟩, hrows⟩
  · simp only [step, hok, Except.map, State.withDb]
  · rw [hframe]
  · rw [hframe]
  · rw [hframe]

theorem Db.Beats.congr {db db' : Db} {owner : String} {beat : Int} (h : db.Beats owner beat)
    (hrelays : db'.relays = db.relays) : db'.Beats owner beat := by
  unfold Db.Beats Db.relay at h ⊢
  rw [hrelays]
  exact h

theorem Db.OthersStale.of_relays {db db' : Db} {owner : String} {now staleAfter : Int}
    (h : db.OthersStale now staleAfter owner) (hrelays : db'.relays = db.relays) :
    db'.OthersStale now staleAfter owner :=
  h.congr fun x _ => by unfold Db.relay; rw [hrelays]

/-- The presence the relay registers. -/
def Relay.Config.presence (c : Config) (now : Int) : RelayPresence where
  instanceID := c.instanceID
  hostname := "host"
  version := "dev"
  startedAt := now
  orderingCapable := true

variable (limit) in
/-- Registering and reconciling, when all leases are over and all other members are stale. -/
theorem takes_all (hreach : Reachable cfg s) (hvalid : (cfg i).Valid) (hstorable : (cfg i).Storable)
    (hover : ∀ p ∈ s.db.partitions.rows, ¬ p.Leased s.clock)
    (hepochs : ∀ p ∈ s.db.partitions.rows, p.epoch < maxInt64)
    (hothers : s.db.OthersStale s.clock (cfg i).presenceStaleAfter (cfg i).instanceID) :
    ∃ s', Runs.Reach (step cfg) (Solo cfg i limit) s s' ∧ s'.clock = s.clock ∧ Quiescent s s' ∧
      Reigns (cfg i) s'.clock s'.db := by
  have hregisters : ∃ db, s.db.registerRelay s.clock ((cfg i).presence s.clock) = .ok db ∧
      db.Beats (cfg i).instanceID s.clock ∧ ∀ x, x ≠ (cfg i).instanceID → db.relay x = s.db.relay x := by
    have htexts : textOk "host" = true ∧ textOk "dev" = true := by decide
    have hblanks : btrim "host" ≠ "" ∧ btrim "dev" ≠ "" := by decide
    exact Db.registerRelay_enabled hstorable.name (btrim_ne_empty hvalid.bounds.instanceID) htexts hblanks rfl
  obtain ⟨db, hok, hbeats, hsame⟩ := hregisters
  have hframe := Db.registerRelay_ok hok
  have hregister : step cfg s (.register ((cfg i).presence s.clock)) = some { s with db := db } := by
    simp only [step, hok, State.withDb]
  have hpartitions : db.partitions = s.db.partitions := by rw [hframe]
  have hevents : db.events = s.db.events := by rw [hframe]
  have hcontrol : db.control = s.db.control := by rw [hframe]
  have hreach₁ := hreach.step hregister
  obtain ⟨s', hs', hclock, hrelays, hquiet, hrows⟩ := reconcile_enabled (s := { s with db := db }) hreach₁ hvalid
    hstorable hbeats (hothers.congr hsame) (by
      intro p hp _
      exact hepochs p (hpartitions ▸ hp))
  have hrun : Runs.Reach (step cfg) (Solo cfg i limit) s { s with db := db } :=
    .single (a := .register ((cfg i).presence s.clock)) rfl hregister
  have hfirst : Quiescent s { s with db := db } := ⟨hevents, hcontrol⟩
  refine ⟨s', hrun.tail (a := .reconcile i) rfl hs', hclock, hfirst.trans hquiet, ?_⟩
  rw [hclock]
  refine ⟨hbeats.congr hrelays, (hothers.congr hsame).of_relays hrelays, fun row' hrow' => ?_⟩
  obtain ⟨row, hrow, houtcome⟩ := hrows row' hrow'
  exact houtcome.takes (ne_empty_of_trimSpace hvalid.bounds.instanceID) (hover row (hpartitions ▸ hrow))

variable (limit) in
/-- One turn of the ordering loop: the leases are renewed before they run out. -/
theorem renews (hreach : Reachable cfg s) (hvalid : (cfg i).Valid) (hexact : (cfg i).Exact)
    (hstorable : (cfg i).Storable) (hreign : Reigns (cfg i) s.clock s.db) :
    ∃ s', Runs.Reach (step cfg) (Solo cfg i limit) s s' ∧ s.clock < s'.clock ∧ Quiescent s s' ∧
      Reigns (cfg i) s'.clock s'.db ∧
      ∀ row' ∈ s'.db.partitions.rows, ∃ row ∈ s.db.partitions.rows,
      row'.handoffNotBefore = row.handoffNotBefore := by
  obtain ⟨d, hd⟩ : ∃ d : Nat, (d : Int) = (cfg i).orderingRebalanceInterval / 1000 := by
    refine ⟨((cfg i).orderingRebalanceInterval / 1000).toNat, Int.toNat_of_nonneg ?_⟩
    have hpos := hvalid.intervals.2.1
    omega
  have hturn : 0 < (d : Int) ∧ s.clock + d < addDuration s.clock (cfg i).orderingLeaseDuration := by
    obtain ⟨-, hpos, hlt⟩ := hvalid.intervals
    have h1 := hexact.orderingRebalanceInterval
    have h2 := hexact.orderingLeaseDuration
    unfold WholeMS millisecond at h1 h2
    unfold addDuration
    omega
  have hbeat : ∃ db, s.db.heartbeatRelay (s.clock + d) (cfg i).instanceID = .ok db ∧
      db.Beats (cfg i).instanceID (s.clock + d) ∧ ∀ x, x ≠ (cfg i).instanceID → db.relay x = s.db.relay x :=
    Db.heartbeatRelay_enabled hreign.beats
  obtain ⟨db, hok, hbeats, hsame⟩ := hbeat
  have hframe := Db.touchRelay_ok hok
  have hpartitions : db.partitions = s.db.partitions := by rw [hframe]
  have hfirst : Quiescent s { s with clock := s.clock + d, db := db } :=
    ⟨by rw [hframe], by rw [hframe]⟩
  have hrun : Runs.Reach (step cfg) (Solo cfg i limit) s { s with clock := s.clock + d, db := db } := by
    have htick : Runs.Reach (step cfg) (Solo cfg i limit) s { s with clock := s.clock + d } :=
      .single (a := .tick d) trivial rfl
    refine htick.tail (a := .heartbeat i) rfl ?_
    simp only [step, hok, State.withDb]
  have hothers := (hreign.others.mono (by omega : s.clock ≤ s.clock + d)).congr hsame
  have hleases : ∀ p ∈ db.partitions.rows, p.leaseOwner = some (cfg i).instanceID ∧
      p.leaseUntil = some (addDuration s.clock (cfg i).orderingLeaseDuration) := hpartitions ▸ hreign.leases
  obtain ⟨s', hs', hclock, hrelays, hquiet, hrows⟩ :=
    reconcile_enabled (s := { s with clock := s.clock + d, db := db }) (hreach.run hrun) hvalid hstorable hbeats hothers
      (by
        intro p hp hover
        obtain ⟨ho, hu⟩ := hleases p hp
        exact absurd ⟨_, _, ho, hu, hturn.2⟩ hover)
  have houtcomes : ∀ row' ∈ s'.db.partitions.rows, ∃ row ∈ s.db.partitions.rows,
      row'.leaseOwner = some (cfg i).instanceID ∧
      row'.leaseUntil = some (addDuration (s.clock + d) (cfg i).orderingLeaseDuration) ∧
      row'.handoffNotBefore = row.handoffNotBefore := by
    intro row' hrow'
    obtain ⟨row, hrow, houtcome⟩ := hrows row' hrow'
    obtain ⟨ho, hu⟩ := hleases row hrow
    exact ⟨row, hpartitions ▸ hrow, houtcome.renews
      (ne_empty_of_trimSpace hvalid.bounds.instanceID) ho hu hturn.2⟩
  refine ⟨s', hrun.tail (a := .reconcile i) rfl hs', ?_, hfirst.trans hquiet, ?_, fun row' hrow' => ?_⟩
  · rw [hclock]
    show s.clock < s.clock + d
    omega
  · rw [hclock]
    refine ⟨hbeats.congr hrelays, hothers.of_relays hrelays, fun row' hrow' => ?_⟩
    obtain ⟨row, -, ho, hu, -⟩ := houtcomes row' hrow'
    exact ⟨ho, hu⟩
  · obtain ⟨row, hrow, -, -, hbarrier⟩ := houtcomes row' hrow'
    exact ⟨row, hrow, hbarrier⟩

variable (limit) in
/-- The barriers do not move while the loop turns, so any number of instants can pass. -/
theorem holds_out (latest : Int) (hvalid : (cfg i).Valid) (hexact : (cfg i).Exact) (hstorable : (cfg i).Storable) :
    ∀ (n : Nat) {s : State ι}, Reachable cfg s → Reigns (cfg i) s.clock s.db →
      (∀ p ∈ s.db.partitions.rows, ∀ b, p.handoffNotBefore = some b → b ≤ latest) →
      ∃ s', Runs.Reach (step cfg) (Solo cfg i limit) s s' ∧ s.clock + n ≤ s'.clock ∧ Quiescent s s' ∧
        Reigns (cfg i) s'.clock s'.db ∧ ∀ p ∈ s'.db.partitions.rows, ∀ b, p.handoffNotBefore = some b →
        b ≤ latest
  | 0, s, _, hreign, hbarriers => ⟨s, .refl s, by simp, ⟨rfl, rfl⟩, hreign, hbarriers⟩
  | n + 1, s, hreach, hreign, hbarriers => by
    obtain ⟨s₁, hrun₁, hlt, hquiet₁, hreign₁, hsame⟩ := renews limit hreach hvalid hexact hstorable hreign
    have hbarriers₁ : ∀ p ∈ s₁.db.partitions.rows, ∀ b, p.handoffNotBefore = some b → b ≤ latest := by
      intro p hp b hb
      obtain ⟨row, hrow, hbarrier⟩ := hsame p hp
      exact hbarriers row hrow b (hbarrier.symm.trans hb)
    obtain ⟨s', hrun, hle, hquiet, hreign', hbarriers'⟩ :=
      holds_out latest hvalid hexact hstorable n (hreach.run hrun₁)
      hreign₁ hbarriers₁
    refine ⟨s', hrun₁.trans hrun, ?_, hquiet₁.trans hquiet, hreign', hbarriers'⟩
    push_cast
    omega

/-! ## Waiting -/

/-- The instants that matter to a relay with this staleness threshold. -/
def Db.instants (db : Db) (staleAfter : Int) : List Int :=
  (db.events.rows.flatMap fun r => r.availableAt :: r.leaseUntil.toList) ++
    (db.partitions.rows.flatMap fun p => p.leaseUntil.toList) ++
    db.relays.rows.map fun r => r.lastHeartbeatAt + intervalMS staleAfter * 1000 + 1

/-- After the last of them everything open is due and free, all partition leases are over and all members are stale. -/
theorem Db.outwaited {db : Db} {now staleAfter : Int} (h : ∀ x ∈ db.instants staleAfter, x ≤ now) :
    (∀ r ∈ db.events.rows, r.isOpen = true → r.availableAt ≤ now ∧ r.Claimable now) ∧
      (∀ p ∈ db.partitions.rows, ¬ p.Leased now) ∧ ∀ owner, db.OthersStale now staleAfter owner := by
  unfold Db.instants at h
  simp only [List.forall_mem_append, List.forall_mem_flatMap, List.forall_mem_cons, List.forall_mem_map] at h
  obtain ⟨⟨hevents, hpartitions⟩, hrelays⟩ := h
  refine ⟨fun r hr hopen => ⟨(hevents r hr).1, ?_⟩, fun p hp => ?_, fun owner x r _ hr => ?_⟩
  · rcases EventRow.isOpen_iff.mp hopen with hs | hs
    · exact .inl hs
    · have hlease := db.event_lease hr
      simp only [EventRow.leaseStateCheck, hs, decide_true, Bool.true_and, ne_eq, not_true_eq_false, decide_false,
        Bool.false_and, Bool.or_false, Bool.and_eq_true] at hlease
      obtain ⟨u, hu⟩ := Option.isSome_iff_exists.mp hlease.2
      refine .inr ?_
      have hle := (hevents r hr).2 u (by rw [hu]; exact List.mem_singleton.mpr rfl)
      simp [EventRow.leaseExpired, hs, hu, hle]
  · rintro ⟨o, u, -, hu, hlt⟩
    have hle := hpartitions p hp u (by rw [hu]; exact List.mem_singleton.mpr rfl)
    omega
  · have hle := hrelays r (Db.relay_eq_some.mp hr).1
    unfold addMS
    omega

theorem exists_upper_bound (l : List Int) : ∃ b, ∀ x ∈ l, x ≤ b := by
  obtain ⟨b, hb⟩ := l.toFinset.exists_le
  exact ⟨b, fun x hx => hb x (List.mem_toFinset.mpr hx)⟩

/-- The first three parts of the schedule: from any reachable state to one in which the relay can serve all. -/
theorem becomes_serving (limit : Int) (hreach : Reachable cfg s) (hpaused : s.db.paused = false)
    (hsequences : ∀ r ∈ s.db.events.rows, ∀ n, r.orderingSequence = some n → n < maxInt64)
    (hepochs : ∀ p ∈ s.db.partitions.rows, p.epoch < maxInt64) (hvalid : (cfg i).Valid) (hexact : (cfg i).Exact)
    (hstorable : (cfg i).Storable) :
    ∃ s', Runs.Reach (step cfg) (Solo cfg i limit) s s' ∧ s'.db.events = s.db.events ∧
      Serving (cfg i) s'.clock s'.db := by
  obtain ⟨last, hlast⟩ := exists_upper_bound (s.db.instants (cfg i).presenceStaleAfter)
  obtain ⟨d, hd⟩ : ∃ d : Nat, last ≤ s.clock + d := ⟨(last - s.clock).toNat, by omega⟩
  have htick : Runs.Reach (step cfg) (Solo cfg i limit) s { s with clock := s.clock + d } :=
    .single (a := .tick d) trivial rfl
  have hwaited : ∀ x ∈ s.db.instants (cfg i).presenceStaleAfter, x ≤ s.clock + d :=
    fun x hx => (hlast x hx).trans hd
  obtain ⟨hdue, hover, hstale⟩ := Db.outwaited hwaited
  obtain ⟨s₁, hrun₁, hclock₁, hquiet₁, hreign₁⟩ := takes_all limit (s := { s with clock := s.clock + d })
    (hreach.run htick) hvalid hstorable hover hepochs (hstale _)
  obtain ⟨latest, hlatest⟩ := exists_upper_bound
    (s₁.db.partitions.rows.flatMap fun p => p.handoffNotBefore.toList)
  simp only [List.forall_mem_flatMap] at hlatest
  have hreach₁ := (hreach.run htick).run hrun₁
  obtain ⟨s', hrun, hle, hquiet, hreign, hbarriers⟩ := holds_out limit latest hvalid hexact hstorable
    (latest - s₁.clock).toNat hreach₁ hreign₁ (by
      intro p hp b hb
      exact hlatest p hp b (by rw [hb]; exact List.mem_singleton.mpr rfl))
  have hevents : s'.db.events = s.db.events := hquiet.events.trans hquiet₁.events
  have hclock : s.clock + d ≤ s'.clock := by
    have hclock₁ : s₁.clock = s.clock + d := hclock₁
    omega
  refine ⟨s', (htick.trans hrun₁).trans hrun, hevents, ⟨?_, ?_, fun r hr hopen => ?_, ?_, fun p hp => ?_⟩⟩
  · unfold Db.paused
    rw [hquiet.control, hquiet₁.control]
    exact hpaused
  · obtain ⟨r, hr, hcapable, hstopped, -⟩ := hreign.beats
    simp [hr, hcapable, hstopped]
  · obtain ⟨hat, hclaim⟩ := hdue r (hevents ▸ hr) hopen
    exact ⟨hat.trans hclock, EventRow.Claimable.mono hclaim hclock⟩
  · rw [hevents]
    exact hsequences
  · obtain ⟨ho, hu⟩ := hreign.leases p hp
    refine PartitionRow.authority_iff.mpr ⟨ho, ⟨_, hu, ?_⟩, fun b hb => ?_⟩
    · exact decide_eq_true ((hexact.fits hvalid hstorable).gate hvalid s'.clock)
    · have hb := hbarriers p hp b hb
      omega

/-! ## The schedule enqueues nothing -/

theorem enqueuedIDs_append {new hist : List (Obs ι)} (h : ∀ o ∈ new, ∀ row, o ≠ .enqueued row) :
    enqueuedIDs (new ++ hist) = enqueuedIDs hist := by
  have hnone : enqueuedIDs new = [] := by
    refine List.filterMap_eq_nil_iff.mpr fun o ho => ?_
    cases o with
    | enqueued row => exact absurd rfl (h _ ho row)
    | _ => rfl
  unfold enqueuedIDs at hnone ⊢
  rw [List.filterMap_append, hnone, List.nil_append]

theorem enqueuedIDs_finish {m : Mark} {result : Except StoreError Db} :
    enqueuedIDs (s.finish k h m result).hist = enqueuedIDs s.hist := by
  unfold State.finish
  cases result with
  | error e => rfl
  | ok db =>
    refine enqueuedIDs_append fun o ho row => ?_
    obtain ⟨r, -, rfl⟩ := List.mem_map.mp ho
    rintro ⟨⟩

theorem enqueuedIDs_dispatch {db : Db} {evs : List RelayEvent} :
    enqueuedIDs (s.dispatch i db evs).hist = enqueuedIDs s.hist := by
  refine enqueuedIDs_append fun o ho row => ?_
  obtain ⟨x, -, rfl⟩ := List.mem_map.mp ho
  rintro ⟨⟩

theorem Solo.enqueuedIDs_eq {a : Action ι} (hsolo : Solo cfg i limit s a) (hs : step cfg s a = some s') :
    enqueuedIDs s'.hist = enqueuedIDs s.hist := by
  cases a with
  | tick d =>
    obtain rfl := Option.some.inj hs
    rfl
  | register presence =>
    obtain ⟨db, -, rfl⟩ := State.withDb_eq_some hs
    rfl
  | heartbeat j =>
    obtain ⟨db, -, rfl⟩ := State.withDb_eq_some hs
    rfl
  | reconcile j =>
    obtain ⟨db, -, rfl⟩ := State.withDb_eq_some hs
    rfl
  | claim j n locked =>
    obtain ⟨x, -, rfl⟩ := Option.map_eq_some_iff.mp hs
    exact enqueuedIDs_dispatch
  | claimOrdered j n locked =>
    obtain ⟨x, -, rfl⟩ := Option.map_eq_some_iff.mp hs
    exact enqueuedIDs_dispatch
  | begin k =>
    obtain ⟨h, hk, -, -⟩ := hsolo
    simp only [step, hk] at hs
    split_ifs at hs
    obtain rfl := Option.some.inj hs
    unfold State.begin
    simp only
    split_ifs
    · exact enqueuedIDs_finish
    · split
      · rfl
      · refine enqueuedIDs_append fun o ho row => ?_
        obtain ⟨r, -, rfl⟩ := List.mem_map.mp ho
        rintro ⟨⟩
  | publish k traceparent tracestate =>
    obtain ⟨h, hk, -, -⟩ := hsolo
    simp only [step, hk] at hs
    split_ifs at hs
    obtain rfl := Option.some.inj hs
    rfl
  | ack k =>
    obtain ⟨h, hk, -, -⟩ := hsolo
    simp only [step, hk] at hs
    split_ifs at hs
    obtain rfl := Option.some.inj hs
    rfl
  | settle k ctxDone delay =>
    obtain ⟨h, hk, -, hpc⟩ := hsolo
    simp only [step, hk, State.settle] at hs
    split at hs
    · obtain rfl := Option.some.inj hs
      exact enqueuedIDs_finish
    · rename_i err herr
      exact absurd herr (hpc err)
    · cases hs
  | _ => exact hsolo.elim

theorem Solo.freshIDs (hf : FreshIDs s.hist) (hrun : Runs.Reach (step cfg) (Solo cfg i limit) s s') :
    FreshIDs s'.hist := by
  refine hrun.inv (I := fun s => FreshIDs s.hist) (fun t a u ht hsolo hs => ?_) hf
  unfold FreshIDs at ht ⊢
  rw [hsolo.enqueuedIDs_eq hs]
  exact ht

/-! ## No reachable state is stuck -/

/-- What is left of `db` in `db'`: every event is there and none was given up before its budget was used; unordered
events are delivered or dead; the cursor of a stream is at a sequence without a row, or at a dead event. -/
structure Finished (maxAttempts : Int) (db db' : Db) : Prop where
  events : ∀ r ∈ db.events.rows, ∃ r' ∈ db'.events.rows, r'.toEnvelope = r.toEnvelope ∧
    (r'.status = .dead → r.status = .dead ∨ maxAttempts ≤ r.attempts)
  unordered : ∀ r ∈ db'.events.rows, r.orderingKey = none → r.status = .delivered ∨ r.status = .dead
  cursors : ∀ st ∈ db'.streams.rows,
    (∀ r ∈ db'.events.rows, r.isSequence st.destination st.orderingKey st.nextSequence = false) ∨
      ∃ r ∈ db'.events.rows, r.isSequence st.destination st.orderingKey st.nextSequence = true ∧ r.status = .dead

theorem EventRow.closed_of_not_open {r : EventRow} (h : ¬ r.isOpen = true) :
    r.status = .delivered ∨ r.status = .dead := by
  rw [EventRow.isOpen_iff] at h
  cases hs : r.status with
  | pending => exact absurd (.inl hs) h
  | inflight => exact absurd (.inr hs) h
  | delivered => exact .inl rfl
  | dead => exact .inr rfl

theorem Db.Settles.events {maxAttempts : Int} {db db' : Db} (h : db.Settles maxAttempts db') {r : EventRow}
    (hr : r ∈ db.events.rows) : ∃ r' ∈ db'.events.rows, r'.toEnvelope = r.toEnvelope ∧
      (r'.status = .dead → r.status = .dead ∨ maxAttempts ≤ r.attempts) := by
  have hrow := db.row_mem hr
  rcases h r.id with hsame | ⟨x, r', hx, hr', -, henv, hclosed⟩
  · exact ⟨r, (db'.row_eq_some.mp (hsame.trans hrow)).1, rfl, .inl⟩
  · obtain rfl : r = x := Option.some.inj (hrow.symm.trans hx)
    refine ⟨r', (db'.row_eq_some.mp hr').1, henv, fun hdead => .inr ?_⟩
    rcases hclosed with hs | ⟨-, hbudget⟩
    · rw [hdead] at hs
      cases hs
    · exact hbudget

/-- Where nothing can be claimed, a cursor that stands at an event stands at a dead one. -/
theorem Reachable.cursor_at_dead (h : Reachable cfg s) (hf : FreshIDs s.hist) (hdone : s.db.Exhausted) {st : StreamRow}
    (hst : st ∈ s.db.streams.rows) {r : EventRow} (hr : r ∈ s.db.events.rows)
    (hseq : r.isSequence st.destination st.orderingKey st.nextSequence = true) : r.status = .dead := by
  obtain ⟨hd, hk, hn⟩ := EventRow.isSequence_iff.mp hseq
  have hstream : s.db.stream r.destination st.orderingKey = some st := s.db.stream_eq_some.mpr ⟨hst, hd.symm, rfl⟩
  by_cases hopen : r.isOpen = true
  · have hcursor : s.db.atCursor r = true := Db.atCursor_iff.mpr ⟨_, st, hk, hstream, hn⟩
    rw [(hdone r hr hopen).2] at hcursor
    cases hcursor
  · rcases EventRow.closed_of_not_open hopen with hs | hs
    · obtain ⟨st', n, hst', hn', hlt⟩ := h.delivered_below hf (s.db.row_mem hr) hs hk
      obtain rfl : st = st' := Option.some.inj (hstream.symm.trans hst')
      obtain rfl : st.nextSequence = n := Option.some.inj (hn.symm.trans hn')
      omega
    · exact hs

/-- **No reachable state is stuck**: one relay that runs alone has a schedule that finishes what can be finished. -/
theorem no_stuck_state (hreach : Reachable cfg s) (hfresh : FreshIDs s.hist) (hpaused : s.db.paused = false)
    (hsequences : ∀ r ∈ s.db.events.rows, ∀ n, r.orderingSequence = some n → n < maxInt64)
    (hepochs : ∀ p ∈ s.db.partitions.rows, p.epoch < maxInt64) (hvalid : (cfg i).Valid) (hexact : (cfg i).Exact)
    (hstorable : (cfg i).Storable) (hlimit : 0 < limit) :
    ∃ s', Runs.Reach (step cfg) (Solo cfg i limit) s s' ∧ Finished (cfg i).maxAttempts s.db s'.db := by
  obtain ⟨s₁, hrun₁, hevents, hserving⟩ :=
    becomes_serving limit hreach hpaused hsequences hepochs hvalid hexact hstorable
  obtain ⟨s', hrun, hsettles, hdone⟩ := drain hvalid hstorable.name
    ((hexact.fits hvalid hstorable).window_pos hvalid) hstorable.maxAttempts
    hlimit (hreach.run hrun₁) hserving
  have hall := hrun₁.trans hrun
  refine ⟨s', hall, fun r hr => hsettles.events (hevents ▸ hr), fun r hr hkey => ?_, fun st hst => ?_⟩
  · exact EventRow.closed_of_not_open fun hopen => (hdone r hr hopen).1 hkey
  · by_cases hgap : ∃ r ∈ s'.db.events.rows, r.isSequence st.destination st.orderingKey st.nextSequence = true
    · obtain ⟨r, hr, hseq⟩ := hgap
      exact .inr ⟨r, hr, hseq, (hreach.run hall).cursor_at_dead (Solo.freshIDs hfresh hall) hdone hst hr hseq⟩
    · refine .inl fun r hr => ?_
      rw [Bool.eq_false_iff]
      exact fun hseq => hgap ⟨r, hr, hseq⟩

def exampleThirdID : Uuid := ⟨9, by decide⟩

/-- Relay A is registered, owns the partitions and has claimed two of three events when it dies. -/
def exampleAbandoned : List (Action Bool) :=
  [.register examplePresence, .reconcile false,
   .produce 0 [exampleOrderedCall "" 2 exampleOtherID, exampleOrderedCall "" 1 exampleID,
     { exampleCall with generated := some exampleThirdID }] true,
   .claimOrdered false 10 (fun _ => false), .begin 0, .claim false 10 (fun _ => false), .crash 0, .crash 1]

/-- Sequences and epochs are not at the end of their range. -/
def Db.inRange (db : Db) : Bool :=
  (db.events.rows.all fun r => r.orderingSequence.all (· < maxInt64)) && db.partitions.rows.all (·.epoch < maxInt64)

theorem Db.inRange_iff {db : Db} : db.inRange = true ↔
    (∀ r ∈ db.events.rows, ∀ n, r.orderingSequence = some n → n < maxInt64) ∧
      ∀ p ∈ db.partitions.rows, p.epoch < maxInt64 := by
  simp only [Db.inRange, Bool.and_eq_true, List.all_eq_true, Option.all_eq_true, decide_eq_true_eq]

theorem exampleRelays_fit (b : Bool) : (exampleRelays b).Exact ∧ (exampleRelays b).Storable := by
  cases b
  · exact ⟨⟨by decide, by decide, by decide, by decide, by decide⟩, ⟨by decide, by decide, by decide⟩⟩
  · exact ⟨⟨by decide, by decide, by decide, by decide, by decide⟩, ⟨by decide, by decide, by decide⟩⟩

/-- Relay B finishes what relay A left, one event at a time. -/
theorem no_stuck_state_abandoned : ∃ s s' : State Bool, Reachable exampleRelays s ∧
    (∃ r, s.db.row exampleID = some r ∧ r.status = .inflight ∧ r.leaseOwner = some "relay-a") ∧
    Runs.Reach (step exampleRelays) (Solo exampleRelays true 1) s s' ∧ Finished 10 s.db s'.db := by
  obtain ⟨s, hreach, hp⟩ := exists_reachable exampleRelays exampleAbandoned
    (fun s => FreshIDs s.hist && !s.db.paused && s.db.inRange &&
      (s.db.row exampleID).any fun r => r.status = .inflight && r.leaseOwner = some "relay-a") (by decide +kernel)
  simp only [Bool.and_eq_true, decide_eq_true_eq, Bool.not_eq_true', Option.any_eq_true] at hp
  obtain ⟨⟨⟨hfresh, hpaused⟩, hrange⟩, hleft⟩ := hp
  obtain ⟨hsequences, hepochs⟩ := Db.inRange_iff.mp hrange
  have hfinishes : ∃ s', Runs.Reach (step exampleRelays) (Solo exampleRelays true 1) s s' ∧
    Finished 10 s.db s'.db :=
    no_stuck_state hreach hfresh hpaused hsequences hepochs (by decide +kernel) (exampleRelays_fit true).1
      (exampleRelays_fit true).2 (by decide)
  obtain ⟨s', hrun, hfinished⟩ := hfinishes
  exact ⟨s, s', hreach, hleft, hrun, hfinished⟩

/-! ## A reused id -/

/-- A delivered event stands at the cursor of its stream. -/
def Db.Wedged (db : Db) : Prop :=
  ∃ r st, db.row r.id = some r ∧ r.status = .delivered ∧ db.stream st.destination st.orderingKey = some st ∧
    r.isSequence st.destination st.orderingKey st.nextSequence = true

theorem Db.sequence_ext {db : Db} {d k : String} {n : Int} {r x : EventRow} (hr : r ∈ db.events.rows)
    (hx : x ∈ db.events.rows) (hseq : r.isSequence d k n = true) (hseq' : x.isSequence d k n = true) : r = x := by
  obtain ⟨hd, hk, hn⟩ := EventRow.isSequence_iff.mp hseq
  obtain ⟨hd', hk', hn'⟩ := EventRow.isSequence_iff.mp hseq'
  refine db.event_sequence_ext hr hx ?_
  simp only [EventRow.sameSequence, hk, hk', hd, hd', hn, hn', Option.isSome_some, decide_true, Bool.and_self]

/-- Neither the event nor the cursor moves without a cleanup. -/
theorem Db.Wedged.next {a : Action ι} (h : s.db.Wedged) (hsolo : Solo cfg i limit s a) (hs : Next cfg s a s') :
    s'.db.Wedged := by
  obtain ⟨r, st, hr, hdelivered, hst, hseq⟩ := h
  have hmem := (s.db.row_eq_some.mp hr).1
  refine ⟨r, st, ?_, hdelivered, ?_, hseq⟩
  · rcases hs.row_cases hmem with hsame | ⟨hne, -⟩ | ⟨-, retention, n, locked, rfl, -⟩
    · exact hsame
    · exact absurd hdelivered hne
    · exact hsolo.elim
  · rcases hs.streams with hsame | ⟨k, hd, x, -, -, -, hx, -, hadv, -⟩
    · exact hsame.stays _ _ st hst
    · -- the event that moves the cursor is inflight
      rw [hadv.stream_eq, hst, Option.map_some, if_neg]
      intro hmoves
      obtain ⟨hdest, hkey, -, hnext⟩ := EventRow.advances_iff.mp hmoves
      have hxseq : x.isSequence st.destination st.orderingKey st.nextSequence = true :=
        EventRow.isSequence_iff.mpr ⟨hdest.symm, hkey.symm, hnext.symm⟩
      obtain rfl := Db.sequence_ext hmem (s.db.row_eq_some.mp hx).1 hseq hxseq
      rw [EventRow.status_of_heldBy hadv.fenced.held] at hdelivered
      cases hdelivered

theorem Db.Wedged.not_finished {maxAttempts : Int} {db db' : Db} (h : db'.Wedged) : ¬ Finished maxAttempts db db' := by
  obtain ⟨r, st, hr, hdelivered, hst, hseq⟩ := h
  have hmem := (db'.row_eq_some.mp hr).1
  intro hfinished
  rcases hfinished.cursors st (db'.stream_eq_some.mp hst).1 with hgap | ⟨x, hx, hxseq, hdead⟩
  · rw [hgap r hmem] at hseq
    cases hseq
  · obtain rfl := Db.sequence_ext hmem hx hseq hxseq
    rw [hdelivered] at hdead
    cases hdead

/-- Relay `i` takes no part in the step. -/
def spares [DecidableEq ι] (cfg : ι → Config) (i : ι) : Action ι → Bool
  | .claim j _ _ => j ≠ i
  | .claimOrdered j _ _ => j ≠ i
  | .reconcile j => j ≠ i
  | .release j => j ≠ i
  | .heartbeat j => j ≠ i
  | .markStopped j => j ≠ i
  | .register presence => presence.instanceID ≠ (cfg i).instanceID
  | _ => true

/-- The event with the reused id is delivered, and the cursor of its stream stands at it. -/
def wedged (db : Db) : Bool :=
  (db.row exampleID).any fun r => r.status = .delivered &&
    (db.stream "orders" "a").any fun st => r.isSequence st.destination st.orderingKey st.nextSequence

theorem wedged_sound {db : Db} (h : wedged db = true) : db.Wedged := by
  simp only [wedged, Option.any_eq_true, Bool.and_eq_true, decide_eq_true_eq] at h
  obtain ⟨r, hr, hdelivered, st, hst, hseq⟩ := h
  obtain ⟨hmem, hd, hk⟩ := db.stream_eq_some.mp hst
  exact ⟨r, st, db.row_mem (db.row_eq_some.mp hr).1, hdelivered, db.stream_eq_some.mpr ⟨hmem, rfl, rfl⟩, hseq⟩

/-- A handler of relay A has delivered an event with a reused id.  Relay B, which was never used, has no such
schedule. -/
theorem reused_id_wedges : (∀ b, (exampleRelays b).Valid ∧ (exampleRelays b).Exact ∧
      (exampleRelays b).Storable) ∧
    ∃ s : State Bool,
      Runs.Reach (step exampleRelays) (fun _ a => spares exampleRelays true a = true) (State.init Bool 0) s ∧
      s.db.paused = false ∧ (∀ r ∈ s.db.events.rows, ∀ n, r.orderingSequence = some n → n < maxInt64) ∧
      (∀ p ∈ s.db.partitions.rows, p.epoch < maxInt64) ∧
      ∀ limit s', Runs.Reach (step exampleRelays) (Solo exampleRelays true limit) s s' →
      ¬ Finished 10 s.db s'.db := by
  have hvalid : ∀ b, (exampleRelays b).Valid := by decide +kernel
  refine ⟨fun b => ⟨hvalid b, exampleRelays_fit b⟩, ?_⟩
  obtain ⟨s, hrun, hp⟩ := Runs.exists_of_guarded (step exampleRelays)
    (C := fun _ a => spares exampleRelays true a = true) (fun _ a => spares exampleRelays true a) (I := fun _ => True)
    (fun _ _ _ _ _ => trivial) (fun _ _ _ h => h) (State.init Bool 0) trivial (exampleStaleHandler false)
    (fun s => !s.db.paused && s.db.inRange && wedged s.db) (by decide +kernel)
  simp only [Bool.and_eq_true, Bool.not_eq_true'] at hp
  obtain ⟨⟨hpaused, hrange⟩, hwedged⟩ := hp
  obtain ⟨hsequences, hepochs⟩ := Db.inRange_iff.mp hrange
  refine ⟨s, hrun, hpaused, hsequences, hepochs, fun limit s' hsolo => ?_⟩
  have hwedged' : s'.db.Wedged :=
    hsolo.inv (I := fun t => t.db.Wedged) (fun t a u ht hc hs => ht.next hc (next_of_step hs)) (wedged_sound hwedged)
  exact hwedged'.not_finished

end

end Emitlane
