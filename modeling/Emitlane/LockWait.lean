import Emitlane.Handoff

/-!
# LockWait — a reconciliation that waits for row locks

ReconcileOrderingPartitions reads `NOW()` and the members when its transaction starts, and then locks the 64 rows.  If
it has to wait, the rows are rewritten later, while BeginOrderedAttempt goes on reading them as they were.  Here a
reconciliation is two steps: `start` at the instant its transaction begins, and `commit` at the instant its writes
become visible, with the values read at the start.

A release then measures its barrier from the start of the transaction.  It covers the window of an attempt of the
ended epoch exactly if this attempt began before the transaction (`release_covers_iff`).
-/

namespace Emitlane.LockWait

open Relay Rel Handoff

/-- An open transaction of ReconcileOrderingPartitions. -/
structure Pending (ι : Type) where
  relay : ι
  started : Int
  members : List String

/-- Relay `relay` gave the partition up in a transaction that began at `started`; `epoch` is the ended epoch and
`barrier` the `handoff_not_before` it wrote. -/
structure Release (ι : Type) where
  relay : ι
  partition : Int
  epoch : Int
  started : Int
  barrier : Int

structure State (ι : Type) extends Handoff.State ι where
  pending : List (Pending ι)
  releases : List (Release ι)

inductive Action (ι : Type)
  /-- A call that does not wait. -/
  | call (a : Handoff.Action ι)
  | start (i : ι)
  /-- The `n`-th open transaction gets its locks, writes and commits. -/
  | commit (n : Nat)

/-- The relay of an ownership call. -/
def caller {ι : Type} : Handoff.Action ι → Option ι
  | .reconcile i => some i
  | .release i => some i
  | _ => none

section

variable {ι : Type} (cfg : ι → Config)

/-- The rows of relay `i` that have no owner afterwards. -/
def releasesOf (i : ι) (started : Int) (db db' : Db) : List (Release ι) :=
  db.partitions.rows.filterMap fun row =>
    if row.leaseOwner = some (cfg i).instanceID then
      ((db'.partition row.id).filter (·.leaseOwner.isNone)).bind fun row' =>
        row'.handoffNotBefore.map fun barrier => ⟨i, row.id, row.epoch, started, barrier⟩
    else none

def step (s : State ι) : Action ι → Option (State ι)
  | .call a => (Handoff.step cfg s.toState a).map fun t =>
      { s with
        toState := t
        releases := ((caller a).elim [] fun i => releasesOf cfg i s.clock s.db t.db) ++ s.releases }
  | .start i => some { s with
      pending := ⟨i, s.clock, s.db.activeOrderingMembers s.clock (cfg i).presenceStaleAfter⟩ :: s.pending }
  | .commit n =>
    match s.pending[n]? with
    | none => none
    | some p =>
      match s.db.reconcileWith (cfg p.relay).reconcileArgs p.started p.members with
      | .error _ => none
      | .ok (db, _) => some { s with
          db := db
          pending := s.pending.eraseIdx n
          releases := releasesOf cfg p.relay p.started s.db db ++ s.releases }

def State.init (ι : Type) (clock : Int) : State ι :=
  { Handoff.State.init ι clock with pending := [], releases := [] }

def Reachable (s : State ι) : Prop := ∃ clock, Runs.Reach (step cfg) Runs.Free (State.init ι clock) s

variable {cfg} {s s' : State ι}

/-! ## The barrier of a release -/

/-- The barrier is the end of a publish window from `started`, or the older one where that is later. -/
def Measures (cfg : ι → Config) (i : ι) (started : Int) (existing : Option Int) (barrier : Int) : Prop :=
  deadline cfg i started ≤ barrier ∧ (barrier = deadline cfg i started ∨ existing = some barrier)

theorem measures_of_max {i : ι} {started : Int} {existing : Option Int} {barrier : Int}
    (h : barrier = match existing with
      | some e => max e (deadline cfg i started)
      | none => deadline cfg i started) : Measures cfg i started existing barrier := by
  cases existing with
  | none => exact ⟨h.ge, .inl h⟩
  | some e =>
    rcases max_choice e (deadline cfg i started) with hmax | hmax
    · exact ⟨h ▸ le_max_right _ _, .inr (congrArg some (hmax.symm.trans h.symm))⟩
    · exact ⟨h ▸ le_max_right _ _, .inl (h.trans hmax)⟩

/-- Durations are whole milliseconds. -/
def Whole (cfg : ι → Config) : Prop :=
  ∀ i, WholeMS (cfg i).publishTimeout ∧ WholeMS (cfg i).orderingSafetyMargin

theorem measures_reconcile (hfleet : Fleet cfg) (hwhole : Whole cfg) (i : ι) (started : Int) (existing : Option Int) :
    Measures cfg i started existing (releaseBarrier started existing (some (intervalMS (cfg i).publishTimeout))
      (cfg i).orderingSafetyMargin) := by
  have hb := (hfleet.valid i).bounds
  have h1 := hb.publishTimeout
  have h2 := hb.orderingSafetyMargin
  have hms := intervalMS_whole hb.publishTimeout.le (hwhole i).1
  have hsum := hfleet.sums i i
  have hd : addDuration started (addInt64 (intervalMS (cfg i).publishTimeout * millisecond)
      (cfg i).orderingSafetyMargin) = deadline cfg i started := by
    rw [addInt64_eq (by omega) hsum, hms]
    rfl
  refine measures_of_max ?_
  unfold releaseBarrier
  simp only [Option.getD_some, hd]
  cases existing with
  | none => rfl
  | some e =>
    simp only
    split_ifs with hlt
    · exact (max_eq_left hlt.le).symm
    · exact (max_eq_right (not_lt.mp hlt)).symm

theorem measures_release (hfleet : Fleet cfg) (hwhole : Whole cfg) {i : ι} {started : Int} {row : PartitionRow}
    (hms : row.publishTimeoutMS = some (intervalMS (cfg i).publishTimeout)) :
    Measures cfg i started row.handoffNotBefore
      (releaseAt started (intervalMS (cfg i).orderingSafetyMargin) row) := by
  have hb := (hfleet.valid i).bounds
  have h1 := intervalMS_whole hb.publishTimeout.le (hwhole i).1
  have h2 := intervalMS_whole hb.orderingSafetyMargin.le (hwhole i).2
  have hd : addMS started (intervalMS (cfg i).publishTimeout + intervalMS (cfg i).orderingSafetyMargin) =
      deadline cfg i started := by
    unfold deadline addMS addDuration
    unfold millisecond at h1 h2
    omega
  refine measures_of_max ?_
  cases he : row.handoffNotBefore with
  | none => simp only [releaseAt, he, hms, Option.getD_some, hd]
  | some e => simp only [releaseAt, he, hms, Option.getD_some, hd]

/-- The barrier covers the window of an attempt exactly if the attempt came before the release began. -/
theorem Measures.covers_iff (hfleet : Fleet cfg) (hwhole : Whole cfg) {i : ι} {started barrier t : Int}
    {existing : Option Int} (h : Measures cfg i started existing barrier) (ht : Fence.Passed existing t) :
    deadline cfg i t ≤ barrier ↔ t ≤ started := by
  obtain ⟨hle, heq⟩ := h
  constructor
  · intro hcover
    rcases heq with rfl | hex
    · unfold deadline addDuration at hcover
      omega
    · -- an older barrier had passed when the attempt began
      have hb := (hfleet.valid i).bounds
      have h1 := hb.publishTimeout
      have h2 := hb.orderingSafetyMargin
      have hpassed := ht barrier hex
      have h3 := (hwhole i).1
      unfold WholeMS millisecond at h3
      unfold deadline addDuration at hcover
      omega
  · intro hbefore
    exact (addDuration_mono hbefore le_rfl).trans hle

/-! ## The invariant -/

theorem mem_releasesOf {i : ι} {started : Int} {db db' : Db} {r : Release ι}
    (h : r ∈ releasesOf cfg i started db db') :
    r.relay = i ∧ r.started = started ∧ ∃ row row', db.partition r.partition = some row ∧
      db'.partition r.partition = some row' ∧ row.leaseOwner = some (cfg i).instanceID ∧ row.epoch = r.epoch ∧
      row'.leaseOwner = none ∧ row'.handoffNotBefore = some r.barrier := by
  obtain ⟨row, hmem, hr⟩ := List.mem_filterMap.mp h
  split_ifs at hr with ho
  obtain ⟨row', hrow', hr⟩ := Option.bind_eq_some_iff.mp hr
  obtain ⟨barrier, hbarrier, rfl⟩ := Option.map_eq_some_iff.mp hr
  obtain ⟨hrow', hnone⟩ := Option.filter_eq_some_iff.mp hrow'
  exact ⟨rfl, rfl, row, row', db.partition_eq_some.mpr ⟨hmem, rfl⟩, hrow', ho, rfl,
    Option.isNone_iff_eq_none.mp hnone,
    hbarrier⟩

/-- The begins of the ended epoch of a release. -/
def Release.Ended (r : Release ι) (b : Begin ι) : Prop := b.partition = r.partition ∧ b.epoch = r.epoch

/-- A release is right about the begins it is about, and its epoch has ended. -/
structure Right (cfg : ι → Config) (s : State ι) (r : Release ι) : Prop where
  ended : ∀ row, s.db.partition r.partition = some row → r.epoch < row.epoch
  covers : ∀ b ∈ s.begins, r.Ended b →
    b.relay = r.relay ∧ (deadline cfg b.relay b.instant ≤ r.barrier ↔ b.instant ≤ r.started)

structure Inv (cfg : ι → Config) (s : State ι) : Prop where
  held : ∀ p row, s.db.partition p = some row → Held cfg row (s.begins.filter (·.partition = p))
  releases : ∀ r ∈ s.releases, Right cfg s r

/-- What one row goes through in an ownership call of relay `i` that began at `started`. -/
def Written (cfg : ι → Config) (i : ι) (started : Int) (row row' : PartitionRow) : Prop :=
  Reconciled (cfg i).reconcileArgs started row row' ∨
    (row.leaseOwner = some (cfg i).instanceID ∧
      row' = releaseRow started (intervalMS (cfg i).orderingSafetyMargin) row)

theorem Written.held {i : ι} {started : Int} {row row' : PartitionRow} {bs : List (Begin ι)}
    (hw : Written cfg i started row row') (hH : Held cfg row bs) : Held cfg row' bs ∧ row.epoch ≤ row'.epoch := by
  rcases hw with hrec | ⟨-, rfl⟩
  · exact ⟨hH.reconcile hrec, hrec.epoch_le⟩
  · exact ⟨hH.release _, (Int.lt_succ _).le⟩

/-- A row that loses its owner gets a new epoch, and a barrier that is measured from the start of the call. -/
theorem Written.released (hfleet : Fleet cfg) (hwhole : Whole cfg) {i : ι} {started barrier : Int}
    {row row' : PartitionRow} {bs : List (Begin ι)} (hw : Written cfg i started row row') (hH : Held cfg row bs)
    (ho : row.leaseOwner = some (cfg i).instanceID) (hnone : row'.leaseOwner = none)
    (hbarrier : row'.handoffNotBefore = some barrier) :
    row'.epoch = row.epoch + 1 ∧ Measures cfg i started row.handoffNotBefore barrier := by
  obtain ⟨hms, -⟩ := hH.mine hfleet ho
  rcases hw with hrec | ⟨-, rfl⟩
  · cases hrec with
    | released _ =>
      obtain rfl := Option.some.inj hbarrier
      refine ⟨rfl, ?_⟩
      rw [hms]
      exact measures_reconcile hfleet hwhole i started _
    | kept => rw [ho] at hnone; cases hnone
    | renewed _ =>
      have hnone : row.leaseOwner = none := hnone
      rw [ho] at hnone
      cases hnone
    | acquired _ => cases hnone
    | takenOver _ _ _ => cases hnone
  · obtain rfl := Option.some.inj hbarrier
    exact ⟨rfl, measures_release hfleet hwhole hms⟩

/-- What an ownership call of relay `i` does to all rows. -/
def Writes (cfg : ι → Config) (i : ι) (started : Int) (db db' : Db) : Prop :=
  ∀ p row', db'.partition p = some row' → ∃ row, db.partition p = some row ∧ Written cfg i started row row'

theorem writes_reconcile {i : ι} {started : Int} {members : List String} {db db' : Db}
    {result : List OrderingPartition}
    (h : db.reconcileWith (cfg i).reconcileArgs started members = .ok (db', result)) :
    Writes cfg i started db db' := by
  intro p row' hrow'
  rw [(Db.reconcileWith_ok h).1] at hrow'
  obtain ⟨row, hrow, rfl⟩ := Option.map_eq_some_iff.mp hrow'
  exact ⟨row, hrow, .inl (reconciled_reconcileRow (Db.partition_check hrow))⟩

theorem writes_release {i : ι} {now : Int} {db db' : Db}
    (h : db.releaseOrderingPartitions now (cfg i).instanceID (cfg i).orderingSafetyMargin = .ok db') :
    Writes cfg i now db db' := by
  intro p row' hrow'
  rw [(Db.releaseOrderingPartitions_ok h).1] at hrow'
  obtain ⟨row, hrow, rfl⟩ := Option.map_eq_some_iff.mp hrow'
  refine ⟨row, hrow, ?_⟩
  split_ifs with ho
  · exact .inr ⟨ho, rfl⟩
  · exact .inl .kept

/-- An ownership call of relay `i`, whenever it began. -/
theorem Inv.write (hfleet : Fleet cfg) (hwhole : Whole cfg) (hi : Inv cfg s) {i : ι} {started : Int}
    (hrows : Writes cfg i started s.db s'.db) (hbegins : s'.begins = s.begins) {new : List (Release ι)}
    (hreleases : s'.releases = new ++ s.releases)
    (hnew : ∀ r ∈ new, r ∈ releasesOf cfg i started s.db s'.db) : Inv cfg s' := by
  refine ⟨fun p row' hrow' => ?_, fun r hr => ?_⟩
  · obtain ⟨row, hrow, hw⟩ := hrows p row' hrow'
    rw [hbegins]
    exact (hw.held (hi.held p row hrow)).1
  · rw [hreleases] at hr
    rcases List.mem_append.mp hr with hr | hr
    · obtain ⟨hrelay, hstarted, row, row', hrow, hrow', ho, hepoch, hnone, hbarrier⟩ := mem_releasesOf (hnew r hr)
      obtain ⟨row₀, hrow₀, hw⟩ := hrows _ row' hrow'
      rw [hrow] at hrow₀
      obtain rfl := Option.some.inj hrow₀
      have hH := hi.held _ row hrow
      obtain ⟨hnext, hmeasures⟩ := hw.released hfleet hwhole hH ho hnone hbarrier
      refine ⟨fun x hx => ?_, fun b hb hended => ?_⟩
      · rw [hrow'] at hx
        obtain rfl := Option.some.inj hx
        omega
      · rw [hbegins] at hb
        have hmem : b ∈ s.begins.filter (·.partition = r.partition) :=
          List.mem_filter.mpr ⟨hb, decide_eq_true hended.1⟩
        have hcur : b.epoch = row.epoch := hended.2.trans hepoch.symm
        have hmine := (hH.mine hfleet ho).2 b hmem hcur
        rw [hmine, hstarted]
        exact ⟨hrelay.symm, hmeasures.covers_iff hfleet hwhole (hH.current b hmem hcur).2⟩
    · have hright := hi.releases r hr
      refine ⟨fun row' hrow' => ?_, fun b hb => hright.covers b (hbegins ▸ hb)⟩
      obtain ⟨row, hrow, hw⟩ := hrows _ row' hrow'
      have h1 := hright.ended row hrow
      have h2 := (hw.held (hi.held _ row hrow)).2
      omega

/-- A step that leaves the partition rows and the begins alone. -/
theorem Inv.keep (hi : Inv cfg s) (hrows : ∀ p, s'.db.partition p = s.db.partition p) (hbegins : s'.begins = s.begins)
    (hreleases : s'.releases = s.releases) : Inv cfg s' := by
  refine ⟨fun p row hrow => ?_, fun r hr => ?_⟩
  · rw [hbegins]
    exact hi.held p row (hrows p ▸ hrow)
  · have hright := hi.releases r (hreleases ▸ hr)
    exact ⟨fun row hrow => hright.ended row (hrows _ ▸ hrow), fun b hb => hright.covers b (hbegins ▸ hb)⟩

theorem Inv.next (hfleet : Fleet cfg) (hwhole : Whole cfg) {a : Action ι} (hi : Inv cfg s)
    (hs : step cfg s a = some s') : Inv cfg s' := by
  cases a with
  | start i =>
    obtain rfl := Option.some.inj hs
    exact hi.keep (fun _ => rfl) rfl rfl
  | commit n =>
    simp only [step] at hs
    split at hs
    · cases hs
    · rename_i p hp
      split at hs
      · cases hs
      · rename_i db result hr
        obtain rfl := Option.some.inj hs
        exact hi.write hfleet hwhole (writes_reconcile hr) rfl rfl fun r hr => hr
  | call a =>
    obtain ⟨t, ht, rfl⟩ := Option.map_eq_some_iff.mp hs
    cases a with
    | tick d =>
      obtain rfl := Option.some.inj ht
      exact hi.keep (fun _ => rfl) rfl rfl
    | other change =>
      simp only [Handoff.step] at ht
      split_ifs at ht with hrows
      obtain rfl := Option.some.inj ht
      refine hi.keep (fun p => ?_) rfl rfl
      show lookup PartitionRow.id _ p = lookup PartitionRow.id _ p
      rw [← hrows]
    | reconcile i =>
      simp only [Handoff.step] at ht
      split at ht
      · cases ht
      · rename_i db result hr
        obtain rfl := Option.some.inj ht
        exact hi.write hfleet hwhole (writes_reconcile hr) rfl rfl fun r hr => hr
    | release i =>
      simp only [Handoff.step] at ht
      split at ht
      · cases ht
      · rename_i db hr
        obtain rfl := Option.some.inj ht
        exact hi.write hfleet hwhole (writes_release hr) rfl rfl fun r hr => hr
    | begin i id epoch =>
      obtain ⟨p, row, hrow, hepoch, hauth, hkeep, hclock, hbegins⟩ := begin_ok ht
      have hrows : ∀ q, t.db.partition q = s.db.partition q := by
        intro q
        unfold Db.partition
        rw [hkeep.partitions]
      refine ⟨fun q row' hrow' => ?_, fun r hr => ?_⟩
      · rw [show t.db.partition q = s.db.partition q from hrows q] at hrow'
        show Held cfg row' (t.begins.filter _)
        rw [hbegins]
        by_cases hq : p = q
        · subst hq
          rw [hrow] at hrow'
          obtain rfl := Option.some.inj hrow'
          rw [List.filter_cons_of_pos (by simp)]
          exact (hi.held p row hrow).begin hepoch.symm hauth
        · rw [List.filter_cons_of_neg (by simpa using hq)]
          exact hi.held q row' hrow'
      · have hright := hi.releases r hr
        refine ⟨fun row' hrow' => hright.ended row' ((hrows _).symm.trans hrow'), fun b hb hended => ?_⟩
        have hb : b ∈ t.begins := hb
        rw [hbegins] at hb
        rcases List.mem_cons.mp hb with rfl | hb
        · -- the new begin is of an epoch that has not ended
          obtain ⟨hpart, hend⟩ := hended
          have hpart : p = r.partition := hpart
          have hend : epoch = r.epoch := hend
          have hlt := hright.ended row (hpart ▸ hrow)
          omega
        · exact hright.covers b hb hended

theorem Reachable.inv (hfleet : Fleet cfg) (hwhole : Whole cfg) (h : Reachable cfg s) : Inv cfg s := by
  obtain ⟨clock, hrun⟩ := h
  refine hrun.inv (I := Inv cfg) (fun s a s' hi _ hs => hi.next hfleet hwhole hs) ⟨fun p row hrow => ?_, ?_⟩
  · have hinit : AllGuarded cfg clock Db.empty [] := AllGuarded.init clock
    exact (hinit.row p row hrow).toHeld
  · intro r hr
    cases hr

/-- **When a release covers an attempt.**  The barrier a release writes covers the publish window of an attempt of the
ended epoch exactly if the attempt began no later than the transaction of the release. -/
theorem release_covers_iff (hvalid : ∀ i, (cfg i).Valid)
    (hunique : ∀ i j, (cfg i).instanceID = (cfg j).instanceID → i = j)
    (hwhole : ∀ i, WholeMS (cfg i).publishTimeout ∧ WholeMS (cfg i).orderingSafetyMargin)
    (hsums : ∀ i j, (cfg i).publishTimeout + (cfg j).orderingSafetyMargin ≤ maxInt64) (h : Reachable cfg s) :
    ∀ r ∈ s.releases, ∀ b ∈ s.begins, b.partition = r.partition → b.epoch = r.epoch → b.relay = r.relay ∧
      (1000 * b.instant + ((cfg r.relay).publishTimeout + (cfg r.relay).orderingSafetyMargin) ≤ 1000 * r.barrier ↔
        b.instant ≤ r.started) := by
  intro r hr b hb hpart hepoch
  have hi := h.inv (fleet_of_whole hvalid hunique hwhole hsums) hwhole
  obtain ⟨hrelay, hiff⟩ := (hi.releases r hr).covers b hb ⟨hpart, hepoch⟩
  refine ⟨hrelay, ?_⟩
  rw [← hiff, hrelay, ← deadline_of_whole (hwhole r.relay) b.instant]
  constructor <;> intro hle <;> omega

/-- An event of a stream whose partition goes to relay B when B appears. -/
def exampleMovingCall : Outbox.Call :=
  { exampleCall with event := { exampleCall.event with orderingKey := "c", sequence := 1 } }

/-- Relay A holds all partitions when relay B appears; A starts to reconcile, and commits two seconds later.  `before`
and `after` are what A's handler does before and after the start. -/
def exampleRun (before after : List (Action Bool)) : List (Action Bool) :=
  [.call (.other (changed fun db => db.registerRelay 0 examplePresence)), .call (.reconcile false),
   .call (.other fun db => ((Outbox.enqueueAll 0 db [exampleMovingCall]).map (·.1)).getD db),
   .call (.other (changed fun db => db.registerRelay 0 { examplePresence with instanceID := "relay-b" })),
   .call (.other (changed fun db =>
     (db.claimOrdered 0 (fun _ => false) "relay-a" 10 (30 * second) (11 * second)).map (·.1)))] ++
  before ++ [.start false, .call (.tick 1000000)] ++ after ++ [.call (.tick 1000000), .commit 0]

/-- Some release and some begin of its ended epoch pass a test. -/
def someRelease (test : Release Bool → Begin Bool → Bool) (s : State Bool) : Bool :=
  s.releases.any fun r => s.begins.any fun b => b.partition = r.partition && b.epoch = r.epoch && test r b

theorem exists_of_someRelease {test : Release Bool → Begin Bool → Bool} {s : State Bool}
    (h : someRelease test s = true) : ∃ r ∈ s.releases, ∃ b ∈ s.begins, b.partition = r.partition ∧
      b.epoch = r.epoch ∧ test r b = true := by
  obtain ⟨r, hr, h⟩ := List.any_eq_true.mp h
  obtain ⟨b, hb, h⟩ := List.any_eq_true.mp h
  simp only [Bool.and_eq_true, decide_eq_true_eq] at h
  exact ⟨r, hr, b, hb, h.1.1, h.1.2, h.2⟩

/-- An attempt before the start of the transaction is covered, however long the transaction waits. -/
theorem release_covers_iff_before : ∃ s : State Bool, Reachable exampleRelays s ∧ ∃ r ∈ s.releases,
    ∃ b ∈ s.begins,
    b.partition = r.partition ∧ b.epoch = r.epoch ∧ 1000 * b.instant + 11 * second ≤ 1000 * r.barrier := by
  obtain ⟨s, hrun, hp⟩ := Runs.exists_of_exec (step exampleRelays) (State.init Bool 0)
    (exampleRun [.call (.begin false exampleID 1)] [])
    (someRelease fun r b => r.relay = false && b.instant ≤ r.started) (by decide +kernel)
  have hreach : Reachable exampleRelays s := ⟨0, hrun⟩
  obtain ⟨r, hr, b, hb, hpart, hepoch, htest⟩ := exists_of_someRelease hp
  obtain ⟨hrelay, hbefore⟩ := Bool.and_eq_true_iff.mp htest
  have hcover := (release_covers_iff (by decide +kernel) (by decide +kernel) (by decide +kernel) (by decide +kernel)
    hreach r hr b hb hpart hepoch).2.mpr (of_decide_eq_true hbefore)
  rw [of_decide_eq_true hrelay] at hcover
  exact ⟨s, hreach, r, hr, b, hb, hpart, hepoch, hcover⟩

/-- Relay A begins an attempt while its own reconciliation waits: the barrier it writes ends before the window. -/
theorem release_misses_attempt : (∀ i, (exampleRelays i).Valid) ∧ ∃ s : State Bool, Reachable exampleRelays s ∧
    ∃ r ∈ s.releases, ∃ b ∈ s.begins, b.relay = r.relay ∧ b.partition = r.partition ∧ b.epoch = r.epoch ∧
      1000 * r.barrier <
        1000 * b.instant +
          ((exampleRelays r.relay).publishTimeout + (exampleRelays r.relay).orderingSafetyMargin) := by
  refine ⟨by decide +kernel, ?_⟩
  obtain ⟨s, hrun, hp⟩ := Runs.exists_of_exec (step exampleRelays) (State.init Bool 0)
    (exampleRun [] [.call (.begin false exampleID 1)])
    (someRelease fun r b => b.relay = r.relay && 1000 * r.barrier < 1000 * b.instant +
      ((exampleRelays r.relay).publishTimeout + (exampleRelays r.relay).orderingSafetyMargin)) (by decide +kernel)
  obtain ⟨r, hr, b, hb, hpart, hepoch, htest⟩ := exists_of_someRelease hp
  obtain ⟨hrelay, hmiss⟩ := Bool.and_eq_true_iff.mp htest
  exact ⟨s, ⟨0, hrun⟩, r, hr, b, hb, of_decide_eq_true hrelay, hpart, hepoch, of_decide_eq_true hmiss⟩

end

end Emitlane.LockWait
