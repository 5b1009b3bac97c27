import Emitlane.Lib.Fence
import Emitlane.Cursor
import Emitlane.StaleClaims
import Emitlane.Store.Reconcile

/-!
# Handoff — publish windows of different epochs stay apart

A partition row is a lease of `Fence`, and each successful BeginOrderedAttempt is a use of it that lasts for the
publish window of its relay.  `Guarded` is the invariant of a row: the fence, together with what the row stores about
its owner (`Held`).  Reconciliation, release and begin keep it (`Guarded.reconcile`, `Guarded.release`,
`Guarded.begin`).

The second part runs these calls alone, with everything else in the database changed at will.
-/

namespace Emitlane

open Relay Rel

/-- A successful BeginOrderedAttempt. -/
structure Begin (ι : Type) where
  relay : ι
  partition : Int
  epoch : Int
  instant : Int

section

variable {ι : Type} (cfg : ι → Config)

/-- The assumptions on the relays: valid configurations, unique instance ids, and windows without overflow. -/
structure Fleet : Prop where
  valid : ∀ i, (cfg i).Valid
  unique : ∀ i j, (cfg i).instanceID = (cfg j).instanceID → i = j
  sums : ∀ i j, intervalMS (cfg i).publishTimeout * millisecond + (cfg j).orderingSafetyMargin ≤ maxInt64

/-- A partition row as a lease. -/
def PartitionRow.lease (row : PartitionRow) : Fence.Lease String Int :=
  ⟨row.leaseOwner, row.leaseUntil, row.epoch, row.handoffNotBefore⟩

/-- A begin uses the lease for the publish window. -/
def Begin.use (b : Begin ι) : Fence.Use Int := ⟨b.epoch, b.instant, deadline cfg b.relay b.instant⟩

/-- What a row says about the begins under it, whatever their instants are. -/
structure Held (row : PartitionRow) (bs : List (Begin ι)) : Prop where
  bound : ∀ b ∈ bs, b.epoch ≤ row.epoch
  /-- The row stores the publish timeout of its owner. -/
  holder : ∀ o, row.leaseOwner = some o → ∃ i, o = (cfg i).instanceID ∧
    row.publishTimeoutMS = some (intervalMS (cfg i).publishTimeout)
  /-- The begins of the current epoch are the owner's, and came after the barrier. -/
  current : ∀ b ∈ bs, b.epoch = row.epoch → row.leaseOwner = some (cfg b.relay).instanceID ∧
    Fence.Passed row.handoffNotBefore b.instant

/-- The invariant of a partition row and the begins under it. -/
structure Guarded (row : PartitionRow) (bs : List (Begin ι)) : Prop extends Held cfg row bs where
  fence : Fence.Inv row.lease (bs.map (Begin.use cfg))

variable {cfg} {row : PartitionRow} {bs : List (Begin ι)} {now : Int}

theorem Fleet.window (hfleet : Fleet cfg) (i : ι) :
    (cfg i).window = (cfg i).publishTimeout + (cfg i).orderingSafetyMargin := by
  have hb := (hfleet.valid i).bounds
  have h1 := hb.publishTimeout
  have h2 := hb.orderingSafetyMargin
  have h3 := le_intervalMS (cfg i).publishTimeout
  have h4 := hfleet.sums i i
  exact addInt64_eq (by omega) (by omega)

/-! ## The invariant of a row -/

/-- Epochs do not go back. -/
theorem Reconciled.epoch_le {a : ReconcileArgs} {row' : PartitionRow} (h : Reconciled a now row row') :
    row.epoch ≤ row'.epoch := by
  cases h with
  | kept => exact le_rfl
  | renewed _ => exact le_rfl
  | released _ => exact (Int.lt_succ _).le
  | acquired _ => exact (Int.lt_succ _).le
  | takenOver _ _ _ => exact (Int.lt_succ _).le

/-- The publish window that a release adds to its instant. -/
theorem le_releaseBarrier {existing ms : Option Int} {margin w : Int} (hw0 : 0 ≤ ms.getD 0 * millisecond + margin)
    (hsum : ms.getD 0 * millisecond + margin ≤ maxInt64) (hw : w ≤ ms.getD 0 * millisecond + margin) {t : Int}
    (ht : t ≤ now) : addDuration t w ≤ releaseBarrier now existing ms margin := by
  have hle : addDuration t w ≤ addDuration now (addInt64 (ms.getD 0 * millisecond) margin) := by
    rw [addInt64_eq hw0 hsum]
    exact addDuration_mono ht hw
  unfold releaseBarrier
  simp only
  split
  · split_ifs <;> omega
  · exact hle

/-- What a row of relay `i` says: its publish timeout is the relay's, and the begins of the epoch are the relay's. -/
theorem Held.mine (hfleet : Fleet cfg) (hH : Held cfg row bs) {i : ι}
    (ho : row.leaseOwner = some (cfg i).instanceID) :
    row.publishTimeoutMS = some (intervalMS (cfg i).publishTimeout) ∧
      ∀ b ∈ bs, b.epoch = row.epoch → b.relay = i := by
  constructor
  · obtain ⟨j, hj, hms⟩ := hH.holder _ ho
    rw [hfleet.unique i j hj]
    exact hms
  · intro b hb hepoch
    obtain ⟨hcur, -⟩ := hH.current b hb hepoch
    rw [ho] at hcur
    exact (hfleet.unique i b.relay (Option.some.inj hcur)).symm

/-- A new epoch has no begins yet. -/
theorem Held.end_epoch {row' : PartitionRow} (hH : Held cfg row bs) (he : row'.epoch = row.epoch + 1)
    (hholder : ∀ o, row'.leaseOwner = some o → ∃ i, o = (cfg i).instanceID ∧
      row'.publishTimeoutMS = some (intervalMS (cfg i).publishTimeout)) : Held cfg row' bs where
  bound b hb := by have := hH.bound b hb; omega
  holder := hholder
  current b hb hc := by have := hH.bound b hb; omega

theorem Held.reconcile (hH : Held cfg row bs) {i : ι} {row' : PartitionRow}
    (hrec : Reconciled (cfg i).reconcileArgs now row row') : Held cfg row' bs := by
  have hnew : ∀ o, some (cfg i).instanceID = some o → ∃ j, o = (cfg j).instanceID ∧
      some (intervalMS (cfg i).publishTimeout) = some (intervalMS (cfg j).publishTimeout) :=
    fun o ho => ⟨i, (Option.some.inj ho).symm, rfl⟩
  cases hrec with
  | kept => exact hH
  | released _ => exact hH.end_epoch rfl fun o ho => by cases ho
  | renewed ho => exact ⟨hH.bound, fun o ho' => hnew o (ho.symm.trans ho'), hH.current⟩
  | acquired _ => exact hH.end_epoch rfl hnew
  | takenOver _ _ _ => exact hH.end_epoch rfl hnew

theorem Held.release (hH : Held cfg row bs) (marginMS : Int) : Held cfg (releaseRow now marginMS row) bs :=
  hH.end_epoch rfl fun o ho => by cases ho

theorem Held.begin (hH : Held cfg row bs) {b : Begin ι} (he : b.epoch = row.epoch) {alive : Int → Bool}
    (hauth : row.authority (cfg b.relay).instanceID b.instant alive = true) : Held cfg row (b :: bs) := by
  obtain ⟨ho, -, hpassed⟩ := PartitionRow.authority_iff.mp hauth
  refine ⟨fun b' hb' => ?_, hH.holder, fun b' hb' hc => ?_⟩
  · rcases List.mem_cons.mp hb' with rfl | hb'
    · exact he.le
    · exact hH.bound b' hb'
  · rcases List.mem_cons.mp hb' with rfl | hb'
    · exact ⟨ho, hpassed⟩
    · exact hH.current b' hb' hc

/-- Ownership ends: the begins of the old epoch are over before the new barrier. -/
theorem Guarded.end_epoch {row' : PartitionRow} (hG : Guarded cfg row bs) (hH : Held cfg row' bs)
    (he : row'.epoch = row.epoch + 1)
    (hb : ∀ x, row.handoffNotBefore = some x → Fence.Before x row'.handoffNotBefore)
    (hu : ∀ b ∈ bs, b.epoch = row.epoch → Fence.Before (deadline cfg b.relay b.instant) row'.handoffNotBefore) :
    Guarded cfg row' bs := by
  refine ⟨hH, hG.fence.end_epoch he hb fun u hmem hc => ?_⟩
  obtain ⟨b, hb, rfl⟩ := List.mem_map.mp hmem
  exact hu b hb hc

/-- The begins of relay `i` under its epoch are over before the barrier of a release. -/
theorem Fleet.over_before_barrier (hfleet : Fleet cfg) {i : ι} {t : Int} (ht : t ≤ now) (existing : Option Int) :
    deadline cfg i t ≤ releaseBarrier now existing (some (intervalMS (cfg i).publishTimeout))
      (cfg i).orderingSafetyMargin := by
  have hb := (hfleet.valid i).bounds
  have h1 := hb.publishTimeout
  have h2 := hb.orderingSafetyMargin
  have h3 := le_intervalMS (cfg i).publishTimeout
  have h4 := hfleet.sums i i
  refine le_releaseBarrier ?_ ?_ ?_ ht
  · show 0 ≤ intervalMS (cfg i).publishTimeout * millisecond + (cfg i).orderingSafetyMargin
    omega
  · exact h4
  · show (cfg i).publishTimeout + (cfg i).orderingSafetyMargin ≤
      intervalMS (cfg i).publishTimeout * millisecond + (cfg i).orderingSafetyMargin
    omega

/-- A reconciliation keeps the invariant, if no begin of the current epoch came after the instant it works with. -/
theorem Guarded.reconcile (hfleet : Fleet cfg) (hG : Guarded cfg row bs)
    (hnow : ∀ b ∈ bs, b.epoch = row.epoch → b.instant ≤ now) {i : ι} {row' : PartitionRow}
    (hrec : Reconciled (cfg i).reconcileArgs now row row') : Guarded cfg row' bs := by
  have hmargin := (hfleet.valid i).bounds.orderingSafetyMargin
  have hH := hG.toHeld.reconcile hrec
  have hexisting : ∀ x, row.handoffNotBefore = some x →
      x ≤ releaseBarrier now row.handoffNotBefore row.publishTimeoutMS (cfg i).orderingSafetyMargin := by
    intro x hx
    rw [hx]
    exact existing_le_releaseBarrier
  cases hrec with
  | kept => exact hG
  | released ho =>
    obtain ⟨hms, hmine⟩ := hG.mine hfleet ho
    refine hG.end_epoch hH rfl (fun x hx => ⟨_, rfl, hexisting x hx⟩) fun b hb hc => ⟨_, rfl, ?_⟩
    rw [hmine b hb hc, hms]
    exact hfleet.over_before_barrier (hnow b hb hc) _
  | renewed ho =>
    obtain ⟨-, hmine⟩ := hG.mine hfleet ho
    refine ⟨hH, hG.fence.extend rfl rfl rfl fun u hu hc => ?_⟩
    -- the new lease is longer than the window of a begin up to now
    obtain ⟨b, hb, rfl⟩ := List.mem_map.mp hu
    refine ⟨_, rfl, ?_⟩
    have hwin := (hfleet.valid i).bounds.window
    rw [hfleet.window] at hwin
    show deadline cfg b.relay b.instant ≤ addDuration now (cfg i).orderingLeaseDuration
    rw [hmine b hb hc]
    exact addDuration_mono (hnow b hb hc) (by omega)
  | acquired ho =>
    refine hG.end_epoch hH rfl (fun x hx => ⟨x, hx, le_rfl⟩) fun b hb hc => ?_
    obtain ⟨hcur, -⟩ := hG.current b hb hc
    rw [ho] at hcur
    cases hcur
  | @takenOver o u ho hu hle =>
    refine hG.end_epoch hH rfl (fun x hx => ⟨_, rfl, hexisting x hx⟩) fun b hb hc => ⟨_, rfl, ?_⟩
    show deadline cfg b.relay b.instant ≤ releaseBarrier now row.handoffNotBefore row.publishTimeoutMS
      (cfg i).orderingSafetyMargin
    -- the lease is over, and the begins of the epoch ended within it
    obtain ⟨-, x, hx, hd⟩ := hG.fence.current _ (List.mem_map_of_mem hb) hc
    have hx : row.leaseUntil = some x := hx
    rw [hu] at hx
    obtain rfl := Option.some.inj hx
    have hd : deadline cfg b.relay b.instant ≤ u := hd
    have hbarrier : addDuration now 0 ≤ releaseBarrier now row.handoffNotBefore row.publishTimeoutMS
        (cfg i).orderingSafetyMargin := by
      obtain ⟨j, -, hms⟩ := hG.holder o ho
      have hnonneg := intervalMS_nonneg (cfg j).publishTimeout
      have hpos : 0 ≤ intervalMS (cfg j).publishTimeout * millisecond + (cfg i).orderingSafetyMargin := by
        unfold millisecond
        omega
      rw [hms]
      exact le_releaseBarrier hpos (hfleet.sums j i) hpos le_rfl
    unfold addDuration at hbarrier
    omega

/-- A release keeps it, for the rows of relay `i`. -/
theorem Guarded.release (hfleet : Fleet cfg) (hG : Guarded cfg row bs)
    (hnow : ∀ b ∈ bs, b.epoch = row.epoch → b.instant ≤ now) {i : ι}
    (ho : row.leaseOwner = some (cfg i).instanceID) :
    Guarded cfg (releaseRow now (intervalMS (cfg i).orderingSafetyMargin) row) bs := by
  obtain ⟨hms, hmine⟩ := hG.mine hfleet ho
  refine hG.end_epoch (hG.toHeld.release _) rfl (fun x hx => ⟨_, rfl, ?_⟩) fun b hb hc => ⟨_, rfl, ?_⟩
  · unfold releaseAt
    rw [hx]
    exact le_max_left _ _
  · have hle : deadline cfg b.relay b.instant ≤ addMS now
        (row.publishTimeoutMS.getD 0 + intervalMS (cfg i).orderingSafetyMargin) := by
      rw [hmine b hb hc, hms]
      refine (addDuration_mono (hnow b hb hc) le_rfl).trans (addDuration_le_addMS ?_)
      have h1 := le_intervalMS (cfg i).publishTimeout
      have h2 := le_intervalMS (cfg i).orderingSafetyMargin
      show _ ≤ (intervalMS (cfg i).publishTimeout + _) * millisecond
      unfold millisecond at h1 h2 ⊢
      omega
    unfold releaseAt
    simp only
    split
    · exact hle.trans (le_max_right _ _)
    · exact hle

/-- A begin keeps it. -/
theorem Guarded.begin (hfleet : Fleet cfg) (hG : Guarded cfg row bs) {b : Begin ι} (he : b.epoch = row.epoch)
    (hauth : row.authority (cfg b.relay).instanceID b.instant
      (addMS b.instant (intervalMS (cfg b.relay).window) ≤ ·) = true) : Guarded cfg row (b :: bs) := by
  obtain ⟨ho, ⟨u, hu, hle⟩, -⟩ := PartitionRow.authority_iff.mp hauth
  refine ⟨hG.toHeld.begin he hauth, hG.fence.use he ?_ ⟨u, hu, le_trans ?_ (of_decide_eq_true hle)⟩⟩
  · show row.leaseOwner.isSome = true
    rw [ho]
    rfl
  · show addDuration b.instant _ ≤ _
    rw [hfleet.window]
    exact addDuration_le_addMS (le_intervalMS _)

/-- **The windows of other epochs are over when an attempt begins.** -/
theorem Guarded.apart (hG : Guarded cfg row bs) {owner : String} {alive : Int → Bool}
    (hauth : row.authority owner now alive = true) {b : Begin ι} (hb : b ∈ bs) (hne : b.epoch ≠ row.epoch) :
    b.epoch < row.epoch ∧ deadline cfg b.relay b.instant ≤ now :=
  hG.fence.apart (PartitionRow.authority_iff.mp hauth).2.2 (List.mem_map_of_mem hb) hne

/-! ## All partitions -/

variable (cfg) in
/-- Every partition row is guarded, and no begin is in the future. -/
structure AllGuarded (clock : Int) (db : Db) (begins : List (Begin ι)) : Prop where
  row : ∀ p row, db.partition p = some row → Guarded cfg row (begins.filter (·.partition = p))
  begun : ∀ b ∈ begins, b.instant ≤ clock

variable {db db' : Db} {begins : List (Begin ι)}

theorem AllGuarded.init (clock : Int) : AllGuarded cfg clock Db.empty [] := by
  refine ⟨fun p row hrow => ?_, fun b hb => by cases hb⟩
  obtain ⟨hmem, -⟩ := Db.empty.partition_eq_some.mp hrow
  obtain ⟨n, -, rfl⟩ := List.mem_map.mp hmem
  exact ⟨⟨fun b hb => (by cases hb), fun o ho => (by cases ho), fun b hb => (by cases hb)⟩, Fence.Inv.init _⟩

theorem AllGuarded.tick (h : AllGuarded cfg now db begins) {clock : Int} (hle : now ≤ clock) :
    AllGuarded cfg clock db begins := ⟨h.row, fun b hb => (h.begun b hb).trans hle⟩

theorem PartitionMove.epoch_le (hmove : PartitionMove cfg now db db') {p : Int} {row : PartitionRow}
    (hrow : db.partition p = some row) : ∃ row', db'.partition p = some row' ∧ row.epoch ≤ row'.epoch := by
  rcases hmove with heq | ⟨i, members, hrows⟩ | ⟨i, hrows⟩
  · refine ⟨row, ?_, le_rfl⟩
    unfold Db.partition at hrow ⊢
    rw [heq]
    exact hrow
  · rw [hrows, hrow, Option.map_some]
    exact ⟨_, rfl, (reconciled_reconcileRow (Db.partition_check hrow)).epoch_le⟩
  · rw [hrows, hrow, Option.map_some]
    refine ⟨_, rfl, ?_⟩
    split_ifs
    · exact (Int.lt_succ _).le
    · exact le_rfl

theorem AllGuarded.move (hfleet : Fleet cfg) (h : AllGuarded cfg now db begins)
    (hmove : PartitionMove cfg now db db') : AllGuarded cfg now db' begins := by
  refine ⟨fun p row hrow => ?_, h.begun⟩
  have hnow : ∀ {r : PartitionRow}, ∀ b ∈ begins.filter (·.partition = p), b.epoch = r.epoch →
    b.instant ≤ now :=
    fun b hb _ => h.begun b (List.mem_filter.mp hb).1
  rcases hmove with heq | ⟨i, members, hrows⟩ | ⟨i, hrows⟩
  · refine h.row p row ?_
    unfold Db.partition at hrow ⊢
    rw [← heq]
    exact hrow
  · rw [hrows] at hrow
    obtain ⟨row₀, hrow₀, rfl⟩ := Option.map_eq_some_iff.mp hrow
    exact (h.row p row₀ hrow₀).reconcile hfleet hnow (reconciled_reconcileRow (Db.partition_check hrow₀))
  · rw [hrows] at hrow
    obtain ⟨row₀, hrow₀, rfl⟩ := Option.map_eq_some_iff.mp hrow
    split_ifs with ho
    · exact (h.row p row₀ hrow₀).release hfleet hnow ho
    · exact h.row p row₀ hrow₀

/-- The rows of the partitions stay, and keep what they store about their owner. -/
theorem PartitionMove.held (hmove : PartitionMove cfg now db db')
    (h : ∀ p row, db.partition p = some row → Held cfg row bs) {p : Int} {row : PartitionRow}
    (hrow : db'.partition p = some row) : Held cfg row bs := by
  rcases hmove with heq | ⟨i, members, hrows⟩ | ⟨i, hrows⟩
  · refine h p row ?_
    unfold Db.partition at hrow ⊢
    rw [← heq]
    exact hrow
  · rw [hrows] at hrow
    obtain ⟨row₀, hrow₀, rfl⟩ := Option.map_eq_some_iff.mp hrow
    exact (h p row₀ hrow₀).reconcile (reconciled_reconcileRow (Db.partition_check hrow₀))
  · rw [hrows] at hrow
    obtain ⟨row₀, hrow₀, rfl⟩ := Option.map_eq_some_iff.mp hrow
    split_ifs
    · exact (h p row₀ hrow₀).release _
    · exact h p row₀ hrow₀

/-- The 64 partitions are there. -/
theorem Reachable.partition_exists {s : State ι} (h : Reachable cfg s) {p : Int} (h0 : 0 ≤ p) (h63 : p ≤ 63) :
    ∃ row, s.db.partition p = some row := by
  refine h.inv (I := fun s => ∀ p : Int, 0 ≤ p → p ≤ 63 → ∃ row, s.db.partition p = some row) ?_ ?_ p h0 h63
  · intro clock p h0 h63
    have hseed : ∀ n < 64, (Db.empty.partition (n : Nat)).isSome = true := by decide +kernel
    have hp := hseed p.toNat (by omega)
    rw [Int.toNat_of_nonneg h0] at hp
    exact Option.isSome_iff_exists.mp hp
  · intro s a s' _ hi hs p h0 h63
    obtain ⟨row, hrow⟩ := hi p h0 h63
    obtain ⟨row', hrow', -⟩ := hs.move.epoch_le hrow
    exact ⟨row', hrow'⟩

/-- The seeded ids, and no others. -/
theorem Reachable.partition_ids {s : State ι} (h : Reachable cfg s) :
    (s.db.partitions.rows.map (·.id)).Perm ((List.range Ordering.partitionCount).map fun (n : Nat) => (n : Int)) := by
  refine (List.perm_ext_iff_of_nodup s.db.partitions.ok.1 (by decide)).mpr fun p => ?_
  rw [List.mem_map, List.mem_map]
  constructor
  · rintro ⟨row, hrow, rfl⟩
    have hcheck := s.db.partitions.ok.2 row hrow
    simp only [PartitionRow.check, Bool.and_eq_true, decide_eq_true_eq] at hcheck
    obtain ⟨h0, h63⟩ := hcheck.1.1.1.1.1
    refine ⟨row.id.toNat, List.mem_range.mpr ?_, Int.toNat_of_nonneg h0⟩
    unfold Ordering.partitionCount
    omega
  · rintro ⟨n, hn, rfl⟩
    have hlt : n < 64 := List.mem_range.mp hn
    obtain ⟨row, hrow⟩ := h.partition_exists (p := n) (by omega) (by omega)
    exact ⟨row, s.db.partition_eq_some.mp hrow⟩

/-- A partition is owned by a relay, and stores its publish timeout. -/
theorem Reachable.partition_held {s : State ι} (h : Reachable cfg s) {p : Int} {row : PartitionRow}
    (hrow : s.db.partition p = some row) : Held cfg row [] := by
  refine h.inv (I := fun s => ∀ p row, s.db.partition p = some row → Held cfg row []) ?_ ?_ p row hrow
  · intro clock p row hrow
    have hseed : ∀ r ∈ seedPartitions, r.leaseOwner = none := by decide
    have hnone := hseed row ((Db.partition_eq_some _).mp hrow).1
    refine ⟨by simp, fun o ho => ?_, by simp⟩
    rw [hnone] at ho
    cases ho
  · intro s a s' _ hi hs p row hrow
    exact hs.move.held hi hrow

/-- A begin under the current epoch of its partition. -/
theorem AllGuarded.begin (hfleet : Fleet cfg) (h : AllGuarded cfg now db begins) {b : Begin ι} {row : PartitionRow}
    (hrow : db.partition b.partition = some row) (hnow : b.instant = now) (he : b.epoch = row.epoch)
    (hauth : row.authority (cfg b.relay).instanceID now (addMS now (intervalMS (cfg b.relay).window) ≤ ·) = true) :
    AllGuarded cfg now db (b :: begins) := by
  refine ⟨fun p row' hrow' => ?_, fun b' hb' => ?_⟩
  · by_cases hp : b.partition = p
    · subst hp
      rw [hrow] at hrow'
      obtain rfl := Option.some.inj hrow'
      rw [List.filter_cons_of_pos (by simp)]
      exact (h.row _ row hrow).begin hfleet he (hnow ▸ hauth)
    · rw [List.filter_cons_of_neg (by simpa using hp)]
      exact h.row p row' hrow'
  · rcases List.mem_cons.mp hb' with rfl | hb'
    · exact hnow.le
    · exact h.begun b' hb'

/-- A begin comes after the windows of all begins of other epochs of its partition. -/
theorem AllGuarded.apart (h : AllGuarded cfg now db begins) {b : Begin ι} (hb : b ∈ begins) {row : PartitionRow}
    (hrow : db.partition b.partition = some row) {owner : String} {alive : Int → Bool}
    (hauth : row.authority owner now alive = true) (hne : b.epoch ≠ row.epoch) :
    b.epoch < row.epoch ∧ deadline cfg b.relay b.instant ≤ now :=
  (h.row _ row hrow).apart hauth (List.mem_filter.mpr ⟨hb, decide_eq_true rfl⟩) hne

/-! ## Runs of the ownership protocol -/

namespace Handoff

/-- The database, and the begins so far, newest first. -/
structure State (ι : Type) where
  clock : Int
  db : Db
  begins : List (Begin ι)

inductive Action (ι : Type)
  | tick (d : Nat)
  /-- Anything that leaves the partition rows alone: membership, events and streams change at will. -/
  | other (change : Db → Db)
  | reconcile (i : ι)
  | release (i : ι)
  | begin (i : ι) (id : Uuid) (epoch : Int)

variable (cfg) in
def step (s : State ι) : Action ι → Option (State ι)
  | .tick d => some { s with clock := s.clock + d }
  | .other change =>
    if (change s.db).partitions.rows = s.db.partitions.rows then some { s with db := change s.db } else none
  | .reconcile i =>
    match s.db.reconcileOrderingPartitions s.clock (cfg i).reconcileArgs with
    | .error _ => none
    | .ok (db, _) => some { s with db := db }
  | .release i =>
    match s.db.releaseOrderingPartitions s.clock (cfg i).instanceID (cfg i).orderingSafetyMargin with
    | .error _ => none
    | .ok db => some { s with db := db }
  | .begin i id epoch =>
    match s.db.beginOrderedAttempt s.clock id (cfg i).instanceID epoch (cfg i).maxAttempts (cfg i).window with
    | .error _ => none
    | .ok (db, _) =>
      some { s with
        db := db
        begins := ((s.db.row id).bind (·.orderingPartition)).toList.map (⟨i, ·, epoch, s.clock⟩) ++ s.begins }

/-- The migrated schema. -/
def State.init (ι : Type) (clock : Int) : State ι := ⟨clock, Db.empty, []⟩

variable (cfg) in
def Reachable (s : State ι) : Prop := ∃ clock, Runs.Reach (step cfg) Runs.Free (State.init ι clock) s

/-- Two begins of a partition, the second not before the first, under different epochs: the epoch has moved on and the
window of the first is over. -/
def Apart (cfg : ι → Config) (a b : Begin ι) : Prop :=
  a.partition = b.partition → a.epoch ≠ b.epoch →
    a.epoch < b.epoch ∧ deadline cfg a.relay a.instant ≤ b.instant

variable {s s' : State ι}

theorem begin_ok {i : ι} {id : Uuid} {epoch : Int} (h : step cfg s (.begin i id epoch) = some s') :
    ∃ p row, s.db.partition p = some row ∧ row.epoch = epoch ∧
      row.authority (cfg i).instanceID s.clock (addMS s.clock (intervalMS (cfg i).window) ≤ ·) = true ∧
      s.db.KeepsOrdering s'.db ∧ s'.clock = s.clock ∧ s'.begins = ⟨i, p, epoch, s.clock⟩ :: s.begins := by
  simp only [step] at h
  split at h
  · cases h
  · rename_i db n hb
    obtain rfl := Option.some.inj h
    obtain ⟨r, row, hheld, -, -, hpart, hepoch, hauth, htouch⟩ := Db.beginOrderedAttempt_ok hb
    obtain ⟨p, hp, hrow⟩ := Option.bind_eq_some_iff.mp hpart
    have hid : s.db.row id = some r := by
      rw [← (EventRow.heldBy_iff.mp hheld).1]
      exact htouch.old
    refine ⟨p, row, hrow, hepoch, hauth, htouch.frame, rfl, ?_⟩
    simp only [hid, Option.bind_some, hp, Option.toList_some, List.map_cons, List.map_nil, List.singleton_append]

/-- What a step keeps. -/
structure Inv (cfg : ι → Config) (s : State ι) : Prop where
  guarded : AllGuarded cfg s.clock s.db s.begins
  apart : s.begins.Pairwise fun b a => Apart cfg a b

theorem Inv.next (hfleet : Fleet cfg) {a : Action ι} (hi : Inv cfg s) (hs : step cfg s a = some s') : Inv cfg s' := by
  cases a with
  | tick d =>
    obtain rfl := Option.some.inj hs
    exact ⟨hi.guarded.tick (by show s.clock ≤ s.clock + d; omega), hi.apart⟩
  | other change =>
    simp only [step] at hs
    split_ifs at hs with hrows
    obtain rfl := Option.some.inj hs
    refine ⟨⟨fun p row hrow => hi.guarded.row p row ?_, hi.guarded.begun⟩, hi.apart⟩
    unfold Db.partition at hrow ⊢
    rw [← hrows]
    exact hrow
  | reconcile i =>
    simp only [step] at hs
    split at hs
    · cases hs
    · rename_i db result hr
      obtain rfl := Option.some.inj hs
      exact ⟨hi.guarded.move hfleet (Db.reconcileWith_move hr), hi.apart⟩
  | release i =>
    simp only [step] at hs
    split at hs
    · cases hs
    · rename_i db hr
      obtain rfl := Option.some.inj hs
      exact ⟨hi.guarded.move hfleet (Db.releaseOrderingPartitions_move hr), hi.apart⟩
  | begin i id epoch =>
    obtain ⟨p, row, hrow, hepoch, hauth, hkeep, hclock, hbegins⟩ := begin_ok hs
    constructor
    · have hbegin := hi.guarded.begin (b := ⟨i, p, epoch, s.clock⟩) hfleet hrow rfl hepoch.symm hauth
      rw [hclock, hbegins]
      exact hbegin.move hfleet hkeep.move
    · rw [hbegins]
      refine List.pairwise_cons.mpr ⟨fun b hb hpart hne => ?_, hi.apart⟩
      have hrow : s.db.partition b.partition = some row := by rw [hpart]; exact hrow
      have hsplit := hi.guarded.apart hb hrow hauth (hepoch ▸ hne)
      exact ⟨hepoch ▸ hsplit.1, hsplit.2⟩

theorem Reachable.inv (hfleet : Fleet cfg) (h : Reachable cfg s) : Inv cfg s := by
  obtain ⟨clock, hrun⟩ := h
  refine hrun.inv (I := Inv cfg) (fun s a s' hi _ hs => hi.next hfleet hs) ?_
  exact ⟨AllGuarded.init clock, List.Pairwise.nil⟩

/-- Whole milliseconds lose nothing on their way to the database. -/
theorem fleet_of_whole (hvalid : ∀ i, (cfg i).Valid)
    (hunique : ∀ i j, (cfg i).instanceID = (cfg j).instanceID → i = j)
    (hwhole : ∀ i, WholeMS (cfg i).publishTimeout ∧ WholeMS (cfg i).orderingSafetyMargin)
    (hsums : ∀ i j, (cfg i).publishTimeout + (cfg j).orderingSafetyMargin ≤ maxInt64) : Fleet cfg := by
  refine ⟨hvalid, hunique, fun i j => ?_⟩
  rw [intervalMS_whole (hvalid i).bounds.publishTimeout.le (hwhole i).1]
  exact hsums i j

theorem deadline_of_whole {i : ι}
    (hwhole : WholeMS (cfg i).publishTimeout ∧ WholeMS (cfg i).orderingSafetyMargin) (t : Int) :
    1000 * deadline cfg i t = 1000 * t + ((cfg i).publishTimeout + (cfg i).orderingSafetyMargin) := by
  obtain ⟨h1, h2⟩ := hwhole
  unfold WholeMS millisecond at h1 h2
  unfold deadline addDuration
  omega

/-- **Publish windows of different epochs are apart.** -/
theorem handoff_windows_apart (hvalid : ∀ i, (cfg i).Valid)
    (hunique : ∀ i j, (cfg i).instanceID = (cfg j).instanceID → i = j)
    (hwhole : ∀ i, WholeMS (cfg i).publishTimeout ∧ WholeMS (cfg i).orderingSafetyMargin)
    (hsums : ∀ i j, (cfg i).publishTimeout + (cfg j).orderingSafetyMargin ≤ maxInt64) (h : Reachable cfg s) :
    ∀ a ∈ s.begins, ∀ b ∈ s.begins, a.partition = b.partition → a.instant ≤ b.instant →
    a.epoch ≠ b.epoch →
      a.epoch < b.epoch ∧
        1000 * a.instant + ((cfg a.relay).publishTimeout + (cfg a.relay).orderingSafetyMargin) ≤
        1000 * b.instant := by
  have hfleet := fleet_of_whole hvalid hunique hwhole hsums
  intro a ha b hb hpart hle hne
  have hsym : Std.Symm fun b a : Begin ι => Apart cfg a b ∨ Apart cfg b a := ⟨fun _ _ h => h.symm⟩
  have hpair : s.begins.Pairwise fun b a => Apart cfg a b ∨ Apart cfg b a := (h.inv hfleet).apart.imp Or.inl
  rcases hpair.forall hb ha (fun heq => hne (heq ▸ rfl)) with hapart | hapart
  · obtain ⟨hlt, hover⟩ := hapart hpart hne
    have hd := deadline_of_whole (hwhole a.relay) a.instant
    exact ⟨hlt, by omega⟩
  · -- the second would be the earlier one, and its window is not empty
    obtain ⟨-, hover⟩ := hapart hpart.symm hne.symm
    have hb1 := (hvalid b.relay).bounds.publishTimeout
    have hb2 := (hvalid b.relay).bounds.orderingSafetyMargin
    have hd := deadline_of_whole (hwhole b.relay) b.instant
    omega

/-- What a store call leaves, as a change of the database. -/
def changed (call : Db → Except StoreError Db) (db : Db) : Db :=
  match call db with
  | .ok db' => db'
  | .error _ => db

/-- Relay A holds all partitions and begins an attempt; it stops renewing, and relay B takes over. -/
def exampleHandoff : List (Action Bool) :=
  [.other (changed fun db => db.registerRelay 0 examplePresence), .reconcile false,
   .other (fun db => ((Outbox.enqueueAll 0 db [exampleOrderedCall "" 1 exampleID]).map (·.1)).getD db),
   .other (changed fun db => (db.claimOrdered 0 (fun _ => false) "relay-a" 10 (30 * second) (11 * second)).map (·.1)),
   .begin false exampleID 1, .tick (31 * 1000000),
   .other (changed fun db => db.registerRelay (31 * 1000000) { examplePresence with instanceID := "relay-b" }),
   .reconcile true, .tick (11 * 1000000),
   .other (changed fun db =>
     (db.claimOrdered (42 * 1000000) (fun _ => false) "relay-b" 10 (30 * second) (11 * second)).map (·.1)),
   .begin true exampleID 2]

/-- Two begins of one partition under the epochs 1 and 2, the first by relay A. -/
def handedOver : List (Begin Bool) → Bool
  | [b, a] => a.partition = b.partition && a.epoch = 1 && b.epoch = 2 && a.relay = false && a.instant ≤ b.instant
  | _ => false

/-- The takeover waits for the window of the first attempt. -/
theorem handoff_windows_apart_takeover : ∃ (s : State Bool) (a b : Begin Bool), Reachable exampleRelays s ∧
    a ∈ s.begins ∧ b ∈ s.begins ∧ a.partition = b.partition ∧ a.epoch = 1 ∧ b.epoch = 2 ∧
      1000 * a.instant + 11 * second ≤ 1000 * b.instant := by
  obtain ⟨s, hrun, hp⟩ := Runs.exists_of_exec (step exampleRelays) (State.init Bool 0) exampleHandoff
    (fun s => handedOver s.begins) (by decide +kernel)
  unfold handedOver at hp
  split at hp
  · rename_i b a hbegins
    simp only [Bool.and_eq_true, decide_eq_true_eq] at hp
    obtain ⟨⟨⟨⟨hpart, ha⟩, hb⟩, hrelay⟩, hle⟩ := hp
    have hmem : a ∈ s.begins ∧ b ∈ s.begins := by rw [hbegins]; simp
    have hreach : Reachable exampleRelays s := ⟨0, hrun⟩
    have hapart := handoff_windows_apart (by decide +kernel) (by decide +kernel) (by decide +kernel) (by decide +kernel)
      hreach a hmem.1 b hmem.2 hpart hle (by omega)
    rw [hrelay] at hapart
    exact ⟨s, a, b, hreach, hmem.1, hmem.2, hpart, ha, hb, hapart.2⟩
  · cases hp

end Handoff

end

end Emitlane
