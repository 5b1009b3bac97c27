import Emitlane.Store.Ownership

/-!
# Store.Reconcile — what a reconciliation does to a partition row, and where it leads

`Outcome` lists what ReconcileOrderingPartitions writes to a row and when, with the WHERE clauses of its statements
settled: on a row that passes the lease check each of them matches, so the row in memory is the row in the table.
`Follows` is the ownership rule that the outcomes refine.

A caller that is not the desired owner of a row lets go of it, and only the desired owner takes it.  So once every
member has called, no member but the desired owner holds the row, and the next call of the desired owner takes it.
-/

namespace Emitlane

open Rel

variable {row row' : PartitionRow} {now : Int} {a : ReconcileArgs} {db db' : Db} {members : List String}

/-! ## What reconciliation writes -/

theorem PartitionRow.leaseCheck_of_check (h : row.check = true) : row.leaseCheck = true := by
  simp only [PartitionRow.check, Bool.and_eq_true] at h
  exact h.2

theorem Db.partition_check {p : Int} (h : db.partition p = some row) : row.check = true :=
  db.partitions.ok.2 row (db.partition_eq_some.mp h).1

/-- The owner of a row is not blank, and it has a lease. -/
theorem PartitionRow.owner_of_check (h : row.check = true) {o : String} (ho : row.leaseOwner = some o) :
    o ≠ "" ∧ ∃ u, row.leaseUntil = some u := by
  have hc := PartitionRow.leaseCheck_of_check h
  unfold PartitionRow.leaseCheck at hc
  rw [ho] at hc
  cases hu : row.leaseUntil with
  | none => rw [hu] at hc; cases hc
  | some u =>
    rw [hu] at hc
    refine ⟨?_, u, rfl⟩
    rintro rfl
    exact of_decide_eq_true hc btrim_empty

/-- Another relay holds a lease of the row that is not over. -/
def PartitionRow.HeldByOther (row : PartitionRow) (owner : String) (now : Int) : Prop :=
  ∃ o u, row.leaseOwner = some o ∧ o ≠ owner ∧ row.leaseUntil = some u ∧ now < u

/-- The decision for a row with the desired owner `desired`. -/
inductive Decided (a : ReconcileArgs) (now : Int) (desired : String) (row : PartitionRow) : Decision → Prop
  | keep (hne : deref row.leaseOwner ≠ a.owner) (h : desired ≠ a.owner ∨ row.HeldByOther a.owner now) :
      Decided a now desired row .keep
  | release (ho : deref row.leaseOwner = a.owner) (hd : desired ≠ a.owner) :
      Decided a now desired row
        (.release (releaseBarrier now row.handoffNotBefore row.publishTimeoutMS a.safetyMargin))
  | renew {u : Int} (ho : row.leaseOwner = some a.owner) (hd : desired = a.owner) (hu : row.leaseUntil = some u)
      (hlt : now < u) : Decided a now desired row .renew
  | acquire (ho : row.leaseOwner = none) (hd : desired = a.owner) :
      Decided a now desired row (.acquire row.handoffNotBefore)
  | takeover {o : String} {u : Int} (ho : row.leaseOwner = some o) (hd : desired = a.owner)
      (hu : row.leaseUntil = some u) (hle : u ≤ now) :
      Decided a now desired row
        (.acquire (some (releaseBarrier now row.handoffNotBefore row.publishTimeoutMS a.safetyMargin)))

theorem decided_decideRow (h : row.check = true) :
    Decided a now (Ordering.desiredOwner row.id members) row (decideRow a now members row) := by
  unfold decideRow
  simp only
  cases ho : row.leaseOwner with
  | none =>
    -- an unowned row is free, whatever the caller is
    have hderef : deref (none : Option String) = "" := rfl
    rw [hderef]
    by_cases h1 : "" = a.owner ∧ Ordering.desiredOwner row.id members ≠ a.owner
    · rw [if_pos h1]
      exact .release (by rw [ho]; exact h1.1) h1.2
    rw [if_neg h1, if_neg (by simp)]
    by_cases hd : Ordering.desiredOwner row.id members = a.owner
    · rw [if_pos ⟨hd, .inl rfl⟩, if_neg (by simp)]
      exact .acquire ho hd
    · rw [if_neg (fun hc => hd hc.1)]
      exact .keep (by rw [ho]; exact fun heq => h1 ⟨heq, hd⟩) (.inl hd)
  | some o =>
    obtain ⟨hne, u, hu⟩ := PartitionRow.owner_of_check h ho
    have hderef : deref (some o) = o := rfl
    rw [hderef, hu, Option.any_some]
    simp only [decide_eq_true_eq]
    by_cases hd : Ordering.desiredOwner row.id members = a.owner
    · rw [if_neg (fun hc => hc.2 hd)]
      by_cases hlt : now < u
      · by_cases hmine : o = a.owner
        · rw [if_pos ⟨hd, hmine, hne, hlt⟩]
          exact .renew (by rw [ho, hmine]) hd hu hlt
        · rw [if_neg (fun hc => hmine hc.2.1), if_neg (by simp [hne, hlt])]
          exact .keep (by rw [ho]; exact hmine) (.inr ⟨o, u, ho, hmine, hu, hlt⟩)
      · rw [if_neg (fun hc => hlt hc.2.2.2), if_pos ⟨hd, .inr fun hc => hlt hc.2⟩, if_pos hne]
        exact .takeover ho hd hu (Int.not_lt.mp hlt)
    · by_cases hmine : o = a.owner
      · rw [if_pos ⟨hmine, hd⟩]
        exact .release (by rw [ho]; exact hmine) hd
      · rw [if_neg (fun hc => hmine hc.1), if_neg (fun hc => hd hc.1), if_neg (fun hc => hd hc.1)]
        exact .keep (by rw [ho]; exact hmine) (.inl hd)

/-- Every statement of a caller with a name matches its row. -/
theorem Decided.matches_eq {desired : String} {d : Decision} (hd : Decided a now desired row d)
    (howner : a.owner ≠ "") (hne : d ≠ .keep) : d.matches a now row = true := by
  cases hd with
  | keep _ _ => exact absurd rfl hne
  | release ho _ =>
    refine decide_eq_true ?_
    cases hl : row.leaseOwner with
    | none =>
      rw [hl] at ho
      exact absurd ho.symm howner
    | some o =>
      rw [hl] at ho
      exact congrArg some ho
  | renew ho _ _ _ => exact decide_eq_true ho
  | acquire ho _ => simp [Decision.matches, ho]
  | takeover _ _ hu hle => simp [Decision.matches, hu, hle]

/-- What a call does to a row with the desired owner `desired`, and when. -/
inductive Outcome (a : ReconcileArgs) (now : Int) (desired : String) (row : PartitionRow) : PartitionRow → Prop
  | kept (h : a.owner ≠ "" → row.leaseOwner ≠ some a.owner ∧
    (desired ≠ a.owner ∨ row.HeldByOther a.owner now)) :
      Outcome a now desired row row
  | released (ho : row.leaseOwner = some a.owner) (hd : desired ≠ a.owner) :
      Outcome a now desired row (Decision.applied a now row
        (.release (releaseBarrier now row.handoffNotBefore row.publishTimeoutMS a.safetyMargin)))
  | renewed {u : Int} (ho : row.leaseOwner = some a.owner) (hd : desired = a.owner) (hu : row.leaseUntil = some u)
      (hlt : now < u) : Outcome a now desired row (Decision.applied a now row .renew)
  | acquired (ho : row.leaseOwner = none) (hd : desired = a.owner) :
      Outcome a now desired row (Decision.applied a now row (.acquire row.handoffNotBefore))
  | takenOver {o : String} {u : Int} (ho : row.leaseOwner = some o) (hd : desired = a.owner)
      (hu : row.leaseUntil = some u) (hle : u ≤ now) :
      Outcome a now desired row (Decision.applied a now row
        (.acquire (some (releaseBarrier now row.handoffNotBefore row.publishTimeoutMS a.safetyMargin))))

theorem outcome_reconcileRow (h : row.check = true) :
    Outcome a now (Ordering.desiredOwner row.id members) row (reconcileRow a now members row) := by
  have hdecided : Decided a now (Ordering.desiredOwner row.id members) row (decideRow a now members row) :=
    decided_decideRow h
  have hwritten : reconcileRow a now members row = (decideRow a now members row).written a now row := rfl
  rw [hwritten]
  generalize decideRow a now members row = d at hdecided
  cases hdecided with
  | keep hne hother =>
    refine .kept fun _ => ⟨fun ho => hne ?_, hother⟩
    rw [ho]
    rfl
  | release ho hd =>
    unfold Decision.written
    split_ifs with hmatch
    · exact .released (of_decide_eq_true hmatch) hd
    · -- the statement misses the row only where the caller has no name
      refine .kept fun howner => absurd ?_ hmatch
      exact (Decided.release ho hd).matches_eq howner (by simp)
  | renew ho hd hu hlt =>
    have hmatch : Decision.matches a now row .renew = true := decide_eq_true ho
    unfold Decision.written
    rw [if_pos hmatch]
    exact .renewed ho hd hu hlt
  | acquire ho hd =>
    unfold Decision.written
    rw [if_pos (by simp [Decision.matches, ho])]
    exact .acquired ho hd
  | takeover ho hd hu hle =>
    unfold Decision.written
    rw [if_pos (by simp [Decision.matches, hu, hle])]
    exact .takenOver ho hd hu hle

/-- The outcomes for one row, without the desired owner. -/
inductive Reconciled (a : ReconcileArgs) (now : Int) (row : PartitionRow) : PartitionRow → Prop
  | kept : Reconciled a now row row
  | released (ho : row.leaseOwner = some a.owner) :
      Reconciled a now row (Decision.applied a now row
        (.release (releaseBarrier now row.handoffNotBefore row.publishTimeoutMS a.safetyMargin)))
  | renewed (ho : row.leaseOwner = some a.owner) : Reconciled a now row (Decision.applied a now row .renew)
  | acquired (ho : row.leaseOwner = none) :
      Reconciled a now row (Decision.applied a now row (.acquire row.handoffNotBefore))
  | takenOver {o : String} {u : Int} (ho : row.leaseOwner = some o) (hu : row.leaseUntil = some u) (hle : u ≤ now) :
      Reconciled a now row (Decision.applied a now row
        (.acquire (some (releaseBarrier now row.handoffNotBefore row.publishTimeoutMS a.safetyMargin))))

theorem Outcome.reconciled {desired : String} (h : Outcome a now desired row row') : Reconciled a now row row' := by
  cases h with
  | kept _ => exact .kept
  | released ho _ => exact .released ho
  | renewed ho _ _ _ => exact .renewed ho
  | acquired ho _ => exact .acquired ho
  | takenOver ho _ hu hle => exact .takenOver ho hu hle

theorem reconciled_reconcileRow (h : row.check = true) :
    Reconciled a now row (reconcileRow a now members row) := (outcome_reconcileRow h).reconciled

/-! ## The ownership rule -/

/-- Some relay holds a lease of the row that is not over. -/
def PartitionRow.Leased (row : PartitionRow) (now : Int) : Prop :=
  ∃ o u, row.leaseOwner = some o ∧ row.leaseUntil = some u ∧ now < u

/-- The caller lets go of the row, or takes it. -/
def PartitionRow.Moves (row : PartitionRow) (owner : String) (now : Int) (desired : String) : Prop :=
  (row.leaseOwner = some owner ∧ desired ≠ owner) ∨ (desired = owner ∧ ¬ row.Leased now)

/-- What one call of `owner` may do to a row with the desired owner `desired`. -/
structure Follows (owner : String) (now : Int) (desired : String) (row row' : PartitionRow) : Prop where
  /-- A row leased to another relay stays as it is, and so does a row that is neither held nor desired. -/
  untouched : row.HeldByOther owner now ∨ (row.leaseOwner ≠ some owner ∧ desired ≠ owner) → row' = row
  holds : row'.leaseOwner = some owner ↔ desired = owner ∧ ¬ row.HeldByOther owner now
  letGo : row.leaseOwner = some owner → desired ≠ owner → row'.leaseOwner = none ∧ row'.leaseUntil = none
  epoch_moves : row.Moves owner now desired → row'.epoch = row.epoch + 1
  epoch_stays : ¬ row.Moves owner now desired → row'.epoch = row.epoch
  /-- The barrier does not move back; NULL is the earliest one. -/
  barrier : ∀ b, row.handoffNotBefore = some b → ∃ b', row'.handoffNotBefore = some b' ∧ b ≤ b'

theorem existing_le_releaseBarrier {ms : Option Int} {margin e : Int} :
    e ≤ releaseBarrier now (some e) ms margin := by
  unfold releaseBarrier
  simp only
  split_ifs <;> omega

theorem barrier_releaseBarrier (row : PartitionRow) (now margin b : Int) (hb : row.handoffNotBefore = some b) :
    ∃ b', some (releaseBarrier now row.handoffNotBefore row.publishTimeoutMS margin) = some b' ∧ b ≤ b' := by
  refine ⟨_, rfl, ?_⟩
  rw [hb]
  exact existing_le_releaseBarrier

/-- The holder of a lease in force is no other relay. -/
theorem PartitionRow.not_heldByOther (ho : row.leaseOwner = some a.owner) : ¬ row.HeldByOther a.owner now := by
  rintro ⟨o, u, ho', hne, -, -⟩
  rw [ho] at ho'
  exact hne (Option.some.inj ho').symm

/-- **Reconciliation refines the ownership rule.** -/
theorem Outcome.follows {desired : String} (h : Outcome a now desired row row') (howner : a.owner ≠ "") :
    Follows a.owner now desired row row' := by
  cases h with
  | kept h =>
    obtain ⟨hne, hkeep⟩ := h howner
    have hstays : ¬ row.Moves a.owner now desired := by
      rintro (⟨ho, -⟩ | ⟨hd, hfree⟩)
      · exact hne ho
      · obtain ⟨o, u, ho, -, hu, hlt⟩ := hkeep.resolve_left (fun hd' => hd' hd)
        exact hfree ⟨o, u, ho, hu, hlt⟩
    refine ⟨fun _ => rfl, ⟨fun ho => absurd ho hne, fun hd => ?_⟩, fun ho => absurd ho hne,
      fun hm => absurd hm hstays, fun _ => rfl, fun b hb => ⟨b, hb, le_rfl⟩⟩
    exact absurd (hkeep.resolve_left (fun hd' => hd' hd.1)) hd.2
  | released ho hd =>
    have hother : ¬ row.HeldByOther a.owner now := PartitionRow.not_heldByOther ho
    refine ⟨?_, ⟨(fun hc => nomatch hc), fun hc => absurd hc.1 hd⟩, fun _ _ => ⟨rfl, rfl⟩, fun _ => rfl,
      fun hm => absurd (.inl ⟨ho, hd⟩) hm, barrier_releaseBarrier row now a.safetyMargin⟩
    rintro (hc | hc)
    · exact absurd hc hother
    · exact absurd ho hc.1
  | renewed ho hd hu hlt =>
    have hother : ¬ row.HeldByOther a.owner now := PartitionRow.not_heldByOther ho
    have hstays : ¬ row.Moves a.owner now desired := by
      rintro (⟨-, hne⟩ | ⟨-, hfree⟩)
      · exact hne hd
      · exact hfree ⟨_, _, ho, hu, hlt⟩
    refine ⟨?_, ⟨fun _ => ⟨hd, hother⟩, fun _ => ho⟩, fun _ hne => absurd hd hne, fun hm => absurd hm hstays,
      fun _ => rfl, fun b hb => ⟨b, hb, le_rfl⟩⟩
    rintro (hc | hc)
    · exact absurd hc hother
    · exact absurd ho hc.1
  | acquired ho hd =>
    have hfree : ¬ row.Leased now := by
      rintro ⟨o, u, ho', -, -⟩
      rw [ho] at ho'
      cases ho'
    have hother : ¬ row.HeldByOther a.owner now := fun ⟨o, u, ho', _, hu, hlt⟩ => hfree ⟨o, u, ho', hu, hlt⟩
    refine ⟨?_, ⟨fun _ => ⟨hd, hother⟩, fun _ => rfl⟩, fun _ hne => absurd hd hne, fun _ => rfl,
      fun hm => absurd (.inr ⟨hd, hfree⟩) hm, fun b hb => ⟨b, hb, le_rfl⟩⟩
    rintro (hc | hc)
    · exact absurd hc hother
    · exact absurd hd hc.2
  | @takenOver o u ho hd hu hle =>
    have hfree : ¬ row.Leased now := by
      rintro ⟨o', u', -, hu', hlt⟩
      obtain rfl : u = u' := Option.some.inj (hu.symm.trans hu')
      omega
    have hother : ¬ row.HeldByOther a.owner now :=
      fun ⟨o', u', ho', _, hu', hlt⟩ => hfree ⟨o', u', ho', hu', hlt⟩
    refine ⟨?_, ⟨fun _ => ⟨hd, hother⟩, fun _ => rfl⟩, fun _ hne => absurd hd hne, fun _ => rfl,
      fun hm => absurd (.inr ⟨hd, hfree⟩) hm, barrier_releaseBarrier row now a.safetyMargin⟩
    rintro (hc | hc)
    · exact absurd hc hother
    · exact absurd hd hc.2

/-! ## One call -/

/-- A row as the call returns it. -/
def PartitionRow.view (desired : String) (row : PartitionRow) : OrderingPartition :=
  { partitionID := row.id, desiredOwner := desired, leaseOwner := deref row.leaseOwner, leaseUntil := row.leaseUntil,
    epoch := row.epoch, handoffNotBefore := row.handoffNotBefore }

/-- The rows in the order of their ids, as a reader of the table sees them. -/
def Db.partitionViews (db : Db) (members : List String) : List OrderingPartition :=
  (db.partitions.rows.insertionSort (fun p q => p.id ≤ q.id)).map fun r => r.view (Ordering.desiredOwner r.id members)

/-- The row in memory is the row in the table. -/
theorem reconcileResult_eq (h : row.check = true) (howner : a.owner ≠ "") :
    reconcileResult a now members row =
      (reconcileRow a now members row).view (Ordering.desiredOwner (reconcileRow a now members row).id members) := by
  have hdecided : Decided a now (Ordering.desiredOwner row.id members) row (decideRow a now members row) :=
    decided_decideRow h
  rw [reconcileRow_id]
  unfold reconcileResult reconcileRow Decision.written
  by_cases hkeep : decideRow a now members row = .keep
  · rw [hkeep, if_neg (by simp [Decision.matches])]
    rfl
  · rw [if_pos (hdecided.matches_eq howner hkeep)]
    cases decideRow a now members row <;> rfl

theorem Db.reconcileWith_rows {result : List OrderingPartition}
    (h : db.reconcileWith a now members = .ok (db', result)) :
    db'.partitions.rows = db.partitions.rows.map (reconcileRow a now members) ∧
      result = (db.partitions.rows.insertionSort (fun p q => p.id ≤ q.id)).map (reconcileResult a now members) := by
  unfold Db.reconcileWith at h
  simp only at h
  split_ifs at h
  split at h
  · cases h
  · rename_i t ht
    obtain ⟨rfl, rfl⟩ := Prod.mk.inj (Except.ok.inj h)
    exact ⟨by simpa using Table.write_rows ht, rfl⟩

/-- The returned slice is the persisted rows. -/
theorem Db.reconcileWith_result {result : List OrderingPartition} (howner : a.owner ≠ "")
    (h : db.reconcileWith a now members = .ok (db', result)) : result = db'.partitionViews members := by
  obtain ⟨hrows, hresult⟩ := Db.reconcileWith_rows h
  have hsort : (db.partitions.rows.insertionSort (fun p q => p.id ≤ q.id)).map (reconcileRow a now members) =
      (db.partitions.rows.map (reconcileRow a now members)).insertionSort (fun p q => p.id ≤ q.id) := by
    refine List.map_insertionSort _ _ _ _ (fun p _ q _ => ?_)
    rw [reconcileRow_id, reconcileRow_id]
  rw [hresult, Db.partitionViews, hrows, ← hsort, List.map_map]
  refine List.map_congr_left fun r hr => ?_
  have hmem : r ∈ db.partitions.rows := (List.perm_insertionSort _ _).mem_iff.mp hr
  exact reconcileResult_eq (db.partitions.ok.2 r hmem) howner

theorem Db.reconcileWith_follows {result : List OrderingPartition} (howner : a.owner ≠ "")
    (h : db.reconcileWith a now members = .ok (db', result)) {p : Int} (hrow : db.partition p = some row) :
    ∃ row', db'.partition p = some row' ∧ Follows a.owner now (Ordering.desiredOwner p members) row row' := by
  refine ⟨reconcileRow a now members row, ?_, ?_⟩
  · rw [(Db.reconcileWith_ok h).1, hrow, Option.map_some]
  · have hid : row.id = p := (db.partition_eq_some.mp hrow).2
    rw [← hid]
    exact (outcome_reconcileRow (Db.partition_check hrow)).follows howner

/-! ### When a call commits -/

/-- The values a call writes to the row are in the range of their columns. -/
structure Fits (a : ReconcileArgs) (now : Int) (desired : String) (row : PartitionRow) : Prop where
  epoch : row.Moves a.owner now desired → row.epoch < maxInt64
  values : desired = a.owner → ¬ row.HeldByOther a.owner now →
    textOk a.owner = true ∧ 0 < intervalMS a.publishTimeout ∧ intervalMS a.publishTimeout ≤ maxInt32

theorem PartitionRow.check_iff : row.check = true ↔
    (0 ≤ row.id ∧ row.id ≤ 63) ∧ (0 ≤ row.epoch ∧ row.epoch ≤ maxInt64) ∧
    row.leaseOwner.all textOk = true ∧
      row.publishTimeoutMS.all (fun ms => 0 < ms && ms ≤ maxInt32) = true ∧ row.leaseCheck = true := by
  simp only [PartitionRow.check, Bool.and_eq_true, decide_eq_true_eq, and_assoc]

/-- The caller writes its publish timeout wherever it comes to hold the row. -/
theorem Outcome.publishTimeout {desired : String} (h : Outcome a now desired row row') (howner : a.owner ≠ "")
    (hheld : row'.leaseOwner = some a.owner) : row'.publishTimeoutMS = some (intervalMS a.publishTimeout) := by
  cases h with
  | kept hkept => exact absurd hheld (hkept howner).1
  | released _ _ => cases hheld
  | renewed _ _ _ _ => rfl
  | acquired _ _ => rfl
  | takenOver _ _ _ _ => rfl

/-- The text columns of a row that the call has written. -/
theorem Outcome.check_owner {desired : String} (h : Outcome a now desired row row') (hrow : row.check = true)
    (hblank : btrim a.owner ≠ "") (htext : row'.leaseOwner = some a.owner → textOk a.owner = true) :
    row'.leaseOwner.all textOk = true ∧ row'.leaseCheck = true := by
  obtain ⟨-, -, hold, -, hlease⟩ := PartitionRow.check_iff.mp hrow
  cases h with
  | kept _ => exact ⟨hold, hlease⟩
  | released _ _ => exact ⟨rfl, rfl⟩
  | renewed ho _ _ _ =>
    have hshape : (Decision.applied a now row .renew).leaseCheck = decide (btrim a.owner ≠ "") := by
      simp [Decision.applied, Decision.mirrored, PartitionRow.leaseCheck, ho]
    exact ⟨hold, hshape.trans (decide_eq_true hblank)⟩
  | acquired _ _ => exact ⟨htext rfl, decide_eq_true hblank⟩
  | takenOver _ _ _ _ => exact ⟨htext rfl, decide_eq_true hblank⟩

/-- A timeout the call has not written is the old one. -/
theorem Outcome.check_timeout {desired : String} (h : Outcome a now desired row row') (hrow : row.check = true)
    (hrange : row'.leaseOwner = some a.owner →
      0 < intervalMS a.publishTimeout ∧ intervalMS a.publishTimeout ≤ maxInt32) :
    row'.publishTimeoutMS.all (fun ms => 0 < ms && ms ≤ maxInt32) = true := by
  obtain ⟨-, -, -, hold, -⟩ := PartitionRow.check_iff.mp hrow
  have hnew : row'.leaseOwner = some a.owner →
      (some (intervalMS a.publishTimeout)).all (fun ms => 0 < ms && ms ≤ maxInt32) = true := by
    intro hheld
    simpa using hrange hheld
  cases h with
  | kept _ => exact hold
  | released _ _ => exact hold
  | renewed ho _ _ _ => exact hnew ho
  | acquired _ _ => exact hnew rfl
  | takenOver _ _ _ _ => exact hnew rfl

/-- The row a call writes passes the constraints if and only if the values fit. -/
theorem check_reconcileRow (h : row.check = true) (howner : trimSpace a.owner ≠ "") :
    (reconcileRow a now members row).check = true ↔ Fits a now (Ordering.desiredOwner row.id members) row := by
  have houtcome : Outcome a now (Ordering.desiredOwner row.id members) row (reconcileRow a now members row) :=
    outcome_reconcileRow h
  have hblank := btrim_ne_empty howner
  have hne : a.owner ≠ "" := fun hempty => hblank (by rw [hempty, btrim_empty])
  have hfollows := houtcome.follows hne
  obtain ⟨hid, hepoch, -⟩ := PartitionRow.check_iff.mp h
  rw [PartitionRow.check_iff, reconcileRow_id]
  constructor
  · rintro ⟨-, hrange, htext, htimeout, -⟩
    refine ⟨fun hmoves => ?_, fun hd hother => ?_⟩
    · rw [hfollows.epoch_moves hmoves] at hrange
      omega
    · have hheld := hfollows.holds.mpr ⟨hd, hother⟩
      rw [hheld] at htext
      rw [houtcome.publishTimeout hne hheld] at htimeout
      exact ⟨htext, by simpa using htimeout⟩
  · intro hfits
    have hrange : 0 ≤ (reconcileRow a now members row).epoch ∧
    (reconcileRow a now members row).epoch ≤ maxInt64 := by
      by_cases hmoves : row.Moves a.owner now (Ordering.desiredOwner row.id members)
      · have hmax := hfits.epoch hmoves
        rw [hfollows.epoch_moves hmoves]
        omega
      · rw [hfollows.epoch_stays hmoves]
        exact hepoch
    have hvalues : (reconcileRow a now members row).leaseOwner = some a.owner → textOk a.owner = true ∧
        0 < intervalMS a.publishTimeout ∧ intervalMS a.publishTimeout ≤ maxInt32 := fun hheld =>
      hfits.values (hfollows.holds.mp hheld).1 (hfollows.holds.mp hheld).2
    obtain ⟨htext, hlease⟩ := houtcome.check_owner h hblank fun hheld => (hvalues hheld).1
    exact ⟨hid, hrange, htext, houtcome.check_timeout h fun hheld => (hvalues hheld).2, hlease⟩

theorem partitionsSchema_keyed : partitionsSchema.Keyed PartitionRow.id PartitionRow.check := fun _ => Iff.rfl

/-- A call commits if and only if everything it writes fits. -/
theorem Db.reconcileWith_commits (hsize : db.partitions.rows.length = Ordering.partitionCount)
    (howner : trimSpace a.owner ≠ "") :
    (∃ db' result, db.reconcileWith a now members = .ok (db', result)) ↔
      ∀ r ∈ db.partitions.rows, Fits a now (Ordering.desiredOwner r.id members) r := by
  constructor
  · rintro ⟨db', result, h⟩ r hr
    refine (check_reconcileRow (db.partitions.ok.2 r hr) howner).mp (db'.partitions.ok.2 _ ?_)
    rw [(Db.reconcileWith_rows h).1]
    exact List.mem_map_of_mem hr
  · intro hfits
    obtain ⟨t, hupdate⟩ := Table.update_keyed (t := db.partitions) (p := fun _ => true)
      (f := reconcileRow a now members) partitionsSchema_keyed (fun r _ _ => reconcileRow_id r)
      (fun r hr _ => (check_reconcileRow (db.partitions.ok.2 r hr) howner).mpr (hfits r hr))
    unfold Db.reconcileWith
    simp only [List.length_insertionSort, hsize, ne_eq, not_true_eq_false, if_false, hupdate]
    exact ⟨_, _, rfl⟩

/-- A call that commits treats every row by the rule, leaves no other trace, and returns the persisted rows. -/
structure Refines (members : List String) (a : ReconcileArgs) (now : Int) (db db' : Db)
    (result : List OrderingPartition) : Prop where
  follows : ∀ p row, db.partition p = some row → ∃ row', db'.partition p = some row' ∧
    Follows a.owner now (Ordering.desiredOwner p members) row row'
  no_new : ∀ p, db.partition p = none → db'.partition p = none
  frame : db' = { db with partitions := db'.partitions }
  result : result = db'.partitionViews members

theorem Db.reconcileWith_refines {result : List OrderingPartition} (howner : a.owner ≠ "")
    (h : db.reconcileWith a now members = .ok (db', result)) : Refines members a now db db' result where
  follows _ _ hrow := Db.reconcileWith_follows howner h hrow
  no_new p hp := by rw [(Db.reconcileWith_ok h).1, hp, Option.map_none]
  frame := (Db.reconcileWith_ok h).2
  result := Db.reconcileWith_result howner h

/-! ## A run of calls -/

/-- Calls one after another, each with its instant. -/
def Db.reconcileAll (members : List String) : Db → List (ReconcileArgs × Int) → Except StoreError Db
  | db, [] => .ok db
  | db, c :: cs => (db.reconcileWith c.1 c.2 members).bind fun x => Db.reconcileAll members x.1 cs

/-- One call and the rest. -/
theorem Db.reconcileAll_cons {c : ReconcileArgs × Int} {cs : List (ReconcileArgs × Int)}
    (h : Db.reconcileAll members db (c :: cs) = .ok db') :
    ∃ db₁ result, db.reconcileWith c.1 c.2 members = .ok (db₁, result) ∧
    Db.reconcileAll members db₁ cs = .ok db' := by
  obtain ⟨⟨db₁, result⟩, hcall, hrest⟩ := bind_eq_ok.mp h
  exact ⟨db₁, result, hcall, hrest⟩

theorem Db.reconcileAll_append {cs cs' : List (ReconcileArgs × Int)} :
    ∀ {db : Db}, Db.reconcileAll members db (cs ++ cs') = .ok db' →
      ∃ db₁, Db.reconcileAll members db cs = .ok db₁ ∧ Db.reconcileAll members db₁ cs' = .ok db' := by
  induction cs with
  | nil => exact fun h => ⟨_, rfl, h⟩
  | cons c cs ih =>
    intro db h
    obtain ⟨db₁, result, hcall, hrest⟩ := Db.reconcileAll_cons h
    obtain ⟨db₂, hcs, hcs'⟩ := ih hrest
    refine ⟨db₂, ?_, hcs'⟩
    rw [Db.reconcileAll, hcall]
    exact hcs

/-- The arguments of a call are ones it can always write. -/
structure ReconcileArgs.Storable (a : ReconcileArgs) : Prop where
  named : trimSpace a.owner ≠ ""
  text : textOk a.owner = true
  publishTimeout : 0 < intervalMS a.publishTimeout ∧ intervalMS a.publishTimeout ≤ maxInt32

/-- A call moves the epoch of a row by one at most. -/
theorem Follows.epoch_le {owner desired : String} (h : Follows owner now desired row row') :
    row'.epoch ≤ row.epoch + 1 := by
  by_cases hmoves : row.Moves owner now desired
  · exact (h.epoch_moves hmoves).le
  · rw [h.epoch_stays hmoves]
    omega

variable (members) in
/-- Calls with such arguments commit, as long as no counter comes to its end. -/
theorem Db.reconcileAll_commits {cs : List (ReconcileArgs × Int)} (hcs : ∀ c ∈ cs, c.1.Storable) :
    ∀ {db : Db}, db.partitions.rows.length = Ordering.partitionCount →
      (∀ r ∈ db.partitions.rows, r.epoch + cs.length ≤ maxInt64) →
      ∃ db', Db.reconcileAll members db cs = .ok db' := by
  induction cs with
  | nil => exact fun _ _ => ⟨_, rfl⟩
  | cons c cs ih =>
    intro db hsize hepoch
    obtain ⟨hc, hrest⟩ := List.forall_mem_cons.mp hcs
    simp only [List.length_cons, Nat.cast_add, Nat.cast_one] at hepoch
    have hfits : ∀ r ∈ db.partitions.rows, Fits c.1 c.2 (Ordering.desiredOwner r.id members) r := by
      intro r hr
      have := hepoch r hr
      exact ⟨fun _ => by omega, fun _ _ => ⟨hc.text, hc.publishTimeout⟩⟩
    obtain ⟨db₁, result, hcall⟩ := (Db.reconcileWith_commits hsize hc.named).mpr hfits
    have hne : c.1.owner ≠ "" := fun hempty => hc.named (by rw [hempty]; decide)
    have hrows := (Db.reconcileWith_rows hcall).1
    have hsize₁ : db₁.partitions.rows.length = Ordering.partitionCount := by rw [hrows, List.length_map, hsize]
    have hepoch₁ : ∀ r ∈ db₁.partitions.rows, r.epoch + cs.length ≤ maxInt64 := by
      intro r' hr'
      rw [hrows] at hr'
      obtain ⟨r, hr, rfl⟩ := List.mem_map.mp hr'
      have houtcome : Outcome c.1 c.2 (Ordering.desiredOwner r.id members) r (reconcileRow c.1 c.2 members r) :=
        outcome_reconcileRow (db.partitions.ok.2 r hr)
      have hle := (houtcome.follows hne).epoch_le
      have := hepoch r hr
      omega
    obtain ⟨db', hrun⟩ := ih hrest hsize₁ hepoch₁
    refine ⟨db', ?_⟩
    rw [Db.reconcileAll, hcall]
    exact hrun

/-- No row appears. -/
theorem Db.reconcileAll_none {p : Int} {cs : List (ReconcileArgs × Int)} :
    ∀ {db : Db}, Db.reconcileAll members db cs = .ok db' → db.partition p = none → db'.partition p = none := by
  induction cs with
  | nil =>
    intro db h hp
    obtain rfl : db = db' := Except.ok.inj h
    exact hp
  | cons c cs ih =>
    intro db h hp
    obtain ⟨db₁, result, hcall, hrest⟩ := Db.reconcileAll_cons h
    refine ih hrest ?_
    rw [(Db.reconcileWith_ok hcall).1, hp, Option.map_none]

/-- What every call keeps holds of the row after the run. -/
theorem Db.reconcileAll_keeps {I : PartitionRow → Prop} {p : Int} {cs : List (ReconcileArgs × Int)}
    (howner : ∀ c ∈ cs, c.1.owner ≠ "")
    (hI : ∀ c ∈ cs, ∀ row row', I row → Follows c.1.owner c.2 (Ordering.desiredOwner p members) row row' →
      I row') :
    ∀ {db : Db} {row : PartitionRow}, Db.reconcileAll members db cs = .ok db' → db.partition p = some row →
    I row →
      ∃ row', db'.partition p = some row' ∧ I row' := by
  induction cs with
  | nil =>
    intro db row h hrow hi
    obtain rfl : db = db' := Except.ok.inj h
    exact ⟨row, hrow, hi⟩
  | cons c cs ih =>
    intro db row h hrow hi
    obtain ⟨hc, hcs⟩ := List.forall_mem_cons.mp howner
    obtain ⟨hIc, hIcs⟩ := List.forall_mem_cons.mp hI
    obtain ⟨db₁, result, hcall, hrest⟩ := Db.reconcileAll_cons h
    obtain ⟨row₁, hrow₁, hfollows⟩ := Db.reconcileWith_follows hc hcall hrow
    exact ih hcs hIcs hrest hrow₁ (hIc row row₁ hi hfollows)

/-- What one of the calls establishes and every call keeps holds of the row after the run; `J` is kept all along. -/
theorem Db.reconcileAll_reaches {I J : PartitionRow → Prop} {p : Int} {cs : List (ReconcileArgs × Int)}
    (howner : ∀ c ∈ cs, c.1.owner ≠ "")
    (hJ : ∀ c ∈ cs, ∀ row row', J row → Follows c.1.owner c.2 (Ordering.desiredOwner p members) row row' →
      J row')
    (hI : ∀ c ∈ cs, ∀ row row', I row → Follows c.1.owner c.2 (Ordering.desiredOwner p members) row row' →
      I row')
    {c : ReconcileArgs × Int} (hc : c ∈ cs)
    (hcI : ∀ row row', J row → Follows c.1.owner c.2 (Ordering.desiredOwner p members) row row' → I row')
    (h : Db.reconcileAll members db cs = .ok db') (hrow : db.partition p = some row) (hj : J row) :
    ∃ row', db'.partition p = some row' ∧ I row' := by
  obtain ⟨before, after, rfl⟩ := List.append_of_mem hc
  obtain ⟨db₁, hbefore, hrest⟩ := Db.reconcileAll_append h
  obtain ⟨db₂, result, hcall, hafter⟩ := Db.reconcileAll_cons hrest
  obtain ⟨row₁, hrow₁, hj₁⟩ := Db.reconcileAll_keeps (fun x hx => howner x (by simp [hx]))
    (fun x hx => hJ x (by simp [hx])) hbefore hrow hj
  obtain ⟨row₂, hrow₂, hfollows⟩ := Db.reconcileWith_follows (howner c hc) hcall hrow₁
  exact Db.reconcileAll_keeps (fun x hx => howner x (by simp [hx])) (fun x hx => hI x (by simp [hx])) hafter hrow₂
    (hcI row₁ row₂ hj₁ hfollows)

/-! ## Convergence -/

/-- From `start` on, only members hold leases that are in force. -/
def PartitionRow.MembersOnly (members : List String) (start : Int) (row : PartitionRow) : Prop :=
  ∀ o u, row.leaseOwner = some o → row.leaseUntil = some u → start < u → o ∈ members

section Converge

variable {owner desired : String} {start : Int}

/-- Who holds the row after a call: the caller, or the one who held it before. -/
theorem Follows.owner_cases (h : Follows owner now desired row row') {o : String} (ho : row'.leaseOwner = some o) :
    o = owner ∨ row' = row := by
  by_cases hmine : row.leaseOwner = some owner
  · by_cases hd : desired = owner
    · have hheld : row'.leaseOwner = some owner := by
        refine h.holds.mpr ⟨hd, ?_⟩
        rintro ⟨o', u, ho', hne, -, -⟩
        rw [hmine] at ho'
        exact hne (Option.some.inj ho').symm
      exact .inl (Option.some.inj (ho.symm.trans hheld))
    · rw [(h.letGo hmine hd).1] at ho
      cases ho
  · by_cases hd : desired = owner
    · by_cases hother : row.HeldByOther owner now
      · exact .inr (h.untouched (.inl hother))
      · exact .inl (Option.some.inj (ho.symm.trans (h.holds.mpr ⟨hd, hother⟩)))
    · exact .inr (h.untouched (.inr ⟨hmine, hd⟩))

theorem Follows.membersOnly (h : Follows owner now desired row row') (howner : owner ∈ members)
    (hrow : row.MembersOnly members start) : row'.MembersOnly members start := by
  intro o u ho hu hlt
  rcases h.owner_cases ho with rfl | rfl
  · exact howner
  · exact hrow o u ho hu hlt

/-- A relay that is not desired does not come to hold the row. -/
theorem Follows.stays_away {o : String} (h : Follows owner now desired row row') (hne : o ≠ desired)
    (hrow : row.leaseOwner ≠ some o) : row'.leaseOwner ≠ some o := by
  intro ho
  rcases h.owner_cases ho with rfl | rfl
  · exact hne (h.holds.mp ho).1.symm
  · exact hrow ho

/-- The desired owner keeps the row. -/
theorem Follows.stays (h : Follows owner now desired row row') (hrow : row.leaseOwner = some desired) :
    row'.leaseOwner = some desired := by
  by_cases hd : desired = owner
  · rw [hd] at hrow ⊢
    refine h.holds.mpr ⟨hd, ?_⟩
    rintro ⟨o, u, ho, hne, -, -⟩
    rw [hrow] at ho
    exact hne (Option.some.inj ho).symm
  · rw [h.untouched (.inr ⟨fun ho => hd (Option.some.inj (hrow.symm.trans ho)), hd⟩)]
    exact hrow

/-- The call of the desired owner takes the row, unless another member holds it. -/
theorem Follows.takes (h : Follows desired now desired row row') (hstart : start ≤ now)
    (hmembers : row.MembersOnly members start) (haway : ∀ o ∈ members, o ≠ desired →
      row.leaseOwner ≠ some o) :
    row'.leaseOwner = some desired := by
  refine h.holds.mpr ⟨rfl, ?_⟩
  rintro ⟨o, u, ho, hne, hu, hlt⟩
  exact haway o (hmembers o u ho hu (by omega)) hne ho

/-- After two rounds of calls the desired owner holds the row. -/
theorem Db.reconcileAll_converges {first second : List (ReconcileArgs × Int)} (hmembers : ∀ m ∈ members, m ≠ "")
    (hcalls : ∀ c ∈ first ++ second, c.1.owner ∈ members ∧ start ≤ c.2)
    (hfirst : ∀ m ∈ members, ∃ c ∈ first, c.1.owner = m)
    (hsecond : ∀ m ∈ members, ∃ c ∈ second, c.1.owner = m)
    (hrun : Db.reconcileAll members db (first ++ second) = .ok db') {p : Int} (hrow : db.partition p = some row)
    (hvalid : row.MembersOnly members start) (hne : members ≠ []) :
    ∃ row', db'.partition p = some row' ∧ row'.leaseOwner = some (Ordering.desiredOwner p members) := by
  have hdesired : Ordering.desiredOwner p members ∈ members := Ordering.ownerBy_mem hmembers hne
  have howner : ∀ c ∈ first ++ second, c.1.owner ≠ "" := fun c hc => hmembers _ (hcalls c hc).1
  obtain ⟨db₁, hrun₁, hrun₂⟩ := Db.reconcileAll_append hrun
  have hkeeps : ∀ c ∈ first ++ second, ∀ row row', row.MembersOnly members start →
      Follows c.1.owner c.2 (Ordering.desiredOwner p members) row row' → row'.MembersOnly members start :=
    fun c hc _ _ hm hf => hf.membersOnly (hcalls c hc).1 hm
  obtain ⟨row₁, hrow₁, hvalid₁⟩ := Db.reconcileAll_keeps (fun c hc => howner c (by simp [hc]))
    (fun c hc => hkeeps c (by simp [hc])) hrun₁ hrow hvalid
  -- the first round: everyone else has let go
  have haway : ∀ o ∈ members, o ≠ Ordering.desiredOwner p members → row₁.leaseOwner ≠ some o := by
    intro o ho hod
    obtain ⟨c, hc, rfl⟩ := hfirst o ho
    obtain ⟨row₂, hrow₂, hfree⟩ := Db.reconcileAll_reaches (I := fun r => r.leaseOwner ≠ some c.1.owner)
      (J := fun _ => True) (fun x hx => howner x (by simp [hx])) (fun _ _ _ _ _ _ => trivial)
      (fun _ _ _ _ hr hf => hf.stays_away hod hr) hc
      (fun _ _ _ hf hheld => hod (hf.holds.mp hheld).1.symm) hrun₁ hrow trivial
    rw [hrow₁] at hrow₂
    obtain rfl : row₁ = row₂ := Option.some.inj hrow₂
    exact hfree
  -- the second round: the desired owner takes the row and keeps it
  obtain ⟨c, hc, howned⟩ := hsecond _ hdesired
  refine Db.reconcileAll_reaches (I := fun r => r.leaseOwner = some (Ordering.desiredOwner p members))
    (J := fun r => r.MembersOnly members start ∧
      ∀ o ∈ members, o ≠ Ordering.desiredOwner p members → r.leaseOwner ≠ some o)
    (fun x hx => howner x (by simp [hx])) (fun x hx r r' hr hf => ?_) (fun _ _ _ _ hr hf => hf.stays hr) hc
    (fun r r' hr hf => ?_) hrun₂ hrow₁ ⟨hvalid₁, haway⟩
  · exact ⟨hkeeps x (by simp [hx]) r r' hr.1 hf, fun o ho hod => hf.stays_away hod (hr.2 o ho hod)⟩
  · rw [howned] at hf
    exact hf.takes (hcalls c (by simp [hc])).2 hr.1 hr.2

end Converge

/-- **Reconciliation refines the ownership rule and converges.**  A call commits and treats every row by the rule, if
and only if the values it writes fit their columns.  When all members have called twice, in any order and at any
instants, with arguments that fit, and no one else had a lease in force, every partition is held by its desired
owner. -/
theorem reconciliation_refines_and_converges (members : List String) (hmembers : ∀ m ∈ members, m ≠ "") :
    (∀ (db : Db) (a : ReconcileArgs) (now : Int), db.partitions.rows.length = Ordering.partitionCount →
        trimSpace a.owner ≠ "" →
        ((∃ db' result, db.reconcileWith a now members = .ok (db', result) ∧
          Refines members a now db db' result) ↔
          ∀ r ∈ db.partitions.rows, Fits a now (Ordering.desiredOwner r.id members) r)) ∧
      (∀ (db : Db) (start : Int) (first second : List (ReconcileArgs × Int)), members ≠ [] →
        db.partitions.rows.length = Ordering.partitionCount →
        (∀ c ∈ first ++ second, c.1.owner ∈ members ∧ start ≤ c.2) →
        (∀ m ∈ members, (∃ c ∈ first, c.1.owner = m) ∧ ∃ c ∈ second, c.1.owner = m) →
        (∀ r ∈ db.partitions.rows, r.MembersOnly members start) →
        (∀ c ∈ first ++ second, c.1.Storable) →
        (∀ r ∈ db.partitions.rows, r.epoch + (first ++ second).length ≤ maxInt64) →
        ∃ db', Db.reconcileAll members db (first ++ second) = .ok db' ∧
          ∀ r ∈ db'.partitions.rows, r.leaseOwner = some (Ordering.desiredOwner r.id members)) := by
  refine ⟨fun db a now hsize howner => ?_, ?_⟩
  · have hne : a.owner ≠ "" := fun hempty => howner (by rw [hempty]; decide)
    rw [← Db.reconcileWith_commits hsize howner]
    constructor
    · rintro ⟨db', result, h, -⟩
      exact ⟨db', result, h⟩
    · rintro ⟨db', result, h⟩
      exact ⟨db', result, h, Db.reconcileWith_refines hne h⟩
  · intro db start first second hne hsize hcalls hround hvalid hstorable hepoch
    obtain ⟨db', hrun⟩ := Db.reconcileAll_commits members hstorable hsize hepoch
    refine ⟨db', hrun, fun r' hr' => ?_⟩
    have hpart : db'.partition r'.id = some r' := db'.partition_eq_some.mpr ⟨hr', rfl⟩
    obtain ⟨row, hrow⟩ : ∃ row, db.partition r'.id = some row := by
      refine Option.ne_none_iff_exists'.mp fun hnone => ?_
      rw [Db.reconcileAll_none hrun hnone] at hpart
      cases hpart
    obtain ⟨row', hrow', howned⟩ := Db.reconcileAll_converges hmembers hcalls (fun m hm => (hround m hm).1)
      (fun m hm => (hround m hm).2) hrun hrow (hvalid row (db.partition_eq_some.mp hrow).1) hne
    rw [hpart] at hrow'
    obtain rfl : r' = row' := Option.some.inj hrow'
    exact howned

/-- Two members, and the arguments of their calls. -/
def exampleMembers : List String := ["relay-a", "relay-b"]

def exampleReconcile (owner : String) : ReconcileArgs :=
  { owner := owner, leaseDuration := 30 * second, publishTimeout := 10 * second, presenceStaleAfter := 30 * second,
    safetyMargin := second }

/-- Both members call, and then both again the other way round. -/
def exampleFirstRound : List (ReconcileArgs × Int) :=
  [(exampleReconcile "relay-a", 0), (exampleReconcile "relay-b", 5)]

def exampleSecondRound : List (ReconcileArgs × Int) :=
  [(exampleReconcile "relay-b", 9), (exampleReconcile "relay-a", 9)]

theorem exampleReconcile_storable {owner : String} (h : trimSpace owner ≠ "") (htext : textOk owner = true) :
    (exampleReconcile owner).Storable := ⟨h, htext, show 0 < intervalMS (10 * second) ∧
      intervalMS (10 * second) ≤ maxInt32 by decide⟩

/-- Two relays share the 64 partitions of the migrated schema after two rounds. -/
theorem reconciliation_refines_and_converges_two :
    ∃ db', Db.reconcileAll exampleMembers Db.empty (exampleFirstRound ++ exampleSecondRound) = .ok db' ∧
      ∀ r ∈ db'.partitions.rows, r.leaseOwner = some (Ordering.desiredOwner r.id exampleMembers) := by
  refine (reconciliation_refines_and_converges exampleMembers (by decide)).2 Db.empty 0 exampleFirstRound
    exampleSecondRound (by decide) (by decide) (by decide) (by decide) (fun r hr o u ho => ?_) ?_ (by decide)
  · obtain ⟨n, -, rfl⟩ := List.mem_map.mp hr
    cases ho
  · have ha : (exampleReconcile "relay-a").Storable := exampleReconcile_storable (by decide) (by decide)
    have hb : (exampleReconcile "relay-b").Storable := exampleReconcile_storable (by decide) (by decide)
    simp only [exampleFirstRound, exampleSecondRound, List.cons_append, List.nil_append, List.forall_mem_cons]
    exact ⟨ha, hb, hb, ha, by simp⟩

/-- A caller with a publish timeout of 2³¹ ms. -/
def exampleSlow : ReconcileArgs := { exampleReconcile "relay-a" with publishTimeout := 2 ^ 31 * millisecond }

/-- Every partition is free and desired by the only member, whose call fails at the first of them. -/
theorem reconcile_refused_timeout :
    (∀ r ∈ Db.empty.partitions.rows, r.leaseOwner = none ∧ Ordering.desiredOwner r.id ["relay-a"] = "relay-a") ∧
      Db.empty.reconcileWith exampleSlow 0 ["relay-a"] = .error (.sql "acquire ordering partition 0") := by
  have hupdate : (Db.empty.partitions.update (fun _ => true) (reconcileRow exampleSlow 0 ["relay-a"])).isNone =
    true := by
    decide +kernel
  have hfirst : ((Db.empty.partitions.rows.insertionSort (fun p q => p.id ≤ q.id)).find? fun row =>
      !(reconcileRow exampleSlow 0 ["relay-a"] row).check).elim ""
        (fun row => (decideRow exampleSlow 0 ["relay-a"] row).what row.id) = "acquire ordering partition 0" := by
    decide +kernel
  have hsize : (Db.empty.partitions.rows.insertionSort (fun p q => p.id ≤ q.id)).length =
    Ordering.partitionCount := by
    decide +kernel
  refine ⟨by decide +kernel, ?_⟩
  unfold Db.reconcileWith
  rw [Option.isNone_iff_eq_none.mp hupdate]
  simp only [hfirst, hsize, ne_eq, not_true_eq_false, if_false]

end Emitlane
