import Emitlane.Lib.Listing
import Emitlane.Store.Outbox

/-!
# Store.Claim — what the two branches of Claim pick

Claim reads the first pending rows and the first rows with an expired lease apart, so that each branch is an index
scan, and merges the two.  `Db.eligible` are the rows of the single query this replaces.
-/

namespace Emitlane

open Listing

/-! ## The order of the queue -/

def EventRow.dueKey (r : EventRow) : ℤ ×ₗ (ℤ ×ₗ Uuid) := toLex (r.availableAt, toLex (r.createdAt, r.id))

theorem dueBefore_byKey : ByKey EventRow.dueBefore EventRow.dueKey := by
  intro a b
  unfold EventRow.dueBefore EventRow.dueKey
  rw [Prod.Lex.toLex_le_toLex, Prod.Lex.toLex_le_toLex]

/-- Ids are unique, so no two rows of the table are equally due. -/
theorem Db.dueBefore_tells (db : Db) : Tells EventRow.dueBefore db.events.rows := by
  refine dueBefore_byKey.tells fun a ha b hb hkey => List.inj_on_of_nodup_map db.events.ok.1 ha hb ?_
  exact congrArg (fun k => (ofLex (ofLex k).2).2) hkey

/-! ## The plain query -/

/-- The unlocked unordered rows that are due, and pending or inflight with an expired lease; none while paused. -/
def Db.eligible (db : Db) (now : Int) (locked : Uuid → Bool) : List EventRow :=
  if db.paused then [] else
  db.events.rows.filter fun r =>
    r.availableAt ≤ now && r.orderingKey.isNone && (r.status = .pending || r.leaseExpired now) && !locked r.id

theorem Db.eligible_sublist (db : Db) (now : Int) (locked : Uuid → Bool) :
    (db.eligible now locked).Sublist db.events.rows := by
  unfold Db.eligible
  split_ifs
  · exact List.nil_sublist _
  · exact List.filter_sublist

/-- No row is in both branches. -/
theorem Db.branches_perm (db : Db) (now : Int) (locked : Uuid → Bool) :
    (db.events.rows.filter (fun r =>
        r.availableAt ≤ now && r.orderingKey.isNone && r.status = .pending && !db.paused && !locked r.id) ++
      db.events.rows.filter fun r =>
        r.availableAt ≤ now && r.orderingKey.isNone && r.leaseExpired now && !db.paused && !locked r.id).Perm
      (db.eligible now locked) := by
  unfold Db.eligible
  split_ifs with hpaused
  · simp [hpaused]
  · refine List.Perm.trans ?_ (List.filter_append_perm (fun r => decide (r.status = .pending)) _)
    rw [List.filter_filter, List.filter_filter]
    refine List.Perm.append (List.Perm.of_eq ?_) (List.Perm.of_eq ?_)
    · refine List.filter_congr fun r _ => ?_
      by_cases h : r.status = .pending <;> simp [h, hpaused]
    · refine List.filter_congr fun r _ => ?_
      by_cases h : r.status = .pending <;> simp [h, hpaused, EventRow.leaseExpired]

theorem Db.claimPicked_eq (db : Db) (now : Int) (locked : Uuid → Bool) (limit : Int) :
    db.claimPicked now locked limit = topDue limit (db.eligible now locked) := by
  have := dueBefore_byKey.total
  have := dueBefore_byKey.trans
  have hperm := db.branches_perm now locked
  have htells := db.dueBefore_tells.mono (db.eligible_sublist now locked).subset
  have hbranches := htells.mono fun r hr => hperm.mem_iff.mp hr
  refine (top_append limit.toNat hbranches).trans ?_
  exact congrArg (List.take limit.toNat) (hbranches.sort_perm hperm)

/-- **The split query picks what the plain query would.** -/
theorem Db.claimPicked_exact (db : Db) (now : Int) (locked : Uuid → Bool) (limit : Int) :
    (db.claimPicked now locked limit).map (·.id) = (topDue limit (db.eligible now locked)).map (·.id) ∧
    (db.paused = true → db.claimPicked now locked limit = []) ∧
    ((db.claimPicked now locked limit).map (·.id)).Nodup ∧
    ((db.claimPicked now locked limit).length < limit → (db.eligible now locked).length < limit) := by
  rw [db.claimPicked_eq]
  refine ⟨rfl, fun hpaused => ?_, ?_, fun hfew => ?_⟩
  · simp [Db.eligible, hpaused, topDue]
  · exact top_nodup _ limit.toNat (db.events.ok.1.sublist ((db.eligible_sublist now locked).map _))
  · have hlen : (topDue limit (db.eligible now locked)).length = min limit.toNat (db.eligible now locked).length :=
      length_top limit.toNat
    omega

end Emitlane
