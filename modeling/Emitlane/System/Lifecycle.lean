import Emitlane.Lib.WorkItem
import Emitlane.System.Next

/-!
# System.Lifecycle — every event lives as a work item

The abstract life of an event is `WorkItem.Trace`.  `label` reads the history as labels about one event id, `itemOf`
reads its row as an item, and `Reachable.life` is the refinement: in every reachable state the history of an id leads
to the row it has.
-/

namespace Emitlane

open Relay Outbox Rel WorkItem

section

variable {ι : Type} (cfg : ι → Config)

def phaseOf : Status → Phase
  | .pending => .waiting
  | .inflight => .leased
  | .delivered => .done
  | .dead => .dead

def itemOf (r : EventRow) : Item String := ⟨phaseOf r.status, r.leaseOwner, r.attempts⟩

/-- What an observation says about the event `id`. -/
def label (id : Uuid) : Obs ι → Option (Label String Nat)
  | .enqueued row => if row.id = id then some .created else none
  | .claimed k i ev => if ev.id = id then some (.claimed k (cfg i).instanceID) else none
  | .began k i ev row _ => if row.id = id then some (.began k (cfg i).instanceID ev.attempts) else none
  | .marked k i m _ row => if row.id = id then some (.finished k (cfg i).instanceID (phaseOf m.status)) else none
  | .revived row => if row.id = id then some .revived else none
  | .deleted row => if row.id = id then some .deleted else none
  | .published _ _ => none
  | .acked _ _ => none
  | .effect _ _ => none

/-- The history of one event. -/
def trace (id : Uuid) (hist : List (Obs ι)) : List (Label String Nat) := hist.filterMap (label cfg id)

/-- The history of `id` leads to its row. -/
def Lives (s : State ι) (id : Uuid) : Prop := Trace (trace cfg id s.hist) ((s.db.row id).map itemOf)

variable {cfg} {s s' : State ι} {id : Uuid}

@[simp] theorem phaseOf_eq_waiting {st : Status} : phaseOf st = .waiting ↔ st = .pending := by cases st <;> decide
@[simp] theorem phaseOf_eq_leased {st : Status} : phaseOf st = .leased ↔ st = .inflight := by cases st <;> decide
@[simp] theorem phaseOf_eq_done {st : Status} : phaseOf st = .done ↔ st = .delivered := by cases st <;> decide
@[simp] theorem phaseOf_eq_dead {st : Status} : phaseOf st = .dead ↔ st = .dead := by cases st <;> decide

theorem trace_append (l hist : List (Obs ι)) : trace cfg id (l ++ hist) = trace cfg id l ++ trace cfg id hist :=
  List.filterMap_append

theorem trace_cons_none {o : Obs ι} (ho : label cfg id o = none) (hist : List (Obs ι)) :
    trace cfg id (o :: hist) = trace cfg id hist := List.filterMap_cons_none ho

theorem trace_cons_some {o : Obs ι} {l : Label String Nat} (ho : label cfg id o = some l) (hist : List (Obs ι)) :
    trace cfg id (o :: hist) = l :: trace cfg id hist := List.filterMap_cons_some ho

theorem mem_trace {l : Label String Nat} {hist : List (Obs ι)} :
    l ∈ trace cfg id hist ↔ ∃ o ∈ hist, label cfg id o = some l := List.mem_filterMap

theorem label_began {o : Obs ι} {k : Nat} {owner : String} {n : Int} (h : label cfg id o = some (.began k owner n)) :
    ∃ i ev row t, o = .began k i ev row t ∧ (cfg i).instanceID = owner ∧ row.id = id ∧ ev.attempts = n := by
  cases o with
  | began k' i ev row t =>
    simp only [label] at h
    split_ifs at h with hid
    obtain ⟨rfl, rfl, rfl⟩ := Label.began.inj (Option.some.inj h)
    exact ⟨i, ev, row, t, rfl, rfl, hid, rfl⟩
  | _ => simp only [label] at h; first | cases h | (split_ifs at h; cases h)

theorem label_finished {o : Obs ι} {k : Nat} {owner : String} {p : Phase}
    (h : label cfg id o = some (.finished k owner p)) :
    ∃ i m ordered row, o = .marked k i m ordered row ∧ (cfg i).instanceID = owner ∧ row.id = id ∧
      phaseOf m.status = p := by
  cases o with
  | marked k' i m ordered row =>
    simp only [label] at h
    split_ifs at h with hid
    obtain ⟨rfl, rfl, rfl⟩ := Label.finished.inj (Option.some.inj h)
    exact ⟨i, m, ordered, row, rfl, rfl, hid, rfl⟩
  | _ => simp only [label] at h; first | cases h | (split_ifs at h; cases h)

/-- Observations about rows with distinct ids: at most one is about `id`. -/
theorem trace_map {α : Type} {rows : List α} {key : α → Uuid} {l : α → Label String Nat} (obs : α → Obs ι)
    (hlabel : ∀ r, label cfg id (obs r) = if key r = id then some (l r) else none) (hn : (rows.map key).Nodup) :
    trace cfg id (rows.map obs) = ((lookup key rows id).map l).toList := by
  unfold trace
  rw [List.filterMap_map, ← filterMap_key hn]
  refine congrArg (fun f => List.filterMap f rows) (funext fun r => ?_)
  exact hlabel r

/-! ## The step lemmas -/

/-- A row that is rewritten. -/
theorem Lives.rewrite {db : Db} {r : EventRow} {f : Progress → Progress} {o : Obs ι} {l : Label String Nat}
    (h : Lives cfg s id) (hrow : s.db.Rewrites db r f) (hlabel : label cfg id o = if r.id = id then some l else none)
    (hs : s'.hist = o :: s.hist) (hdb : s'.db = db)
    (hmove : ∀ ls, Trace ls (some (itemOf r)) → Trace (l :: ls) (some (itemOf (r.progress f)))) :
    Lives cfg s' id := by
  unfold Lives at h ⊢
  rw [hs, hdb, hrow.row]
  by_cases hid : r.id = id
  · rw [if_pos hid] at hlabel
    subst hid
    rw [trace_cons_some hlabel, if_pos rfl]
    rw [hrow.old] at h
    exact hmove _ h
  · rw [if_neg hid] at hlabel
    rw [trace_cons_none hlabel, if_neg (Ne.symm hid)]
    exact h

/-- A step that says nothing about events and keeps the rows. -/
theorem Lives.keep (h : Lives cfg s id) (hist : trace cfg id s'.hist = trace cfg id s.hist)
    (hrow : s'.db.row id = s.db.row id) : Lives cfg s' id := by
  unfold Lives
  rw [hist, hrow]
  exact h

theorem Lives.insert {db : Db} {rows : List EventRow} (h : Lives cfg s id) (hrows : Enqueues s.db db rows) :
    Lives cfg (s.insert db rows) id := by
  have hn : (rows.reverse.map (·.id)).Nodup := by
    rw [List.map_reverse]
    exact List.nodup_reverse.mpr hrows.adds.nodup
  have htrace : trace cfg id (s.insert db rows).hist =
      ((lookup (fun r : EventRow => r.id) rows.reverse id).map fun _ => Label.created).toList ++
        trace cfg id s.hist := by
    rw [← trace_map Obs.enqueued (fun r => rfl) hn, ← trace_append]
    rfl
  unfold Lives
  rw [htrace]
  cases hl : lookup (fun r : EventRow => r.id) rows.reverse id with
  | none =>
    have hrow : db.row id = s.db.row id := by
      refine Option.ext fun x => ?_
      rw [hrows.adds.row]
      refine ⟨fun hx => hx.resolve_right fun ⟨hx, hid⟩ => ?_, .inl⟩
      exact lookup_eq_none.mp hl x (List.mem_reverse.mpr hx) hid
    rw [Option.map_none, Option.toList_none, List.nil_append]
    show Trace _ ((db.row id).map itemOf)
    rw [hrow]
    exact h
  | some r =>
    have hid := lookup_key hl
    have hr : r ∈ rows := List.mem_reverse.mp (lookup_mem hl)
    have hnew : db.row id = some r := (hrows.adds.row id r).mpr (.inr ⟨hr, hid⟩)
    have hitem : itemOf r = ⟨.waiting, none, 0⟩ := by
      obtain ⟨⟨hst, hatt⟩, -⟩ := hrows.new r hr
      have hlease := db.event_lease (db.row_eq_some.mp hnew).1
      rw [itemOf, hst, hatt, (EventRow.lease_of_not_inflight hlease (by rw [hst]; decide)).1]
      rfl
    have hold : Trace (trace cfg id s.hist) none := by
      unfold Lives at h
      rw [← hid, hrows.adds.fresh r hr, hid] at h
      exact h
    show Trace _ ((db.row id).map itemOf)
    simp only [hnew, Option.map_some, hitem]
    exact .created hold

theorem Lives.dispatch {i : ι} {db : Db} {evs : List RelayEvent} {leaseUntil : Int} (h : Lives cfg s id)
    (hlease : s.db.Leases db (cfg i).instanceID leaseUntil (Claims cfg s i) evs) :
    Lives cfg (s.dispatch i db evs) id := by
  have hn : ((evs.zipIdx s.next).reverse.map (·.1.id)).Nodup := by
    rw [List.map_reverse, List.nodup_reverse]
    have hids : (evs.zipIdx s.next).map (·.1.id) = evs.map (·.id) := by
      calc (evs.zipIdx s.next).map (·.1.id) = ((evs.zipIdx s.next).map Prod.fst).map (·.id) := List.map_map.symm
        _ = evs.map (·.id) := by rw [List.zipIdx_map_fst]
    rw [hids]
    exact hlease.nodup
  have htrace : trace cfg id (s.dispatch i db evs).hist =
      ((lookup (fun x : RelayEvent × Nat => x.1.id) (evs.zipIdx s.next).reverse id).map fun x =>
        Label.claimed x.2 (cfg i).instanceID).toList ++ trace cfg id s.hist := by
    rw [← trace_map (fun x : RelayEvent × Nat => Obs.claimed x.2 i x.1) (fun r => rfl) hn,
      ← trace_append]
    rfl
  unfold Lives
  rw [htrace]
  show Trace _ ((db.row id).map itemOf)
  rw [hlease.row]
  cases hl : lookup (fun x : RelayEvent × Nat => x.1.id) (evs.zipIdx s.next).reverse id with
  | none =>
    have hnot : id ∉ evs.map (·.id) := by
      intro hin
      obtain ⟨ev, hev, hid⟩ := List.mem_map.mp hin
      obtain ⟨j, hj, rfl⟩ := List.mem_iff_getElem.mp hev
      refine lookup_eq_none.mp hl (evs[j], s.next + j) ?_ hid
      exact List.mem_reverse.mpr (List.mk_add_mem_zipIdx_iff_getElem?.mpr (List.getElem?_eq_getElem hj))
    rw [Option.map_none, Option.toList_none, List.nil_append]
    simp only [if_neg hnot, Option.map_id']
    exact h
  | some x =>
    have hid := lookup_key hl
    have hx : x.1 ∈ evs := List.fst_mem_of_mem_zipIdx (List.mem_reverse.mp (lookup_mem hl))
    obtain ⟨r, e, hr, ⟨hclaim, -⟩, -⟩ := hlease.old x.1 hx
    rw [hid] at hr
    have hin : id ∈ evs.map (·.id) := List.mem_map.mpr ⟨x.1, hx, hid⟩
    simp only [hr, Option.map_some, if_pos hin]
    have hold : Trace (trace cfg id s.hist) (some (itemOf r)) := by
      unfold Lives at h
      rw [hr] at h
      exact h
    refine .claimed x.2 (cfg i).instanceID hold ?_
    rcases hclaim with hp | hp
    · exact .inl (phaseOf_eq_waiting.mpr hp)
    · exact .inr (phaseOf_eq_leased.mpr (of_decide_eq_true (Bool.and_eq_true_iff.mp hp).1))

theorem Lives.delete {db : Db} {retention : Int} (h : Lives cfg s id)
    (hrow : ∀ id, db.row id = s.db.row id ∨
      (db.row id = none ∧ 0 < retention ∧ ∃ r, s.db.row id = some r ∧ r.expired s.clock retention = true)) :
    Lives cfg { s with db := db, hist := (s.db.rowsNotIn db).map .deleted ++ s.hist } id := by
  have hn : ((s.db.rowsNotIn db).map (·.id)).Nodup := s.db.events.ok.1.sublist (List.filter_sublist.map _)
  have htrace : trace cfg id ((s.db.rowsNotIn db).map Obs.deleted ++ s.hist) =
      ((lookup (fun r : EventRow => r.id) (s.db.rowsNotIn db) id).map fun _ => Label.deleted).toList ++
        trace cfg id s.hist := by
    rw [trace_append, trace_map Obs.deleted (fun r => rfl) hn]
  unfold Lives at h ⊢
  rw [htrace]
  show Trace _ ((db.row id).map itemOf)
  cases hl : lookup (fun r : EventRow => r.id) (s.db.rowsNotIn db) id with
  | none =>
    have hsame : db.row id = s.db.row id := by
      rcases hrow id with hsame | ⟨hnone, -, r, hr, -⟩
      · exact hsame
      · obtain ⟨hmem, hid⟩ := s.db.row_eq_some.mp hr
        refine absurd hid (lookup_eq_none.mp hl r (List.mem_filter.mpr ⟨hmem, ?_⟩))
        rw [hid, hnone]
        rfl
    rw [hsame]
    exact h
  | some r =>
    obtain ⟨hmem, hgone⟩ := List.mem_filter.mp (lookup_mem hl)
    have hid := lookup_key hl
    have hr : s.db.row id = some r := s.db.row_eq_some.mpr ⟨hmem, hid⟩
    rw [hid, Option.isNone_iff_eq_none] at hgone
    rcases hrow id with hsame | ⟨-, -, r', hr', hexp⟩
    · rw [hgone, hr] at hsame
      cases hsame
    · obtain rfl : r = r' := Option.some.inj (hr.symm.trans hr')
      rw [hr] at h
      rw [hgone]
      have hdone : r.status = .delivered := of_decide_eq_true (Bool.and_eq_true_iff.mp hexp).1
      exact .deleted h (phaseOf_eq_done.mpr hdone)

/-! ## The refinement -/

theorem row_held {r : EventRow} {ev : Uuid} {owner : String} (h : r.heldBy ev owner = true) :
    (itemOf r).phase = .leased ∧ (itemOf r).owner = some owner := by
  obtain ⟨-, howner, hst⟩ := EventRow.heldBy_iff.mp h
  exact ⟨phaseOf_eq_leased.mpr hst, howner⟩

theorem Lives.next {a : Action ι} (h : Lives cfg s id) (hs : Next cfg s a s') : Lives cfg s' id := by
  cases hs with
  | tick d => exact h.keep rfl rfl
  | insert hrows => exact h.insert hrows
  | lease _ hlease => exact h.dispatch hlease
  | @began k hd db r hk hpc hheld hlt hfence htouch =>
    refine h.rewrite htouch.toRewrites rfl rfl rfl fun ls hls => ?_
    obtain ⟨hp, ho⟩ := row_held hheld
    have hitem : itemOf (r.progress countAttempt) =
        ⟨.leased, some (cfg hd.relay).instanceID, (itemOf r).attempts + 1⟩ := by
      show (⟨(itemOf r).phase, (itemOf r).owner, (itemOf r).attempts + 1⟩ : Item String) = _
      rw [hp, ho]
    rw [hitem]
    exact .began k hls hp ho
  | @marked a k hd m db r f hk hpc hheld hf hrow hordering haction =>
    refine h.rewrite hrow rfl rfl rfl fun ls hls => ?_
    obtain ⟨hp, ho⟩ := row_held hheld
    obtain ⟨hst, howner, hatt⟩ := hf r.toProgress
    have hitem : itemOf (r.progress f) = ⟨phaseOf m.status, none, (itemOf r).attempts⟩ := by
      simp only [itemOf, EventRow.progress_toProgress, hst, howner, hatt]
    rw [hitem]
    refine .finished k hls hp ho ?_
    cases m <;> decide
  | @revived a db r f hdead hf htouch =>
    refine h.rewrite htouch.toRewrites rfl rfl rfl fun ls hls => ?_
    obtain ⟨hst, hatt, howner⟩ := hf r.toProgress
    have hitem : itemOf (r.progress f) = ⟨.waiting, none, 0⟩ := by
      simp only [itemOf, EventRow.progress_toProgress, hst, howner, hatt, phaseOf]
    rw [hitem]
    exact .revived hls (phaseOf_eq_dead.mpr hdead)
  | deleted hrow _ => exact h.delete hrow
  | owned hevents _ _ _ => exact h.keep rfl (Db.row_congr hevents id)
  | failed _ _ => exact h.keep rfl rfl
  | published _ _ _ _ => exact h.keep (trace_cons_none rfl _) rfl
  | acked _ _ => exact h.keep (trace_cons_none rfl _) rfl
  | dropped k => exact h.keep rfl rfl
  | effect _ => exact h.keep (trace_cons_none rfl _) rfl

/-- **Refinement**: the history of every event id leads to the row it has. -/
theorem Reachable.life (h : Reachable cfg s) (id : Uuid) : Lives cfg s id := by
  refine h.inv (I := fun s => Lives cfg s id) (fun clock => ?_) (fun s a s' _ hi hs => hi.next hs)
  exact Trace.nil

end

end Emitlane
