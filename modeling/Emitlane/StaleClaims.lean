import Emitlane.Delivery

/-!
# StaleClaims — when a transition of an old claim can hit a newer one

The unordered and the ordered transitions are fenced by the name of the relay instance (and the partition epoch), not
by the claim.  A claim whose lease is over may be given to any relay: where that is another instance, the old handler
is fenced off; where it is the same instance, it is not (`stale_mark_same_instance`).

`NoSelfReclaim` is the condition under which the fence is enough: no claim hands an event to an instance that still
has a handler of this event at work.  Then every transition is of the newest claim (`marks_are_current`).
-/

namespace Emitlane

open Relay Outbox Rel WorkItem

section

variable {ι : Type} (cfg : ι → Config)

/-- Every transition was made for the newest claim of its event: no claim with a higher number came before it. -/
def MarksAreCurrent (hist : List (Obs ι)) : Prop :=
  ∀ k i m ordered row pre, (Obs.marked k i m ordered row :: pre) <:+ hist →
    ∀ k' i' ev, Obs.claimed k' i' ev ∈ pre → ev.id = row.id → k' ≤ k

/-- No event is claimed by an instance that still has a handler of this event. -/
def NoSelfReclaim (s : State ι) (a : Action ι) : Prop :=
  ∀ i db evs, claimResult cfg s a = some (i, db, evs) → ∀ ev ∈ evs, ∀ k h, s.handlers k = some h →
    h.event.id = ev.id → (cfg h.relay).instanceID ≠ (cfg i).instanceID

/-- A handler whose instance holds the event is the one of the newest claim. -/
def HoldersAreCurrent (s : State ι) : Prop :=
  ∀ k h r, s.handlers k = some h → s.db.row h.event.id = some r → r.status = .inflight →
    r.leaseOwner = some (cfg h.relay).instanceID →
    ∀ k' i' ev, Obs.claimed k' i' ev ∈ s.hist → ev.id = h.event.id → k' ≤ k

variable {cfg} {s s' : State ι}

/-! ## Claims and handlers are numbered in order -/

theorem Reachable.claimed_lt (h : Reachable cfg s) {k : Nat} {i : ι} {ev : RelayEvent}
    (hmem : Obs.claimed k i ev ∈ s.hist) : k < s.next := by
  by_contra hle
  have hnone := (h.script.unused k (by omega)).2
  have : Obs.claimed k i ev ∈ own k s.hist := mem_own.mpr ⟨hmem, rfl⟩
  rw [hnone] at this
  cases this

/-- A step that makes no claim and leaves every inflight row with its owner keeps the newest claims newest. -/
theorem HoldersAreCurrent.keep (hi : HoldersAreCurrent cfg s)
    (hclaims : ∀ k i ev, Obs.claimed k i ev ∈ s'.hist → Obs.claimed k i ev ∈ s.hist)
    (hhandlers : ∀ {k h}, s'.handlers k = some h → ∃ h₀, s.handlers k = some h₀ ∧ h.Continues h₀)
    (hrows : ∀ id r, s'.db.row id = some r → r.status = .inflight → ∃ r₀, s.db.row id = some r₀ ∧
      r₀.status = .inflight ∧ r₀.leaseOwner = r.leaseOwner) : HoldersAreCurrent cfg s' := by
  intro k h r hk hr hst howner k' i' ev hmem hid
  obtain ⟨h₀, hk₀, hcont⟩ := hhandlers hk
  obtain ⟨r₀, hr₀, hst₀, howner₀⟩ := hrows _ r hr hst
  refine hi k h₀ r₀ hk₀ (hcont.id ▸ hr₀) hst₀ ?_ k' i' ev (hclaims _ _ _ hmem) (hid.trans hcont.id)
  rw [howner₀, howner, hcont.1]

/-- Rows that a rewrite leaves inflight were inflight, with the same owner. -/
theorem inflight_of_rewrites {db : Db} {x : EventRow} {f : Progress → Progress} (hrow : s.db.Rewrites db x f)
    (hf : (f x.toProgress).status = .inflight → x.status = .inflight ∧ (f x.toProgress).leaseOwner = x.leaseOwner)
    (id : Uuid) (r : EventRow) (hr : db.row id = some r) (hst : r.status = .inflight) :
    ∃ r₀, s.db.row id = some r₀ ∧ r₀.status = .inflight ∧ r₀.leaseOwner = r.leaseOwner := by
  rw [hrow.row] at hr
  split_ifs at hr with hid
  · obtain rfl := Option.some.inj hr
    obtain ⟨hx, howner⟩ := hf hst
    exact ⟨x, hid ▸ hrow.old, hx, howner.symm⟩
  · exact ⟨r, hr, hst, rfl⟩

theorem HoldersAreCurrent.dispatch {i : ι} {db : Db} {evs : List RelayEvent} {leaseUntil : Int} {a : Action ι}
    (h : Reachable cfg s) (hi : HoldersAreCurrent cfg s) (hC : NoSelfReclaim cfg s a)
    (hresult : claimResult cfg s a = some (i, db, evs))
    (hlease : s.db.Leases db (cfg i).instanceID leaseUntil (Claims cfg s i) evs) :
    HoldersAreCurrent cfg (s.dispatch i db evs) := by
  intro k hd r hk hr hst howner k' i' ev hmem hid
  have hk : (if k < s.next then s.handlers k else evs[k - s.next]?.map fun ev => ⟨i, ev, .start⟩) = some hd := hk
  rw [State.dispatch_db, hlease.row] at hr
  -- the number of a new claim is the place of its event
  have hnew : ∀ {n : Nat} {j : ι} {e : RelayEvent}, Obs.claimed n j e ∈ (s.dispatch i db evs).hist →
      (s.next ≤ n ∧ evs[n - s.next]? = some e) ∨ Obs.claimed n j e ∈ s.hist := by
    intro n j e hmem
    rcases List.mem_append.mp hmem with hmem | hmem
    · obtain ⟨⟨e', n'⟩, hx, heq⟩ := List.mem_map.mp hmem
      obtain ⟨rfl, -, rfl⟩ := Obs.claimed.inj heq
      exact .inl (List.mk_mem_zipIdx_iff_le_and_getElem?_sub.mp (List.mem_reverse.mp hx))
    · exact .inr hmem
  by_cases hlt : k < s.next
  · -- an old handler: its event is not claimed now, since it would be claimed by its own instance
    rw [if_pos hlt] at hk
    by_cases hin : hd.event.id ∈ evs.map (·.id)
    · exfalso
      obtain ⟨e, he, heid⟩ := List.mem_map.mp hin
      obtain ⟨r₀, ep, hr₀, -, -⟩ := hlease.old e he
      rw [heid] at hr₀
      rw [hr₀, Option.map_some, if_pos hin] at hr
      obtain rfl := Option.some.inj hr
      exact hC i db evs hresult e he k hd hk heid.symm (Option.some.inj howner).symm
    · simp only [if_neg hin, Option.map_id'] at hr
      rcases hnew hmem with ⟨-, hget⟩ | hmem
      · exact absurd (List.mem_map.mpr ⟨ev, List.mem_of_getElem? hget, hid⟩) hin
      · exact hi k hd r hk hr hst howner k' i' ev hmem hid
  · -- a new handler: the only new claim of its event is its own
    rw [if_neg hlt] at hk
    obtain ⟨e, he, rfl⟩ := Option.map_eq_some_iff.mp hk
    rcases hnew hmem with ⟨hle, hget⟩ | hmem
    · have hlen : k - s.next < evs.length := (List.getElem?_eq_some_iff.mp he).1
      have hlen' : k' - s.next < evs.length := (List.getElem?_eq_some_iff.mp hget).1
      have hsame : (evs.map (·.id))[k' - s.next]? = (evs.map (·.id))[k - s.next]? := by
        rw [List.getElem?_map, List.getElem?_map, hget, he, Option.map_some, Option.map_some, hid]
      have := (List.getElem?_inj (by simpa using hlen') hlease.nodup).mp hsame
      omega
    · have := h.claimed_lt hmem
      omega

theorem HoldersAreCurrent.next {a : Action ι} (h : Reachable cfg s) (hi : HoldersAreCurrent cfg s)
    (hC : NoSelfReclaim cfg s a) (hs : Next cfg s a s') : HoldersAreCurrent cfg s' := by
  have hcont := hs.handler_continues
  have hrows : ∀ id r, s.db.row id = some r → r.status = .inflight → ∃ r₀, s.db.row id = some r₀ ∧
      r₀.status = .inflight ∧ r₀.leaseOwner = r.leaseOwner := fun id r hr hst => ⟨r, hr, hst, rfl⟩
  -- observations that are no claims
  have hcons : ∀ {o : Obs ι}, (∀ k i ev, Obs.claimed k i ev ≠ o) →
    ∀ k i ev, Obs.claimed k i ev ∈ o :: s.hist →
      Obs.claimed k i ev ∈ s.hist := by
    intro o hne k i ev hmem
    exact (List.mem_cons.mp hmem).resolve_left (hne k i ev)
  have hmap : ∀ {α : Type} {f : α → Obs ι} {l : List α}, (∀ x k i ev, Obs.claimed k i ev ≠ f x) →
    ∀ k i ev,
      Obs.claimed k i ev ∈ l.map f ++ s.hist → Obs.claimed k i ev ∈ s.hist := by
    intro α f l hne k i ev hmem
    refine (List.mem_append.mp hmem).resolve_left fun hmem => ?_
    obtain ⟨x, -, hx⟩ := List.mem_map.mp hmem
    exact hne x k i ev hx.symm
  cases hs with
  | lease hresult hlease => exact hi.dispatch h hC hresult hlease
  | insert hr =>
    refine hi.keep (hmap fun _ _ _ _ h => by cases h) (hcont rfl) fun id r hrow hst => ?_
    rw [State.insert_db] at hrow
    rcases (hr.adds.row id r).mp hrow with hold | ⟨hnew, -⟩
    · exact ⟨r, hold, hst, rfl⟩
    · rw [(hr.new r hnew).1.1] at hst
      cases hst
  | began _ _ _ _ _ htouch =>
    refine hi.keep (hcons fun _ _ _ h => by cases h) (hcont rfl) ?_
    exact inflight_of_rewrites htouch.toRewrites fun hst => ⟨hst, rfl⟩
  | @marked _ _ _ m _ _ _ _ _ _ hf hrow _ _ =>
    refine hi.keep (hcons fun _ _ _ h => by cases h) (hcont rfl) (inflight_of_rewrites hrow fun hst => ?_)
    rw [(hf _).1] at hst
    cases m <;> cases hst
  | revived _ hf htouch =>
    refine hi.keep (hcons fun _ _ _ h => by cases h) (hcont rfl) (inflight_of_rewrites htouch.toRewrites fun hst => ?_)
    rw [(hf _).1] at hst
    cases hst
  | deleted hrow _ =>
    refine hi.keep (hmap fun _ _ _ _ h => by cases h) (hcont rfl) fun id r hr hst => ?_
    rcases hrow id with heq | ⟨hnone, -⟩
    · exact ⟨r, heq ▸ hr, hst, rfl⟩
    · have hr : Db.row _ id = some r := hr
      rw [hnone] at hr
      cases hr
  | owned hevents _ _ _ =>
    refine hi.keep (fun _ _ _ hmem => hmem) (hcont rfl) fun id r hr hst => ⟨r, ?_, hst, rfl⟩
    rw [← Db.row_congr hevents]
    exact hr
  | failed _ _ => exact hi.keep (fun _ _ _ hmem => hmem) (hcont rfl) hrows
  | published _ _ _ _ => exact hi.keep (hcons fun _ _ _ h => by cases h) (hcont rfl) hrows
  | acked _ _ => exact hi.keep (hcons fun _ _ _ h => by cases h) (hcont rfl) hrows
  | dropped k => exact hi.keep (fun _ _ _ hmem => hmem) (hcont rfl) hrows
  | tick d => exact hi.keep (fun _ _ _ hmem => hmem) (hcont rfl) hrows
  | effect _ => exact hi.keep (hcons fun _ _ _ h => by cases h) (hcont rfl) hrows

/-! ## Every transition is of the newest claim -/

variable (cfg) in
/-- The runs in which no instance claims an event it still works on. -/
def ReachesFenced (s : State ι) : Prop := ∃ clock, Runs.Reach (step cfg) (NoSelfReclaim cfg) (State.init ι clock) s

theorem ReachesFenced.reachable (h : ReachesFenced cfg s) : Reachable cfg s := by
  obtain ⟨clock, hrun⟩ := h
  exact ⟨clock, hrun.weaken fun _ _ _ => trivial⟩

/-- A step adds no mark of an old claim. -/
theorem MarksAreCurrent.next {a : Action ι} (hi : HoldersAreCurrent cfg s) (hm : MarksAreCurrent s.hist)
    (hs : Next cfg s a s') : MarksAreCurrent s'.hist := by
  intro k i m ordered row pre hsuf
  rcases hs.suffix_hist hsuf rfl with hsuf | ⟨rfl, hrow, h, hk, rfl, -, hheld, -⟩
  · exact hm k i m ordered row pre hsuf
  · obtain ⟨hid, howner, hst⟩ := EventRow.heldBy_iff.mp hheld
    intro k' i' ev hclaimed hev
    exact hi k h row hk (hid ▸ hrow) hst howner k' i' ev hclaimed (hev.trans hid)

/-- **A stale claim never overwrites a newer one**, as long as no instance claims an event it still works on. -/
theorem marks_are_current (h : ReachesFenced cfg s) : MarksAreCurrent s.hist := by
  obtain ⟨clock, hrun⟩ := h
  refine (hrun.inv (I := fun s => ReachesFenced cfg s ∧ HoldersAreCurrent cfg s ∧ MarksAreCurrent s.hist) ?_ ?_).2.2
  · rintro s a s' ⟨hreach, hi, hm⟩ hC hs
    obtain ⟨clock, hrun⟩ := hreach
    have hnext := next_of_step hs
    exact ⟨⟨clock, hrun.tail hC hs⟩, hi.next (ReachesFenced.reachable ⟨clock, hrun⟩) hC hnext,
      hm.next hi hnext⟩
  · refine ⟨⟨clock, Runs.Reach.refl _⟩, ?_, ?_⟩
    · intro k h r hk
      cases hk
    · intro k i m ordered row pre hsuf
      cases List.suffix_nil.mp hsuf

variable (cfg) in
/-- The test for `NoSelfReclaim`. -/
def noSelfReclaim (s : State ι) (a : Action ι) : Bool :=
  match claimResult cfg s a with
  | none => true
  | some (i, _, evs) => evs.all fun ev => (List.range s.next).all fun k => (s.handlers k).all fun h =>
      h.event.id ≠ ev.id || (cfg h.relay).instanceID ≠ (cfg i).instanceID

theorem noSelfReclaim_sound {a : Action ι} (hi : Scripted s) (h : noSelfReclaim cfg s a = true) :
    NoSelfReclaim cfg s a := by
  intro i db evs hresult ev hev k hd hk hid
  unfold noSelfReclaim at h
  rw [hresult] at h
  have hall := List.all_eq_true.mp (List.all_eq_true.mp h ev hev) k (List.mem_range.mpr (hi.lt hk))
  rw [hk] at hall
  rcases Bool.or_eq_true_iff.mp hall with hne | hne
  · exact absurd hid (of_decide_eq_true hne)
  · exact of_decide_eq_true hne

def exampleRelays : Bool → Config := fun b => { defaultConfig with instanceID := if b then "relay-b" else "relay-a" }

/-- A relay that outlived its lease, and the relay that took the event over. -/
def exampleTakeover : List (Action Bool) :=
  [.produce 0 [exampleCall] true, .claim false 10 (fun _ => false), .begin 0, .publish 0 "" "",
   .fail 0 ⟨[], false, true⟩, .tick (3600 * 1000000), .claim true 10 (fun _ => false), .begin 1, .publish 1 "" "",
   .settle 0 false 0, .ack 1, .settle 1 false 0]

/-- The newest observation is that claim 1 of the second relay delivered the event. -/
def takenOver : List (Obs Bool) → Bool
  | .marked 1 true .delivered false _ :: _ => true
  | _ => false

/-- After a takeover only the newer claim marks the event. -/
theorem marks_are_current_takeover : ∃ s : State Bool, ReachesFenced exampleRelays s ∧
    (∃ row pre, s.hist = Obs.marked 1 true .delivered false row :: pre) ∧ MarksAreCurrent s.hist := by
  obtain ⟨s, hrun, hp⟩ := Runs.exists_of_guarded (step exampleRelays) (noSelfReclaim exampleRelays)
    (fun _ _ _ hi hs => Scripted.next hi (next_of_step hs)) (fun _ _ hi => noSelfReclaim_sound hi) (State.init Bool 0)
    (Reachable.script (⟨0, Runs.Reach.refl _⟩ : Reachable exampleRelays _)) exampleTakeover
    (fun s => takenOver s.hist) (by decide +kernel)
  have hreach : ReachesFenced exampleRelays s := ⟨0, hrun⟩
  refine ⟨s, hreach, ?_, marks_are_current hreach⟩
  unfold takenOver at hp
  split at hp
  · rename_i row pre hhist
    exact ⟨row, pre, hhist⟩
  · cases hp

/-- The newest observation is that claim 0 gave the event back, which claim 1 had taken before. -/
def staleMark : List (Obs Unit) → Bool
  | .marked 0 () .retried false row :: pre => pre.any fun
    | .claimed 1 () ev => ev.id = row.id
    | _ => false
  | _ => false

/-- A relay whose handler outlived its lease claims the event again, and the old handler reschedules it while the new
one is publishing. -/
theorem stale_mark_same_instance : (∀ i, (exampleRelay i).Valid) ∧ ∃ s : State Unit, Reachable exampleRelay s ∧
    (∃ row pre ev, s.hist = Obs.marked 0 () .retried false row :: pre ∧ Obs.claimed 1 () ev ∈ pre ∧
      ev.id = row.id) ∧
    (s.handlers 1).map (·.pc) = some .publishing ∧ ¬ MarksAreCurrent s.hist := by
  refine ⟨by decide +kernel, ?_⟩
  obtain ⟨s, hreach, hp⟩ := exists_reachable exampleRelay
    [.produce 0 [exampleCall] true, .claim () 10 (fun _ => false), .begin 0, .publish 0 "" "",
     .fail 0 ⟨[], false, true⟩, .tick (3600 * 1000000), .claim () 10 (fun _ => false), .begin 1, .publish 1 "" "",
     .settle 0 false 0]
    (fun s => (s.handlers 1).map (·.pc) = some .publishing && staleMark s.hist) (by decide +kernel)
  obtain ⟨hpc, hmark⟩ := Bool.and_eq_true_iff.mp hp
  unfold staleMark at hmark
  split at hmark
  · rename_i row pre hhist
    obtain ⟨o, ho, htest⟩ := List.any_eq_true.mp hmark
    split at htest
    · rename_i ev
      have hid : ev.id = row.id := of_decide_eq_true htest
      refine ⟨s, hreach, ⟨row, pre, ev, hhist, ho, hid⟩, of_decide_eq_true hpc, fun hcur => ?_⟩
      have hle := hcur 0 () .retried false row pre (hhist ▸ List.suffix_rfl) 1 () ev ho hid
      omega
    · cases htest
  · cases hmark

end

end Emitlane
