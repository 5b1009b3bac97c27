import Mathlib.Data.Finset.Card
import Emitlane.AuditTrail
import Emitlane.Store.Claim
import Emitlane.System.Script

/-!
# Pause — what a pause holds back

SetPaused writes `runtime_control`; the two claim statements read it, and nothing else does.  So a pause stops new
claims at once, and leaves the handlers that already hold an event to finish.  While nobody resumes, the relays publish
at most once for each handler that had not yet published when the pause was committed.

Every call of the store is one step here: a claim that overlaps the pause in time has read `runtime_control` before the
pause was committed, and stands before it in the run.

* `Quiet`: what a step, and then a run, of a paused system can do.
-/

namespace Emitlane

open Relay Outbox

section

variable {ι : Type} {cfg : ι → Config} {s s' : State ι} {a : Action ι}

/-- The handler may still publish. -/
def State.mayPublish (s : State ι) (k : Nat) :
    Prop := ∃ h, s.handlers k = some h ∧ (h.pc = .start ∨ h.pc = .began)

instance State.decidableMayPublish (s : State ι) (k : Nat) : Decidable (s.mayPublish k) :=
  decidable_of_iff ((s.handlers k).any (fun h => h.pc = .start ∨ h.pc = .began) = true)
    (by simp [State.mayPublish, Option.any_eq_true])

/-- How many publishes the handlers can still begin. -/
def State.openPublishes (s : State ι) : Nat := ((Finset.range s.next).filter s.mayPublish).card

/-- How many publishes were begun. -/
def State.publishes (s : State ι) : Nat := s.hist.countP Obs.isPublished

/-- No claim, no event that becomes inflight, and no publish but those of the handlers at work. -/
structure Quiet (s s' : State ι) : Prop where
  next : s'.next = s.next
  inflight : ∀ id r', s'.db.row id = some r' → r'.status = .inflight →
    ∃ r, s.db.row id = some r ∧ r.status = .inflight
  budget : s'.publishes + s'.openPublishes ≤ s.publishes + s.openPublishes

theorem Quiet.refl (s : State ι) : Quiet s s := ⟨rfl, fun _ r hr hstatus => ⟨r, hr, hstatus⟩, le_rfl⟩

theorem Quiet.trans {s'' : State ι} (h : Quiet s s') (h' : Quiet s' s'') : Quiet s s'' where
  next := h'.next.trans h.next
  inflight id r'' hr'' hstatus := by
    obtain ⟨r', hr', hstatus'⟩ := h'.inflight id r'' hr'' hstatus
    exact h.inflight id r' hr' hstatus'
  budget := h'.budget.trans h.budget

/-! ## Claims of a paused system -/

theorem Db.updateEvents_none {db db' : Db} {now : Int} {p : EventRow → Bool} {f : Progress → Progress}
    {out : List EventRow} (hp : ∀ r, p r = false) (h : db.updateEvents now p f = some (db', out)) : out = [] := by
  obtain ⟨-, rfl, -⟩ := Db.updateEvents_some h
  have hnone : db.events.rows.filter (db.hits now p f) = [] := by
    refine List.filter_eq_nil_iff.mpr fun r _ => ?_
    simp [Db.hits, hp r]
  rw [hnone, List.map_nil]

theorem Db.claimPicked_paused {db : Db} (hp : db.paused = true) (now : Int) (locked : Uuid → Bool) (limit : Int) :
    db.claimPicked now locked limit = [] := by
  rw [db.claimPicked_eq]
  simp [Db.eligible, hp, topDue]

theorem Db.claimOrderedPicked_paused {db : Db} (hp : db.paused = true) (now : Int) (locked : Uuid → Bool)
    (owner : String) (limit minimumPartitionLease : Int) :
    db.claimOrderedPicked now locked owner limit minimumPartitionLease = [] := by
  simp [Db.claimOrderedPicked, hp, topDue]

/-- A claim of a paused system returns nothing. -/
theorem claimResult_paused (hp : s.db.paused = true) {i : ι} {db : Db} {evs : List RelayEvent}
    (h : claimResult cfg s a = some (i, db, evs)) : evs = [] := by
  unfold claimResult at h
  split at h
  · split at h
    · cases h
    · rename_i hclaim
      obtain ⟨-, rfl, rfl⟩ := Option.some.inj h
      unfold Db.claim at hclaim
      split_ifs at hclaim
      · exact (Prod.mk.inj (Except.ok.inj hclaim)).2.symm
      · dsimp only at hclaim
        split at hclaim
        · cases hclaim
        · rename_i hupdate
          obtain ⟨-, rfl⟩ := Prod.mk.inj (Except.ok.inj hclaim)
          rw [Db.updateEvents_none (fun r => by simp [Db.claimPicked_paused hp]) hupdate, List.map_nil]
  · split at h
    · cases h
    · rename_i hclaim
      obtain ⟨-, rfl, rfl⟩ := Option.some.inj h
      unfold Db.claimOrdered at hclaim
      split_ifs at hclaim
      · exact (Prod.mk.inj (Except.ok.inj hclaim)).2.symm
      · dsimp only at hclaim
        split at hclaim
        · cases hclaim
        · rename_i hupdate
          obtain ⟨-, rfl⟩ := Prod.mk.inj (Except.ok.inj hclaim)
          rw [Db.updateEvents_none (fun r => by simp [Db.claimOrderedPicked_paused hp]) hupdate, List.map_nil]
  · cases h

/-! ## One step -/

theorem openPublishes_le (hnext : s'.next = s.next) (h : ∀ k, s'.mayPublish k → s.mayPublish k) :
    s'.openPublishes ≤ s.openPublishes := by
  unfold State.openPublishes
  rw [hnext]
  exact Finset.card_le_card (Finset.monotone_filter_right _ fun k _ hk => h k hk)

/-- A handler that publishes has no further publish. -/
theorem openPublishes_lt {k : Nat} (hnext : s'.next = s.next) (h : ∀ k, s'.mayPublish k → s.mayPublish k)
    (hlt : k < s.next) (hk : s.mayPublish k) (hk' : ¬ s'.mayPublish k) : s'.openPublishes + 1 ≤ s.openPublishes := by
  unfold State.openPublishes
  rw [hnext]
  refine Finset.card_lt_card (Finset.ssubset_iff_of_subset ?_ |>.mpr ⟨k, ?_, ?_⟩)
  · exact Finset.monotone_filter_right _ fun k _ hk => h k hk
  · exact Finset.mem_filter.mpr ⟨Finset.mem_range.mpr hlt, hk⟩
  · exact fun hmem => hk' (Finset.mem_filter.mp hmem).2

/-- The other handlers are as they were. -/
theorem mayPublish_setHandler {k : Nat} {h : Option (Handler ι)}
    (hk : ∀ hd, h = some hd → hd.pc = .start ∨ hd.pc = .began → s.mayPublish k)
    (hhandlers : s'.handlers = Function.update s.handlers k h) (k' : Nat) (hmay : s'.mayPublish k') :
    s.mayPublish k' := by
  obtain ⟨hd, hhd, hpc⟩ := hmay
  rw [hhandlers] at hhd
  by_cases hkk : k' = k
  · subst hkk
    rw [Function.update_self] at hhd
    exact hk hd hhd hpc
  · rw [Function.update_of_ne hkk] at hhd
    exact ⟨hd, hhd, hpc⟩

theorem publishes_append {new : List (Obs ι)} (hhist : s'.hist = new ++ s.hist)
    (hnew : ∀ o ∈ new, o.isPublished = false) : s'.publishes = s.publishes := by
  unfold State.publishes
  rw [hhist, List.countP_append, List.countP_eq_zero.mpr fun o ho => by simp [hnew o ho], Nat.zero_add]

theorem publishes_cons {o : Obs ι} (hhist : s'.hist = o :: s.hist) (ho : o.isPublished = false) :
    s'.publishes = s.publishes := by
  unfold State.publishes
  rw [hhist, List.countP_cons_of_neg (by simp [ho])]

/-- The publish uses up the one publish of its handler. -/
theorem published_budget {o : Obs ι} {k : Nat} {h h' : Handler ι} (hnext : s'.next = s.next)
    (hhandlers : s'.handlers = Function.update s.handlers k (some h')) (hhist : s'.hist = o :: s.hist)
    (ho : o.isPublished = true) (hlt : k < s.next) (hk : s.handlers k = some h) (hpc : h.pc = .began)
    (hpc' : h'.pc = .publishing) : s'.publishes + s'.openPublishes ≤ s.publishes + s.openPublishes := by
  have hdone : ¬ (h'.pc = .start ∨ h'.pc = .began) := by
    rw [hpc']
    rintro (hpc | hpc) <;> cases hpc
  have hmono : ∀ k', s'.mayPublish k' → s.mayPublish k' := by
    refine mayPublish_setHandler (fun hd hhd hpc => ?_) hhandlers
    obtain rfl := Option.some.inj hhd
    exact absurd hpc hdone
  have hopen : s'.openPublishes + 1 ≤ s.openPublishes := by
    refine openPublishes_lt hnext hmono hlt ⟨h, hk, .inr hpc⟩ ?_
    rintro ⟨hd, hhd, hpc⟩
    rw [hhandlers, Function.update_self] at hhd
    obtain rfl := Option.some.inj hhd
    exact hdone hpc
  have hcount : s'.publishes = s.publishes + 1 := by
    unfold State.publishes
    rw [hhist, List.countP_cons_of_pos ho]
  omega

/-- A rewritten row is inflight only if it was. -/
theorem Db.Rewrites.inflight {db db' : Db} {r : EventRow} {f : Progress → Progress} (h : db.Rewrites db' r f)
    (hf : (r.progress f).status = .inflight → r.status = .inflight) {id : Uuid} {r' : EventRow}
    (hr' : db'.row id = some r') (hstatus : r'.status = .inflight) :
    ∃ r, db.row id = some r ∧ r.status = .inflight := by
  rw [h.row] at hr'
  split_ifs at hr' with hid
  · obtain rfl := Option.some.inj hr'
    exact ⟨r, hid ▸ h.old, hf hstatus⟩
  · exact ⟨r', hr', hstatus⟩

theorem Next.quiet (hs : Next cfg s a s') (hreach : Reachable cfg s) (hp : s.db.paused = true) : Quiet s s' := by
  -- a step of no handler, and one that leaves the rows alone
  have hsame : ∀ {t : State ι}, t.next = s.next → t.handlers = s.handlers →
    t.openPublishes ≤ s.openPublishes := by
    intro t hnext hhandlers
    refine openPublishes_le hnext fun k hk => ?_
    obtain ⟨h, hh, hpc⟩ := hk
    exact ⟨h, hhandlers ▸ hh, hpc⟩
  have hrows : ∀ {db : Db}, (∀ id, db.row id = s.db.row id) → ∀ id r', db.row id = some r' →
    r'.status = .inflight →
      ∃ r, s.db.row id = some r ∧ r.status = .inflight := by
    intro db hrow id r' hr' hstatus
    exact ⟨r', (hrow id).symm.trans hr', hstatus⟩
  cases hs with
  | tick d => exact ⟨rfl, hrows fun _ => rfl, Nat.add_le_add le_rfl (hsame rfl rfl)⟩
  | insert hins =>
    refine ⟨rfl, fun id r' hr' hstatus => ?_, Nat.add_le_add (publishes_append rfl ?_).le (hsame rfl rfl)⟩
    · rcases (hins.adds.row id r').mp hr' with hr' | ⟨hmem, -⟩
      · exact ⟨r', hr', hstatus⟩
      · rw [(hins.new r' hmem).1.1] at hstatus
        cases hstatus
    · intro o ho
      obtain ⟨row, -, rfl⟩ := List.mem_map.mp ho
      rfl
  | @lease a i db evs hresult hlease =>
    obtain rfl := claimResult_paused hp hresult
    refine ⟨rfl, hrows fun id => ?_, Nat.add_le_add (publishes_append rfl ?_).le ?_⟩
    · exact (hlease.row id).trans (by simp)
    · intro o ho
      cases ho
    · refine openPublishes_le rfl fun k hk => ?_
      obtain ⟨h, hh, hpc⟩ := hk
      refine ⟨h, ?_, hpc⟩
      simp only [State.dispatch] at hh
      split_ifs at hh
      · exact hh
      · cases hh
  | @began k h db r hk hpc hheld _ _ htouch =>
    refine ⟨rfl, fun id r' hr' hstatus => ?_, Nat.add_le_add (publishes_cons rfl rfl).le ?_⟩
    · exact htouch.toRewrites.inflight (fun hstatus => hstatus) hr' hstatus
    · refine openPublishes_le rfl (mayPublish_setHandler (fun hd _ _ => ⟨h, hk, .inl hpc⟩) rfl)
  | @marked a k h m db r f hk _ _ hf hrow _ _ =>
    refine ⟨rfl, fun id r' hr' hstatus => ?_, Nat.add_le_add (publishes_cons rfl rfl).le ?_⟩
    · refine hrow.inflight (fun hstatus => ?_) hr' hstatus
      have hmark : (f r.toProgress).status = .inflight := hstatus
      rw [(hf _).1] at hmark
      cases m <;> cases hmark
    · exact openPublishes_le rfl (mayPublish_setHandler (fun hd hhd => by cases hhd) rfl)
  | @revived a db r f _ hf htouch =>
    refine ⟨rfl, fun id r' hr' hstatus => ?_, Nat.add_le_add (publishes_cons rfl rfl).le (hsame rfl rfl)⟩
    · refine htouch.toRewrites.inflight (fun hstatus => ?_) hr' hstatus
      have hrevived : (f r.toProgress).status = .inflight := hstatus
      rw [(hf _).1] at hrevived
      cases hrevived
  | deleted hrow _ =>
    refine ⟨rfl, fun id r' hr' hstatus => ?_, Nat.add_le_add (publishes_append rfl ?_).le (hsame rfl rfl)⟩
    · rcases hrow id with heq | ⟨hnone, -⟩
      · exact ⟨r', heq.symm.trans hr', hstatus⟩
      · cases hnone.symm.trans hr'
    · intro o ho
      obtain ⟨row, -, rfl⟩ := List.mem_map.mp ho
      rfl
  | owned hevents _ _ _ =>
    exact ⟨rfl, hrows fun id => Db.row_congr hevents id, Nat.add_le_add le_rfl (hsame rfl rfl)⟩
  | @failed a k h err hk hpc =>
    refine ⟨rfl, hrows fun _ => rfl, Nat.add_le_add le_rfl ?_⟩
    refine openPublishes_le rfl (mayPublish_setHandler (fun hd hhd hpc => ?_) rfl)
    obtain rfl := Option.some.inj hhd
    rcases hpc with hpc | hpc <;> cases hpc
  | @published k h traceparent tracestate hk hpc =>
    exact ⟨rfl, hrows fun _ => rfl, published_budget rfl rfl rfl rfl (hreach.script.lt hk) hk hpc rfl⟩
  | @acked k h hk hpc =>
    refine ⟨rfl, hrows fun _ => rfl, Nat.add_le_add (publishes_cons rfl rfl).le ?_⟩
    · refine openPublishes_le rfl (mayPublish_setHandler (fun hd hhd hpc => ?_) rfl)
      obtain rfl := Option.some.inj hhd
      rcases hpc with hpc | hpc <;> cases hpc
  | dropped k =>
    refine ⟨rfl, hrows fun _ => rfl, Nat.add_le_add le_rfl ?_⟩
    exact openPublishes_le rfl (mayPublish_setHandler (fun hd hhd => by cases hhd) rfl)
  | effect _ =>
    refine ⟨rfl, hrows fun _ => rfl, Nat.add_le_add (publishes_cons rfl rfl).le (hsame rfl rfl)⟩

/-! ## Whole runs -/

/-- The call that ends a pause. -/
def Action.resumes : Action ι → Bool
  | .setPaused false _ _ => true
  | _ => false

theorem Reachable.paused_eq (h : Reachable cfg s) : s.db.paused = (controlRow s.db.audit.rows).paused := by
  unfold Db.paused
  rw [h.control_rows]
  simp [controlRow_singleton]

theorem controlWrite_paused (now : Int) (ha : a.resumes = false) {c : ControlRow} (hc : c.paused = true) :
    (controlWrite now a c).paused = true := by
  cases a with
  | setPaused paused m auditID =>
    cases paused with
    | true => rfl
    | false => cases ha
  | _ => exact hc

theorem paused_of_step (h : Reachable cfg s) (hp : s.db.paused = true) (ha : a.resumes = false)
    (hs : step cfg s a = some s') : s'.db.paused = true := by
  rw [(h.step hs).paused_eq, (recorded_of_step hs).audit, controlRow, List.foldl_append, apply_record]
  exact controlWrite_paused _ ha (h.paused_eq ▸ hp)

/-- **A pause holds until it is ended.**  From a paused state, as long as nobody resumes: the system stays paused, no
relay is given an event, no event becomes inflight, and there are at most as many publishes as there were handlers at
work that had not published yet. -/
theorem pause_drains (h : Reachable cfg s) (hp : s.db.paused = true)
    (hrun : Runs.Reach (step cfg) (fun _ a => a.resumes = false) s s') :
    s'.db.paused = true ∧ Quiet s s' ∧ s'.publishes ≤ s.publishes + s.openPublishes := by
  have hall : Reachable cfg s' ∧ s'.db.paused = true ∧ Quiet s s' := by
    refine hrun.inv (I := fun t => Reachable cfg t ∧ t.db.paused = true ∧ Quiet s t) ?_ ⟨h, hp, .refl s⟩
    rintro t a t' ⟨hreach, hpaused, hquiet⟩ ha hs
    exact ⟨hreach.step hs, paused_of_step hreach hpaused ha hs,
      hquiet.trans ((next_of_step hs).quiet hreach hpaused)⟩
  obtain ⟨-, hpaused, hquiet⟩ := hall
  exact ⟨hpaused, hquiet, (Nat.le_add_right _ _).trans hquiet.budget⟩

end

/-- One event is claimed when the operator pauses the relays. -/
def examplePause : List (Action Unit) :=
  [.produce 0 [exampleCall] true, .claim () 10 (fun _ => false), .setPaused true exampleMutation 32]

/-- The claimed event is delivered; the next one is not claimed. -/
def examplePausedRun : List (Action Unit) :=
  [.begin 0, .publish 0 "" "", .ack 0, .settle 0 false 0,
   .produce 0 [{ exampleCall with generated := some 8 }] true, .claim () 10 (fun _ => false)]

theorem pause_drains_claimed : ∃ s s' : State Unit, Reachable exampleRelay s ∧
    Runs.Reach (step exampleRelay) (fun _ a => a.resumes = false) s s' ∧ s.openPublishes = 1 ∧
    s'.publishes = s.publishes + 1 ∧ s'.db.paused = true ∧ s'.next = s.next := by
  obtain ⟨s, hreach, hp⟩ := exists_reachable exampleRelay examplePause
    (fun s => s.db.paused && decide (s.openPublishes = 1) &&
      (Runs.exec (Runs.guarded (step exampleRelay) fun _ a => !a.resumes) s examplePausedRun).any
        fun s' => decide (s'.publishes = s.publishes + 1)) (by decide +kernel)
  obtain ⟨hp, hexec⟩ := Bool.and_eq_true_iff.mp hp
  obtain ⟨hpaused, hopen⟩ := Bool.and_eq_true_iff.mp hp
  obtain ⟨s', hrun, hcount⟩ := Runs.exists_of_guarded (step exampleRelay) (fun _ a => !a.resumes)
    (I := fun _ => True) (C := fun _ a => a.resumes = false) (fun _ _ _ _ _ => trivial)
    (fun _ _ _ hc => by simpa using hc) s trivial examplePausedRun _ hexec
  obtain ⟨hpaused', hquiet, -⟩ := pause_drains hreach hpaused hrun
  exact ⟨s, s', hreach, hrun, of_decide_eq_true hopen, of_decide_eq_true hcount, hpaused', hquiet.next⟩

end Emitlane
