import Emitlane.Handoff

/-!
# Republish — records behind an advanced stream

A publish takes effect on the broker within the window of its attempt, also after the relay has given it up.  Between
epochs the handoff barrier keeps the windows apart; within an epoch nothing does: a retry may be delivered, and the
stream advance, while the window of an earlier attempt of the same sequence is open (`late_effect_behind_stream`).

Also the barrier of a handoff lets a new owner begin at the last instant of the old windows.

`Drained` is the condition that closes the gap: when a delivery moves the cursor, every attempt of its sequence has had
its effect or can have none any more.  Then the broker's log has the records of a stream in the order of their sequences
(`effects_in_order`).
-/

namespace Emitlane

open Relay Outbox Rel

section

variable {ι : Type}

/-- A successful begin of an ordered event. -/
structure Attempt (ι : Type) where
  k : Nat
  relay : ι
  ev : RelayEvent
  row : EventRow
  instant : Int

namespace Attempt

variable (a b : Attempt ι)

/-- The attempt was made. -/
def In (hist : List (Obs ι)) : Prop :=
  Obs.began a.k a.relay a.ev a.row a.instant ∈ hist ∧ isOrdered a.ev = true

def sequence : Int := a.ev.orderingSequence

def deadline (cfg : ι → Config) : Int := Emitlane.deadline cfg a.relay a.instant

def partition : Int := a.row.orderingPartition.getD 0

def begin : Begin ι := ⟨a.relay, a.partition, a.ev.orderingEpoch, a.instant⟩

/-- Both are of the stream of the event `ev`. -/
def OfStream (ev : RelayEvent) : Prop := a.ev.destination = ev.destination ∧ a.ev.orderingKey = ev.orderingKey

/-- Its publish has taken effect. -/
def Effective (hist : List (Obs ι)) : Prop := ∃ u, Obs.effect a.k u ∈ hist

end Attempt

/-- A record of a stream takes effect before all records of larger sequences: `older` is the broker's log at the time of
the effect. -/
def EffectsInOrder (hist : List (Obs ι)) : Prop :=
  ∀ a b : Attempt ι, a.In hist → b.In hist → a.OfStream b.ev → a.sequence < b.sequence →
    ∀ u older, (Obs.effect a.k u :: older) <:+ hist → ∀ u', Obs.effect b.k u' ∉ older

/-- When MarkOrderedDelivered succeeds, every attempt of this sequence under the epoch has had its effect or is over,
and every attempt of another epoch has had its effect or does not end at this very instant. -/
def Drained (cfg : ι → Config) (s : State ι) (x : Action ι) : Prop :=
  ∀ k ctxDone delay h db, x = .settle k ctxDone delay → s.handlers k = some h → h.pc = .acked →
    isOrdered h.event = true → markDelivered (cfg h.relay) s.db s.clock h.event = .ok db →
    ∀ a : Attempt ι, a.In s.hist → a.OfStream h.event → a.sequence = h.event.orderingSequence →
      a.Effective s.hist ∨
        if a.ev.orderingEpoch = h.event.orderingEpoch then a.deadline cfg < s.clock else a.deadline cfg ≠ s.clock

/-- The begins of the ordered attempts. -/
def begins (hist : List (Obs ι)) : List (Begin ι) := hist.filterMap fun
  | .began k i ev row t => if isOrdered ev then some (Attempt.begin ⟨k, i, ev, row, t⟩) else none
  | _ => none

variable {cfg : ι → Config} {s s' : State ι} {a b : Attempt ι}

theorem Attempt.In.mem_begins {hist : List (Obs ι)} (h : a.In hist) : a.begin ∈ begins hist :=
  List.mem_filterMap.mpr ⟨_, h.1, if_pos h.2⟩

/-! ## The partition rows of a run are guarded -/

/-- A step makes no ordered attempt, or one. -/
theorem Next.begins {x : Action ι} (hs : Next cfg s x s') :
    Emitlane.begins s'.hist = Emitlane.begins s.hist ∨
      ∃ a : Attempt ι, Fact cfg s (.began a.k a.relay a.ev a.row a.instant) ∧ isOrdered a.ev = true ∧
        Emitlane.begins s'.hist = a.begin :: Emitlane.begins s.hist := by
  obtain ⟨new, hhist, hnew⟩ := hs.news
  have happend : Emitlane.begins s'.hist = Emitlane.begins new ++ Emitlane.begins s.hist := by
    rw [hhist]
    exact List.filterMap_append
  by_cases hnone : Emitlane.begins new = []
  · rw [hnone] at happend
    exact .inl happend
  · obtain ⟨b, hb⟩ := List.exists_mem_of_ne_nil _ hnone
    obtain ⟨o, ho, hsome⟩ := List.mem_filterMap.mp hb
    cases o with
    | began k i ev row t =>
      obtain ⟨hfact, hone⟩ := hnew _ ho
      by_cases hord : isOrdered ev = true
      · refine .inr ⟨⟨k, i, ev, row, t⟩, hfact, hord, ?_⟩
        rw [happend, hone rfl]
        simp [Emitlane.begins, hord]
      · simp [hord] at hsome
    | _ => cases hsome

/-- What holds in the state in which an ordered attempt is made. -/
theorem Attempt.fact (hfact : Fact cfg s (.began a.k a.relay a.ev a.row a.instant)) (hord : isOrdered a.ev = true) :
    a.instant = s.clock ∧ s.db.row a.row.id = some a.row ∧
      (∃ h owner, s.handlers a.k = some h ∧ a.ev = { h.event with attempts := a.ev.attempts } ∧
        a.row.heldBy h.event.id owner = true) ∧
      ∃ p, s.db.partition a.partition = some p ∧ p.epoch = a.ev.orderingEpoch ∧
        p.authority (cfg a.relay).instanceID s.clock (addMS s.clock (intervalMS (cfg a.relay).window) ≤ ·) =
        true := by
  obtain ⟨hinstant, hrow, h, hk, -, hrelay, hev, hheld, -, hfence⟩ := hfact
  have hord : isOrdered h.event = true := by rw [hev] at hord; exact hord
  obtain ⟨p, hp, hepoch, hauth⟩ := hfence hord
  obtain ⟨pid, hpid, hpart⟩ := Option.bind_eq_some_iff.mp hp
  refine ⟨hinstant, hrow, ⟨h, _, hk, by rw [hev], hheld⟩, p, ?_, ?_, hrelay ▸ hauth⟩
  · unfold Attempt.partition
    rw [hpid]
    exact hpart
  · rw [hev]
    exact hepoch

theorem Reachable.guarded (hfleet : Fleet cfg) (h : Reachable cfg s) : AllGuarded cfg s.clock s.db (begins s.hist) := by
  refine h.inv (I := fun s => AllGuarded cfg s.clock s.db (begins s.hist)) (fun clock => AllGuarded.init clock) ?_
  intro s x s' _ hi hs
  refine AllGuarded.tick (AllGuarded.move hfleet ?_ hs.move) hs.clock_le
  rcases hs.begins with hsame | ⟨a, hfact, hord, hbegins⟩
  · rw [hsame]
    exact hi
  · rw [hbegins]
    obtain ⟨hinstant, -, -, p, hpart, hepoch, hauth⟩ := Attempt.fact hfact hord
    exact hi.begin hfleet hpart hinstant hepoch.symm hauth

/-! ## Begins and effects -/

/-- A handler begins once. -/
theorem Reachable.began_unique (h : Reachable cfg s) {k : Nat} {i j : ι} {ev ev' : RelayEvent} {row row' : EventRow}
    {t t' : Int} (hmem : Obs.began k i ev row t ∈ s.hist) (hmem' : Obs.began k j ev' row' t' ∈ s.hist) :
    Obs.began k i ev row t = Obs.began k j ev' row' t' := by
  have hcount := (h.script.script k).counts.1
  rw [List.countP_eq_length_filter] at hcount
  have hin : ∀ {i : ι} {ev : RelayEvent} {row : EventRow} {t : Int}, Obs.began k i ev row t ∈ s.hist →
      Obs.began k i ev row t ∈ (own k s.hist).filter Obs.isBegan :=
    fun hmem => List.mem_filter.mpr ⟨mem_own.mpr ⟨hmem, rfl⟩, rfl⟩
  have h1 := hin hmem
  have h2 := hin hmem'
  cases hl : (own k s.hist).filter Obs.isBegan with
  | nil => rw [hl] at h1; cases h1
  | cons o rest =>
    rw [hl, List.length_cons] at hcount
    obtain rfl := List.length_eq_zero_iff.mp (by omega : rest.length = 0)
    rw [hl] at h1 h2
    rw [List.mem_singleton.mp h1, List.mem_singleton.mp h2]

/-- What an effect needs: its attempt is in its window, and has had none. -/
theorem canTakeEffect_iff {hist : List (Obs ι)} {k : Nat} {now : Int} (h : canTakeEffect cfg hist k now = true) :
    (∀ u, Obs.effect k u ∉ hist) ∧
      ∃ i ev row t, Obs.began k i ev row t ∈ hist ∧ t ≤ now ∧ now ≤ deadline cfg i t := by
  unfold canTakeEffect at h
  obtain ⟨h, hbegan⟩ := Bool.and_eq_true_iff.mp h
  obtain ⟨-, hnone⟩ := Bool.and_eq_true_iff.mp h
  constructor
  · intro u hmem
    rw [List.any_eq_true.mpr ⟨_, hmem, decide_eq_true rfl⟩] at hnone
    cases hnone
  · obtain ⟨o, ho, htest⟩ := List.any_eq_true.mp hbegan
    split at htest
    · rename_i k' i ev row t
      simp only [Bool.and_eq_true, decide_eq_true_eq] at htest
      obtain ⟨⟨rfl, hle⟩, hwin⟩ := htest
      exact ⟨i, ev, row, t, ho, hle, hwin⟩
    · cases htest

/-- Before an effect comes the begin of its attempt. -/
theorem Reachable.began_of_effect (h : Reachable cfg s) {k : Nat} {u : Int} (hu : Obs.effect k u ∈ s.hist) :
    ∃ i ev row t, Obs.began k i ev row t ∈ s.hist :=
  h.obs (P := fun hist o => ∀ k u, o = .effect k u → ∃ i ev row t, Obs.began k i ev row t ∈ hist)
    (fun new hist o ho k u heq => by
      obtain ⟨i, ev, row, t, hmem⟩ := ho k u heq
      exact ⟨i, ev, row, t, List.mem_append_right _ hmem⟩)
    (by
      rintro s o - hfact k u rfl
      obtain ⟨rfl, hcan⟩ := hfact
      obtain ⟨-, i, ev, row, t, hmem, -⟩ := canTakeEffect_iff hcan
      exact ⟨i, ev, row, t, hmem⟩)
    _ hu k u rfl

/-! ## Attempts and the cursor -/

/-- With fresh ids, an ordered event that is held stands at the cursor of the stream its handler knows. -/
theorem Reachable.held_at_cursor (h : Reachable cfg s) (hf : FreshIDs s.hist) {k : Nat} {hd : Handler ι}
    (hk : s.handlers k = some hd) (hord : isOrdered hd.event = true) {r : EventRow} {owner : String}
    (hr : s.db.row r.id = some r) (hheld : r.heldBy hd.event.id owner = true) :
    ∃ st, s.db.stream hd.event.destination hd.event.orderingKey = some st ∧
      hd.event.orderingSequence = st.nextSequence ∧ r.orderingPartition = some st.partitionID ∧
      r.destination = hd.event.destination ∧ r.orderingKey = some hd.event.orderingKey := by
  obtain ⟨hid, -, hst⟩ := EventRow.heldBy_iff.mp hheld
  obtain ⟨e, he, hcopy⟩ := h.copy_enqueued hk
  obtain rfl := hf.ext he (h.row_enqueued hr) (hcopy.id.symm.trans hid.symm)
  rw [isOrdered_of_copy hcopy fun k hk => Db.orderingKey_ne hr hk] at hord
  obtain ⟨key, hkey⟩ := Option.isSome_iff_exists.mp hord
  obtain ⟨st, hstream, hn, hpart⟩ := (h.cursors r.id r hr).at_cursor (.inl hst) hkey
  have hevkey : hd.event.orderingKey = key := by rw [hcopy.orderingKey, hkey]; rfl
  refine ⟨st, ?_, ?_, hpart, hcopy.destination.symm, by rw [hkey, hevkey]⟩
  · rw [hcopy.destination, hevkey]
    exact hstream
  · rw [hcopy.orderingSequence, hn]
    rfl

/-- The attempt has had its effect, or can have none any more. -/
def Attempt.Finished (cfg : ι → Config) (s : State ι) (a : Attempt ι) : Prop :=
  a.Effective s.hist ∨ a.deadline cfg < s.clock

/-- An attempt is at or below the cursor, and if it is below, it is finished. -/
def Attempt.Placed (cfg : ι → Config) (s : State ι) (a : Attempt ι) : Prop :=
  ∃ st, s.db.stream a.ev.destination a.ev.orderingKey = some st ∧ a.row.orderingPartition = some st.partitionID ∧
    a.sequence ≤ st.nextSequence ∧ (a.sequence < st.nextSequence → a.Finished cfg s)

/-- The attempts of a run: each is placed, and is finished when a later sequence has begun. -/
structure AttemptsInOrder (cfg : ι → Config) (s : State ι) : Prop where
  placed : ∀ a : Attempt ι, a.In s.hist → a.Placed cfg s
  apart : ∀ a b : Attempt ι, a.In s.hist → b.In s.hist → a.OfStream b.ev → a.sequence < b.sequence →
    a.Finished cfg s

/-- A new attempt is made at the cursor. -/
theorem Attempt.at_cursor (h : Reachable cfg s) (hf : FreshIDs s.hist)
    (hfact : Fact cfg s (.began a.k a.relay a.ev a.row a.instant)) (hord : isOrdered a.ev = true) :
    ∃ st, s.db.stream a.ev.destination a.ev.orderingKey = some st ∧
    a.row.orderingPartition = some st.partitionID ∧
      a.sequence = st.nextSequence := by
  obtain ⟨-, hrow, ⟨hd, owner, hk, hev, hheld⟩, -⟩ := Attempt.fact hfact hord
  have hord : isOrdered hd.event = true := by rw [hev] at hord; exact hord
  obtain ⟨st, hst, hn, hpart, -, -⟩ := h.held_at_cursor hf hk hord hrow hheld
  unfold Attempt.sequence
  rw [hev]
  exact ⟨st, hst, hpart, hn⟩

/-! ## One step -/

theorem Attempt.Effective.next {x : Action ι} (h : a.Effective s.hist) (hs : Next cfg s x s') :
    a.Effective s'.hist := by
  obtain ⟨new, hhist, -⟩ := hs.news
  obtain ⟨u, hu⟩ := h
  rw [hhist]
  exact ⟨u, List.mem_append_right _ hu⟩

theorem Attempt.Finished.next {x : Action ι} (h : a.Finished cfg s) (hs : Next cfg s x s') : a.Finished cfg s' := by
  rcases h with heff | hover
  · exact .inl (heff.next hs)
  · exact .inr (hover.trans_le hs.clock_le)

/-- A delivery that moves the cursor past an attempt finds it finished. -/
theorem Attempt.finished_of_advance (hfleet : Fleet cfg) (h : Reachable cfg s) (hf : FreshIDs s.hist) {x : Action ι}
    (hC : Drained cfg s x) (ha : a.In s.hist) {st : StreamRow}
    (hst : s.db.stream a.ev.destination a.ev.orderingKey = some st)
    (hpart : a.row.orderingPartition = some st.partitionID) (hseq : a.sequence = st.nextSequence) {k : Nat}
    {hd : Handler ι} {r : EventRow} (hk : s.handlers k = some hd) (hpc : hd.pc = .acked)
    (hord : isOrdered hd.event = true) (hr : s.db.row r.id = some r)
    (hadv : s.db.Advances s'.db s.clock hd.event (cfg hd.relay).instanceID r) (hmove : r.advances st = true)
    (hx : ∃ ctxDone delay, x = .settle k ctxDone delay)
    (hcall : markDelivered (cfg hd.relay) s.db s.clock hd.event = .ok s'.db) : a.Finished cfg s := by
  obtain ⟨-, hsd, hskey⟩ := s.db.stream_eq_some.mp hst
  obtain ⟨hrd, hrkey, hrpart, hrn⟩ := EventRow.advances_iff.mp hmove
  obtain ⟨_, -, -, -, hdest, hkey⟩ := h.held_at_cursor hf hk hord hr hadv.fenced.held
  obtain ⟨p, hp, hepoch, hauth⟩ := hadv.fenced.partition
  -- the partition of the stream is the one of the attempt
  have hrow : s.db.partition a.partition = some p := by
    unfold Db.partitionOf at hp
    rw [← hrpart] at hp
    unfold Attempt.partition
    rw [hpart]
    exact hp
  have hstream : a.OfStream hd.event := by
    refine ⟨hsd.symm.trans (hrd.trans hdest), ?_⟩
    rw [hkey, hskey] at hrkey
    exact Option.some.inj hrkey
  have hsame : a.sequence = hd.event.orderingSequence := by
    rw [hadv.fenced.sequence] at hrn
    exact hseq.trans (Option.some.inj hrn)
  obtain ⟨ctxDone, delay, rfl⟩ := hx
  refine (hC k ctxDone delay hd s'.db rfl hk hpc hord hcall a ha hstream hsame).imp_right fun hdrained => ?_
  by_cases hcur : a.ev.orderingEpoch = hd.event.orderingEpoch
  · rwa [if_pos hcur] at hdrained
  · -- the fence of the delivery holds the barrier behind the windows of other epochs
    rw [if_neg hcur] at hdrained
    have hover := ((h.guarded hfleet).apart ha.mem_begins hrow hauth (fun heq => hcur (heq.trans hepoch))).2
    exact lt_of_le_of_ne hover hdrained

/-- An attempt that was placed stays so. -/
theorem Attempt.Placed.next (hfleet : Fleet cfg) (h : Reachable cfg s) (hf : FreshIDs s.hist) {x : Action ι}
    (hC : Drained cfg s x) (hs : Next cfg s x s') (ha : a.In s.hist) (hp : a.Placed cfg s) : a.Placed cfg s' := by
  obtain ⟨st, hst, hpart, hle, hfin⟩ := hp
  rcases hs.streams with hsame | ⟨k, hd, r, hk, hpc, hord, hr, -, hadv, hx, hcall⟩
  · exact ⟨st, hsame.stays _ _ st hst, hpart, hle, fun hlt => (hfin hlt).next hs⟩
  · have hst' := hadv.stream_eq a.ev.destination a.ev.orderingKey
    rw [hst, Option.map_some] at hst'
    split_ifs at hst' with hmove
    · refine ⟨_, hst', hpart, by show a.sequence ≤ st.nextSequence + 1; omega, fun _ => ?_⟩
      by_cases hlt : a.sequence < st.nextSequence
      · exact (hfin hlt).next hs
      · exact (Attempt.finished_of_advance hfleet h hf hC ha hst hpart (by omega) hk hpc hord hr hadv hmove hx
          hcall).next hs
    · exact ⟨st, hst', hpart, hle, fun hlt => (hfin hlt).next hs⟩

/-- When a sequence begins, the attempts of smaller sequences are finished. -/
theorem AttemptsInOrder.begin (h : Reachable cfg s) (hf : FreshIDs s.hist) (hi : AttemptsInOrder cfg s)
    (ha : a.In s.hist) (hfact : Fact cfg s (.began b.k b.relay b.ev b.row b.instant)) (hord : isOrdered b.ev = true)
    (hsame : a.OfStream b.ev) (hlt : a.sequence < b.sequence) : a.Finished cfg s := by
  obtain ⟨st, hst, -, hseq⟩ := Attempt.at_cursor h hf hfact hord
  obtain ⟨st', hst', -, -, hfin⟩ := hi.placed a ha
  rw [hsame.1, hsame.2, hst] at hst'
  obtain rfl := Option.some.inj hst'
  exact hfin (by omega)

theorem AttemptsInOrder.next (hfleet : Fleet cfg) (h : Reachable cfg s) (hf : FreshIDs s.hist)
    (hi : AttemptsInOrder cfg s) {x : Action ι} (hC : Drained cfg s x) (hs : Next cfg s x s') :
    AttemptsInOrder cfg s' := by
  refine ⟨fun a ha => ?_, fun a b ha hb hsame hlt => ?_⟩
  · rcases hs.mem_hist ha.1 with hold | hfact
    · exact (hi.placed a ⟨hold, ha.2⟩).next hfleet h hf hC hs ⟨hold, ha.2⟩
    · obtain ⟨st, hst, hpart, hseq⟩ := Attempt.at_cursor h hf hfact ha.2
      rcases hs.streams with hcur | ⟨k, hd, r, -, -, -, -, hhist, -⟩
      · exact ⟨st, hcur.stays _ _ st hst, hpart, hseq.le, fun hlt => by omega⟩
      · -- the step was a delivery, so the attempt is not new
        have hold := ha.1
        rw [hhist] at hold
        have hold := (List.mem_cons.mp hold).resolve_left fun heq => by cases heq
        exact (hi.placed a ⟨hold, ha.2⟩).next hfleet h hf hC hs ⟨hold, ha.2⟩
  · rcases hs.mem_hist ha.1 with haold | hafact
    · have ha' : a.In s.hist := ⟨haold, ha.2⟩
      rcases hs.mem_hist hb.1 with hbold | hbfact
      · exact (hi.apart a b ha' ⟨hbold, hb.2⟩ hsame hlt).next hs
      · exact (hi.begin h hf ha' hbfact hb.2 hsame hlt).next hs
    · -- the smaller sequence is new: no attempt is above the cursor
      exfalso
      obtain ⟨st, hst, -, hseq⟩ := Attempt.at_cursor h hf hafact ha.2
      rw [hsame.1, hsame.2] at hst
      have hle : b.sequence ≤ st.nextSequence := by
        rcases hs.mem_hist hb.1 with hbold | hbfact
        · obtain ⟨st', hst', -, hle, -⟩ := hi.placed b ⟨hbold, hb.2⟩
          rw [hst] at hst'
          exact Option.some.inj hst' ▸ hle
        · obtain ⟨st', hst', -, hseq'⟩ := Attempt.at_cursor h hf hbfact hb.2
          rw [hst] at hst'
          exact Option.some.inj hst' ▸ hseq'.le
      omega

/-! ## The result -/

variable (cfg) in
/-- The runs in which no delivery leaves an open attempt of its sequence behind. -/
def ReachesDrained (s : State ι) : Prop := ∃ clock, Runs.Reach (step cfg) (Drained cfg) (State.init ι clock) s

theorem ReachesDrained.attempts (hfleet : Fleet cfg) (h : ReachesDrained cfg s) :
    Reachable cfg s ∧ (FreshIDs s.hist → AttemptsInOrder cfg s) := by
  obtain ⟨clock, hrun⟩ := h
  refine hrun.inv (I := fun s => Reachable cfg s ∧ (FreshIDs s.hist → AttemptsInOrder cfg s)) ?_ ?_
  · rintro s x s' ⟨hreach, hi⟩ hC hs
    refine ⟨hreach.step hs, fun hf => ?_⟩
    have hnext := next_of_step hs
    have hf := hf.of_next hnext
    exact (hi hf).next hfleet hreach hf hC hnext
  · exact ⟨.init clock, fun _ => ⟨fun a ha => (by cases ha.1), fun a b ha => (by cases ha.1)⟩⟩

/-- An effect was taken in a state of the run, whose history is the older part. -/
theorem ReachesDrained.at_effect (h : ReachesDrained cfg s) {k : Nat} {u : Int} {older : List (Obs ι)}
    (hsuf : (Obs.effect k u :: older) <:+ s.hist) :
    ∃ s₀ : State ι, ReachesDrained cfg s₀ ∧ s₀.hist = older ∧
    canTakeEffect cfg older k s₀.clock = true := by
  obtain ⟨clock, hrun⟩ := h
  refine (hrun.inv (I := fun s => ReachesDrained cfg s ∧ ((Obs.effect k u :: older) <:+ s.hist →
    ∃ s₀ : State ι, ReachesDrained cfg s₀ ∧ s₀.hist = older ∧
    canTakeEffect cfg older k s₀.clock = true)) ?_ ?_).2 hsuf
  · rintro s x s' ⟨⟨clock, hreach⟩, hi⟩ hC hs
    refine ⟨⟨clock, hreach.tail hC hs⟩, fun hsuf => ?_⟩
    rcases (next_of_step hs).suffix_hist hsuf rfl with hold | ⟨rfl, -, hcan⟩
    · exact hi hold
    · exact ⟨s, ⟨clock, hreach⟩, rfl, hcan⟩
  · refine ⟨⟨clock, Runs.Reach.refl _⟩, fun hsuf => ?_⟩
    cases List.suffix_nil.mp hsuf

/-- An attempt of the run was made before its effect. -/
theorem Attempt.In.of_effect {s₀ : State ι} (ha : a.In s.hist) (h : Reachable cfg s) (h₀ : Reachable cfg s₀)
    (hsub : s₀.hist ⊆ s.hist) {u : Int} (hu : Obs.effect a.k u ∈ s₀.hist) : a.In s₀.hist := by
  obtain ⟨i, ev, row, t, hmem⟩ := h₀.began_of_effect hu
  refine ⟨?_, ha.2⟩
  rw [h.began_unique ha.1 (hsub hmem)]
  exact hmem

/-- **The broker's log has the records of a stream in the order of their sequences**, in every run in which deliveries
leave no open attempt behind and no event id comes back. -/
theorem effects_in_order (hfleet : Fleet cfg) (h : ReachesDrained cfg s) (hf : FreshIDs s.hist) :
    EffectsInOrder s.hist := by
  intro a b ha hb hsame hlt u older hsuf u' hu'
  obtain ⟨s₀, h₀, rfl, hcan⟩ := h.at_effect hsuf
  obtain ⟨hreach₀, hi⟩ := h₀.attempts hfleet
  obtain ⟨hreach, -⟩ := h.attempts hfleet
  have hsub : s₀.hist ⊆ s.hist := fun o ho => hsuf.subset (List.mem_cons_of_mem _ ho)
  have hb₀ := hb.of_effect hreach hreach₀ hsub hu'
  -- the window of the smaller sequence is open in the state of its effect
  obtain ⟨hnone, i, ev, row, t, hmem, -, hwin⟩ := canTakeEffect_iff hcan
  have hbegan := hreach.began_unique ha.1 (hsub hmem)
  have ha₀ : a.In s₀.hist := ⟨hbegan ▸ hmem, ha.2⟩
  obtain ⟨-, hrelay, -, -, hinstant⟩ := Obs.began.inj hbegan
  rcases (hi (hf.of_suffix ((List.suffix_cons _ _).trans hsuf))).apart a b ha₀ hb₀ hsame hlt with
    ⟨u, hu⟩ | hover
  · exact hnone u hu
  · unfold Attempt.deadline at hover
    rw [hrelay, hinstant] at hover
    omega

/-- The test for `Drained`. -/
def drained (cfg : ι → Config) (s : State ι) : Action ι → Bool
  | .settle k _ _ => (s.handlers k).all fun h => h.pc ≠ .acked || s.hist.all fun
      | .began k' i ev _ t =>
        ev.destination ≠ h.event.destination || ev.orderingKey ≠ h.event.orderingKey ||
          ev.orderingSequence ≠ h.event.orderingSequence ||
          (s.hist.any fun | .effect k'' _ => k'' = k' | _ => false) || deadline cfg i t < s.clock
      | _ => true
  | _ => true

theorem drained_sound {x : Action ι} (h : drained cfg s x = true) : Drained cfg s x := by
  rintro k ctxDone delay hd db rfl hk hpc - - a ha ⟨hdest, hkey⟩ hseq
  simp only [drained, hk, Option.all_some] at h
  rcases Bool.or_eq_true_iff.mp h with hne | hall
  · exact absurd hpc (of_decide_eq_true hne)
  · have htest := List.all_eq_true.mp hall _ ha.1
    have hseq : a.ev.orderingSequence = hd.event.orderingSequence := hseq
    simp only [hdest, hkey, hseq, ne_eq, not_true_eq_false, decide_false, Bool.false_or] at htest
    rcases Bool.or_eq_true_iff.mp htest with heff | hover
    · obtain ⟨o, ho, hk'⟩ := List.any_eq_true.mp heff
      split at hk'
      · rename_i k'' u
        obtain rfl : k'' = a.k := of_decide_eq_true hk'
        exact .inl ⟨u, ho⟩
      · cases hk'
    · have hover : a.deadline cfg < s.clock := of_decide_eq_true hover
      refine .inr ?_
      split_ifs
      · exact hover
      · exact hover.ne

/-- Two sequences are enqueued and the relay holds all partitions. -/
def exampleOrderedStart : List (Action Unit) :=
  [.register examplePresence, .reconcile (),
   .produce 0 [exampleOrderedCall "" 1 exampleID, exampleOrderedCall "" 2 exampleOtherID] true,
   .claimOrdered () 10 (fun _ => false), .begin 0, .publish 0 "" ""]

/-- The effect of handler `k` was at `u`, and its attempt was of sequence `n` of the stream (orders, a). -/
def effectAt (k : Nat) (n u : Int) (hist : List (Obs Unit)) : Bool :=
  (hist.any fun | .effect k' u' => k' = k && u' = u | _ => false) &&
    hist.any fun
      | .began k' _ ev _ _ => k' = k && ev.destination = "orders" && ev.orderingKey = "a" && ev.orderingSequence = n
      | _ => false

theorem effectAt_sound {k : Nat} {n u : Int} {hist : List (Obs Unit)} (h : effectAt k n u hist = true) :
    Obs.effect k u ∈ hist ∧ ∃ a : Attempt Unit, a.In hist ∧ a.k = k ∧ a.sequence = n ∧
      a.ev.destination = "orders" ∧ a.ev.orderingKey = "a" := by
  obtain ⟨heff, hbegan⟩ := Bool.and_eq_true_iff.mp h
  constructor
  · obtain ⟨o, ho, htest⟩ := List.any_eq_true.mp heff
    split at htest
    · simp only [Bool.and_eq_true, decide_eq_true_eq] at htest
      obtain ⟨rfl, rfl⟩ := htest
      exact ho
    · cases htest
  · obtain ⟨o, ho, htest⟩ := List.any_eq_true.mp hbegan
    split at htest
    · rename_i k' i ev row t
      simp only [Bool.and_eq_true, decide_eq_true_eq] at htest
      obtain ⟨⟨⟨rfl, hdest⟩, hkey⟩, hseq⟩ := htest
      refine ⟨⟨k', i, ev, row, t⟩, ⟨ho, ?_⟩, rfl, hseq, hdest, hkey⟩
      unfold isOrdered
      rw [hkey]
      decide
    · cases htest

/-- Sequence 1 takes effect and is delivered, then sequence 2 takes effect. -/
theorem effects_in_order_two : ∃ s : State Unit, ReachesDrained exampleRelay s ∧ EffectsInOrder s.hist ∧
    Obs.effect 0 0 ∈ s.hist ∧ Obs.effect 1 5 ∈ s.hist := by
  obtain ⟨s, hrun, hp⟩ := Runs.exists_of_guarded (step exampleRelay) (drained exampleRelay)
    (I := fun _ => True) (fun _ _ _ _ _ => trivial) (fun _ _ _ => drained_sound) (State.init Unit 0) trivial
    (exampleOrderedStart ++ [.effect 0, .ack 0, .settle 0 false 0, .claimOrdered () 10 (fun _ => false), .begin 1,
      .publish 1 "" "", .tick 5, .effect 1])
    (fun s => FreshIDs s.hist && effectAt 0 1 0 s.hist && effectAt 1 2 5 s.hist) (by decide +kernel)
  obtain ⟨hp, h1⟩ := Bool.and_eq_true_iff.mp hp
  obtain ⟨hfresh, h0⟩ := Bool.and_eq_true_iff.mp hp
  have hreach : ReachesDrained exampleRelay s := ⟨0, hrun⟩
  have hfleet : Fleet exampleRelay := ⟨by decide +kernel, by decide +kernel, by decide +kernel⟩
  exact ⟨s, hreach, effects_in_order hfleet hreach (of_decide_eq_true hfresh), (effectAt_sound h0).1,
    (effectAt_sound h1).1⟩

/-- The first attempt of sequence 1 fails and is retried after a second; the retry is delivered, sequence 2 takes
effect, and then the publish of the first attempt takes effect, within its window. -/
theorem late_effect_behind_stream : Fleet exampleRelay ∧ ∃ s : State Unit, Reachable exampleRelay s ∧
    FreshIDs s.hist ∧ ¬ EffectsInOrder s.hist := by
  refine ⟨⟨by decide +kernel, by decide +kernel, by decide +kernel⟩, ?_⟩
  obtain ⟨s, hreach, hp⟩ := exists_reachable exampleRelay
    (exampleOrderedStart ++ [.fail 0 ⟨[], false, true⟩, .settle 0 false second, .tick 1000000,
      .claimOrdered () 10 (fun _ => false), .begin 1, .publish 1 "" "", .effect 1, .ack 1, .settle 1 false 0,
      .claimOrdered () 10 (fun _ => false), .begin 2, .publish 2 "" "", .effect 2, .tick 1000000, .effect 0])
    (fun s => FreshIDs s.hist && (s.hist.head?.any fun | .effect k _ => k = 0 | _ => false) &&
      effectAt 0 1 2000000 s.hist && effectAt 2 2 1000000 s.hist) (by decide +kernel)
  simp only [Bool.and_eq_true] at hp
  obtain ⟨⟨⟨hfresh, hhead⟩, h0⟩, h2⟩ := hp
  refine ⟨s, hreach, of_decide_eq_true hfresh, fun hsorted => ?_⟩
  obtain ⟨-, a, ha, hak, haseq, hadest, hakey⟩ := effectAt_sound h0
  obtain ⟨hu', b, hb, hbk, hbseq, hbdest, hbkey⟩ := effectAt_sound h2
  -- the effect of the first attempt is the newest entry
  cases hhist : s.hist with
  | nil => rw [hhist] at hhead; cases hhead
  | cons o older =>
    rw [hhist, List.head?_cons, Option.any_some] at hhead
    split at hhead
    · rename_i k u
      obtain rfl : k = a.k := (of_decide_eq_true hhead).trans hak.symm
      refine hsorted a b ha hb ⟨hadest.trans hbdest.symm, hakey.trans hbkey.symm⟩ (by omega) u older
        (hhist ▸ List.suffix_refl _) 1000000 ?_
      rw [hhist] at hu'
      rcases List.mem_cons.mp hu' with heq | hmem
      · have := (Obs.effect.inj heq).1
        omega
      · exact hbk ▸ hmem
    · cases hhead

end

end Emitlane
