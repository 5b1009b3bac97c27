import Emitlane.System.Next

/-!
# System.Script — every handler follows `relay.handle`

`Script k os h` says that the observations `os` of handler `k`, newest first, are what `relay.handle` does on its way
to `h` (or to its end, `none`): a claim, then at most one begin, then at most one publish, then at most one
acknowledgement, then at most one mark; a delivered mark only behind an acknowledgement.  `Reachable.script` says that
all handlers of a reachable state do so.
-/

namespace Emitlane

open Relay Outbox Rel

section

variable {ι : Type}

/-- The handler an observation is of. -/
def Obs.serial : Obs ι → Option Nat
  | .claimed k _ _ => some k
  | .began k _ _ _ _ => some k
  | .published k _ => some k
  | .acked k _ => some k
  | .marked k _ _ _ _ => some k
  | _ => none

/-- The observations of one handler. -/
def own (k : Nat) (hist : List (Obs ι)) : List (Obs ι) := hist.filter fun o => o.serial = some k

inductive Script (k : Nat) : List (Obs ι) → Option (Handler ι) → Prop
  | idle : Script k [] none
  | claimed (i : ι) (ev : RelayEvent) : Script k [.claimed k i ev] (some ⟨i, ev, .start⟩)
  | began {os : List (Obs ι)} {i : ι} {ev : RelayEvent} (r : EventRow) (t : Int)
      (h : Script k os (some ⟨i, ev, .start⟩)) (hid : r.id = ev.id) :
      Script k (.began k i { ev with attempts := r.attempts + 1 } r t :: os)
        (some ⟨i, { ev with attempts := r.attempts + 1 }, .began⟩)
  | published {os : List (Obs ι)} {i : ι} {ev : RelayEvent} (traceparent tracestate : String)
      (h : Script k os (some ⟨i, ev, .began⟩)) :
      Script k (.published k (publishMessage ev traceparent tracestate) :: os) (some ⟨i, ev, .publishing⟩)
  | acked {os : List (Obs ι)} {i : ι} {ev : RelayEvent} (h : Script k os (some ⟨i, ev, .publishing⟩)) :
      Script k (.acked k ev.id :: os) (some ⟨i, ev, .acked⟩)
  | failed {os : List (Obs ι)} {i : ι} {ev : RelayEvent} {pc : Pc} (err : PublishError)
      (h : Script k os (some ⟨i, ev, pc⟩)) (hpc : pc = .began ∨ pc = .publishing) :
      Script k os (some ⟨i, ev, .failed err⟩)
  | marked {os : List (Obs ι)} {i : ι} {ev : RelayEvent} {pc : Pc} {m : Mark} (ordered : Bool) {r : EventRow}
      (h : Script k os (some ⟨i, ev, pc⟩)) (hpc : m = .delivered → pc = .acked) (hid : r.id = ev.id) :
      Script k (.marked k i m ordered r :: os) none
  | dropped {os : List (Obs ι)} {hd : Handler ι} (h : Script k os (some hd)) : Script k os none

/-- All handlers follow the script, and the numbers of claims to come are unused. -/
structure Scripted (s : State ι) : Prop where
  script : ∀ k, Script k (own k s.hist) (s.handlers k)
  unused : ∀ k, s.next ≤ k → s.handlers k = none ∧ own k s.hist = []

variable {cfg : ι → Config} {s s' : State ι} {k : Nat}

theorem own_append (l hist : List (Obs ι)) : own k (l ++ hist) = own k l ++ own k hist := List.filter_append l hist

theorem own_cons_self {o : Obs ι} (h : o.serial = some k) (hist : List (Obs ι)) :
    own k (o :: hist) = o :: own k hist := List.filter_cons_of_pos (by simpa using h)

theorem own_cons_other {o : Obs ι} (h : o.serial ≠ some k) (hist : List (Obs ι)) :
    own k (o :: hist) = own k hist := List.filter_cons_of_neg (by simpa using h)

/-- Observations that are of no handler. -/
theorem own_map_none {α : Type} {f : α → Obs ι} (h : ∀ x, (f x).serial = none) (l : List α)
    (hist : List (Obs ι)) : own k (l.map f ++ hist) = own k hist := by
  rw [own_append]
  have : own k (l.map f) = [] := by
    refine List.filter_eq_nil_iff.mpr fun o ho => ?_
    obtain ⟨x, -, rfl⟩ := List.mem_map.mp ho
    rw [h x]
    simp
  rw [this, List.nil_append]

/-! ## The step lemmas -/

/-- A step of handler `k` alone. -/
theorem Scripted.act {h : Option (Handler ι)} (hi : Scripted s) (hlt : k < s.next)
    (hother : ∀ k', k' ≠ k → s'.handlers k' = s.handlers k' ∧ own k' s'.hist = own k' s.hist)
    (hk : s'.handlers k = h) (hnext : s'.next = s.next) (hscript : Script k (own k s'.hist) h) : Scripted s' := by
  refine ⟨fun k' => ?_, fun k' hk' => ?_⟩
  · by_cases hkk : k' = k
    · rw [hkk, hk]
      exact hscript
    · rw [(hother k' hkk).1, (hother k' hkk).2]
      exact hi.script k'
  · have hkk : k' ≠ k := by omega
    rw [(hother k' hkk).1, (hother k' hkk).2]
    exact hi.unused k' (hnext ▸ hk')

/-- A step of no handler. -/
theorem Scripted.keep (hi : Scripted s) (hh : s'.handlers = s.handlers) (hnext : s'.next = s.next)
    (hown : ∀ k, own k s'.hist = own k s.hist) : Scripted s' := by
  refine ⟨fun k => ?_, fun k hk => ?_⟩
  · rw [hh, hown]
    exact hi.script k
  · rw [hh, hown]
    exact hi.unused k (hnext ▸ hk)

theorem Scripted.lt {h : Handler ι} (hi : Scripted s) (hk : s.handlers k = some h) : k < s.next := by
  by_contra hle
  rw [(hi.unused k (by omega)).1] at hk
  cases hk

/-- What dispatch records for number `k`. -/
theorem own_claimed (evs : List RelayEvent) (n : Nat) (i : ι) :
    own k ((evs.zipIdx n).reverse.map fun x => Obs.claimed x.2 i x.1) =
      ((if n ≤ k then evs[k - n]? else none).map fun ev => Obs.claimed k i ev).toList := by
  have hn : ((evs.zipIdx n).reverse.map Prod.snd).Nodup := by
    rw [List.map_reverse, List.nodup_reverse, List.zipIdx_map_snd]
    exact List.nodup_range'
  have hfilter : own k ((evs.zipIdx n).reverse.map fun x => Obs.claimed x.2 i x.1) =
      ((evs.zipIdx n).reverse.filter fun x => x.2 = k).map fun x => Obs.claimed x.2 i x.1 := by
    unfold own
    rw [List.filter_map]
    refine congrArg (fun p => List.map _ (List.filter p _)) (funext fun x => ?_)
    simp [Obs.serial]
  rw [hfilter, filter_eq_lookup hn]
  cases hl : lookup Prod.snd (evs.zipIdx n).reverse k with
  | none =>
    have hnone : (if n ≤ k then evs[k - n]? else none) = none := by
      split_ifs with hle
      · cases hev : evs[k - n]? with
        | none => rfl
        | some ev =>
          have hmem : (ev, k) ∈ evs.zipIdx n := List.mk_mem_zipIdx_iff_le_and_getElem?_sub.mpr ⟨hle, hev⟩
          exact absurd rfl (lookup_eq_none.mp hl (ev, k) (List.mem_reverse.mpr hmem))
      · rfl
    rw [hnone]
    rfl
  | some x =>
    obtain ⟨ev, k'⟩ := x
    obtain rfl : k' = k := lookup_key hl
    obtain ⟨hle, hev⟩ := List.mk_mem_zipIdx_iff_le_and_getElem?_sub.mp (List.mem_reverse.mp (lookup_mem hl))
    rw [if_pos hle, hev]
    rfl

theorem Scripted.dispatch {i : ι} {db : Db} {evs : List RelayEvent} (hi : Scripted s) :
    Scripted (s.dispatch i db evs) := by
  refine ⟨fun k => ?_, fun k hk => ?_⟩
  · show Script k (own k (_ ++ s.hist)) (if k < s.next then s.handlers k else _)
    rw [own_append, own_claimed]
    by_cases hlt : k < s.next
    · rw [if_pos hlt, if_neg (by omega)]
      exact hi.script k
    · rw [if_neg hlt, if_pos (by omega), (hi.unused k (by omega)).2]
      cases hev : evs[k - s.next]? with
      | none => exact .idle
      | some ev => exact .claimed i ev
  · have hk : s.next + evs.length ≤ k := hk
    have hnone : evs[k - s.next]? = none := List.getElem?_eq_none (by omega)
    constructor
    · show (if k < s.next then s.handlers k else _) = none
      rw [if_neg (by omega), hnone]
      rfl
    · show own k (_ ++ s.hist) = []
      rw [own_append, own_claimed, if_pos (by omega), hnone, (hi.unused k (by omega)).2]
      rfl

theorem Scripted.next {a : Action ι} (hi : Scripted s) (hs : Next cfg s a s') : Scripted s' := by
  cases hs with
  | tick d => exact hi.keep rfl rfl fun _ => rfl
  | insert _ => exact hi.keep rfl rfl fun k => own_map_none (fun _ => rfl) _ _
  | lease _ _ => exact hi.dispatch
  | @began k hd db r hk hpc hheld hlt hfence htouch =>
    obtain ⟨i, ev, pc⟩ := hd
    obtain rfl : pc = .start := hpc
    refine hi.act (hi.lt hk) (fun k' hne => ⟨Function.update_of_ne hne _ _, own_cons_other ?_ _⟩)
      (Function.update_self ..) rfl ?_
    · simpa [Obs.serial] using Ne.symm hne
    · rw [own_cons_self rfl]
      exact .began r s.clock (hk ▸ hi.script k) (EventRow.heldBy_iff.mp hheld).1
  | @marked a k hd m db r f hk hpc hheld hf hrow hordering haction =>
    obtain ⟨i, ev, pc⟩ := hd
    refine hi.act (hi.lt hk) (fun k' hne => ⟨Function.update_of_ne hne _ _, own_cons_other ?_ _⟩)
      (Function.update_self ..) rfl ?_
    · simpa [Obs.serial] using Ne.symm hne
    · rw [own_cons_self rfl]
      exact .marked _ (hk ▸ hi.script k) hpc (EventRow.heldBy_iff.mp hheld).1
  | revived _ _ _ => exact hi.keep rfl rfl fun k => own_cons_other (by simp [Obs.serial]) _
  | deleted _ _ => exact hi.keep rfl rfl fun k => own_map_none (fun _ => rfl) _ _
  | owned _ _ _ _ => exact hi.keep rfl rfl fun _ => rfl
  | @failed a k hd err hk hpc =>
    obtain ⟨i, ev, pc⟩ := hd
    refine hi.act (hi.lt hk) (fun k' hne => ⟨Function.update_of_ne hne _ _, rfl⟩) (Function.update_self ..) rfl ?_
    exact .failed err (hk ▸ hi.script k) hpc
  | @published k hd traceparent tracestate hk hpc =>
    obtain ⟨i, ev, pc⟩ := hd
    obtain rfl : pc = .began := hpc
    refine hi.act (hi.lt hk) (fun k' hne => ⟨Function.update_of_ne hne _ _, own_cons_other ?_ _⟩)
      (Function.update_self ..) rfl ?_
    · simpa [Obs.serial] using Ne.symm hne
    · rw [own_cons_self rfl]
      exact .published traceparent tracestate (hk ▸ hi.script k)
  | @acked k hd hk hpc =>
    obtain ⟨i, ev, pc⟩ := hd
    obtain rfl : pc = .publishing := hpc
    refine hi.act (hi.lt hk) (fun k' hne => ⟨Function.update_of_ne hne _ _, own_cons_other ?_ _⟩)
      (Function.update_self ..) rfl ?_
    · simpa [Obs.serial] using Ne.symm hne
    · rw [own_cons_self rfl]
      exact .acked (hk ▸ hi.script k)
  | dropped k =>
    cases hk : s.handlers k with
    | none =>
      refine hi.keep ?_ rfl fun _ => rfl
      exact Function.update_eq_self_iff.mpr hk.symm
    | some hd =>
      refine hi.act (hi.lt hk) (fun k' hne => ⟨Function.update_of_ne hne _ _, rfl⟩) (Function.update_self ..) rfl ?_
      exact .dropped (hk ▸ hi.script k)
  | effect _ => exact hi.keep rfl rfl fun k => own_cons_other (by simp [Obs.serial]) _

/-- **Handlers follow the source**: in every reachable state each handler has done what `relay.handle` does. -/
theorem Reachable.script (h : Reachable cfg s) : Scripted s :=
  h.inv (fun _ => ⟨fun _ => .idle, fun _ _ => ⟨rfl, rfl⟩⟩) fun _ _ _ _ hi hs => hi.next hs

/-! ## What a script says -/

def Obs.isBegan : Obs ι → Bool
  | .began _ _ _ _ _ => true
  | _ => false

def Obs.isPublished : Obs ι → Bool
  | .published _ _ => true
  | _ => false

theorem mem_own {o : Obs ι} {hist : List (Obs ι)} : o ∈ own k hist ↔ o ∈ hist ∧ o.serial = some k := by
  simp [own]

/-- A handler begins at most once and publishes at most once, and it begins before it publishes. -/
theorem Script.counts {os : List (Obs ι)} {h : Option (Handler ι)} (hs : Script k os h) :
    os.countP Obs.isBegan ≤ 1 ∧ os.countP Obs.isPublished ≤ 1 ∧
      ∀ hd, h = some hd → (hd.pc = .start → os.countP Obs.isBegan = 0) ∧
        (hd.pc = .start ∨ hd.pc = .began → os.countP Obs.isPublished = 0) := by
  induction hs with
  | idle => exact ⟨by simp, by simp, fun hd hhd => by cases hhd⟩
  | claimed i ev =>
    refine ⟨by simp [Obs.isBegan], by simp [Obs.isPublished], fun hd _ => ⟨fun _ => ?_, fun _ => ?_⟩⟩
    · simp [Obs.isBegan]
    · simp [Obs.isPublished]
  | began r t _ _ ih =>
    obtain ⟨-, -, ih⟩ := ih
    obtain ⟨hb, hp⟩ := ih _ rfl
    refine ⟨?_, ?_, fun hd hhd => ?_⟩
    · rw [List.countP_cons_of_pos rfl, hb rfl]
    · rw [List.countP_cons_of_neg Bool.false_ne_true, hp (.inl rfl)]
      exact Nat.zero_le 1
    · obtain rfl := Option.some.inj hhd
      refine ⟨fun hpc => (by cases hpc), fun _ => ?_⟩
      rw [List.countP_cons_of_neg Bool.false_ne_true, hp (.inl rfl)]
  | published traceparent tracestate _ ih =>
    obtain ⟨hb, -, ih⟩ := ih
    refine ⟨?_, ?_, fun hd hhd => ?_⟩
    · rw [List.countP_cons_of_neg Bool.false_ne_true]
      exact hb
    · rw [List.countP_cons_of_pos rfl, (ih _ rfl).2 (.inr rfl)]
    · obtain rfl := Option.some.inj hhd
      exact ⟨fun hpc => (by cases hpc), fun hpc => (by cases hpc with | inl h => cases h | inr h => cases h)⟩
  | acked _ ih =>
    refine ⟨by simpa [Obs.isBegan] using ih.1, by simpa [Obs.isPublished] using ih.2.1, fun hd hhd => ?_⟩
    obtain rfl := Option.some.inj hhd
    exact ⟨fun hpc => (by cases hpc), fun hpc => (by cases hpc with | inl h => cases h | inr h => cases h)⟩
  | failed err _ _ ih =>
    refine ⟨ih.1, ih.2.1, fun hd hhd => ?_⟩
    obtain rfl := Option.some.inj hhd
    exact ⟨fun hpc => (by cases hpc), fun hpc => (by cases hpc with | inl h => cases h | inr h => cases h)⟩
  | marked ordered _ _ _ ih =>
    exact ⟨by simpa [Obs.isBegan] using ih.1, by simpa [Obs.isPublished] using ih.2.1, fun hd hhd => by cases hhd⟩
  | dropped _ ih => exact ⟨ih.1, ih.2.1, fun hd hhd => by cases hhd⟩

/-- The begin of a handler that has begun. -/
theorem Script.begin_mem {os : List (Obs ι)} {i : ι} {ev : RelayEvent} (hs : Script k os (some ⟨i, ev, .began⟩)) :
    ∃ r t, Obs.began k i ev r t ∈ os ∧ r.id = ev.id ∧ ev.attempts = r.attempts + 1 := by
  cases hs with
  | began r t _ hid => exact ⟨r, t, List.mem_cons_self, hid, rfl⟩

/-- The publish of a handler that publishes or is acknowledged. -/
theorem Script.publish_mem {os : List (Obs ι)} {i : ι} {ev : RelayEvent} {pc : Pc}
    (hs : Script k os (some ⟨i, ev, pc⟩)) (hpc : pc = .publishing ∨ pc = .acked) :
    ∃ traceparent tracestate, Obs.published k (publishMessage ev traceparent tracestate) ∈ os := by
  cases hs with
  | published traceparent tracestate _ => exact ⟨traceparent, tracestate, List.mem_cons_self⟩
  | acked h =>
    cases h with
    | published traceparent tracestate _ =>
      exact ⟨traceparent, tracestate, List.mem_cons_of_mem _ List.mem_cons_self⟩
  | claimed _ _ => rcases hpc with hpc | hpc <;> cases hpc
  | began _ _ _ _ => rcases hpc with hpc | hpc <;> cases hpc
  | failed _ _ _ => rcases hpc with hpc | hpc <;> cases hpc

theorem Script.ack_mem {os : List (Obs ι)} {i : ι} {ev : RelayEvent} (hs : Script k os (some ⟨i, ev, .acked⟩)) :
    Obs.acked k ev.id ∈ os := by
  cases hs with
  | acked _ => exact List.mem_cons_self

/-- A publish follows the begin of its handler and carries its number. -/
theorem Script.publish_follows {os : List (Obs ι)} {h : Option (Handler ι)} (hs : Script k os h) {msg : Message}
    {pre : List (Obs ι)} (hsuf : (Obs.published k msg :: pre) <:+ os) :
    ∃ i ev r t, Obs.began k i ev r t ∈ pre ∧ r.id = ev.id ∧ ev.attempts = r.attempts + 1 ∧
    msg.id = ev.id.text ∧
      getEntry msg.headers headerAttempt = some (toString ev.attempts) := by
  induction hs with
  | idle => simp at hsuf
  | claimed i ev =>
    rcases List.suffix_cons_iff.mp hsuf with heq | hsuf
    · cases heq
    · simp at hsuf
  | began r t _ _ ih =>
    rcases List.suffix_cons_iff.mp hsuf with heq | hsuf
    · cases heq
    · exact ih hsuf
  | @published os i ev traceparent tracestate h ih =>
    rcases List.suffix_cons_iff.mp hsuf with heq | hsuf
    · obtain ⟨hmsg, rfl⟩ := List.cons.inj heq
      obtain ⟨-, rfl⟩ := Obs.published.inj hmsg
      obtain ⟨r, t, hmem, hid, hatt⟩ := h.begin_mem
      exact ⟨i, ev, r, t, hmem, hid, hatt, rfl, publishMessage_attempt ev traceparent tracestate⟩
    · exact ih hsuf
  | acked _ ih =>
    rcases List.suffix_cons_iff.mp hsuf with heq | hsuf
    · cases heq
    · exact ih hsuf
  | failed _ _ _ ih => exact ih hsuf
  | marked _ _ _ _ ih =>
    rcases List.suffix_cons_iff.mp hsuf with heq | hsuf
    · cases heq
    · exact ih hsuf
  | dropped _ ih => exact ih hsuf

/-- Behind a delivered mark stands a publish of this event that returned nil. -/
theorem Script.delivered_acked {os : List (Obs ι)} {h : Option (Handler ι)} (hs : Script k os h) {i : ι}
    {ordered : Bool} {r : EventRow} (hmem : Obs.marked k i .delivered ordered r ∈ os) :
    ∃ msg, Obs.published k msg ∈ os ∧ Obs.acked k r.id ∈ os ∧ msg.id = r.id.text := by
  induction hs with
  | idle => cases hmem
  | claimed _ _ =>
    rcases List.mem_cons.mp hmem with heq | hmem
    · cases heq
    · cases hmem
  | began _ _ _ _ ih =>
    rcases List.mem_cons.mp hmem with heq | hmem
    · cases heq
    · obtain ⟨msg, hp, ha, hid⟩ := ih hmem
      exact ⟨msg, List.mem_cons_of_mem _ hp, List.mem_cons_of_mem _ ha, hid⟩
  | published _ _ _ ih =>
    rcases List.mem_cons.mp hmem with heq | hmem
    · cases heq
    · obtain ⟨msg, hp, ha, hid⟩ := ih hmem
      exact ⟨msg, List.mem_cons_of_mem _ hp, List.mem_cons_of_mem _ ha, hid⟩
  | acked _ ih =>
    rcases List.mem_cons.mp hmem with heq | hmem
    · cases heq
    · obtain ⟨msg, hp, ha, hid⟩ := ih hmem
      exact ⟨msg, List.mem_cons_of_mem _ hp, List.mem_cons_of_mem _ ha, hid⟩
  | failed _ _ _ ih => exact ih hmem
  | @marked os i' ev pc m ordered' r' h hpc hid ih =>
    rcases List.mem_cons.mp hmem with heq | hmem
    · obtain ⟨-, -, rfl, -, rfl⟩ := Obs.marked.inj heq
      obtain rfl := hpc rfl
      obtain ⟨traceparent, tracestate, hp⟩ := h.publish_mem (.inr rfl)
      refine ⟨_, List.mem_cons_of_mem _ hp, List.mem_cons_of_mem _ ?_, ?_⟩
      · rw [hid]
        exact h.ack_mem
      · rw [hid]
        rfl
    · obtain ⟨msg, hp, ha, hid⟩ := ih hmem
      exact ⟨msg, List.mem_cons_of_mem _ hp, List.mem_cons_of_mem _ ha, hid⟩
  | dropped _ ih => exact ih hmem

end

end Emitlane
