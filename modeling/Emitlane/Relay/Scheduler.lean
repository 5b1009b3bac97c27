import Emitlane.Lib.Runs
import Emitlane.Lib.Pool
import Emitlane.Relay.Config

/-!
# Relay.Scheduler — the claim and dispatch loop of a relay (`relay/relay.go`)

The loop is a state machine: `Pc` is the place the loop stands at, and an action is its next statement, one case of a
select, or something that happens around it (a handler ends, the claim context is cancelled, a notification arrives,
time passes).  The store's answers are arbitrary.

* `claimAvailable_spec`: the calls of one `claimAvailable` split the limit between the two classes.
* `Next`, `next_of_step`: what a step does.
* `Inv`, `Inv.next`: the accounting that every step keeps.
* `Stopped.next`: after the loop has seen the cancellation it does not get back to the claims.
-/

namespace Emitlane.Relay.Scheduler

variable {ε : Type}

/-- The configuration, and which optional interfaces the store implements. -/
structure Setup where
  cfg : Config
  hasPause : Bool
  hasOrdered : Bool

/-- What a store call returns: events and an error. -/
structure Answer (ε : Type) where
  events : List ε
  err : Option String

/-- What the store answers during one call of claimAvailable. -/
structure Answers (ε : Type) where
  relayPaused : Except String Bool
  claimOrdered : Answer ε
  claim : Answer ε

/-- A store call: the class, how many events were asked for, and the answer. -/
structure Call (ε : Type) where
  ordered : Bool
  asked : Int
  answer : Answer ε

/-- The events of a successful call. -/
def Call.won (c : Call ε) : List ε := if c.answer.err.isNone then c.answer.events else []

/-- What claimAvailable returns, and the store calls it made. -/
structure Result (ε : Type) where
  events : List ε
  paused : Bool
  orderedEmpty : Bool
  err : Option String
  calls : List (Call ε)

/-- The closure `claimOrdered`: no call, or one. -/
def claimOrdered (setup : Setup) (answers : Answers ε) (probeOrdered : Bool) (remaining : Int) : List (Call ε) :=
  if !setup.hasOrdered || remaining = 0 || !probeOrdered then [] else [⟨true, remaining, answers.claimOrdered⟩]

/-- The closure `claimUnordered`: no call, or one. -/
def claimUnordered (answers : Answers ε) (remaining : Int) : List (Call ε) :=
  if remaining = 0 then [] else [⟨false, remaining, answers.claim⟩]

def claimClass (setup : Setup) (answers : Answers ε) (probeOrdered ordered : Bool) (remaining : Int) :
    List (Call ε) :=
  if ordered then claimOrdered setup answers probeOrdered remaining else claimUnordered answers remaining

def returned (calls : List (Call ε)) : List ε := calls.flatMap (·.answer.events)

def failure (calls : List (Call ε)) : Option String := calls.findSome? (·.answer.err)

/-- `orderedProbed && orderedEvents == 0`. -/
def orderedEmpty (calls : List (Call ε)) : Bool :=
  calls.any (·.ordered) && (returned (calls.filter (·.ordered))).isEmpty

def claimAvailable (setup : Setup) (answers : Answers ε) (limit : Int) (preferOrdered probeOrdered : Bool) :
    Result ε :=
  if limit ≤ 0 then ⟨[], false, false, none, []⟩
  else match if setup.hasPause then answers.relayPaused else .ok false with
  | .error e => ⟨[], false, false, some ("read relay pause state: " ++ e), []⟩
  | .ok true => ⟨[], true, false, none, []⟩
  | .ok false =>
    let orderedFirst := preferOrdered && probeOrdered
    let first := claimClass setup answers probeOrdered orderedFirst limit
    match failure first with
    | some e => ⟨[], false, false, some e, first⟩
    | none =>
      let events := returned first
      if events.length = limit then ⟨events, false, orderedEmpty first, none, first⟩
      else
        let second := claimClass setup answers probeOrdered (!orderedFirst) (limit - events.length)
        match failure second with
        | some e => ⟨events, false, orderedEmpty (first ++ second), some e, first ++ second⟩
        | none => ⟨events ++ returned second, false, orderedEmpty (first ++ second), none, first ++ second⟩

/-- Every call asks for at least one event, and for no more than the calls before it left of the limit. -/
def Within : Int → List (Call ε) → Prop
  | _, [] => True
  | limit, c :: calls => 1 ≤ c.asked ∧ c.asked ≤ limit ∧ Within (limit - c.won.length) calls

/-- The store returns at most as many events as it was asked for. -/
def Bounded (calls : List (Call ε)) : Prop := ∀ c ∈ calls, (c.answer.events.length : Int) ≤ c.asked

instance Bounded.decidable (calls : List (Call ε)) : Decidable (Bounded calls) := by
  unfold Bounded
  infer_instance

/-- The events of the successful calls. -/
def won (calls : List (Call ε)) : List ε := calls.flatMap Call.won

theorem Within.length_won : ∀ {calls : List (Call ε)} {limit : Int}, Within limit calls → Bounded calls →
    0 ≤ limit → ((won calls).length : Int) ≤ limit
  | [], _, _, _, h0 => h0
  | c :: calls, limit, h, hbounded, _ => by
    have hc : (c.won.length : Int) ≤ c.asked := by
      have := hbounded c (.head _)
      unfold Call.won
      split_ifs
      · exact this
      · exact Int.le_trans (Int.natCast_nonneg _) this
    have hrest := Within.length_won h.2.2 (fun d hd => hbounded d (.tail _ hd)) (by have := h.2.1; omega)
    simp only [won, List.flatMap_cons, List.length_append] at hrest ⊢
    omega

section ClaimAvailable

variable {setup : Setup} {answers : Answers ε} {probeOrdered ordered : Bool} {remaining limit : Int}

/-- A class makes no call, or one for all that remains. -/
theorem claimClass_cases (setup : Setup) (answers : Answers ε) (probeOrdered ordered : Bool) (remaining : Int) :
    claimClass setup answers probeOrdered ordered remaining = [] ∨
      ∃ answer, claimClass setup answers probeOrdered ordered remaining = [⟨ordered, remaining, answer⟩] := by
  unfold claimClass claimOrdered claimUnordered
  cases ordered with
  | true =>
    simp only [reduceIte]
    split_ifs
    · exact .inl rfl
    · exact .inr ⟨_, rfl⟩
  | false =>
    simp only [Bool.false_eq_true, reduceIte]
    split_ifs
    · exact .inl rfl
    · exact .inr ⟨_, rfl⟩

theorem won_eq_nil {e : String} (h : failure (claimClass setup answers probeOrdered ordered remaining) = some e) :
    won (claimClass setup answers probeOrdered ordered remaining) = [] := by
  rcases claimClass_cases setup answers probeOrdered ordered remaining with hnone | ⟨answer, hone⟩
  · rw [hnone]
    rfl
  · rw [hone] at h ⊢
    cases herr : answer.err with
    | none => simp [failure, herr] at h
    | some _ => simp [won, Call.won, herr]

theorem won_eq_returned (h : failure (claimClass setup answers probeOrdered ordered remaining) = none) :
    won (claimClass setup answers probeOrdered ordered remaining) =
      returned (claimClass setup answers probeOrdered ordered remaining) := by
  rcases claimClass_cases setup answers probeOrdered ordered remaining with hnone | ⟨answer, hone⟩
  · rw [hnone]
    rfl
  · rw [hone] at h ⊢
    cases herr : answer.err with
    | none => simp [won, returned, Call.won, herr]
    | some _ => simp [failure, herr] at h

/-- A class that is asked for what remains, and then calls that stay within what it leaves. -/
theorem within_claimClass_append (hpos : 1 ≤ remaining) (hle : remaining ≤ limit) {calls : List (Call ε)}
    (h : Within (limit - (won (claimClass setup answers probeOrdered ordered remaining)).length) calls) :
    Within limit (claimClass setup answers probeOrdered ordered remaining ++ calls) := by
  rcases claimClass_cases setup answers probeOrdered ordered remaining with hnone | ⟨answer, hone⟩
  · rw [hnone] at h ⊢
    simpa [won] using h
  · rw [hone] at h ⊢
    exact ⟨hpos, hle, by simpa [won] using h⟩

theorem within_claimClass (hpos : 1 ≤ remaining) (hle : remaining ≤ limit) :
    Within limit (claimClass setup answers probeOrdered ordered remaining) := by
  rw [← List.append_nil (claimClass setup answers probeOrdered ordered remaining)]
  exact within_claimClass_append hpos hle trivial

theorem won_append (xs ys : List (Call ε)) : won (xs ++ ys) = won xs ++ won ys := List.flatMap_append

/-- Both classes: the first one returned fewer events than the limit, so at least one remains for the second. -/
theorem within_both {second : Bool} (hpos : 1 ≤ limit)
    (herr : failure (claimClass setup answers probeOrdered ordered limit) = none)
    (hbounded : Bounded (claimClass setup answers probeOrdered ordered limit))
    (hmore : ¬ (returned (claimClass setup answers probeOrdered ordered limit)).length = limit) :
    Within limit (claimClass setup answers probeOrdered ordered limit ++
      claimClass setup answers probeOrdered second
        (limit - (returned (claimClass setup answers probeOrdered ordered limit)).length)) := by
  have hwon := won_eq_returned herr
  have hfirst : Within limit (claimClass setup answers probeOrdered ordered limit) :=
    within_claimClass hpos (le_refl _)
  have hle := hfirst.length_won hbounded (by omega)
  rw [hwon] at hle
  refine within_claimClass_append hpos (le_refl _) ?_
  rw [hwon]
  exact within_claimClass (by omega) (le_refl _)

/-- What one claimAvailable does with a positive limit: it returns the events of its successful calls, and the calls
share the limit. -/
structure Spec (limit : Int) (r : Result ε) : Prop where
  events : r.events = won r.calls
  within : Within limit r.calls

theorem claimAvailable_spec (preferOrdered : Bool) (hpos : 1 ≤ limit)
    (hbounded : Bounded (claimAvailable setup answers limit preferOrdered probeOrdered).calls) :
    Spec limit (claimAvailable setup answers limit preferOrdered probeOrdered) := by
  unfold claimAvailable at hbounded ⊢
  rw [if_neg (by omega)] at hbounded ⊢
  generalize (if setup.hasPause then answers.relayPaused else .ok false) = pause at hbounded ⊢
  cases pause with
  | error e => exact ⟨rfl, trivial⟩
  | ok paused =>
    cases paused with
    | true => exact ⟨rfl, trivial⟩
    | false =>
      dsimp only at hbounded ⊢
      cases herr : failure (claimClass setup answers probeOrdered (preferOrdered && probeOrdered) limit) with
      | some e => exact ⟨(won_eq_nil herr).symm, within_claimClass hpos (le_refl _)⟩
      | none =>
        have hwon := won_eq_returned herr
        rw [herr] at hbounded
        dsimp only at hbounded ⊢
        split_ifs at hbounded ⊢ with hfull
        · exact ⟨hwon.symm, within_claimClass hpos (le_refl _)⟩
        · -- the second class may fail: then only the events of the first are returned
          cases herr2 : failure (claimClass setup answers probeOrdered (!(preferOrdered && probeOrdered))
              (limit -
                (returned (claimClass setup answers probeOrdered (preferOrdered && probeOrdered) limit)).length)) with
          | some e =>
            rw [herr2] at hbounded
            refine ⟨?_, within_both hpos herr (fun c hc => hbounded c (List.mem_append_left _ hc)) hfull⟩
            rw [won_append, won_eq_nil herr2, hwon, List.append_nil]
          | none =>
            rw [herr2] at hbounded
            refine ⟨?_, within_both hpos herr (fun c hc => hbounded c (List.mem_append_left _ hc)) hfull⟩
            rw [won_append, won_eq_returned herr2, hwon]

end ClaimAvailable

/-- Where the loop stands. -/
inductive Pc (ε : Type)
  /-- At the head of an iteration. -/
  | top
  /-- In the inner loop that drains the completions. -/
  | drain
  /-- About to call claimAvailable. -/
  | ask
  /-- Back from claimAvailable. -/
  | claimed (r : Result ε)
  /-- In the select, with the timer set. -/
  | select (deadline : Int)
  /-- Waiting for a completion after the cancellation. -/
  | shutdown
  | returned

/-- One call of claimAvailable: the value of `active`, the limit and the store calls. -/
structure Attempt (ε : Type) where
  active : Int
  limit : Int
  calls : List (Call ε)

structure State (ε : Type) where
  pc : Pc ε
  pool : Pool.State ε
  preferOrdered : Bool
  paused : Bool
  idleWait : Int
  /-- `none` is the zero time. -/
  orderedProbeAt : Option Int
  now : Int
  cancelled : Bool
  /-- A notification waits in the wake channel. -/
  wake : Bool
  /-- The calls of claimAvailable so far. -/
  attempts : List (Attempt ε)
  /-- An iteration has seen the cancellation. -/
  stopped : Bool

def init (setup : Setup) (now : Int) : State ε where
  pc := .top
  pool := .init ε
  preferOrdered := true
  paused := false
  idleWait := setup.cfg.pollInterval
  orderedProbeAt := none
  now := now
  cancelled := false
  wake := false
  attempts := []
  stopped := false

inductive Action (ε : Type)
  /-- The next statement of the loop, where it has no choice. -/
  | proceed
  /-- `<-completed`, in each of the three places. -/
  | receive
  | claim (answers : Answers ε)
  /-- The other cases of the select. -/
  | done
  | wake
  | timer
  /-- The `i`-th running handler returns and sends its completion. -/
  | finish (i : Nat)
  | cancel
  | notify
  | tick (d : Int)

def State.limit (setup : Setup) (s : State ε) : Int :=
  min setup.cfg.batchSize (setup.cfg.concurrency - s.pool.active)

/-- `!r.clock.Now().Before(orderedProbeAt)`. -/
def State.probeOrdered (s : State ε) : Bool := s.orderedProbeAt.all (decide <| · ≤ s.now)

def State.claimAvailable (setup : Setup) (s : State ε) (answers : Answers ε) : Result ε :=
  Scheduler.claimAvailable setup answers (s.limit setup) s.preferOrdered s.probeOrdered

/-- Set the timer and enter the select. -/
def State.sleep (setup : Setup) (s : State ε) : State ε :=
  let interval :=
    if setup.hasPause then min setup.cfg.pollInterval setup.cfg.controlInterval else setup.cfg.pollInterval
  let wait := if s.pool.active = 0 && !s.paused then s.idleWait else interval
  let wait := if s.paused then min wait setup.cfg.controlInterval else wait
  { s with pc := .select (s.now + wait) }

/-- The variables that are set from the result of claimAvailable. -/
def State.record (setup : Setup) (s : State ε) (r : Result ε) : State ε :=
  { s with
    preferOrdered := !s.preferOrdered
    orderedProbeAt := if r.orderedEmpty then some (s.now + setup.cfg.pollInterval) else s.orderedProbeAt
    paused := r.paused }

/-- The statements between the return of claimAvailable and the next iteration or the select. -/
def State.afterClaim (setup : Setup) (s : State ε) (r : Result ε) : State ε :=
  if r.events ≠ [] then
    { s.record setup r with
      pool := s.pool.dispatch r.events, idleWait := setup.cfg.pollInterval, pc := .top }
  else if !r.paused && decide (s.pool.active < setup.cfg.concurrency) && r.err.isNone && s.pool.active = 0 then
    { s.record setup r with idleWait := min setup.cfg.idleBackoffMax (mulInt64 s.idleWait 2) }.sleep setup
  else (s.record setup r).sleep setup

def State.proceed (setup : Setup) (s : State ε) : Option (State ε) :=
  match s.pc with
  | .top =>
    if s.cancelled then
      some { s with stopped := true, pc := if s.pool.active = 0 then .returned else .shutdown }
    else some { s with pc := .drain }
  | .drain =>
    if s.pool.buffered ≠ 0 then none
    else if s.pool.active < setup.cfg.concurrency then some { s with pc := .ask }
    else some (s.sleep setup)
  | .claimed r => some (s.afterClaim setup r)
  | _ => none

def State.receive (setup : Setup) (s : State ε) : Option (State ε) :=
  match s.pc with
  | .drain => s.pool.receive.map fun p => { s with pool := p }
  | .select _ => s.pool.receive.map fun p => { s with pool := p, idleWait := setup.cfg.pollInterval, pc := .top }
  | .shutdown => s.pool.receive.map fun p => { s with pool := p, pc := .top }
  | _ => none

/-- claimAvailable has returned. -/
def State.afterAsk (setup : Setup) (s : State ε) (answers : Answers ε) : State ε :=
  let r := s.claimAvailable setup answers
  { s with pc := .claimed r, attempts := s.attempts ++ [⟨s.pool.active, s.limit setup, r.calls⟩] }

def State.claim (setup : Setup) (s : State ε) (answers : Answers ε) : Option (State ε) :=
  match s.pc with
  | .ask => some (s.afterAsk setup answers)
  | _ => none

/-- A case of the select that leaves the pool alone. -/
def State.leave (s : State ε) (ready : Int → Bool) : Option (State ε) :=
  match s.pc with
  | .select deadline => if ready deadline then some { s with pc := .top } else none
  | _ => none

def step (setup : Setup) (s : State ε) : Action ε → Option (State ε)
  | .proceed => s.proceed setup
  | .receive => s.receive setup
  | .claim answers => s.claim setup answers
  | .done => s.leave fun _ => s.cancelled
  | .wake =>
    { s with wake := false, idleWait := setup.cfg.pollInterval, orderedProbeAt := none }.leave fun _ => s.wake
  | .timer => s.leave fun deadline => deadline ≤ s.now
  | .finish i => (s.pool.finish setup.cfg.concurrency i).map fun p => { s with pool := p }
  | .cancel => some { s with cancelled := true }
  | .notify => some { s with wake := true }
  | .tick d => some { s with now := s.now + d }

/-- In the runs considered Claim and ClaimOrdered return at most the requested number of events. -/
def Answered (setup : Setup) (s : State ε) : Action ε → Prop
  | .claim answers => Bounded (s.claimAvailable setup answers).calls
  | _ => True

instance Answered.decidable (setup : Setup) (s : State ε) (a : Action ε) : Decidable (Answered setup s a) := by
  cases a <;> unfold Answered <;> infer_instance

/-- A state of runScheduler. -/
def Reachable (setup : Setup) (s : State ε) : Prop :=
  ∃ now, Runs.Reach (step setup) (Answered setup) (init setup now) s

/-- The events the store handed out so far. -/
def State.claimed (s : State ε) : List ε := s.attempts.flatMap fun a => won a.calls

/-- The events claimAvailable has returned and dispatch has not seen yet. -/
def Pc.pending : Pc ε → List ε
  | .claimed r => r.events
  | _ => []

/-- The limit of a claimAvailable, and what its calls ask for. -/
structure Attempt.Fits (c : Config) (a : Attempt ε) : Prop where
  pos : 1 ≤ a.limit
  batchSize : a.limit ≤ c.batchSize
  room : a.limit ≤ c.concurrency - a.active
  calls : Within a.limit a.calls
  won : ((won a.calls).length : Int) ≤ a.limit

structure Inv (c : Config) (s : State ε) : Prop where
  pool : Pool.Inv c.concurrency s.pool
  attempts : ∀ a ∈ s.attempts, a.Fits c
  claimed : s.claimed = s.pool.dispatched ++ s.pc.pending
  room : (s.pc.pending.length : Int) ≤ c.concurrency - s.pool.active
  ask : s.pc = .ask → s.pool.active < c.concurrency
  returned : s.pc = .returned → s.pool.active = 0

/-- What a step of the loop or around it does. -/
inductive Next (setup : Setup) (s : State ε) : State ε → Prop
  | returned (hpc : s.pc = .top) (hcancelled : s.cancelled = true) (hzero : s.pool.active = 0) :
      Next setup s { s with stopped := true, pc := .returned }
  | shutdown (hpc : s.pc = .top) (hcancelled : s.cancelled = true) :
      Next setup s { s with stopped := true, pc := .shutdown }
  | drain (hpc : s.pc = .top) (hrunning : s.cancelled = false) : Next setup s { s with pc := .drain }
  | ask (hpc : s.pc = .drain) (hroom : s.pool.active < setup.cfg.concurrency) : Next setup s { s with pc := .ask }
  | full (hpc : s.pc = .drain) : Next setup s (s.sleep setup)
  | after {r : Result ε} (hpc : s.pc = .claimed r) : Next setup s (s.afterClaim setup r)
  | drained {p : Pool.State ε} (hpc : s.pc = .drain) (hp : s.pool.receive = some p) : Next setup s { s with pool := p }
  | woken {p : Pool.State ε} {deadline : Int} (hpc : s.pc = .select deadline) (hp : s.pool.receive = some p) :
      Next setup s { s with pool := p, idleWait := setup.cfg.pollInterval, pc := .top }
  | ended {p : Pool.State ε} (hpc : s.pc = .shutdown) (hp : s.pool.receive = some p) :
      Next setup s { s with pool := p, pc := .top }
  | claim {answers : Answers ε} (hpc : s.pc = .ask) (hbounded : Bounded (s.claimAvailable setup answers).calls) :
      Next setup s (s.afterAsk setup answers)
  | left {deadline idleWait : Int} {orderedProbeAt : Option Int} {wake : Bool} (hpc : s.pc = .select deadline) :
      Next setup s { s with idleWait := idleWait, orderedProbeAt := orderedProbeAt, wake := wake, pc := .top }
  | finish {p : Pool.State ε} {i : Nat} (hp : s.pool.finish setup.cfg.concurrency i = some p) :
      Next setup s { s with pool := p }
  | around {cancelled wake : Bool} {now : Int} (hcancelled : s.cancelled = true → cancelled = true) :
      Next setup s { s with cancelled := cancelled, wake := wake, now := now }

section Inversion

variable {setup : Setup} {s s' : State ε}

theorem next_of_proceed (hs : s.proceed setup = some s') : Next setup s s' := by
  unfold State.proceed at hs
  split at hs
  case h_1 hpc =>
    split_ifs at hs with hcancelled hzero
    · obtain rfl := Option.some.inj hs
      exact .returned hpc hcancelled hzero
    · obtain rfl := Option.some.inj hs
      exact .shutdown hpc hcancelled
    · obtain rfl := Option.some.inj hs
      exact .drain hpc (Bool.eq_false_iff.mpr hcancelled)
  case h_2 hpc =>
    split_ifs at hs with hbuffered hroom
    · obtain rfl := Option.some.inj hs
      exact .ask hpc hroom
    · obtain rfl := Option.some.inj hs
      exact .full hpc
  case h_3 r hpc =>
    obtain rfl := Option.some.inj hs
    exact .after hpc
  case h_4 => cases hs

theorem next_of_receive (hs : s.receive setup = some s') : Next setup s s' := by
  unfold State.receive at hs
  split at hs
  case h_1 hpc =>
    obtain ⟨p, hp, rfl⟩ := Option.map_eq_some_iff.mp hs
    exact .drained hpc hp
  case h_2 deadline hpc =>
    obtain ⟨p, hp, rfl⟩ := Option.map_eq_some_iff.mp hs
    exact .woken hpc hp
  case h_3 hpc =>
    obtain ⟨p, hp, rfl⟩ := Option.map_eq_some_iff.mp hs
    exact .ended hpc hp
  case h_4 => cases hs

theorem leave_eq_some {ready : Int → Bool} (hs : s.leave ready = some s') :
    ∃ deadline, s.pc = .select deadline ∧ s' = { s with pc := .top } := by
  unfold State.leave at hs
  split at hs
  case h_1 deadline hpc =>
    split_ifs at hs
    exact ⟨deadline, hpc, (Option.some.inj hs).symm⟩
  case h_2 => cases hs

theorem next_of_step {a : Action ε} (ha : Answered setup s a) (hs : step setup s a = some s') : Next setup s s' := by
  cases a with
  | proceed => exact next_of_proceed hs
  | receive => exact next_of_receive hs
  | claim answers =>
    change s.claim setup answers = some s' at hs
    unfold State.claim at hs
    split at hs
    case h_1 hpc =>
      obtain rfl := Option.some.inj hs
      exact .claim hpc ha
    case h_2 => cases hs
  | done | timer =>
    obtain ⟨deadline, hpc, rfl⟩ := leave_eq_some hs
    exact .left hpc
  | wake =>
    obtain ⟨deadline, hpc, rfl⟩ := leave_eq_some hs
    exact .left hpc
  | finish i =>
    obtain ⟨p, hp, rfl⟩ := Option.map_eq_some_iff.mp hs
    exact .finish hp
  | cancel =>
    obtain rfl := Option.some.inj hs
    exact .around fun _ => rfl
  | notify | tick _ =>
    obtain rfl := Option.some.inj hs
    exact .around id

end Inversion

section Accounting

variable {setup : Setup} {c : Config} {s s' : State ε}

theorem Inv.init (h : 0 ≤ setup.cfg.concurrency) (now : Int) : Inv setup.cfg (init setup now : State ε) :=
  ⟨.init h, by rintro _ ⟨⟩, rfl, by simpa [Scheduler.init, Pc.pending, Pool.State.init] using h, by rintro ⟨⟩,
    by rintro ⟨⟩⟩

/-- A step that neither claims nor dispatches. -/
theorem Inv.move (h : Inv c s) (hpool : Pool.Inv c.concurrency s'.pool)
    (hdispatched : s'.pool.dispatched = s.pool.dispatched) (hactive : s'.pool.active ≤ s.pool.active)
    (hattempts : s'.attempts = s.attempts) (hpending : s'.pc.pending = s.pc.pending)
    (hask : s'.pc = .ask → s'.pool.active < c.concurrency) (hreturned : s'.pc = .returned → s'.pool.active = 0) :
    Inv c s' := by
  have hclaimed : s'.claimed = s.claimed := by
    unfold State.claimed
    rw [hattempts]
  refine ⟨hpool, hattempts ▸ h.attempts, ?_, ?_, hask, hreturned⟩
  · rw [hclaimed, hdispatched, hpending]
    exact h.claimed
  · have hroom := h.room
    rw [hpending]
    omega

theorem pool_afterClaim (setup : Setup) (s : State ε) (r : Result ε) :
    (s.afterClaim setup r).pool = s.pool.dispatch r.events := by
  unfold State.afterClaim
  split_ifs with hevents
  · rfl
  · rw [not_not.mp hevents, Pool.dispatch_nil]
    rfl
  · rw [not_not.mp hevents, Pool.dispatch_nil]
    rfl

/-- Where the loop goes on after a claim, with the history as it was. -/
theorem afterClaim_frame (setup : Setup) (s : State ε) (r : Result ε) :
    (s.afterClaim setup r).attempts = s.attempts ∧ (s.afterClaim setup r).stopped = s.stopped ∧
      ((s.afterClaim setup r).pc = .top ∨ ∃ deadline, (s.afterClaim setup r).pc = .select deadline) := by
  unfold State.afterClaim
  split_ifs
  · exact ⟨rfl, rfl, .inl rfl⟩
  · exact ⟨rfl, rfl, .inr ⟨_, rfl⟩⟩
  · exact ⟨rfl, rfl, .inr ⟨_, rfl⟩⟩

theorem Inv.afterClaim (h : Inv c s) {r : Result ε} (hpc : s.pc = .claimed r) : Inv c (s.afterClaim setup r) := by
  obtain ⟨hattempts, -, hnext⟩ := afterClaim_frame setup s r
  have hpending : (s.afterClaim setup r).pc.pending = [] := by
    rcases hnext with hnext | ⟨_, hnext⟩ <;>
    · rw [hnext]
      rfl
  have hroom := h.room
  have hclaimed := h.claimed
  rw [hpc] at hroom hclaimed
  have hpool : Pool.Inv c.concurrency (s.pool.dispatch r.events) := h.pool.dispatch hroom
  refine ⟨?_, ?_, ?_, ?_, ?_, ?_⟩
  · rw [pool_afterClaim]
    exact hpool
  · rw [hattempts]
    exact h.attempts
  · rw [hpending, pool_afterClaim, List.append_nil]
    unfold State.claimed at hclaimed ⊢
    rw [hattempts]
    exact hclaimed
  · have hle := hpool.le
    rw [hpending, pool_afterClaim]
    simp only [List.length_nil]
    omega
  · rcases hnext with hnext | ⟨_, hnext⟩ <;>
    · rw [hnext]
      rintro ⟨⟩
  · rcases hnext with hnext | ⟨_, hnext⟩ <;>
    · rw [hnext]
      rintro ⟨⟩

/-- The state after a claim. -/
theorem Inv.claim (h : Inv setup.cfg s) (hbatch : 0 < setup.cfg.batchSize) (hpc : s.pc = .ask) {answers : Answers ε}
    (hbounded : Bounded (s.claimAvailable setup answers).calls) : Inv setup.cfg (s.afterAsk setup answers) := by
  have hroom := h.ask hpc
  have hpos : 1 ≤ s.limit setup := by
    unfold State.limit
    omega
  have hspec : Spec (s.limit setup) (s.claimAvailable setup answers) :=
    claimAvailable_spec s.preferOrdered hpos hbounded
  have hwon := hspec.within.length_won hbounded (by omega)
  have hclaimed := h.claimed
  rw [hpc] at hclaimed
  refine ⟨h.pool, fun a ha => ?_, ?_, ?_, by rintro ⟨⟩, by rintro ⟨⟩⟩
  · rcases List.mem_append.mp ha with ha | ha
    · exact h.attempts a ha
    · obtain rfl := List.mem_singleton.mp ha
      exact ⟨hpos, Int.min_le_left _ _, Int.min_le_right _ _, hspec.within, hwon⟩
  · unfold State.claimed at hclaimed ⊢
    unfold State.afterAsk
    rw [List.flatMap_append, hclaimed]
    simp [Pc.pending, hspec.events]
  · have hlimit : s.limit setup ≤ setup.cfg.concurrency - s.pool.active := Int.min_le_right _ _
    simp only [State.afterAsk, Pc.pending, hspec.events]
    omega

/-- Every step keeps the accounting. -/
theorem Inv.next (hbatch : 0 < setup.cfg.batchSize) (h : Inv setup.cfg s) (hs : Next setup s s') :
    Inv setup.cfg s' := by
  cases hs with
  | returned hpc _ hzero =>
    exact h.move h.pool rfl (le_refl _) rfl (by rw [hpc]; rfl) (by rintro ⟨⟩) (fun _ => hzero)
  | shutdown hpc => exact h.move h.pool rfl (le_refl _) rfl (by rw [hpc]; rfl) (by rintro ⟨⟩) (by rintro ⟨⟩)
  | drain hpc => exact h.move h.pool rfl (le_refl _) rfl (by rw [hpc]; rfl) (by rintro ⟨⟩) (by rintro ⟨⟩)
  | ask hpc hroom => exact h.move h.pool rfl (le_refl _) rfl (by rw [hpc]; rfl) (fun _ => hroom) (by rintro ⟨⟩)
  | full hpc => exact h.move h.pool rfl (le_refl _) rfl (by rw [hpc]; rfl) (by rintro ⟨⟩) (by rintro ⟨⟩)
  | after hpc => exact h.afterClaim hpc
  | drained hpc hp =>
    obtain ⟨n, -, rfl⟩ := Pool.receive_eq_some hp
    exact h.move (h.pool.receive hp) rfl (by dsimp only; omega) rfl rfl (by dsimp only; rw [hpc]; rintro ⟨⟩)
      (by dsimp only; rw [hpc]; rintro ⟨⟩)
  | woken hpc hp =>
    obtain ⟨n, -, rfl⟩ := Pool.receive_eq_some hp
    exact h.move (h.pool.receive hp) rfl (by dsimp only; omega) rfl (by rw [hpc]; rfl) (by rintro ⟨⟩)
      (by rintro ⟨⟩)
  | ended hpc hp =>
    obtain ⟨n, -, rfl⟩ := Pool.receive_eq_some hp
    exact h.move (h.pool.receive hp) rfl (by dsimp only; omega) rfl (by rw [hpc]; rfl) (by rintro ⟨⟩)
      (by rintro ⟨⟩)
  | claim hpc hbounded => exact h.claim hbatch hpc hbounded
  | left hpc => exact h.move h.pool rfl (le_refl _) rfl (by rw [hpc]; rfl) (by rintro ⟨⟩) (by rintro ⟨⟩)
  | finish hp =>
    obtain ⟨hi, rfl⟩ := Pool.finish_eq_some hp
    exact h.move (h.pool.finish hp) rfl (le_refl _) rfl rfl h.ask h.returned
  | around => exact h.move h.pool rfl (le_refl _) rfl rfl h.ask h.returned

end Accounting

section Cancellation

variable {setup : Setup} {s s' : State ε}

/-- The loop has seen the cancellation and is on its way out. -/
structure Stopped (s : State ε) : Prop where
  cancelled : s.cancelled = true
  pc : s.pc = .top ∨ s.pc = .shutdown ∨ s.pc = .returned

/-- A stopped loop is at none of the other places. -/
theorem Stopped.not_at (h : Stopped s) {pc : Pc ε} (hpc : s.pc = pc)
    (hne : pc ≠ .top ∧ pc ≠ .shutdown ∧ pc ≠ .returned) : False := by
  subst hpc
  rcases h.pc with hpc | hpc | hpc
  · exact hne.1 hpc
  · exact hne.2.1 hpc
  · exact hne.2.2 hpc

/-- A stopped loop makes no claim and stays stopped. -/
theorem Stopped.next (h : Stopped s) (hs : Next setup s s') : Stopped s' ∧ s'.attempts = s.attempts := by
  cases hs with
  | returned => exact ⟨⟨h.cancelled, .inr (.inr rfl)⟩, rfl⟩
  | shutdown => exact ⟨⟨h.cancelled, .inr (.inl rfl)⟩, rfl⟩
  | drain hpc hrunning =>
    rw [h.cancelled] at hrunning
    cases hrunning
  | ask hpc | full hpc | after hpc | drained hpc | woken hpc | claim hpc | left hpc =>
    exact (h.not_at hpc (by simp)).elim
  | ended hpc hp => exact ⟨⟨h.cancelled, .inl rfl⟩, rfl⟩
  | finish hp => exact ⟨⟨h.cancelled, h.pc⟩, rfl⟩
  | around hcancelled => exact ⟨⟨hcancelled h.cancelled, h.pc⟩, rfl⟩

/-- A step is the one that sees the cancellation, or finds it seen before. -/
theorem stopped_next (hs : Next setup s s') (hstopped : s'.stopped = true) : s.stopped = true ∨ Stopped s' := by
  cases hs with
  | returned _ hcancelled => exact .inr ⟨hcancelled, .inr (.inr rfl)⟩
  | shutdown _ hcancelled => exact .inr ⟨hcancelled, .inr (.inl rfl)⟩
  | @after r hpc =>
    rw [(afterClaim_frame setup s r).2.1] at hstopped
    exact .inl hstopped
  | drain | ask | full | drained | woken | ended | claim | left | finish | around => exact .inl hstopped

theorem Stopped.reach (h : Stopped s) (hr : Runs.Reach (step setup) (Answered setup) s s') :
    s'.attempts = s.attempts := by
  have hinv : Stopped s' ∧ s'.attempts = s.attempts := by
    refine Runs.Reach.inv (I := fun t => Stopped t ∧ t.attempts = s.attempts) ?_ hr ⟨h, rfl⟩
    rintro t a t' ⟨ht, hattempts⟩ ha hstep
    obtain ⟨ht', hsame⟩ := ht.next (next_of_step ha hstep)
    exact ⟨ht', hsame.trans hattempts⟩
  exact hinv.2

end Cancellation

section Runs

variable {setup : Setup} {s s' : State ε}

theorem Reachable.inv (h : Reachable setup s) (hvalid : setup.cfg.Valid) : Inv setup.cfg s := by
  obtain ⟨now, h⟩ := h
  obtain ⟨hbatch, hconcurrency⟩ := hvalid.sizes
  refine Runs.Reach.inv ?_ h (.init hconcurrency.le now)
  intro t a t' ht ha hstep
  exact ht.next hbatch (next_of_step ha hstep)

theorem Reachable.stopped (h : Reachable setup s) (hstopped : s.stopped = true) : Stopped s := by
  obtain ⟨now, h⟩ := h
  refine Runs.Reach.inv (I := fun t => t.stopped = true → Stopped t) ?_ h (by rintro ⟨⟩) hstopped
  intro t a t' ht ha hstep hstopped'
  rcases stopped_next (next_of_step ha hstep) hstopped' with hold | hnew
  · exact ((ht hold).next (next_of_step ha hstep)).1
  · exact hnew

/-- **The accounting of the scheduler.**  `active` counts the dispatched handlers whose completion was not received
and stays in range; no claim asks for more than there is room for; what the store hands out is dispatched once, and
what is not dispatched yet is dispatched by the next statement; no completion blocks; after the cancellation was seen
no claim is issued; and the loop returns only with `active = 0`. -/
theorem scheduler_accounts (hvalid : setup.cfg.Valid) (h : Reachable setup s) :
    (s.pool.active = s.pool.dispatched.length - s.pool.received ∧
      s.pool.active = s.pool.running.length + s.pool.buffered ∧
      0 ≤ s.pool.active ∧ s.pool.active ≤ setup.cfg.concurrency) ∧
    (∀ a ∈ s.attempts, a.Fits setup.cfg) ∧
    (s.claimed = s.pool.dispatched ++ s.pc.pending ∧
      s.pool.dispatched.Perm (s.pool.finished ++ s.pool.running)) ∧
    (∀ r, s.pc = .claimed r → ∃ s', step setup s .proceed = some s' ∧ s'.pool.dispatched = s.claimed) ∧
    (∀ i < s.pool.running.length, (step setup s (.finish i)).isSome = true) ∧
    (s.stopped = true →
      ∀ s', Runs.Reach (step setup) (Answered setup) s s' → s'.attempts = s.attempts) ∧
    (s.pc = .returned → s.pool.active = 0) := by
  have hinv := h.inv hvalid
  refine ⟨⟨hinv.pool.outstanding, hinv.pool.active, hinv.pool.nonneg, hinv.pool.le⟩, hinv.attempts,
    ⟨hinv.claimed, hinv.pool.jobs⟩, fun r hpc => ?_, fun i hi => ?_, fun hstopped s' hr =>
    (h.stopped hstopped).reach hr, hinv.returned⟩
  · refine ⟨s.afterClaim setup r, by simp only [step, State.proceed, hpc], ?_⟩
    rw [pool_afterClaim, hinv.claimed, hpc]
    rfl
  · have hroom := hinv.pool.room (List.ne_nil_of_length_pos (by omega))
    simp [step, Pool.State.finish, hi, hroom]

/-- Two workers, and a store with both optional interfaces. -/
def twoWorkers : Setup := ⟨{ defaultConfig with instanceID := "relay-a", concurrency := 2 }, true, true⟩

/-- The first claim gets an ordered event and an error for the unordered class, the second one gets an unordered
event; then the context is cancelled while both handlers run. -/
def cancelledRun : List (Action Nat) :=
  [ .proceed, .proceed, .claim ⟨.ok false, ⟨[1], none⟩, ⟨[], some "timeout"⟩⟩, .proceed,
    .proceed, .proceed, .claim ⟨.ok false, ⟨[], none⟩, ⟨[2], none⟩⟩, .proceed,
    .proceed, .proceed, .cancel, .finish 1, .receive, .proceed, .finish 0, .receive, .proceed ]

def Pc.isReturned : Pc ε → Bool
  | .returned => true
  | _ => false

theorem Pc.eq_returned {pc : Pc ε} (h : pc.isReturned = true) : pc = .returned := by
  cases pc with
  | returned => rfl
  | _ => cases h

theorem scheduler_accounts_cancelled :
    twoWorkers.cfg.Valid ∧ ∃ s : State Nat, Reachable twoWorkers s ∧ s.pool.dispatched = [1, 2] ∧
      s.attempts.length = 2 ∧ s.stopped = true ∧ s.pc = .returned ∧ s.pool.active = 0 := by
  have hvalid : twoWorkers.cfg.Valid := by decide +kernel
  obtain ⟨s, hr, hp⟩ := Runs.exists_of_guarded (step twoWorkers) (C := Answered twoWorkers) (I := fun _ => True)
    (fun s a => decide (Answered twoWorkers s a)) (fun _ _ _ _ _ => trivial) (fun _ _ _ => of_decide_eq_true)
    (init twoWorkers 0) trivial cancelledRun
    (fun s => s.pool.dispatched == [1, 2] && s.attempts.length == 2 && s.stopped && s.pc.isReturned)
    (by decide +kernel)
  simp only [Bool.and_eq_true, beq_iff_eq] at hp
  obtain ⟨⟨⟨hdispatched, hattempts⟩, hstopped⟩, hpc⟩ := hp
  have hreach : Reachable twoWorkers s := ⟨0, hr⟩
  obtain ⟨-, -, -, -, -, -, hactive⟩ := scheduler_accounts hvalid hreach
  exact ⟨hvalid, s, hreach, hdispatched, hattempts, hstopped, Pc.eq_returned hpc, hactive (Pc.eq_returned hpc)⟩

end Runs

end Emitlane.Relay.Scheduler
