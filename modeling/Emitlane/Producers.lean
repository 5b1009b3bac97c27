import Mathlib.Data.Fintype.Basic
import Emitlane.Cursor
import Emitlane.Outbox.Effect

/-!
# Producers — transactions of Enqueue calls, statement by statement

In `System.Model` a producer transaction is one step.  Here it is a session that runs its statements one at a time,
between the statements of the other sessions and the calls of relays and operators: a session sees the committed rows
and its own, at READ COMMITTED, and waits for a row another session has inserted or locked.  A statement that fails
ends the transaction on the server: its rows and locks are gone, and only the ROLLBACK is left.

Every run of the sessions is a run of `System.Model` in which a transaction takes effect at once when it commits
(`producers_serialize`).
-/

namespace Emitlane.Producers

open Rel Relay Outbox

/-! ## Sessions -/

/-- Where a session is. -/
inductive Pos
  /-- Between two calls. -/
  | idle
  /-- Enqueue has run the INSERT into ordering_streams. -/
  | initialized (c : Call)
  /-- Enqueue has validated the event and, if it is ordered, locked and checked the stream. -/
  | checked (c : Call)
  /-- A statement failed. -/
  | failed (err : Error)

structure Tx where
  /-- `NOW()`. -/
  started : Int
  /-- The calls that returned, with their answers, oldest first. -/
  done : List (Call × Except Error EventRow)
  /-- The rows the transaction has inserted. -/
  streams : List StreamRow
  events : List EventRow
  /-- The streams it has selected FOR UPDATE. -/
  locks : List (String × String)
  pos : Pos

namespace Tx

def begin (now : Int) : Tx := { started := now, done := [], streams := [], events := [], locks := [], pos := .idle }

def calls (tx : Tx) : List Call := tx.done.map (·.1)

def answers (tx : Tx) : List (Except Error EventRow) := tx.done.map (·.2)

/-- What a statement of the transaction sees. -/
def view (tx : Tx) (db : Db) : Option Db := db.extend tx.streams tx.events

/-- The transaction after a statement that left it with the view `v`: its own rows stand behind the committed ones. -/
def keep (tx : Tx) (db v : Db) : Tx :=
  { tx with
    streams := v.streams.rows.drop db.streams.rows.length
    events := v.events.rows.drop db.events.rows.length }

def answer (tx : Tx) (c : Call) (a : Except Error EventRow) :
    Tx := { tx with done := tx.done ++ [(c, a)], pos := .idle }

def fail (tx : Tx) (err : Error) : Tx := { tx with streams := [], events := [], locks := [], pos := .failed err }

/-- Enqueue up to the INSERT into ordering_streams.  `busy` are the streams other sessions have inserted. -/
def call (tx : Tx) (db v : Db) (busy : String × String → Bool) (c : Call) : Option Tx :=
  match c.event.validate with
  | .error err => some (tx.answer c (.error err))
  | .ok _ =>
    if c.event.orderingKey = "" then some { tx with pos := .checked c }
    else
      match insertStream v tx.started c.event (Ordering.partition c.event.destination c.event.orderingKey)
          c.event.start with
      | none => some (tx.fail ⟨none, "outbox: initialize ordering stream"⟩)
      | some v' => if busy c.key then none else some { tx.keep db v' with pos := .initialized c }

/-- SELECT … FOR UPDATE and the checks.  `busy` are the streams other sessions have locked. -/
def lock (tx : Tx) (v : Db) (busy : String × String → Bool) (c : Call) : Option Tx :=
  if busy c.key then none
  else
    match v.stream c.event.destination c.event.orderingKey with
    | none => some (tx.fail ⟨none, "outbox: inspect ordering stream"⟩)
    | some st =>
      match checkStream c.event (Ordering.partition c.event.destination c.event.orderingKey) st with
      | .error err => some ({ tx with locks := c.key :: tx.locks }.answer c (.error err))
      | .ok _ => some { tx with locks := c.key :: tx.locks, pos := .checked c }

/-- The id and the INSERT of the event.  `busy` are the rows that clash with a row another session has inserted. -/
def insert (tx : Tx) (db v : Db) (busy : EventRow → Bool) (c : Call) : Option Tx :=
  match c.rowID with
  | .error err => some (tx.answer c (.error err))
  | .ok id =>
    match insertEvent v (newRow tx.started c id) with
    | .error err => some (tx.fail err)
    | .ok v' =>
      if busy (newRow tx.started c id) then none else some ((tx.keep db v').answer c (.ok (newRow tx.started c id)))

/-- The transaction does not hold up a statement that turns `db` into `db'`. -/
def Allows (tx : Tx) (db db' : Db) : Prop :=
  (∀ k ∈ tx.locks, db'.stream k.1 k.2 = db.stream k.1 k.2) ∧ (tx.view db').isSome = true

instance decidableAllows (tx : Tx) (db db' : Db) : Decidable (tx.Allows db db') :=
  inferInstanceAs (Decidable (_ ∧ _))

end Tx

/-! ## The system -/

structure State (ι π : Type) where
  sys : Emitlane.State ι
  txs : π → Option Tx

inductive Action (ι π : Type)
  | begin (p : π)
  | call (p : π) (c : Call)
  /-- The next statement of the running call. -/
  | next (p : π)
  | commit (p : π)
  | rollback (p : π)
  /-- A step of a relay or an operator, or the clock. -/
  | sys (a : Emitlane.Action ι)

section System

variable {ι π : Type} [Fintype π] [DecidableEq π] (cfg : ι → Config)

def State.init (ι π : Type) (clock : Int) : State ι π := ⟨Emitlane.State.init ι clock, fun _ => none⟩

def State.set (s : State ι π) (p : π) (tx : Option Tx) : State ι π := { s with txs := Function.update s.txs p tx }

/-- The open transaction of a session and what it sees. -/
def State.view (s : State ι π) (p : π) : Option (Tx × Db) :=
  (s.txs p).bind fun tx => (tx.view s.sys.db).map fun v => (tx, v)

/-- A session other than `p` has an open transaction with `f`. -/
def State.other (s : State ι π) (p : π) (f : Tx → Bool) :
    Bool := decide (∃ q, q ≠ p ∧ (s.txs q).any f = true)

def State.streamBusy (s : State ι π) (p : π) (k : String × String) : Bool :=
  s.other p fun tx => tx.streams.any (·.key = k)

def State.lockBusy (s : State ι π) (p : π) (k : String × String) : Bool := s.other p fun tx => tx.locks.contains k

def State.eventBusy (s : State ι π) (p : π) (row : EventRow) : Bool :=
  s.other p fun tx => tx.events.any fun r => decide (r.Clash row)

/-- No open transaction holds up a statement that leaves the database `db`. -/
def State.Allows (s : State ι π) (db : Db) :
    Prop := ∀ p, (s.txs p).all (fun tx => decide (tx.Allows s.sys.db db)) = true

instance State.decidableAllows (s : State ι π) (db : Db) : Decidable (s.Allows db) :=
  inferInstanceAs (Decidable (∀ _, _))

def produces : Emitlane.Action ι → Bool
  | .produce .. => true
  | _ => false

def step (s : State ι π) : Action ι π → Option (State ι π)
  | .begin p =>
    match s.txs p with
    | some _ => none
    | none => some (s.set p (some (Tx.begin s.sys.clock)))
  | .call p c => (s.view p).bind fun x =>
    match x.1.pos with
    | .idle => (x.1.call s.sys.db x.2 (s.streamBusy p) c).map fun tx => s.set p (some tx)
    | _ => none
  | .next p => (s.view p).bind fun x =>
    match x.1.pos with
    | .initialized c => (x.1.lock x.2 (s.lockBusy p) c).map fun tx => s.set p (some tx)
    | .checked c => (x.1.insert s.sys.db x.2 (s.eventBusy p) c).map fun tx => s.set p (some tx)
    | _ => none
  | .commit p => (s.view p).bind fun x =>
    match x.1.pos with
    | .idle => some { s.set p none with sys := s.sys.insert x.2 x.1.events }
    | _ => none
  | .rollback p => (s.txs p).map fun _ => s.set p none
  | .sys a =>
    if produces a then none
    else (Emitlane.step cfg s.sys a).bind fun t => if s.Allows t.db then some { s with sys := t } else none

def Reachable (s : State ι π) : Prop := ∃ clock, Runs.Reach (step cfg) Runs.Free (State.init ι π clock) s

end System

/-! ## What a transaction has done so far -/

/-- The calls that returned are the calls on a database with the streams `look`: they initialised `ss`. -/
structure Tx.Done (tx : Tx) (look : String → String → Option StreamRow) (ss : List StreamRow) : Prop where
  ran : effects tx.started look tx.calls = (ss, tx.answers)
  events : tx.events = tx.answers.flatMap rowOf

/-- The running call, on a database with the streams `look`. -/
def Tx.At (tx : Tx) (look : String → String → Option StreamRow) : Prop :=
  match tx.pos with
  | .idle => tx.Done look tx.streams
  | .initialized c => ∃ ss, tx.Done look ss ∧ c.Ordered ∧ tx.streams = ss ++ c.opens (also look ss) tx.started
  | .checked c => ∃ ss, tx.Done look ss ∧ c.event.validate = .ok () ∧
      ((c.event.orderingKey = "" ∧ tx.streams = ss) ∨
        (c.event.orderingKey ≠ "" ∧ c.key ∈ tx.locks ∧ tx.streams = ss ++ c.opens (also look ss) tx.started ∧
          c.checks (also look ss) tx.started = .ok ()))
  | .failed _ => True

structure Tx.Sound (tx : Tx) (db : Db) (clock : Int) : Prop where
  started : tx.started ≤ clock
  view : (tx.view db).isSome = true
  /-- The streams of the calls are locked, and a locked stream is there. -/
  locked : (∀ err, tx.pos ≠ .failed err) → ∀ c ∈ tx.calls, c.Ordered → c.key ∈ tx.locks
  present : ∀ k ∈ tx.locks, (also db.stream tx.streams k.1 k.2).isSome = true
  place : tx.At db.stream

/-- What the sessions do not let one another do. -/
structure Tx.Apart (tx tx' : Tx) : Prop where
  streams : ∀ a ∈ tx.streams, ∀ b ∈ tx'.streams, a.key ≠ b.key
  events : ∀ a ∈ tx.events, ∀ b ∈ tx'.events, ¬ a.Clash b
  locks : ∀ k ∈ tx.locks, k ∉ tx'.locks

/-! ## A transaction while others go on -/

section Frame

variable {tx tx' : Tx} {db db' v : Db} {clock clock' : Int} {look look' : String → String → Option StreamRow}
  {ss : List StreamRow}

theorem Tx.Done.transfer (h : tx.Done look ss) (hlocked : ∀ c ∈ tx.calls, c.Ordered → c.key ∈ tx.locks)
    (hlocks : ∀ k ∈ tx.locks, look' k.1 k.2 = look k.1 k.2) : tx.Done look' ss where
  ran := by
    rw [← h.ran]
    exact effects_congr tx.calls fun c hc hord => hlocks c.key (hlocked c hc hord)
  events := h.events

/-- The call has found its stream, or inserted it where nobody else can. -/
theorem opens_transfer {c : Call} {now : Int} (hkeep : ∀ d k, (look d k).isSome = true → (look' d k).isSome = true)
    (hnew : ∀ st ∈ ss ++ c.opens (also look ss) now, look' st.destination st.orderingKey = none) :
    c.opens (also look' ss) now = c.opens (also look ss) now := by
  unfold Call.opens at hnew ⊢
  by_cases hsome : (also look ss c.event.destination c.event.orderingKey).isSome = true
  · have hsome' : (also look' ss c.event.destination c.event.orderingKey).isSome = true := by
      unfold also at hsome ⊢
      rw [Option.isSome_or, Bool.or_eq_true] at hsome ⊢
      exact hsome.imp_left (hkeep _ _)
    rw [if_pos hsome, if_pos hsome']
  · rw [if_neg hsome] at hnew
    have hnone : look' c.event.destination c.event.orderingKey = none :=
      hnew (streamRow now c.event) (List.mem_append_right ss List.mem_cons_self)
    have hsome' : ¬ (also look' ss c.event.destination c.event.orderingKey).isSome = true := by
      unfold also at hsome ⊢
      rw [Option.isSome_or, Bool.or_eq_true, not_or] at hsome
      rw [hnone, Option.none_or]
      exact hsome.2
    rw [if_neg hsome, if_neg hsome']

/-- The place of a transaction depends on the streams it has locked, and on which others there are. -/
theorem Tx.At.transfer (h : tx.At look)
    (hlocked : (∀ err, tx.pos ≠ .failed err) → ∀ c ∈ tx.calls, c.Ordered → c.key ∈ tx.locks)
    (hlocks : ∀ k ∈ tx.locks, look' k.1 k.2 = look k.1 k.2)
    (hkeep : ∀ d k, (look d k).isSome = true → (look' d k).isSome = true)
    (hnew : ∀ st ∈ tx.streams, look' st.destination st.orderingKey = none) : tx.At look' := by
  unfold Tx.At at h ⊢
  cases hpos : tx.pos with
  | failed err => trivial
  | idle =>
    simp only [hpos] at h hlocked ⊢
    exact h.transfer (hlocked (by simp)) hlocks
  | initialized c =>
    simp only [hpos] at h hlocked ⊢
    obtain ⟨ss, hdone, hord, hss⟩ := h
    refine ⟨ss, hdone.transfer (hlocked (by simp)) hlocks, hord, ?_⟩
    rw [opens_transfer hkeep (hss ▸ hnew)]
    exact hss
  | checked c =>
    simp only [hpos] at h hlocked ⊢
    obtain ⟨ss, hdone, hvalid, hplace⟩ := h
    refine ⟨ss, hdone.transfer (hlocked (by simp)) hlocks, hvalid, ?_⟩
    rcases hplace with hplain | ⟨hkey, hmem, hss, hchecks⟩
    · exact .inl hplain
    · have hfound : also look' ss c.event.destination c.event.orderingKey =
          also look ss c.event.destination c.event.orderingKey := by
        have hlock : look' c.event.destination c.event.orderingKey =
          look c.event.destination c.event.orderingKey := hlocks c.key hmem
        unfold also
        rw [hlock]
      refine .inr ⟨hkey, hmem, ?_, ?_⟩
      · unfold Call.opens at hss ⊢
        rw [hfound]
        exact hss
      · unfold Call.checks Call.found at hchecks ⊢
        rw [hfound]
        exact hchecks

/-- A stream a transaction has inserted is not there for others. -/
theorem Tx.stream_none (h : (tx.view db).isSome = true) :
    ∀ st ∈ tx.streams, db.stream st.destination st.orderingKey = none := by
  intro st hst
  have hok := Table.extend_isSome.mp (Db.extend_isSome.mp h).1
  refine lookup_eq_none.mpr fun r hr => ?_
  exact (streamsSchema_apart.append.mp hok).2.2 r hr st hst

theorem Tx.Sound.transfer (h : tx.Sound db clock) (hclock : clock ≤ clock') (hallows : tx.Allows db db')
    (hkeep : ∀ d k, (db.stream d k).isSome = true → (db'.stream d k).isSome = true) : tx.Sound db' clock' where
  started := h.started.trans hclock
  view := hallows.2
  locked := h.locked
  present k hk := by
    have hp := h.present k hk
    unfold also at hp ⊢
    rw [hallows.1 k hk]
    exact hp
  place := h.place.transfer h.locked hallows.1 hkeep (Tx.stream_none hallows.2)

theorem Tx.Apart.symm (h : tx.Apart tx') : tx'.Apart tx where
  streams a ha b hb hk := h.streams b hb a ha hk.symm
  events a ha b hb hc := h.events b hb a ha hc.symm
  locks k hk hk' := h.locks k hk' hk

/-- A commit does not disturb a transaction it is apart from. -/
theorem Tx.Apart.allows (h : tx.Apart tx') (hv : tx.view db = some v) (hs : tx'.Sound db clock) : tx'.Allows db v := by
  obtain ⟨s, e, hstreams, hevents, rfl⟩ := Db.extend_eq_some.mp hv
  obtain ⟨hstreams', hevents'⟩ := Db.extend_isSome.mp hs.view
  refine ⟨fun k hk => ?_, Db.extend_isSome.mpr ⟨?_, ?_⟩⟩
  · have hp := hs.present k hk
    have hv : ({ db with streams := s, events := e } : Db).stream k.1 k.2 = also db.stream tx.streams k.1 k.2 :=
      congrFun (congrFun (Db.stream_extend hv) k.1) k.2
    rw [hv]
    unfold also at hp ⊢
    cases hdb : db.stream k.1 k.2 with
    | some st => rfl
    | none =>
      rw [hdb, Option.none_or] at hp
      obtain ⟨b, hb⟩ := Option.isSome_iff_exists.mp hp
      rw [Option.none_or]
      refine lookup_eq_none.mpr fun a ha hak => h.streams a ha b (lookup_mem hb) ?_
      rw [hak, lookup_key hb]
  · exact Table.extend_after streamsSchema_apart hstreams hstreams' h.streams
  · exact Table.extend_after eventsSchema_apart hevents hevents' h.events

end Frame

/-! ## The statements of a session -/

section Statements

variable {tx tx' : Tx} {db v : Db} {clock : Int} {c : Call} {look : String → String → Option StreamRow}
  {ss : List StreamRow}

theorem Tx.keep_eq {ss : List StreamRow} {es : List EventRow} (h : db.extend ss es = some v) :
    tx.keep db v = { tx with streams := ss, events := es } := by
  obtain ⟨s, e, hs, he, rfl⟩ := Db.extend_eq_some.mp h
  unfold Tx.keep
  simp only [Table.extend_eq_some.mp hs, Table.extend_eq_some.mp he, List.drop_left]

@[simp] theorem Tx.calls_answer (a : Except Error EventRow) : (tx.answer c a).calls = tx.calls ++ [c] := by
  simp [Tx.calls, Tx.answer]

@[simp] theorem Tx.answers_answer (a : Except Error EventRow) : (tx.answer c a).answers = tx.answers ++ [a] := by
  simp [Tx.answers, Tx.answer]

/-- A call returns. -/
theorem Tx.Done.answer {ss' : List StreamRow} {a : Except Error EventRow} (h : tx.Done look ss)
    (heffect : c.effect (also look ss) tx.started = (ss', a)) :
    ({ tx with events := tx.events ++ rowOf a }.answer c a).Done look (ss ++ ss') where
  ran := by
    rw [Tx.calls_answer, Tx.answers_answer]
    show Outbox.effects tx.started look (tx.calls ++ [c]) = (ss ++ ss', tx.answers ++ [a])
    rw [effects_append_one, h.ran, heffect]
  events := by
    rw [Tx.answers_answer, List.flatMap_append]
    show tx.events ++ rowOf a = _
    rw [h.events, List.flatMap_singleton]
    rfl

theorem Tx.Sound.begin (db : Db) (clock : Int) : (Tx.begin clock).Sound db clock where
  started := le_rfl
  view := by simp [Tx.view, Tx.begin]
  locked _ _ hc := nomatch hc
  present _ hk := nomatch hk
  place := ⟨rfl, rfl⟩

theorem Tx.Apart.begin (clock : Int) (tx : Tx) : (Tx.begin clock).Apart tx where
  streams _ h := nomatch h
  events _ h := nomatch h
  locks _ h := nomatch h

theorem Tx.Sound.fail (h : tx.Sound db clock) (err : Error) : (tx.fail err).Sound db clock where
  started := h.started
  view := by simp [Tx.view, Tx.fail]
  locked hne := absurd rfl (hne err)
  present _ hk := nomatch hk
  place := trivial

/-- A transaction that has not failed. -/
def Tx.Open (tx : Tx) : Prop := ∀ err, tx.pos ≠ .failed err

/-- A call returns, and its streams and rows are part of what the transaction sees. -/
theorem Tx.Sound.answer {a : Except Error EventRow} {ss' : List StreamRow} (h : tx.Sound db clock)
    (hdone : tx.Done db.stream ss) (heffect : c.effect (also db.stream ss) tx.started = (ss', a))
    (hopen : tx.Open) (hlock : c.Ordered → c.key ∈ tx.locks) (hss : tx.streams = ss ++ ss')
    (hv : (db.extend tx.streams (tx.events ++ rowOf a)).isSome = true) :
    ({ tx with events := tx.events ++ rowOf a }.answer c a).Sound db clock where
  started := h.started
  view := hv
  locked _ x hx hord := by
    rw [Tx.calls_answer] at hx
    rcases List.mem_append.mp hx with hx | hx
    · exact h.locked hopen x hx hord
    · rw [List.mem_singleton.mp hx] at hord ⊢
      exact hlock hord
  present := h.present
  place := by
    have hdone := hdone.answer heffect
    rw [← hss] at hdone
    exact hdone

theorem Tx.Sound.idle (h : tx.Sound db clock) (hpos : tx.pos = .idle) : tx.Done db.stream tx.streams := by
  have hplace := h.place
  unfold Tx.At at hplace
  simpa only [hpos] using hplace

theorem Tx.Sound.call {busy : String × String → Bool} (h : tx.Sound db clock) (hpos : tx.pos = .idle)
    (hv : tx.view db = some v) (hcall : tx.call db v busy c = some tx') : tx'.Sound db clock := by
  have hopen : tx.Open := fun err he => by rw [hpos] at he; cases he
  have hdone := h.idle hpos
  unfold Tx.call at hcall
  cases hvalid : c.event.validate with
  | error err =>
    rw [hvalid] at hcall
    obtain rfl := Option.some.inj hcall
    have hrow : tx.events ++ rowOf (.error err) = tx.events := List.append_nil _
    have heffect : c.effect (also db.stream tx.streams) tx.started = ([], .error err) := by simp [Call.effect, hvalid]
    have hno : ¬ c.Ordered := fun hord => by rw [hord.1] at hvalid; cases hvalid
    have hans := h.answer hdone heffect hopen (fun hord => absurd hord hno) (List.append_nil _).symm
      (by rw [hrow]; exact h.view)
    rw [hrow] at hans
    exact hans
  | ok u =>
    rw [hvalid] at hcall
    simp only at hcall
    by_cases hkey : c.event.orderingKey = ""
    · rw [if_pos hkey] at hcall
      obtain rfl := Option.some.inj hcall
      exact ⟨h.started, h.view, fun _ => h.locked hopen, h.present,
        tx.streams, ⟨hdone.ran, hdone.events⟩, hvalid, .inl ⟨hkey, rfl⟩⟩
    · rw [if_neg hkey, insertStream_eq] at hcall
      cases hv' : v.extend (c.opens v.stream tx.started) [] with
      | none =>
        rw [hv'] at hcall
        obtain rfl := Option.some.inj hcall
        exact h.fail _
      | some v' =>
        rw [hv'] at hcall
        simp only at hcall
        split_ifs at hcall with hbusy
        have hstream : v.stream = also db.stream tx.streams := Db.stream_extend hv
        have hext : db.extend (tx.streams ++ c.opens v.stream tx.started) (tx.events ++ []) = some v' := by
          rw [Db.extend_append]
          unfold Tx.view at hv
          rw [hv, Option.bind_some, hv']
        rw [List.append_nil] at hext
        rw [Tx.keep_eq hext] at hcall
        obtain rfl := Option.some.inj hcall
        refine ⟨h.started, ?_, fun _ => h.locked hopen, fun k hk => ?_,
          tx.streams, ⟨hdone.ran, hdone.events⟩, ⟨hvalid, hkey⟩, ?_⟩
        · exact Option.isSome_iff_exists.mpr ⟨v', hext⟩
        · show (also db.stream (tx.streams ++ _) k.1 k.2).isSome = true
          rw [also_append]
          have hp := h.present k hk
          unfold also at hp ⊢
          rw [Option.isSome_or, hp, Bool.true_or]
        · show tx.streams ++ _ = tx.streams ++ _
          rw [hstream]

theorem Tx.Sound.lock {busy : String × String → Bool} (h : tx.Sound db clock) (hpos : tx.pos = .initialized c)
    (hv : tx.view db = some v) (hlock : tx.lock v busy c = some tx') : tx'.Sound db clock := by
  have hopen : tx.Open := fun err he => by rw [hpos] at he; cases he
  obtain ⟨ss, hdone, hord, hss⟩ : ∃ ss, tx.Done db.stream ss ∧ c.Ordered ∧
      tx.streams = ss ++ c.opens (also db.stream ss) tx.started := by
    have hplace := h.place
    unfold Tx.At at hplace
    simpa only [hpos] using hplace
  have hfound : also db.stream tx.streams c.event.destination c.event.orderingKey =
      some (c.found (also db.stream ss) tx.started) := by
    rw [hss, also_append]
    exact also_opens _ _ _
  -- the transaction with the new lock
  have hlocked : ({ tx with locks := c.key :: tx.locks } : Tx).Sound db clock := by
    refine ⟨h.started, h.view, fun _ x hx hx' => List.mem_cons_of_mem _ (h.locked hopen x hx hx'), fun k hk => ?_,
      ?_⟩
    · rcases List.mem_cons.mp hk with rfl | hk
      · show (also db.stream tx.streams c.event.destination c.event.orderingKey).isSome = true
        rw [hfound]
        rfl
      · exact h.present k hk
    · have : tx.At db.stream := h.place
      unfold Tx.At at this ⊢
      simp only [hpos] at this ⊢
      obtain ⟨ss, hdone, rest⟩ := this
      exact ⟨ss, ⟨hdone.ran, hdone.events⟩, rest⟩
  unfold Tx.lock at hlock
  split_ifs at hlock
  rw [Db.stream_extend hv, hfound] at hlock
  simp only at hlock
  cases hc : c.checks (also db.stream ss) tx.started with
  | error err =>
    have hc' : checkStream c.event (Ordering.partition c.event.destination c.event.orderingKey)
        (c.found (also db.stream ss) tx.started) = .error err := hc
    rw [hc'] at hlock
    obtain rfl := Option.some.inj hlock
    have hrow : tx.events ++ rowOf (.error err) = tx.events := List.append_nil _
    have hans := hlocked.answer (c := c) (a := .error err) ⟨hdone.ran, hdone.events⟩
      (by simp [Call.effect, hord.1, hord.2, hc]) (fun e => hopen e) (fun _ => List.mem_cons_self) hss
      (by show (db.extend tx.streams (tx.events ++ rowOf (.error err))).isSome = true; rw [hrow]; exact h.view)
    have hrow' : ({ tx with locks := c.key :: tx.locks } : Tx).events ++ rowOf (.error err) = tx.events := hrow
    rw [hrow'] at hans
    exact hans
  | ok u =>
    have hc' : checkStream c.event (Ordering.partition c.event.destination c.event.orderingKey)
        (c.found (also db.stream ss) tx.started) = .ok u := hc
    rw [hc'] at hlock
    obtain rfl := Option.some.inj hlock
    exact ⟨h.started, h.view, fun _ => hlocked.locked fun e => hopen e, hlocked.present,
      ss, ⟨hdone.ran, hdone.events⟩, hord.1, .inr ⟨hord.2, List.mem_cons_self, hss, hc⟩⟩

/-- What a checked call still has to do. -/
theorem Tx.Sound.checked (h : tx.Sound db clock) (hpos : tx.pos = .checked c) :
    ∃ ss ss', tx.Done db.stream ss ∧ tx.streams = ss ++ ss' ∧ (c.Ordered → c.key ∈ tx.locks) ∧
      c.effect (also db.stream ss) tx.started = (ss', c.rowID.map (newRow tx.started c)) := by
  have hplace := h.place
  unfold Tx.At at hplace
  simp only [hpos] at hplace
  obtain ⟨ss, hdone, hvalid, ⟨hkey, hss⟩ | ⟨hkey, hmem, hss, hchecks⟩⟩ := hplace
  · refine ⟨ss, [], hdone, by rw [hss, List.append_nil], fun hord => absurd hkey hord.2, ?_⟩
    simp [Call.effect, hvalid, hkey]
  · refine ⟨ss, _, hdone, hss, fun _ => hmem, ?_⟩
    simp only [Call.effect, hvalid, if_neg hkey, hchecks]

theorem Tx.Sound.insert {busy : EventRow → Bool} (h : tx.Sound db clock) (hpos : tx.pos = .checked c)
    (hv : tx.view db = some v) (hinsert : tx.insert db v busy c = some tx') : tx'.Sound db clock := by
  have hopen : tx.Open := fun err he => by rw [hpos] at he; cases he
  obtain ⟨ss, ss', hdone, hss, hlock, heffect⟩ := h.checked hpos
  unfold Tx.insert at hinsert
  cases hid : c.rowID with
  | error err =>
    rw [hid] at hinsert heffect
    obtain rfl := Option.some.inj hinsert
    have hrow : tx.events ++ rowOf (.error err) = tx.events := List.append_nil _
    have hans := h.answer hdone heffect hopen hlock hss
      (by show (db.extend _ (tx.events ++ rowOf (.error err))).isSome = true; rw [hrow]; exact h.view)
    have hrow' : tx.events ++ rowOf (Except.map (newRow tx.started c) (.error err)) = tx.events := hrow
    rw [hrow'] at hans
    exact hans
  | ok id =>
    rw [hid] at hinsert heffect
    simp only at hinsert
    cases hins : insertEvent v (newRow tx.started c id) with
    | error err =>
      rw [hins] at hinsert
      obtain rfl := Option.some.inj hinsert
      exact h.fail err
    | ok v' =>
      rw [hins] at hinsert
      simp only at hinsert
      split_ifs at hinsert with hbusy
      have hext : db.extend tx.streams (tx.events ++ [newRow tx.started c id]) = some v' := by
        have happend := Db.extend_append db tx.streams [] tx.events [newRow tx.started c id]
        unfold Tx.view at hv
        rwa [List.append_nil, hv, Option.bind_some, ← insertEvent_eq, hins] at happend
      rw [Tx.keep_eq hext] at hinsert
      obtain rfl := Option.some.inj hinsert
      exact h.answer hdone heffect hopen hlock hss (Option.isSome_iff_exists.mpr ⟨v', hext⟩)

end Statements

/-! ## Steps -/

section Steps

variable {ι π : Type} [Fintype π] [DecidableEq π] {cfg : ι → Config} {s s' : State ι π} {p : π}
    {tx tx' : Tx} {db v : Db}

/-- What a statement of session `p` adds to its transaction, no other session has. -/
structure Tx.Takes (s : State ι π) (p : π) (tx tx' : Tx) : Prop where
  streams : ∀ st ∈ tx'.streams, st ∈ tx.streams ∨ s.streamBusy p st.key = false
  events : ∀ r ∈ tx'.events, r ∈ tx.events ∨ s.eventBusy p r = false
  locks : ∀ k ∈ tx'.locks, k ∈ tx.locks ∨ s.lockBusy p k = false

theorem Tx.Takes.same (hs : tx'.streams = tx.streams) (he : tx'.events = tx.events) (hl : tx'.locks = tx.locks) :
    Tx.Takes s p tx tx' :=
  ⟨fun _ h => .inl (hs ▸ h), fun _ h => .inl (he ▸ h), fun _ h => .inl (hl ▸ h)⟩

theorem Tx.Takes.fail (err : Error) : Tx.Takes s p tx (tx.fail err) where
  streams _ h := nomatch h
  events _ h := nomatch h
  locks _ h := nomatch h

theorem Tx.Takes.call {c : Call} (hv : tx.view db = some v) (h : tx.call db v (s.streamBusy p) c = some tx') :
    Tx.Takes s p tx tx' := by
  unfold Tx.call at h
  cases hvalid : c.event.validate with
  | error err =>
    rw [hvalid] at h
    obtain rfl := Option.some.inj h
    exact Tx.Takes.same rfl rfl rfl
  | ok u =>
    rw [hvalid] at h
    simp only at h
    by_cases hkey : c.event.orderingKey = ""
    · rw [if_pos hkey] at h
      obtain rfl := Option.some.inj h
      exact Tx.Takes.same rfl rfl rfl
    · rw [if_neg hkey, insertStream_eq] at h
      cases hv' : v.extend (c.opens v.stream tx.started) [] with
      | none =>
        rw [hv'] at h
        obtain rfl := Option.some.inj h
        exact Tx.Takes.fail _
      | some v' =>
        rw [hv'] at h
        simp only at h
        split_ifs at h with hbusy
        have hext := Db.extend_append db tx.streams (c.opens v.stream tx.started) tx.events []
        unfold Tx.view at hv
        rw [List.append_nil, hv, Option.bind_some, hv'] at hext
        rw [Tx.keep_eq hext] at h
        obtain rfl := Option.some.inj h
        refine ⟨fun st hst => ?_, fun _ hr => .inl hr, fun _ hk => .inl hk⟩
        rcases List.mem_append.mp hst with hst | hst
        · exact .inl hst
        · refine .inr ?_
          unfold Call.opens at hst
          split_ifs at hst
          · cases hst
          · rw [List.mem_singleton.mp hst]
            exact Bool.eq_false_iff.mpr hbusy

theorem Tx.Takes.lock {c : Call} (h : tx.lock v (s.lockBusy p) c = some tx') : Tx.Takes s p tx tx' := by
  unfold Tx.lock at h
  split_ifs at h with hbusy
  have hlocks : ∀ k ∈ c.key :: tx.locks, k ∈ tx.locks ∨ s.lockBusy p k = false := by
    intro k hk
    rcases List.mem_cons.mp hk with rfl | hk
    · exact .inr (Bool.eq_false_iff.mpr hbusy)
    · exact .inl hk
  split at h
  · obtain rfl := Option.some.inj h
    exact Tx.Takes.fail _
  · split at h
    · obtain rfl := Option.some.inj h
      exact ⟨fun _ hst => .inl hst, fun _ hr => .inl hr, hlocks⟩
    · obtain rfl := Option.some.inj h
      exact ⟨fun _ hst => .inl hst, fun _ hr => .inl hr, hlocks⟩

theorem Tx.Takes.insert {c : Call} (hv : tx.view db = some v) (h : tx.insert db v (s.eventBusy p) c = some tx') :
    Tx.Takes s p tx tx' := by
  unfold Tx.insert at h
  cases hid : c.rowID with
  | error err =>
    rw [hid] at h
    obtain rfl := Option.some.inj h
    exact Tx.Takes.same rfl rfl rfl
  | ok id =>
    rw [hid] at h
    simp only at h
    cases hins : insertEvent v (newRow tx.started c id) with
    | error err =>
      rw [hins] at h
      obtain rfl := Option.some.inj h
      exact Tx.Takes.fail _
    | ok v' =>
      rw [hins] at h
      simp only at h
      split_ifs at h with hbusy
      have hext := Db.extend_append db tx.streams [] tx.events [newRow tx.started c id]
      unfold Tx.view at hv
      rw [List.append_nil, hv, Option.bind_some, ← insertEvent_eq, hins] at hext
      rw [Tx.keep_eq hext] at h
      obtain rfl := Option.some.inj h
      refine ⟨fun _ hst => .inl hst, fun r hr => ?_, fun _ hk => .inl hk⟩
      rcases List.mem_append.mp hr with hr | hr
      · exact .inl hr
      · rw [List.mem_singleton.mp hr]
        exact .inr (Bool.eq_false_iff.mpr hbusy)

variable (cfg) in
/-- The steps of the system. -/
inductive Next (s : State ι π) : State ι π → Prop
  | begin {p : π} : Next s (s.set p (some (Tx.begin s.sys.clock)))
  | run {p : π} {tx tx' : Tx} (htx : s.txs p = some tx)
      (hsound : tx.Sound s.sys.db s.sys.clock → tx'.Sound s.sys.db s.sys.clock) (htakes : Tx.Takes s p tx tx') :
      Next s (s.set p (some tx'))
  | commit {p : π} {tx : Tx} {v : Db} (htx : s.txs p = some tx) (hpos : tx.pos = .idle)
      (hv : tx.view s.sys.db = some v) : Next s { s.set p none with sys := s.sys.insert v tx.events }
  | rollback {p : π} : Next s (s.set p none)
  | sys {a : Emitlane.Action ι} {t : Emitlane.State ι} (hstep : Emitlane.step cfg s.sys a = some t)
      (hallows : s.Allows t.db) : Next s { s with sys := t }

omit [Fintype π] [DecidableEq π] in
theorem view_eq_some (h : s.view p = some (tx, v)) : s.txs p = some tx ∧ tx.view s.sys.db = some v := by
  unfold State.view at h
  obtain ⟨tx', htx, h⟩ := Option.bind_eq_some_iff.mp h
  obtain ⟨v', hv, h⟩ := Option.map_eq_some_iff.mp h
  obtain ⟨rfl, rfl⟩ := Prod.mk.inj h
  exact ⟨htx, hv⟩

theorem next_of_step {a : Action ι π} (h : step cfg s a = some s') : Next cfg s s' := by
  cases a with
  | begin p =>
    simp only [step] at h
    split at h
    · cases h
    · obtain rfl := Option.some.inj h
      exact .begin
  | call p c =>
    obtain ⟨⟨tx, v⟩, hview, h⟩ := Option.bind_eq_some_iff.mp h
    obtain ⟨htx, hv⟩ := view_eq_some hview
    simp only at h
    split at h
    · rename_i hpos
      obtain ⟨tx', hcall, rfl⟩ := Option.map_eq_some_iff.mp h
      exact .run htx (fun hs => hs.call hpos hv hcall) (Tx.Takes.call hv hcall)
    · cases h
  | next p =>
    obtain ⟨⟨tx, v⟩, hview, h⟩ := Option.bind_eq_some_iff.mp h
    obtain ⟨htx, hv⟩ := view_eq_some hview
    simp only at h
    split at h
    · rename_i c hpos
      obtain ⟨tx', hlock, rfl⟩ := Option.map_eq_some_iff.mp h
      exact .run htx (fun hs => hs.lock hpos hv hlock) (Tx.Takes.lock hlock)
    · rename_i c hpos
      obtain ⟨tx', hins, rfl⟩ := Option.map_eq_some_iff.mp h
      exact .run htx (fun hs => hs.insert hpos hv hins) (Tx.Takes.insert hv hins)
    · cases h
  | commit p =>
    obtain ⟨⟨tx, v⟩, hview, h⟩ := Option.bind_eq_some_iff.mp h
    obtain ⟨htx, hv⟩ := view_eq_some hview
    simp only at h
    split at h
    · rename_i hpos
      obtain rfl := Option.some.inj h
      exact .commit htx hpos hv
    · cases h
  | rollback p =>
    obtain ⟨tx, -, rfl⟩ := Option.map_eq_some_iff.mp h
    exact .rollback
  | sys a =>
    simp only [step] at h
    split_ifs at h
    obtain ⟨t, hstep, h⟩ := Option.bind_eq_some_iff.mp h
    split_ifs at h with hallows
    obtain rfl := Option.some.inj h
    exact .sys hstep hallows

/-! ## The invariant -/

structure Inv (s : State ι π) : Prop where
  sound : ∀ {p tx}, s.txs p = some tx → tx.Sound s.sys.db s.sys.clock
  apart : ∀ {p q tx tx'}, p ≠ q → s.txs p = some tx → s.txs q = some tx' → tx.Apart tx'

omit [Fintype π] [DecidableEq π] in
theorem Inv.init (clock : Int) : Inv (State.init ι π clock) where
  sound h := nomatch h
  apart _ h := nomatch h

theorem other_eq_false {f : Tx → Bool} (h : s.other p f = false) {q : π} (hq : q ≠ p) (htx : s.txs q = some tx) :
    f tx = false := by
  have hno := of_decide_eq_false h
  refine Bool.eq_false_iff.mpr fun hf => hno ⟨q, hq, ?_⟩
  rw [htx]
  exact hf

/-- What a statement takes, it takes from nobody. -/
theorem Tx.Takes.apart (h : Tx.Takes s p tx tx') {q : π} {other : Tx} (hq : q ≠ p) (htx : s.txs q = some other)
    (hapart : tx.Apart other) : tx'.Apart other where
  streams a ha b hb hk := by
    rcases h.streams a ha with ha | hfree
    · exact hapart.streams a ha b hb hk
    · have hnone := other_eq_false hfree hq htx
      rw [List.any_eq_false] at hnone
      exact hnone b hb (decide_eq_true hk.symm)
  events a ha b hb hc := by
    rcases h.events a ha with ha | hfree
    · exact hapart.events a ha b hb hc
    · have hnone := other_eq_false hfree hq htx
      rw [List.any_eq_false] at hnone
      exact hnone b hb (decide_eq_true hc.symm)
  locks k hk hk' := by
    rcases h.locks k hk with hk | hfree
    · exact hapart.locks k hk hk'
    · have hnone := other_eq_false hfree hq htx
      rw [List.contains_iff_mem.mpr hk'] at hnone
      cases hnone

omit [Fintype π] in
theorem Inv.set (h : Inv s) (hsound : tx'.Sound s.sys.db s.sys.clock)
    (hapart : ∀ q other, q ≠ p → s.txs q = some other → tx'.Apart other) : Inv (s.set p (some tx')) where
  sound := by
    intro q x hx
    rcases Runs.of_update hx with ⟨-, hx⟩ | ⟨-, hx⟩
    · exact Option.some.inj hx ▸ hsound
    · exact h.sound hx
  apart := by
    intro q r x y hne hx hy
    rcases Runs.of_update hx with ⟨hq, hx⟩ | ⟨hq, hx⟩
    · rcases Runs.of_update hy with ⟨hr, -⟩ | ⟨hr, hy⟩
      · exact absurd (hq.trans hr.symm) hne
      · exact Option.some.inj hx ▸ hapart r y hr hy
    · rcases Runs.of_update hy with ⟨-, hy⟩ | ⟨-, hy⟩
      · exact Option.some.inj hy ▸ (hapart q x hq hx).symm
      · exact h.apart hne hx hy

omit [Fintype π] in
theorem Inv.close (h : Inv s) (p : π) : Inv (s.set p none) where
  sound hx := by
    rcases Runs.of_update hx with ⟨-, hx⟩ | ⟨-, hx⟩
    · cases hx
    · exact h.sound hx
  apart hne hx hy := by
    rcases Runs.of_update hx with ⟨-, hx⟩ | ⟨-, hx⟩
    · cases hx
    · rcases Runs.of_update hy with ⟨-, hy⟩ | ⟨-, hy⟩
      · cases hy
      · exact h.apart hne hx hy

omit [Fintype π] [DecidableEq π] in
/-- A change of the database that the open transactions allow. -/
theorem Inv.moved {t : Emitlane.State ι} (h : Inv s) (hclock : s.sys.clock ≤ t.clock)
    (hallows : ∀ p tx, s.txs p = some tx → tx.Allows s.sys.db t.db)
    (hkeep : ∀ d k, (s.sys.db.stream d k).isSome = true → (t.db.stream d k).isSome = true) :
    Inv { s with sys := t } where
  sound htx := (h.sound htx).transfer hclock (hallows _ _ htx) hkeep
  apart := h.apart

theorem Inv.next (h : Inv s) (hs : Next cfg s s') : Inv s' := by
  cases hs with
  | begin => exact h.set (Tx.Sound.begin _ _) fun _ other _ _ => Tx.Apart.begin _ other
  | run htx hsound htakes =>
    exact h.set (hsound (h.sound htx)) fun q other hq hother => htakes.apart hq hother (h.apart hq.symm htx hother)
  | @commit p tx v htx hpos hv =>
    refine (h.close p).moved le_rfl (fun q other hother => ?_) fun d k hst => ?_
    · rcases Runs.of_update hother with ⟨-, hnone⟩ | ⟨hq, hother⟩
      · cases hnone
      · exact (h.apart hq.symm htx hother).allows hv (h.sound hother)
    · show (v.stream d k).isSome = true
      have hst : (s.sys.db.stream d k).isSome = true := hst
      rw [Db.stream_extend hv]
      unfold also
      rw [Option.isSome_or, hst, Bool.true_or]
  | rollback => exact h.close _
  | sys hstep hallows =>
    have hnext := Emitlane.next_of_step hstep
    refine h.moved hnext.clock_le (fun q tx htx => ?_) fun d k hst => ?_
    · have hall := hallows q
      rw [htx] at hall
      exact of_decide_eq_true hall
    · obtain ⟨st, hst⟩ := Option.isSome_iff_exists.mp hst
      obtain ⟨st', hst', -⟩ := hnext.stream_mono hst
      exact Option.isSome_iff_exists.mpr ⟨st', hst'⟩

/-! ## Refinement -/

/-- The calls of an open transaction that returned; a running call may have initialised a further stream. -/
theorem Tx.Sound.done (h : tx.Sound db clock) (hopen : tx.Open) :
    ∃ ss ss', tx.Done db.stream ss ∧ tx.streams = ss ++ ss' := by
  have hplace := h.place
  unfold Tx.At at hplace
  cases hpos : tx.pos with
  | idle => exact ⟨tx.streams, [], h.idle hpos, (List.append_nil _).symm⟩
  | initialized c =>
    simp only [hpos] at hplace
    obtain ⟨ss, hdone, -, hss⟩ := hplace
    exact ⟨ss, _, hdone, hss⟩
  | checked c =>
    obtain ⟨ss, ss', hdone, hss, -⟩ := h.checked hpos
    exact ⟨ss, ss', hdone, hss⟩
  | failed err => exact absurd hpos (hopen err)

theorem Tx.Done.replies {ss : List StreamRow} (h : tx.Done db.stream ss) (hv : db.extend ss tx.events = some v) :
    enqueueReplies tx.started db tx.calls = some (v, tx.answers) ∧
      enqueueAll tx.started db tx.calls = some (v, tx.events) := by
  have hreplies : enqueueReplies tx.started db tx.calls = some (v, tx.answers) := by
    rw [enqueueReplies_eq, h.ran, ← h.events, hv]
    rfl
  refine ⟨hreplies, ?_⟩
  rw [enqueueAll_eq, hreplies, Option.map_some, h.events]

/-- The calls that returned did what they would do now, one after the other. -/
theorem Tx.Sound.replies {clock : Int} (h : tx.Sound db clock) (hopen : tx.Open) :
    ∃ v, enqueueReplies tx.started db tx.calls = some (v, tx.answers) ∧
      enqueueAll tx.started db tx.calls = some (v, tx.events) ∧
      ∀ d k st, v.stream d k = some st → also db.stream tx.streams d k = some st := by
  obtain ⟨ss, ss', hdone, hss⟩ := h.done hopen
  have hview := h.view
  unfold Tx.view at hview
  have happend := Db.extend_append db ss ss' tx.events []
  rw [List.append_nil] at happend
  rw [hss, happend] at hview
  cases hv : db.extend ss tx.events with
  | none => rw [hv] at hview; cases hview
  | some v =>
    obtain ⟨hreplies, hall⟩ := hdone.replies hv
    refine ⟨v, hreplies, hall, fun d k st hst => ?_⟩
    rw [Db.stream_extend hv] at hst
    rw [hss, also_append, also, hst, Option.some_or]

omit [Fintype π] [DecidableEq π] in
/-- A commit is the atomic transaction. -/
theorem Inv.commit (h : Inv s) (htx : s.txs p = some tx) (hpos : tx.pos = .idle) (hv : tx.view s.sys.db = some v) :
    Emitlane.step cfg s.sys (.produce tx.started tx.calls true) = some (s.sys.insert v tx.events) := by
  obtain ⟨-, hall⟩ := ((h.sound htx).idle hpos).replies hv
  have hstarted := (h.sound htx).started
  simp only [Emitlane.step, if_neg (not_lt.mpr hstarted), if_true, hall, Option.map_some]

theorem Inv.refines (h : Inv s) (hs : Next cfg s s') : Runs.Reach (Emitlane.step cfg) Runs.Free s.sys s'.sys := by
  cases hs with
  | begin => exact Runs.Reach.refl _
  | run _ _ _ => exact Runs.Reach.refl _
  | commit htx hpos hv => exact Runs.Reach.single trivial (h.commit htx hpos hv)
  | rollback => exact Runs.Reach.refl _
  | sys hstep _ => exact Runs.Reach.single trivial hstep

theorem Reachable.inv (h : Reachable cfg s) : Inv s := by
  obtain ⟨clock, hrun⟩ := h
  exact hrun.inv (fun _ _ _ hi _ hs => hi.next (next_of_step hs)) (Inv.init clock)

theorem Reachable.sys (h : Reachable cfg s) : Emitlane.Reachable cfg s.sys := by
  obtain ⟨clock, hrun⟩ := h
  refine ⟨clock, ?_⟩
  exact hrun.sim State.sys (fun _ _ _ hi _ hs => hi.next (next_of_step hs))
    (fun _ _ _ hi _ hs => hi.refines (next_of_step hs)) (Inv.init clock)

/-- The events a transaction has not committed yet are events of streams it has locked. -/
theorem Tx.Sound.event_locked (h : tx.Sound db clock) {row : EventRow} {k : String} (hrow : row ∈ tx.events)
    (hk : row.orderingKey = some k) (hopen : tx.Open) : (row.destination, k) ∈ tx.locks := by
  obtain ⟨ss, -, hdone, -⟩ := h.done hopen
  have hrow : row ∈ (effects tx.started db.stream tx.calls).2.flatMap rowOf := by
    rw [hdone.ran, ← hdone.events]
    exact hrow
  obtain ⟨c, hc, hord, hkey⟩ := key_of_effects tx.calls hrow hk
  exact hkey ▸ h.locked hopen c hc hord

/-- Every run of the sessions is a run in which the transactions take effect one after the other.  The answers an open
transaction got are those its calls would get now; if it is between two calls it can commit, and the commit is the
atomic transaction.  The cursor of a stream does not pass an event that is not committed, and no two transactions have
such events in one stream. -/
theorem producers_serialize (h : Reachable cfg s) :
    Emitlane.Reachable cfg s.sys ∧ ∀ p tx, s.txs p = some tx → tx.Open →
      (∃ db, enqueueReplies tx.started s.sys.db tx.calls = some (db, tx.answers) ∧
        (tx.pos = .idle → ∃ s', step cfg s (.commit p) = some s' ∧ s'.sys.db = db ∧
          Emitlane.step cfg s.sys (.produce tx.started tx.calls true) = some s'.sys)) ∧
      ∀ row ∈ tx.events, ∀ k, row.orderingKey = some k →
        (∃ st n, also s.sys.db.stream tx.streams row.destination k = some st ∧ row.orderingSequence = some n ∧
          st.nextSequence ≤ n) ∧
        ∀ q tx', q ≠ p → s.txs q = some tx' → tx'.Open →
          ∀ row' ∈ tx'.events, ¬ (row'.destination = row.destination ∧ row'.orderingKey = some k) := by
  have hi := h.inv
  refine ⟨h.sys, fun p tx htx hopen => ?_⟩
  have hsound := hi.sound htx
  obtain ⟨v, hreplies, hall, hstreams⟩ := hsound.replies hopen
  refine ⟨⟨v, hreplies, fun hpos => ?_⟩, fun row hrow k hk => ⟨?_, ?_⟩⟩
  · obtain ⟨v', hv'⟩ := Option.isSome_iff_exists.mp hsound.view
    obtain rfl : v' = v := by
      have hreplies' := ((hsound.idle hpos).replies hv').1
      exact (Prod.mk.inj (Option.some.inj (hreplies'.symm.trans hreplies))).1
    refine ⟨{ s.set p none with sys := s.sys.insert v' tx.events }, ?_, rfl, hi.commit htx hpos hv'⟩
    simp only [step, State.view, htx, hv', Option.bind_some, Option.map_some, hpos]
  · obtain ⟨-, hnew⟩ := (enqueueAll_ok hall).new row hrow
    obtain ⟨st, n, hst, hn, hle, -⟩ := hnew k hk
    exact ⟨st, n, hstreams _ _ st hst, hn, hle⟩
  · rintro q tx' hq htx' hopen' row' hrow' ⟨hdest, hk'⟩
    have hlock := hsound.event_locked hrow hk hopen
    have hlock' := (hi.sound htx').event_locked hrow' hk' hopen'
    rw [hdest] at hlock'
    exact (hi.apart hq.symm htx htx').locks _ hlock hlock'

end Steps

/-! ## A delivery that waits for a producer -/

/-- One session enqueues sequence 1 of a stream; its delivery is acknowledged while the other session, which began
before the first committed, enqueues sequence 2. -/
def exampleSessions : List (Action Unit Bool) :=
  [.sys (.register examplePresence), .sys (.reconcile ()), .begin false, .call false (exampleOrderedCall "" 1 7),
   .next false, .begin true, .next false, .commit false, .sys (.claimOrdered () 10 fun _ => false), .sys (.begin 0),
   .sys (.publish 0 "" ""), .call true (exampleOrderedCall "" 2 8), .sys (.ack 0), .next true, .next true]

def Pos.isIdle : Pos → Bool
  | .idle => true
  | _ => false

/-- The second session has sequence 2 and the lock of the stream, and the delivery of sequence 1 cannot be marked. -/
def exampleWaits (s : State Unit Bool) : Bool :=
  (step exampleRelay s (.sys (.settle 0 false 0))).isNone &&
    (s.txs true).any fun tx => tx.pos.isIdle && tx.locks = [("orders", "a")] && tx.events.length = 1

theorem producers_serialize_waiting : ∃ (s : State Unit Bool) (tx : Tx) (s' : State Unit Bool),
    Reachable exampleRelay s ∧ step exampleRelay s (.sys (.settle 0 false 0)) = none ∧ s.txs true = some tx ∧
      tx.locks = [("orders", "a")] ∧ tx.events.length = 1 ∧ step exampleRelay s (.commit true) = some s' ∧
      Emitlane.Reachable exampleRelay s.sys ∧
      Emitlane.step exampleRelay s.sys (.produce tx.started tx.calls true) = some s'.sys := by
  obtain ⟨s, hrun, hp⟩ := Runs.exists_of_exec (step exampleRelay)
    (State.init Unit Bool 0) exampleSessions exampleWaits
    (by decide +kernel)
  simp only [exampleWaits, Bool.and_eq_true, Option.isNone_iff_eq_none] at hp
  obtain ⟨hwaits, hany⟩ := hp
  obtain ⟨tx, htx, htest⟩ := (Option.any_eq_true ..).mp hany
  simp only [Bool.and_eq_true, decide_eq_true_eq] at htest
  obtain ⟨⟨hidle, hlocks⟩, hevents⟩ := htest
  have hpos : tx.pos = .idle := by
    cases hpos : tx.pos with
    | idle => rfl
    | _ => rw [hpos] at hidle; cases hidle
  have hreach : Reachable exampleRelay s := ⟨0, hrun⟩
  obtain ⟨hsys, htxs⟩ := producers_serialize hreach
  obtain ⟨⟨db, -, hcommit⟩, -⟩ := htxs true tx htx fun err he => by rw [hpos] at he; cases he
  obtain ⟨s', hs', -, hproduce⟩ := hcommit hpos
  exact ⟨s, tx, s', hreach, hwaits, htx, hlocks, hevents, hs', hsys, hproduce⟩

end Emitlane.Producers
