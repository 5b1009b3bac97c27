import Emitlane.Lib.Overlay
import Emitlane.Outbox.Writer

/-!
# Outbox.Effect — what a transaction of Enqueue calls reads

What a call adds and answers depends on the database only through the row of its own stream: `Call.effect` computes
it from the streams alone, and the call goes through exactly if the database can be extended by it (`reply_enqueue`).
The same holds of all the calls of a transaction (`enqueueReplies_eq`), so a transaction whose streams stay as they
are has the same effect on a later database, if its rows still fit.
-/

namespace Emitlane

open Rel

/-! ## Rows added to the two tables -/

/-- Two rows that a key or the sequence index does not allow together. -/
def EventRow.Clash (a b : EventRow) : Prop := a.id = b.id ∨ a.sameSequence b = true

instance EventRow.decidableClash (a b : EventRow) : Decidable (a.Clash b) :=
  inferInstanceAs (Decidable (a.id = b.id ∨ a.sameSequence b = true))

theorem EventRow.Clash.symm {a b : EventRow} (h : a.Clash b) : b.Clash a := by
  rcases h with h | h
  · exact .inl h.symm
  · refine .inr ?_
    simp only [EventRow.sameSequence, Bool.and_eq_true, decide_eq_true_eq] at h ⊢
    obtain ⟨⟨⟨h1, h2⟩, h3⟩, h4⟩ := h
    exact ⟨⟨⟨h3 ▸ h1, h2.symm⟩, h3.symm⟩, h4.symm⟩

theorem eventsSchema_apart : eventsSchema.Apart EventRow.Clash EventRow.check := by
  intro rows
  have hpair : rows.Pairwise (fun a b => ¬ a.Clash b) ↔
      (rows.map (·.id)).Nodup ∧ rows.Pairwise (fun a b => a.sameSequence b = false) := by
    rw [List.Nodup, List.pairwise_map, ← List.pairwise_and_iff]
    simp only [EventRow.Clash, not_or, Bool.not_eq_true]
  rw [hpair]
  constructor
  · rintro ⟨h1, h2, h3⟩
    exact ⟨⟨h1, h3⟩, h2⟩
  · rintro ⟨⟨h1, h3⟩, h2⟩
    exact ⟨h1, h2, h3⟩

theorem streamsSchema_apart : streamsSchema.Apart (fun a b => a.key = b.key) StreamRow.check := by
  intro rows
  show (rows.map StreamRow.key).Nodup ∧ _ ↔ _
  rw [List.Nodup, List.pairwise_map]

/-- The database with further streams and events. -/
def Db.extend (db : Db) (streams : List StreamRow) (events : List EventRow) : Option Db :=
  (db.streams.extend streams).bind fun ss => (db.events.extend events).map fun es =>
    { db with streams := ss, events := es }

section Extend

variable {db v : Db} {ss ss' : List StreamRow} {es es' : List EventRow}

theorem Db.extend_eq_some : db.extend ss es = some v ↔
    ∃ s e, db.streams.extend ss = some s ∧ db.events.extend es = some e ∧
    v = { db with streams := s, events := e } := by
  unfold Db.extend
  simp only [Option.bind_eq_some_iff, Option.map_eq_some_iff]
  constructor
  · rintro ⟨s, hs, e, he, rfl⟩
    exact ⟨s, e, hs, he, rfl⟩
  · rintro ⟨s, e, hs, he, rfl⟩
    exact ⟨s, hs, e, he, rfl⟩

theorem Db.extend_isSome :
    (db.extend ss es).isSome ↔ (db.streams.extend ss).isSome ∧ (db.events.extend es).isSome := by
  unfold Db.extend
  cases db.streams.extend ss <;> cases db.events.extend es <;> simp

@[simp] theorem Db.extend_nil (db : Db) : db.extend [] [] = some db := by
  simp [Db.extend]

theorem Db.extend_append (db : Db) (ss ss' : List StreamRow) (es es' : List EventRow) :
    db.extend (ss ++ ss') (es ++ es') = (db.extend ss es).bind (·.extend ss' es') := by
  unfold Db.extend
  rw [Table.extend_append streamsSchema_apart, Table.extend_append eventsSchema_apart]
  cases db.streams.extend ss with
  | none => rfl
  | some s =>
    cases db.events.extend es with
    | none => simp
    | some e => rfl

/-- The streams found in `look` or among `ss`. -/
def also (look : String → String → Option StreamRow) (ss : List StreamRow) (d k : String) : Option StreamRow :=
  (look d k).or (lookup StreamRow.key ss (d, k))

@[simp] theorem also_nil (look : String → String → Option StreamRow) : also look [] = look := by
  funext d k
  exact Option.or_none

theorem also_append (look : String → String → Option StreamRow) (ss ss' : List StreamRow) :
    also look (ss ++ ss') = also (also look ss) ss' := by
  funext d k
  simp only [also, lookup, List.find?_append, Option.or_assoc]

theorem Db.stream_extend (h : db.extend ss es = some v) : v.stream = also db.stream ss := by
  obtain ⟨s, e, hs, -, rfl⟩ := Db.extend_eq_some.mp h
  funext d k
  exact Table.lookup_extend hs (d, k)

end Extend

namespace Outbox

/-! ## One call -/

/-- What the caller is told; `none` is a statement that failed. -/
def Outcome.reply : Outcome → Option (Db × Except Error EventRow)
  | .ok db row => some (db, .ok row)
  | .rejected db err => some (db, .error err)
  | .aborted _ => none

/-- The row an answer stands for. -/
def rowOf (answer : Except Error EventRow) : List EventRow := answer.toOption.toList

/-- The stream Enqueue would initialise. -/
def streamRow (now : Int) (e : Event) : StreamRow :=
  { destination := e.destination, orderingKey := e.orderingKey,
    partitionID := Ordering.partition e.destination e.orderingKey, startSequence := e.start,
    nextSequence := e.start, createdAt := now, updatedAt := now }

namespace Call

/-- The stream of an ordered call. -/
def key (c : Call) : String × String := (c.event.destination, c.event.orderingKey)

/-- The call reaches its stream. -/
def Ordered (c : Call) : Prop := c.event.validate = .ok () ∧ c.event.orderingKey ≠ ""

variable (look : String → String → Option StreamRow) (now : Int) (c : Call)

/-- The stream the call initialises, if it has to. -/
def opens : List StreamRow :=
  if (look c.event.destination c.event.orderingKey).isSome then [] else [streamRow now c.event]

/-- The stream the call locks. -/
def found : StreamRow := (look c.event.destination c.event.orderingKey).getD (streamRow now c.event)

/-- The checks on the stream. -/
def checks : Except Error Unit :=
  checkStream c.event (Ordering.partition c.event.destination c.event.orderingKey) (c.found look now)

/-- The streams a call initialises and its answer, if no statement fails. -/
def effect : List StreamRow × Except Error EventRow :=
  match c.event.validate with
  | .error err => ([], .error err)
  | .ok _ =>
    if c.event.orderingKey = "" then ([], c.rowID.map (newRow now c))
    else
      (c.opens look now,
        match c.checks look now with
        | .error err => .error err
        | .ok _ => c.rowID.map (newRow now c))

end Call

section OneCall

variable {db v : Db} {now : Int} {c : Call} {look look' : String → String → Option StreamRow}

theorem insertStream_eq (db : Db) (now : Int) (c : Call) :
    insertStream db now c.event (Ordering.partition c.event.destination c.event.orderingKey) c.event.start =
      db.extend (c.opens db.stream now) [] := by
  unfold insertStream Call.opens
  cases hst : db.stream c.event.destination c.event.orderingKey with
  | some st => exact (Db.extend_nil db).symm
  | none =>
    show Option.map _ (db.streams.extend [streamRow now c.event]) = db.extend [streamRow now c.event] []
    unfold Db.extend
    cases db.streams.extend [streamRow now c.event] with
    | none => rfl
    | some t => rw [Table.extend_nil]; rfl

/-- What the SELECT finds after the INSERT. -/
theorem also_opens (look : String → String → Option StreamRow) (now : Int) (c : Call) :
    also look (c.opens look now) c.event.destination c.event.orderingKey = some (c.found look now) := by
  unfold also Call.opens Call.found
  cases look c.event.destination c.event.orderingKey with
  | some st => rfl
  | none => simp [lookup, StreamRow.key, streamRow]

theorem insertEvent_eq (db : Db) (row : EventRow) : (insertEvent db row).toOption = db.extend [] [row] := by
  unfold insertEvent
  simp only [Db.extend, Table.extend_nil, Option.bind_some]
  show _ = (db.events.insert row).map _
  cases db.events.insert row with
  | some t => rfl
  | none =>
    simp only [Option.map_none]
    split_ifs <;> rfl

theorem reply_enqueueRow (db : Db) (now : Int) (c : Call) :
    (enqueueRow db now c).reply =
      (db.extend [] (rowOf (c.rowID.map (newRow now c)))).map fun v => (v, c.rowID.map (newRow now c)) := by
  unfold enqueueRow
  cases c.rowID with
  | error err => simp [Outcome.reply, rowOf, Except.map, Except.toOption]
  | ok id =>
    simp only [Except.map, rowOf, Except.toOption, Option.toList_some]
    rw [← insertEvent_eq]
    cases insertEvent db (newRow now c id) <;> rfl

/-- A call reads the row of its stream and adds its effect. -/
theorem reply_enqueue (db : Db) (now : Int) (c : Call) :
    (enqueue db now c).reply =
      (db.extend (c.effect db.stream now).1 (rowOf (c.effect db.stream now).2)).map fun v =>
        (v, (c.effect db.stream now).2) := by
  unfold enqueue Call.effect
  cases c.event.validate with
  | error err => simp [Outcome.reply, rowOf, Except.toOption]
  | ok u =>
    simp only
    split_ifs with hkey
    · exact reply_enqueueRow db now c
    · simp only [initializeOrderingStream, insertStream_eq]
      cases hv : db.extend (c.opens db.stream now) [] with
      | none =>
        -- the stream does not pass its CHECK, so no extension by it does
        have hnone : ∀ es, db.extend (c.opens db.stream now) es = none := by
          intro es
          have := Db.extend_append db (c.opens db.stream now) [] [] es
          rwa [List.append_nil, List.nil_append, hv, Option.bind_none] at this
        rw [hnone]
        rfl
      | some v =>
        have hfound : v.stream c.event.destination c.event.orderingKey = some (c.found db.stream now) := by
          rw [Db.stream_extend hv]
          exact also_opens db.stream now c
        have happend : ∀ es, db.extend (c.opens db.stream now) es = v.extend [] es := by
          intro es
          have := Db.extend_append db (c.opens db.stream now) [] [] es
          rwa [List.append_nil, List.nil_append, hv, Option.bind_some] at this
        simp only [hfound]
        cases hc : c.checks db.stream now with
        | error err =>
          have hc' : checkStream c.event (Ordering.partition c.event.destination c.event.orderingKey)
              (c.found db.stream now) = .error err := hc
          simp [hc', Outcome.reply, rowOf, Except.toOption, hv]
        | ok u =>
          have hc' : checkStream c.event (Ordering.partition c.event.destination c.event.orderingKey)
              (c.found db.stream now) = .ok u := hc
          simp only [hc', happend]
          exact reply_enqueueRow v now c

theorem Call.effect_congr (h : c.Ordered → look' c.event.destination c.event.orderingKey =
    look c.event.destination c.event.orderingKey) : c.effect look' now = c.effect look now := by
  unfold Call.effect
  cases hv : c.event.validate with
  | error err => rfl
  | ok u =>
    simp only
    split_ifs with hkey
    · rfl
    · simp only [Call.checks, Call.opens, Call.found, h ⟨hv, hkey⟩]

/-- The row of an ordered call is a row of its stream. -/
theorem Call.key_of_effect {row : EventRow} (h : (c.effect look now).2 = .ok row) {k : String}
    (hk : row.orderingKey = some k) : c.Ordered ∧ c.key = (row.destination, k) := by
  have hrow : ∃ id, row = newRow now c id ∧ c.event.validate = .ok () := by
    unfold Call.effect at h
    cases hv : c.event.validate with
    | error err => rw [hv] at h; cases h
    | ok u =>
      rw [hv] at h
      have hmap : c.rowID.map (newRow now c) = .ok row := by
        simp only at h
        split_ifs at h
        · exact h
        · simp only at h
          split at h
          · cases h
          · exact h
      cases hid : c.rowID with
      | error err => rw [hid] at hmap; cases hmap
      | ok id =>
        rw [hid] at hmap
        exact ⟨id, (Except.ok.inj hmap).symm, rfl⟩
  obtain ⟨id, rfl, hv⟩ := hrow
  have hne : c.event.orderingKey ≠ "" := by
    intro he
    simp [newRow, nullString, he] at hk
  have hk : c.event.orderingKey = k := by
    simpa [newRow, nullString, hne] using hk
  exact ⟨⟨hv, hne⟩, Prod.ext rfl hk⟩

end OneCall

/-! ## The calls of a transaction -/

/-- A transaction of Enqueue calls with the answers to its caller. -/
def enqueueReplies (now : Int) : Db → List Call → Option (Db × List (Except Error EventRow))
  | db, [] => some (db, [])
  | db, c :: cs =>
    (enqueue db now c).reply.bind fun x => (enqueueReplies now x.1 cs).map fun y => (y.1, x.2 :: y.2)

/-- The streams the calls initialise and their answers. -/
def effects (now : Int) : (String → String → Option StreamRow) → List Call →
    List StreamRow × List (Except Error EventRow)
  | _, [] => ([], [])
  | look, c :: cs =>
    ((c.effect look now).1 ++ (effects now (also look (c.effect look now).1) cs).1,
      (c.effect look now).2 :: (effects now (also look (c.effect look now).1) cs).2)

section Calls

variable {now : Int} {look look' : String → String → Option StreamRow}

/-- The answers that are rows are the rows `enqueueAll` inserts. -/
theorem enqueueAll_eq (now : Int) (cs : List Call) :
    ∀ db, enqueueAll now db cs = (enqueueReplies now db cs).map fun x => (x.1, x.2.flatMap rowOf) := by
  induction cs with
  | nil => exact fun db => rfl
  | cons c cs ih =>
    intro db
    unfold enqueueAll enqueueReplies
    cases enqueue db now c with
    | ok db' row =>
      simp only [Outcome.reply, Option.bind_some, ih, Option.map_map]
      rfl
    | rejected db' err =>
      simp only [Outcome.reply, Option.bind_some, ih, Option.map_map]
      rfl
    | aborted err => rfl

theorem enqueueReplies_eq (now : Int) (cs : List Call) :
    ∀ db : Db, enqueueReplies now db cs =
      (db.extend (effects now db.stream cs).1 ((effects now db.stream cs).2.flatMap rowOf)).map fun v =>
        (v, (effects now db.stream cs).2) := by
  induction cs with
  | nil => intro db; simp [enqueueReplies, effects]
  | cons c cs ih =>
    intro db
    unfold enqueueReplies effects
    simp only [List.flatMap_cons, Db.extend_append, reply_enqueue]
    cases hv : db.extend (c.effect db.stream now).1 (rowOf (c.effect db.stream now).2) with
    | none => rfl
    | some v =>
      simp only [Option.map_some, Option.bind_some, ih, Db.stream_extend hv, Option.map_map]
      rfl

theorem effects_append_one (now : Int) (c : Call) (cs : List Call) :
    ∀ look, effects now look (cs ++ [c]) =
      ((effects now look cs).1 ++ (c.effect (also look (effects now look cs).1) now).1,
        (effects now look cs).2 ++ [(c.effect (also look (effects now look cs).1) now).2]) := by
  induction cs with
  | nil => intro look; simp [effects]
  | cons a cs ih =>
    intro look
    rw [List.cons_append]
    unfold effects
    rw [ih, also_append, List.append_assoc, List.cons_append]

theorem effects_congr (cs : List Call) :
    ∀ {look look' : String → String → Option StreamRow},
      (∀ c ∈ cs, c.Ordered → look' c.event.destination c.event.orderingKey =
        look c.event.destination c.event.orderingKey) → effects now look' cs = effects now look cs := by
  induction cs with
  | nil => intro look look' _; rfl
  | cons c cs ih =>
    intro look look' h
    have hc : c.effect look' now = c.effect look now := Call.effect_congr (h c List.mem_cons_self)
    have hcs : effects now (also look' (c.effect look now).1) cs =
      effects now (also look (c.effect look now).1) cs := by
      refine ih fun x hx hord => ?_
      unfold also
      rw [h x (List.mem_cons_of_mem c hx) hord]
    unfold effects
    rw [hc, hcs]

/-- Every ordered row the calls insert is a row of the stream of an ordered call. -/
theorem key_of_effects (cs : List Call) : ∀ {look : String → String → Option StreamRow} {row : EventRow}
    {k : String}, row ∈ (effects now look cs).2.flatMap rowOf → row.orderingKey = some k →
      ∃ c ∈ cs, c.Ordered ∧ c.key = (row.destination, k) := by
  induction cs with
  | nil => intro look row k hrow; cases hrow
  | cons c cs ih =>
    intro look row k hrow hk
    unfold effects at hrow
    rw [List.flatMap_cons, List.mem_append] at hrow
    rcases hrow with hrow | hrow
    · have hans : (c.effect look now).2 = .ok row := by
        unfold rowOf at hrow
        rw [Option.mem_toList] at hrow
        revert hrow
        cases (c.effect look now).2 <;> simp [Except.toOption]
      exact ⟨c, List.mem_cons_self, Call.key_of_effect hans hk⟩
    · obtain ⟨x, hx, hord⟩ := ih hrow hk
      exact ⟨x, List.mem_cons_of_mem c hx, hord⟩

end Calls

end Outbox

end Emitlane
