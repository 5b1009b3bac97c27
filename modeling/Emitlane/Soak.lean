import Mathlib.Data.List.AList
import Mathlib.Data.Finset.Card
import Emitlane.Relay.Message

/-!
# Soak — the oracle of the soak test (`cmd/emitlane-soak/verifier.go`)

The verifier reads the broker log record by record and keeps the ids it has seen and the highest sequence number of
every stream.  `firsts log` are the records of the log that carry an id for the first time, and `Numbered` says that a
stream's numbers are `1, 2, …, n`: the running state against the whole log.

Latencies are not modelled, and with them the times of observation.  Without them `observe` and `observeForAudit` are
the same step.  The counters are unbounded.
-/

namespace Emitlane.Soak

/-! ## strconv.ParseInt -/

inductive NumError
  | errSyntax
  | errRange
  deriving DecidableEq

/-- The text of a `*strconv.NumError` of ParseInt for the input `num`. -/
def NumError.text (num : Bytes) : NumError → String
  | errSyntax => s!"strconv.ParseInt: parsing {quote num}: invalid syntax"
  | errRange => s!"strconv.ParseInt: parsing {quote num}: value out of range"

/-- The loop of `strconv.ParseUint(s, 10, 64)`; `n` is the value read so far. -/
def parseUint (n : Nat) : Bytes → Except NumError Nat
  | [] => .ok n
  | c :: s =>
    if 0x30 ≤ c ∧ c ≤ 0x39 then
      let n' := 10 * n + (c.toNat - 0x30)
      if 2 ^ 64 ≤ n' then .error .errRange else parseUint n' s
    else .error .errSyntax

/-- `strconv.ParseInt(s, 10, 64)`. -/
def parseInt (s : Bytes) : Except NumError Int :=
  let neg := s.head? = some 0x2d
  let digits := if neg ∨ s.head? = some 0x2b then s.tail else s
  if digits = [] then .error .errSyntax else
  match parseUint 0 digits with
  | .error err => .error err
  | .ok n =>
    if neg then if 2 ^ 63 < n then .error .errRange else .ok (-n)
    else if 2 ^ 63 ≤ n then .error .errRange else .ok n

theorem parseInt_le {s : Bytes} {n : Int} (h : parseInt s = .ok n) : n ≤ maxInt64 := by
  unfold parseInt at h
  unfold maxInt64
  dsimp only at h
  split_ifs at h
  all_goals
    split at h
    · cases h
    · split_ifs at h
      cases h
      omega

/-! ## The verifier -/

/-- `kgo.Record`, as far as the verifier reads it. -/
structure Record where
  topic : Bytes
  headers : List (String × Bytes)

def header (record : Record) (key : String) : Bytes := ((record.headers.find? (·.1 = key)).map (·.2)).getD []

structure ExpectedEvent where
  ordered : Bool
  stream : Bytes
  sequence : Int

structure Diagnostic where
  kind : String
  eventID : String := ""
  stream : Bytes := []
  previousSequence : Int := 0
  observedSequence : Int := 0
  detail : String := ""

structure Verifier where
  expected : AList fun _ : Uuid => ExpectedEvent
  observed : Finset Uuid
  lastSequence : Bytes → Int
  orderedCommitted : Int
  unorderedCommitted : Int
  brokerRecords : Int
  regressions : Int
  skips : Int
  errors : Int
  diagnostics : List Diagnostic

def newVerifier : Verifier := ⟨∅, ∅, fun _ => 0, 0, 0, 0, 0, 0, 0, []⟩

namespace Verifier

variable (v : Verifier)

def committed (id : Uuid) (event : ExpectedEvent) : Verifier :=
  { v with
    expected := v.expected.insert id event
    orderedCommitted := if event.ordered then v.orderedCommitted + 1 else v.orderedCommitted
    unorderedCommitted := if event.ordered then v.unorderedCommitted else v.unorderedCommitted + 1 }

def addDiagnostic (d : Diagnostic) : Verifier :=
  if v.diagnostics.length < 100 then { v with diagnostics := v.diagnostics ++ [d] } else v

/-- The end of `observeRecord`: the sequence number of an ordered event against the highest one of its stream. -/
def observeSequence (id : Uuid) (stream : Bytes) (sequence : Int) : Verifier :=
  let previous := v.lastSequence stream
  let v :=
    if previous ≠ 0 ∧ sequence < previous then
      { v with regressions := v.regressions + 1 }.addDiagnostic
        { kind := "ordering_regression", eventID := id.text, stream, previousSequence := previous,
          observedSequence := sequence }
    else if addInt64 previous 1 < sequence then
      { v with skips := v.skips + 1 }.addDiagnostic
        { kind := "ordering_skip", eventID := id.text, stream, previousSequence := previous,
          observedSequence := sequence }
    else v
  if previous < sequence then { v with lastSequence := Function.update v.lastSequence stream sequence } else v

def observeRecord (record : Record) : Verifier :=
  match uuidParseBytes (header record headerEventID) with
  | .error err =>
    { v with brokerRecords := v.brokerRecords + 1, errors := v.errors + 1 }.addDiagnostic
      { kind := "invalid_event_id", detail := err }
  | .ok id =>
    let v := { v with brokerRecords := v.brokerRecords + 1 }
    if id ∈ v.observed then v else
    let v := { v with observed := insert id v.observed }
    let orderingKey := header record headerOrderingKey
    if orderingKey = [] then v else
    match parseInt (header record headerSequence) with
    | .error err =>
      { v with errors := v.errors + 1 }.addDiagnostic
        { kind := "invalid_sequence", eventID := id.text, detail := err.text (header record headerSequence) }
    | .ok sequence => v.observeSequence id (record.topic ++ 0x2f :: orderingKey) sequence

def auditClone : Verifier :=
  { newVerifier with
    expected := v.expected
    orderedCommitted := v.orderedCommitted
    unorderedCommitted := v.unorderedCommitted }

structure Snapshot where
  committed : Int
  ordered : Int
  unordered : Int
  observed : Int
  records : Int
  duplicates : Int
  lost : Int
  regressions : Int
  skips : Int
  errors : Int
  diagnostics : List Diagnostic

/-- The diagnostics of the lost events, in the order of their ids, until there are 100 in all. -/
def lostDiagnostics : List Diagnostic :=
  let missing := (v.expected.entries.filter fun e => e.1 ∉ v.observed).insertionSort fun a b => a.1.text ≤ b.1.text
  (missing.take (100 - v.diagnostics.length)).map fun e =>
    { kind := "lost_event", eventID := e.1.text, stream := e.2.stream, observedSequence := e.2.sequence }

def snapshotDetails (includeLostDiagnostics : Bool) : Snapshot :=
  let committed : Int := v.expected.keys.length
  let observedExpected : Int := (v.expected.keys.filter (· ∈ v.observed)).length
  let unexpected : Int := (v.observed.filter (· ∉ v.expected)).card
  { committed
    ordered := v.orderedCommitted
    unordered := v.unorderedCommitted
    observed := observedExpected
    records := v.brokerRecords
    duplicates := max 0 (v.brokerRecords - v.observed.card)
    lost := committed - observedExpected
    regressions := v.regressions
    skips := v.skips
    errors := v.errors + unexpected
    diagnostics := v.diagnostics ++ if includeLostDiagnostics then v.lostDiagnostics else [] }

def finalSnapshot : Snapshot := v.snapshotDetails true

/-- Feed a log to the verifier. -/
def observeLog (log : List Record) : Verifier := log.foldl observeRecord v

end Verifier

/-! ## What a log says -/

def Record.eventID (record : Record) : Except String Uuid := uuidParseBytes (header record headerEventID)

def Record.orderingKey (record : Record) : Bytes := header record headerOrderingKey

def Record.sequence (record : Record) : Except NumError Int := parseInt (header record headerSequence)

/-- The logs the verdict is about.  That the records of one id agree is not needed. -/
structure WellFormed (log : List Record) : Prop where
  ids : ∀ r ∈ log, ∃ id, r.eventID = .ok id
  sequences : ∀ r ∈ log, r.orderingKey ≠ [] → ∃ n, r.sequence = .ok n ∧ 0 < n
  topics : ∀ r ∈ log, 0x2f ∉ r.topic
  distinct : ∀ a ∈ log, ∀ b ∈ log, a.orderingKey ≠ [] → a.topic = b.topic →
    a.orderingKey = b.orderingKey →
    a.sequence = b.sequence → a.eventID = b.eventID

/-- The ids in the log. -/
def logIDs (log : List Record) : Finset Uuid := (log.filterMap fun r => r.eventID.toOption).toFinset

/-- The records that carry an id for the first time, in log order. -/
def firsts (log : List Record) : List Record :=
  log.foldl (fun seen r => if ∃ a ∈ seen, a.eventID = r.eventID then seen else seen ++ [r]) []

/-- The sequence numbers of a stream, at the first occurrences of its ids. -/
def numbers (log : List Record) (topic key : Bytes) : List Int :=
  ((firsts log).filter fun r => r.topic = topic ∧ r.orderingKey = key).filterMap fun r => r.sequence.toOption

/-- The list `1, 2, …, n`. -/
def Numbered (ns : List Int) : Prop := ns = (List.range ns.length).map fun i : Nat => (i : Int) + 1

/-! ## Numbers of a stream -/

section Numbers

variable {ns : List Int} {p s : Int}

theorem numbered_append : Numbered (ns ++ [s]) ↔ Numbered ns ∧ s = ns.length + 1 := by
  unfold Numbered
  rw [List.length_append, List.length_singleton, List.range_succ, List.map_append]
  constructor
  · intro h
    obtain ⟨hinit, hlast⟩ := List.append_inj' h rfl
    exact ⟨hinit, List.singleton_inj.mp hlast⟩
  · rintro ⟨hinit, rfl⟩
    rw [← hinit]
    rfl

/-- `p` is the highest of `ns`, or zero if there is none. -/
structure Highest (p : Int) (ns : List Int) : Prop where
  mem : p = 0 ∨ p ∈ ns
  nonneg : 0 ≤ p
  le : ∀ n ∈ ns, n ≤ p

theorem Highest.append (h : Highest p ns) : Highest (if p < s then s else p) (ns ++ [s]) := by
  obtain ⟨hmem, hnonneg, hle⟩ := h
  split_ifs with hlt
  · refine ⟨.inr (by simp), by omega, fun n hn => ?_⟩
    rcases List.mem_append.mp hn with hn | hn
    · exact (hle n hn).trans hlt.le
    · exact (List.mem_singleton.mp hn).le
  · refine ⟨hmem.imp_right (List.mem_append_left _), hnonneg, fun n hn => ?_⟩
    rcases List.mem_append.mp hn with hn | hn
    · exact hle n hn
    · rw [List.mem_singleton.mp hn]
      omega

theorem Highest.of_numbered (h : Highest p ns) (hns : Numbered ns) : p = ns.length := by
  have hall : ∀ n, n ∈ ns ↔ ∃ i < ns.length, (i : Int) + 1 = n := fun n => by
    nth_rewrite 1 [hns]
    simp
  have hle : p ≤ ns.length := by
    rcases h.mem with rfl | hp
    · omega
    · obtain ⟨i, hi, rfl⟩ := (hall p).mp hp
      omega
  have hge : ns.length ≤ p := by
    cases hlen : ns.length with
    | zero => exact_mod_cast h.nonneg
    | succ k =>
      have hlast := h.le (k + 1) ((hall _).mpr ⟨k, by omega, rfl⟩)
      exact_mod_cast hlast
  omega

/-- A number below the highest one of its stream. -/
def Regresses (p s : Int) : Prop := p ≠ 0 ∧ s < p

/-- A number that leaves one out. -/
def Skips (p s : Int) : Prop := ¬Regresses p s ∧ addInt64 p 1 < s

instance decidableRegresses (p s : Int) : Decidable (Regresses p s) := inferInstanceAs (Decidable (_ ∧ _))

instance decidableSkips (p s : Int) : Decidable (Skips p s) := inferInstanceAs (Decidable (_ ∧ _))

/-- Neither counter moves exactly when the next number is one above the highest. -/
theorem Highest.quiet_iff (h : Highest p ns) (hpos : 0 < s) (hnew : s ∉ ns) (hp : p ≤ maxInt64)
    (hs : s ≤ maxInt64) : ¬Regresses p s ∧ ¬Skips p s ↔ s = p + 1 := by
  unfold Skips Regresses
  have hne : s ≠ p := by
    rintro rfl
    rcases h.mem with rfl | hmem
    · omega
    · exact hnew hmem
  have hnonneg := h.nonneg
  rcases eq_or_lt_of_le hp with rfl | hlt
  · unfold maxInt64 at *
    omega
  · have hadd : addInt64 p 1 = p + 1 := addInt64_eq (by unfold maxInt64 at *; omega) (by unfold maxInt64 at *; omega)
    rw [hadd]
    omega

/-- Two counters are zero after a step if they were and neither was moved. -/
theorem counters_zero {a b : Int} {A B : Prop} [Decidable A] [Decidable B] (h : 0 ≤ a ∧ 0 ≤ b) :
    a + (if A then 1 else 0) = 0 ∧ b + (if B then 1 else 0) = 0 ↔ (a = 0 ∧ b = 0) ∧ ¬A ∧ ¬B := by
  by_cases hA : A
  · simp only [hA, if_true, not_true_eq_false, false_and, and_false, iff_false]
    omega
  · by_cases hB : B
    · simp only [hB, if_true, not_true_eq_false, and_false, iff_false]
      omega
    · simp [hA, hB]

end Numbers

/-! ## First occurrences -/

section Firsts

variable {log : List Record} {r : Record}

theorem firsts_append (log : List Record) (r : Record) : firsts (log ++ [r]) =
    if ∃ a ∈ firsts log, a.eventID = r.eventID then firsts log else firsts log ++ [r] := by
  unfold firsts
  rw [List.foldl_append]
  rfl

theorem mem_of_mem_firsts : r ∈ firsts log → r ∈ log := by
  induction log using List.reverseRecOn with
  | nil => exact fun h => h
  | append_singleton log x ih =>
    rw [firsts_append]
    split_ifs with hseen
    · exact fun h => List.mem_append_left _ (ih h)
    · intro h
      rcases List.mem_append.mp h with h | h
      · exact List.mem_append_left _ (ih h)
      · exact List.mem_append_right _ h

/-- Every id of the log has a first occurrence. -/
theorem exists_first (hr : r ∈ log) : ∃ a ∈ firsts log, a.eventID = r.eventID := by
  induction log using List.reverseRecOn with
  | nil => cases hr
  | append_singleton log x ih =>
    rw [firsts_append]
    rcases List.mem_append.mp hr with hr | hr
    · obtain ⟨a, ha, heq⟩ := ih hr
      refine ⟨a, ?_, heq⟩
      split_ifs
      · exact ha
      · exact List.mem_append_left _ ha
    · obtain rfl := List.mem_singleton.mp hr
      split_ifs with hseen
      · exact hseen
      · exact ⟨r, by simp, rfl⟩

theorem mem_logIDs {id : Uuid} : id ∈ logIDs log ↔ ∃ r ∈ log, r.eventID = .ok id := by
  unfold logIDs
  rw [List.mem_toFinset, List.mem_filterMap]
  refine exists_congr fun r => and_congr_right fun _ => ?_
  cases r.eventID <;> simp [Except.toOption]

theorem mem_numbers {topic key : Bytes} {n : Int} (h : n ∈ numbers log topic key) :
    ∃ a ∈ firsts log, a.topic = topic ∧ a.orderingKey = key ∧ a.sequence = .ok n := by
  obtain ⟨a, ha, hseq⟩ := List.mem_filterMap.mp h
  obtain ⟨hfirst, hkey⟩ := List.mem_filter.mp ha
  obtain ⟨htopic, hkey⟩ := of_decide_eq_true hkey
  refine ⟨a, hfirst, htopic, hkey, ?_⟩
  cases hs : a.sequence with
  | error err => simp [hs, Except.toOption] at hseq
  | ok m => simpa [hs, Except.toOption] using hseq

/-- A repeated id changes no stream. -/
theorem numbers_repeated (hseen : ∃ a ∈ firsts log, a.eventID = r.eventID) (topic key : Bytes) :
    numbers (log ++ [r]) topic key = numbers log topic key := by
  unfold numbers
  rw [firsts_append, if_pos hseen]

/-- A new id extends its own stream only. -/
theorem numbers_new (hnew : ¬∃ a ∈ firsts log, a.eventID = r.eventID) {s : Int} (hs : r.sequence = .ok s)
    (topic key : Bytes) : numbers (log ++ [r]) topic key =
      if r.topic = topic ∧ r.orderingKey = key then numbers log topic key ++ [s] else numbers log topic key := by
  unfold numbers
  rw [firsts_append, if_neg hnew, List.filter_append]
  split_ifs with hown
  · simp [hown, hs, Except.toOption]
  · simp [hown]

theorem numbers_unordered (hr : r.orderingKey = []) (topic : Bytes) {key : Bytes} (hkey : key ≠ []) :
    numbers (log ++ [r]) topic key = numbers log topic key := by
  have hown : ¬(r.topic = topic ∧ r.orderingKey = key) := fun h => hkey (h.2.symm.trans hr)
  unfold numbers
  rw [firsts_append]
  split_ifs
  · rfl
  · simp [List.filter_append, hown]

end Firsts

/-! ## The run -/

section Run

variable {log : List Record} {r : Record} {v : Verifier} {id : Uuid} {s : Int}

theorem WellFormed.init (h : WellFormed (log ++ [r])) : WellFormed log where
  ids a ha := h.ids a (List.mem_append_left _ ha)
  sequences a ha := h.sequences a (List.mem_append_left _ ha)
  topics a ha := h.topics a (List.mem_append_left _ ha)
  distinct a ha b hb := h.distinct a (List.mem_append_left _ ha) b (List.mem_append_left _ hb)

/-- The ids in the log after one more record. -/
theorem logIDs_append (hid : r.eventID = .ok id) : logIDs (log ++ [r]) = insert id (logIDs log) := by
  ext x
  rw [Finset.mem_insert, mem_logIDs, mem_logIDs]
  constructor
  · rintro ⟨a, ha, hx⟩
    rcases List.mem_append.mp ha with ha | ha
    · exact .inr ⟨a, ha, hx⟩
    · rw [List.mem_singleton.mp ha, hid] at hx
      cases hx
      exact .inl rfl
  · rintro (rfl | ⟨a, ha, hx⟩)
    · exact ⟨r, by simp, hid⟩
    · exact ⟨a, List.mem_append_left _ ha, hx⟩

theorem seen_iff (hid : r.eventID = .ok id) : (∃ a ∈ firsts log, a.eventID = r.eventID) ↔ id ∈ logIDs log := by
  rw [mem_logIDs, hid]
  constructor
  · rintro ⟨a, ha, heq⟩
    exact ⟨a, mem_of_mem_firsts ha, heq⟩
  · rintro ⟨a, ha, heq⟩
    obtain ⟨b, hb, hba⟩ := exists_first ha
    exact ⟨b, hb, hba.trans heq⟩

/-- The name of a stream determines it, for topics without a slash. -/
theorem stream_inj {t t' k k' : Bytes} (ht : 0x2f ∉ t) (ht' : 0x2f ∉ t') (h : t ++ 0x2f :: k = t' ++ 0x2f :: k') :
    t = t' ∧ k = k' := by
  induction t generalizing t' with
  | nil =>
    cases t' with
    | nil => exact ⟨rfl, (List.cons.inj h).2⟩
    | cons b t' =>
      rw [List.nil_append, List.cons_append, List.cons.injEq] at h
      exact absurd (h.1 ▸ List.mem_cons_self) ht'
  | cons a t ih =>
    cases t' with
    | nil =>
      rw [List.nil_append, List.cons_append, List.cons.injEq] at h
      exact absurd (h.1 ▸ List.mem_cons_self) ht
    | cons b t' =>
      rw [List.cons_append, List.cons_append, List.cons.injEq] at h
      obtain ⟨rfl, h⟩ := h
      obtain ⟨rfl, rfl⟩ := ih (fun hm => ht (List.mem_cons_of_mem _ hm))
        (fun hm => ht' (List.mem_cons_of_mem _ hm)) h
      exact ⟨rfl, rfl⟩

/-- The state of a verifier that has read `log`. -/
structure Tracks (log : List Record) (v : Verifier) : Prop where
  records : v.brokerRecords = log.length
  observed : v.observed = logIDs log
  errors : v.errors = 0
  highest : ∀ topic key, 0x2f ∉ topic → key ≠ [] →
    Highest (v.lastSequence (topic ++ 0x2f :: key)) (numbers log topic key)
  counters : 0 ≤ v.regressions ∧ 0 ≤ v.skips
  verdict : v.regressions = 0 ∧ v.skips = 0 ↔ ∀ topic key, key ≠ [] → Numbered (numbers log topic key)

@[simp] theorem addDiagnostic_frame (v : Verifier) (d : Diagnostic) :
    (v.addDiagnostic d).expected = v.expected ∧ (v.addDiagnostic d).observed = v.observed ∧
      (v.addDiagnostic d).lastSequence = v.lastSequence ∧ (v.addDiagnostic d).brokerRecords = v.brokerRecords ∧
      (v.addDiagnostic d).regressions = v.regressions ∧ (v.addDiagnostic d).skips = v.skips ∧
      (v.addDiagnostic d).errors = v.errors := by
  unfold Verifier.addDiagnostic
  split_ifs <;> simp

/-- What `observeSequence` leaves alone, and what it does. -/
theorem observeSequence_spec (v : Verifier) (id : Uuid) (stream : Bytes) (s : Int) :
    let v' := v.observeSequence id stream s
    v'.expected = v.expected ∧ v'.brokerRecords = v.brokerRecords ∧ v'.observed = v.observed ∧
      v'.errors = v.errors ∧
    v'.lastSequence = Function.update v.lastSequence stream
      (if v.lastSequence stream < s then s else v.lastSequence stream) ∧
    v'.regressions = v.regressions + (if Regresses (v.lastSequence stream) s then 1 else 0) ∧
    v'.skips = v.skips + (if Skips (v.lastSequence stream) s then 1 else 0) := by
  unfold Verifier.observeSequence Skips
  dsimp only
  by_cases hreg : Regresses (v.lastSequence stream) s
  · have hlt : ¬v.lastSequence stream < s := fun hlt => lt_asymm hlt hreg.2
    rw [if_pos (show _ ∧ _ from hreg), if_neg hlt, if_neg hlt]
    simp [hreg]
  · rw [if_neg (show ¬(_ ∧ _) from hreg)]
    by_cases hskip : addInt64 (v.lastSequence stream) 1 < s
    · rw [if_pos hskip]
      split_ifs <;> simp [hreg, hskip]
    · rw [if_neg hskip]
      split_ifs <;> simp [hreg, hskip]

theorem observeRecord_repeated (hid : r.eventID = .ok id) (hseen : id ∈ v.observed) :
    v.observeRecord r = { v with brokerRecords := v.brokerRecords + 1 } := by
  unfold Record.eventID at hid
  unfold Verifier.observeRecord
  rw [hid]
  exact if_pos hseen

theorem observeRecord_unordered (hid : r.eventID = .ok id) (hnew : id ∉ v.observed) (hkey : r.orderingKey = []) :
    v.observeRecord r = { v with brokerRecords := v.brokerRecords + 1, observed := insert id v.observed } := by
  unfold Record.eventID at hid
  unfold Verifier.observeRecord
  rw [hid]
  exact (if_neg hnew).trans (if_pos hkey)

theorem observeRecord_ordered (hid : r.eventID = .ok id) (hnew : id ∉ v.observed) (hkey : r.orderingKey ≠ [])
    (hs : r.sequence = .ok s) : v.observeRecord r =
      { v with brokerRecords := v.brokerRecords + 1, observed := insert id v.observed }.observeSequence id
        (r.topic ++ 0x2f :: r.orderingKey) s := by
  unfold Record.eventID at hid
  unfold Record.sequence at hs
  unfold Verifier.observeRecord
  rw [hid]
  refine (if_neg hnew).trans ((if_neg hkey).trans ?_)
  rw [hs]
  rfl

theorem observeRecord_expected (v : Verifier) (r : Record) : (v.observeRecord r).expected = v.expected := by
  unfold Verifier.observeRecord
  split
  · simp
  · dsimp only
    split_ifs
    · rfl
    · rfl
    · split
      · simp
      · exact (observeSequence_spec _ _ _ _).1

theorem Tracks.repeated (h : Tracks log v) (hid : r.eventID = .ok id) (hseen : id ∈ v.observed) :
    Tracks (log ++ [r]) (v.observeRecord r) := by
  rw [observeRecord_repeated hid hseen]
  rw [h.observed] at hseen
  have hnumbers := numbers_repeated ((seen_iff hid).mpr hseen)
  refine ⟨by simp [h.records], ?_, h.errors, ?_, h.counters, ?_⟩
  · rw [logIDs_append hid, Finset.insert_eq_of_mem hseen]
    exact h.observed
  · simpa only [hnumbers] using h.highest
  · simpa only [hnumbers] using h.verdict

theorem Tracks.unordered (h : Tracks log v) (hid : r.eventID = .ok id) (hnew : id ∉ v.observed)
    (hkey : r.orderingKey = []) : Tracks (log ++ [r]) (v.observeRecord r) := by
  rw [observeRecord_unordered hid hnew hkey]
  refine ⟨by simp [h.records], ?_, h.errors, fun topic key htopic hne => ?_, h.counters, h.verdict.trans ?_⟩
  · rw [logIDs_append hid, h.observed]
  · rw [numbers_unordered hkey topic hne]
    exact h.highest topic key htopic hne
  · refine forall_congr' fun topic => forall_congr' fun key => imp_congr_right fun hne => ?_
    rw [numbers_unordered hkey topic hne]

/-- The new number is not one of its stream. -/
theorem WellFormed.not_mem_numbers (hlog : WellFormed (log ++ [r])) (hid : r.eventID = .ok id)
    (hnew : id ∉ logIDs log)
    (hkey : r.orderingKey ≠ []) (hs : r.sequence = .ok s) : s ∉ numbers log r.topic r.orderingKey := by
  intro hmem
  obtain ⟨a, ha, htopic, hakey, has⟩ := mem_numbers hmem
  refine hnew ((seen_iff hid).mp ⟨a, ha, ?_⟩)
  exact hlog.distinct a (List.mem_append_left _ (mem_of_mem_firsts ha)) r (by simp) (hakey ▸ hkey) htopic hakey
    (has.trans hs.symm)

/-- All streams count after a new number exactly when they did before and the new one is the next. -/
theorem numbered_new (hnew : ¬∃ a ∈ firsts log, a.eventID = r.eventID) (hs : r.sequence = .ok s)
    (hkey : r.orderingKey ≠ []) :
    (∀ topic key, key ≠ [] → Numbered (numbers (log ++ [r]) topic key)) ↔
      (∀ topic key, key ≠ [] → Numbered (numbers log topic key)) ∧
        s = (numbers log r.topic r.orderingKey).length + 1 := by
  have hnumbers := numbers_new hnew hs
  have hown : numbers (log ++ [r]) r.topic r.orderingKey = numbers log r.topic r.orderingKey ++ [s] := by
    rw [hnumbers]
    exact if_pos ⟨rfl, rfl⟩
  constructor
  · intro hall
    obtain ⟨hinit, hnext⟩ := numbered_append.mp (hown ▸ hall r.topic r.orderingKey hkey)
    refine ⟨fun topic key hne => ?_, hnext⟩
    by_cases heq : r.topic = topic ∧ r.orderingKey = key
    · exact heq.1 ▸ heq.2 ▸ hinit
    · simpa only [hnumbers, if_neg heq] using hall topic key hne
  · rintro ⟨hall, hnext⟩ topic key hne
    rw [hnumbers]
    split_ifs with heq
    · obtain ⟨rfl, rfl⟩ := heq
      exact numbered_append.mpr ⟨hall _ _ hne, hnext⟩
    · exact hall topic key hne

theorem Tracks.ordered (h : Tracks log v) (hlog : WellFormed (log ++ [r])) (hid : r.eventID = .ok id)
    (hnew : id ∉ v.observed) (hkey : r.orderingKey ≠ []) : Tracks (log ++ [r]) (v.observeRecord r) := by
  obtain ⟨s, hs, hpos⟩ := hlog.sequences r (by simp) hkey
  rw [observeRecord_ordered hid hnew hkey hs]
  obtain ⟨-, hrecords, hobserved, herrors, hlast, hregress, hskips⟩ := observeSequence_spec
    { v with brokerRecords := v.brokerRecords + 1, observed := insert id v.observed } id
    (r.topic ++ 0x2f :: r.orderingKey) s
  dsimp only at hrecords hobserved herrors hlast hregress hskips
  rw [h.observed] at hnew
  have hunseen : ¬∃ a ∈ firsts log, a.eventID = r.eventID := fun hseen => hnew ((seen_iff hid).mp hseen)
  have hnumbers := numbers_new hunseen hs
  have htopic := hlog.topics r (by simp)
  have hhigh := h.highest _ _ htopic hkey
  have hbound : v.lastSequence (r.topic ++ 0x2f :: r.orderingKey) ≤ maxInt64 := by
    rcases hhigh.mem with h0 | hmem
    · rw [h0]
      decide
    · obtain ⟨a, -, -, -, has⟩ := mem_numbers hmem
      exact parseInt_le has
  have hquiet := hhigh.quiet_iff hpos (hlog.not_mem_numbers hid hnew hkey hs) hbound (parseInt_le hs)
  refine ⟨?_, ?_, ?_, fun topic key ht hne => ?_, ?_, ?_⟩
  · rw [hrecords, h.records]
    simp
  · rw [hobserved, logIDs_append hid, h.observed]
  · rw [herrors, h.errors]
  · rw [hlast, hnumbers]
    by_cases hown : r.topic = topic ∧ r.orderingKey = key
    · obtain ⟨rfl, rfl⟩ := hown
      rw [Function.update_self, if_pos (show r.topic = r.topic ∧ r.orderingKey = r.orderingKey from ⟨rfl, rfl⟩)]
      exact hhigh.append
    · rw [if_neg hown, Function.update_of_ne fun heq => hown ((stream_inj ht htopic heq).imp Eq.symm Eq.symm)]
      exact h.highest topic key ht hne
  · rw [hregress, hskips]
    have := h.counters
    constructor <;> split_ifs <;> omega
  · rw [hregress, hskips, counters_zero h.counters, h.verdict, hquiet, numbered_new hunseen hs hkey]
    refine and_congr_right fun hall => ?_
    rw [hhigh.of_numbered (hall _ _ hkey)]

/-- The run: every log leads to a state that tracks it. -/
theorem tracks_observeLog (v : Verifier) (log : List Record) (h : WellFormed log) :
    Tracks log (v.auditClone.observeLog log) := by
  induction log using List.reverseRecOn with
  | nil =>
    refine ⟨rfl, rfl, rfl, fun topic key _ _ => ⟨.inl rfl, le_rfl, fun n hn => ?_⟩, ⟨le_rfl, le_rfl⟩, ?_⟩
    · cases hn
    · exact ⟨fun _ _ _ _ => rfl, fun _ => ⟨rfl, rfl⟩⟩
  | append_singleton log r ih =>
    have htracks := ih h.init
    obtain ⟨id, hid⟩ := h.ids r (by simp)
    have hstep : v.auditClone.observeLog (log ++ [r]) = (v.auditClone.observeLog log).observeRecord r := by
      unfold Verifier.observeLog
      rw [List.foldl_append]
      rfl
    rw [hstep]
    by_cases hseen : id ∈ (v.auditClone.observeLog log).observed
    · exact htracks.repeated hid hseen
    · by_cases hkey : r.orderingKey = []
      · exact htracks.unordered hid hseen hkey
      · exact htracks.ordered h hid hseen hkey

theorem observeLog_expected (v : Verifier) (log : List Record) : (v.observeLog log).expected = v.expected := by
  induction log generalizing v with
  | nil => rfl
  | cons r log ih => exact (ih (v.observeRecord r)).trans (observeRecord_expected v r)

/-! ## The verdict -/

theorem lost_iff (v : Verifier) : v.finalSnapshot.lost = 0 ↔ ∀ id ∈ v.expected, id ∈ v.observed := by
  have hlost : v.finalSnapshot.lost =
      (v.expected.keys.length : Int) - (v.expected.keys.filter (· ∈ v.observed)).length := rfl
  have hle := List.length_filter_le (· ∈ v.observed) v.expected.keys
  have hall : (v.expected.keys.filter (· ∈ v.observed)).length = v.expected.keys.length ↔
      ∀ id ∈ v.expected, id ∈ v.observed := by
    rw [List.length_filter_eq_length_iff]
    simp only [decide_eq_true_eq]
    rfl
  rw [hlost, ← hall]
  omega

theorem errors_iff (v : Verifier) (h : v.errors = 0) :
    v.finalSnapshot.errors = 0 ↔ ∀ id ∈ v.observed, id ∈ v.expected := by
  have herrors : v.finalSnapshot.errors = v.errors + ((v.observed.filter (· ∉ v.expected)).card : Int) := rfl
  rw [herrors, h, zero_add, Nat.cast_eq_zero, Finset.card_eq_zero, Finset.filter_eq_empty_iff]
  simp only [not_not]

/-- **The verdict of the oracle is exact.** -/
theorem finalSnapshot_exact (v : Verifier) (log : List Record) (hlog : WellFormed log) :
    let snap := (v.auditClone.observeLog log).finalSnapshot
    (snap.lost = 0 ∧ snap.regressions = 0 ∧ snap.skips = 0 ∧ snap.errors = 0 ↔
      (∀ id, id ∈ logIDs log ↔ id ∈ v.expected) ∧
        ∀ topic key, key ≠ [] → Numbered (numbers log topic key)) ∧
    snap.duplicates = log.length - (logIDs log).card := by
  have htracks := tracks_observeLog v log hlog
  have hexpected : (v.auditClone.observeLog log).expected = v.expected := observeLog_expected v.auditClone log
  intro snap
  constructor
  · rw [lost_iff, errors_iff _ htracks.errors, htracks.observed, hexpected, ← htracks.verdict]
    constructor
    · rintro ⟨hlost, hregress, hskips, herrors⟩
      exact ⟨fun id => ⟨herrors id, hlost id⟩, hregress, hskips⟩
    · rintro ⟨hsame, hregress, hskips⟩
      exact ⟨fun id => (hsame id).mpr, hregress, hskips, fun id => (hsame id).mp⟩
  · have hdup : snap.duplicates = max 0 ((v.auditClone.observeLog log).brokerRecords -
        ((v.auditClone.observeLog log).observed.card : Int)) := rfl
    have hcard : (logIDs log).card ≤ log.length :=
      (List.toFinset_card_le _).trans (List.length_filterMap_le _ _)
    rw [hdup, htracks.records, htracks.observed]
    omega

/-- A record of the stream `orders/order:1`. -/
def exampleRecord (id : Uuid) (sequence : String) : Record where
  topic := bytes "orders"
  headers := [(headerEventID, bytes id.text), (headerOrderingKey, bytes "order:1"), (headerSequence, bytes sequence)]

/-- Two events, the first one delivered twice. -/
def exampleLog : List Record := [exampleRecord 1 "1", exampleRecord 2 "2", exampleRecord 1 "1"]

/-- The two events were committed. -/
def exampleVerifier : Verifier :=
  (newVerifier.committed 1 ⟨true, bytes "orders/order:1", 1⟩).committed 2 ⟨true, bytes "orders/order:1", 2⟩

theorem exampleRecord_eventID (id : Uuid) (sequence : String) : (exampleRecord id sequence).eventID = .ok id := by
  have hheader : header (exampleRecord id sequence) headerEventID = bytes id.text := by simp [header, exampleRecord]
  rw [Record.eventID, hheader]
  exact uuidParse_text id

theorem exampleRecord_sequence : (exampleRecord 1 "1").sequence = .ok 1 ∧ (exampleRecord 2 "2").sequence = .ok 2 := by
  decide

theorem exampleLog_wellFormed : WellFormed exampleLog where
  ids := by simp [exampleLog, exampleRecord_eventID]
  sequences := by simp [exampleLog, exampleRecord_sequence]
  topics := by
    simp only [exampleLog, List.mem_cons, List.not_mem_nil, or_false, forall_eq_or_imp, forall_eq]
    decide
  distinct := by simp [exampleLog, exampleRecord_sequence]

theorem exampleLog_ids : logIDs exampleLog = {1, 2} := by
  simp only [logIDs, exampleLog, exampleRecord_eventID, Except.toOption, List.filterMap_cons, List.filterMap_nil]
  decide

theorem exampleLog_firsts : firsts exampleLog = [exampleRecord 1 "1", exampleRecord 2 "2"] := by
  have h₁ : firsts [exampleRecord 1 "1"] = [exampleRecord 1 "1"] :=
    (firsts_append [] _).trans (if_neg fun ⟨_, ha, _⟩ => nomatch ha)
  have h₂ : firsts ([exampleRecord 1 "1"] ++ [exampleRecord 2 "2"]) = [exampleRecord 1 "1", exampleRecord 2 "2"] := by
    rw [firsts_append, h₁, if_neg]
    · rfl
    · rintro ⟨a, ha, heq⟩
      rw [List.mem_singleton.mp ha, exampleRecord_eventID, exampleRecord_eventID] at heq
      exact absurd (Except.ok.inj heq) (by decide)
  rw [show exampleLog = ([exampleRecord 1 "1"] ++ [exampleRecord 2 "2"]) ++ [exampleRecord 1 "1"] from rfl,
    firsts_append, h₂, if_pos ⟨_, List.mem_cons_self, rfl⟩]

theorem exampleLog_numbered (topic key : Bytes) : Numbered (numbers exampleLog topic key) := by
  have hrecord : ∀ id sequence, (exampleRecord id sequence).topic = bytes "orders" ∧
      (exampleRecord id sequence).orderingKey = bytes "order:1" := by
    intro id sequence
    exact ⟨rfl, by simp [Record.orderingKey, header, exampleRecord, headerEventID, headerOrderingKey]⟩
  unfold numbers
  rw [exampleLog_firsts]
  by_cases hstream : bytes "orders" = topic ∧ bytes "order:1" = key
  · simp [hrecord, hstream, exampleRecord_sequence, Except.toOption, Numbered, List.range_succ]
  · simp [hrecord, hstream, Numbered]

/-- Every committed event is in the log and each stream is in order; one record is a repetition. -/
theorem finalSnapshot_exact_redelivery : WellFormed exampleLog ∧
    let snap := (exampleVerifier.auditClone.observeLog exampleLog).finalSnapshot
    snap.lost = 0 ∧ snap.regressions = 0 ∧ snap.skips = 0 ∧ snap.errors = 0 ∧ snap.duplicates = 1 := by
  have hids : ∀ id, id ∈ logIDs exampleLog ↔ id ∈ exampleVerifier.expected := by
    intro id
    simp only [exampleLog_ids, exampleVerifier, Verifier.committed, newVerifier, Finset.mem_insert,
      Finset.mem_singleton, AList.mem_insert]
    exact ⟨fun h => h.symm.imp_right .inl, fun h => by simpa [or_comm] using h⟩
  obtain ⟨hverdict, hduplicates⟩ := finalSnapshot_exact exampleVerifier exampleLog exampleLog_wellFormed
  obtain ⟨hlost, hregressions, hskips, herrors⟩ :=
    hverdict.mpr ⟨hids, fun topic key _ => exampleLog_numbered topic key⟩
  refine ⟨exampleLog_wellFormed, hlost, hregressions, hskips, herrors, hduplicates.trans ?_⟩
  rw [exampleLog_ids]
  decide

end Run

end Emitlane.Soak
