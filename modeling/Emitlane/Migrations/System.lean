import Emitlane.Lib.Runs
import Emitlane.Migrations.Upgrade
import Emitlane.Migrations.Downgrade

/-!
# Migrations.System — migrations that run together

Any number of MigrateUp and MigrateDown calls, each in one transaction at READ COMMITTED, and the programs that write to
the tables meanwhile.  `beginMigration` waits for the advisory lock; after that each statement is a step of its own, and
between two of them other transactions commit.  A statement sees what is committed by then, beside the changes of its
own transaction.  A table a migration has locked cannot be written by others.

* `Running`: what a migration has done so far is what its statements would do now, on what is committed now.
* `Reachable.inv`: so a migration that commits does what the call does as one function.
-/

namespace Emitlane.Migrations

open Ddl

inductive Phase
  /-- The transaction waits for the advisory lock. -/
  | waiting
  /-- It executes `ensureMigrations`. -/
  | ensuring
  /-- It has read the versions and executes what they call for. -/
  | applying
  deriving DecidableEq

/-- One call. -/
structure Session where
  kind : Kind
  now : Int
  phase : Phase
  done : List (Stmt Name)
  todo : List (Stmt Name)
  /-- What the transaction sees. -/
  work : Db Name
  /-- The tables it has locked. -/
  locks : List Name

@[ext]
structure State where
  /-- What is committed. -/
  db : Db Name
  /-- The holder of the advisory lock. -/
  holder : Option Nat
  sessions : Nat → Option Session

inductive Action
  | begin (i : Nat) (kind : Kind) (now : Int)
  | acquire (i : Nat)
  | exec (i : Nat)
  | plan (i : Nat)
  | commit (i : Nat)
  /-- An error, a cancelled context or a lost connection: the transaction rolls back. -/
  | abort (i : Nat)
  /-- A transaction of another program leaves the table with these rows. -/
  | write (table : Name) (rows : List (Row Name))

/-- The namespace before EmitLane. -/
def State.init (schema : Bool) : State := ⟨⟨schema, .empty, fun _ => []⟩, none, fun _ => none⟩

/-- The programs update the seeded tables and do not insert or delete there. -/
def seededTables : List Name := [.runtime_control, .ordering_partitions]

section

variable (E : Env Name)

def Session.env (x : Session) : Env Name := { E with now := x.now }

def State.setSession (s : State) (i : Nat) (x : Option Session) : State :=
  { s with sessions := Function.update s.sessions i x }

/-- The end of a transaction. -/
def State.finish (s : State) (i : Nat) : State :=
  { s.setSession i none with holder := if s.holder = some i then none else s.holder }

/-- The tables that are locked against writers. -/
def State.locked (s : State) : List Name := ((s.holder.bind s.sessions).map (·.locks)).getD []

/-- The rows fit the table, nobody has locked it, and it is not the history. -/
def State.writable (s : State) (n : Name) (rows : List (Row Name)) : Bool :=
  n ≠ .schema_migrations && n ∉ s.locked &&
    (s.db.catalog.table n).any fun t =>
      decide (∀ r ∈ rows, t.Admits E.call r) && (n ∉ seededTables || keys t rows = keys t (s.db.rows n))

def step (s : State) : Action → Option State
  | .begin i kind now =>
    match s.sessions i with
    | some _ => none
    | none => some (s.setSession i (some ⟨kind, now, .waiting, [], [], s.db, []⟩))
  | .acquire i =>
    match s.sessions i with
    | some x =>
      if x.phase = .waiting ∧ s.holder = none then
        some { s.setSession i (some { x with
          phase := .ensuring, done := [], todo := ensureMigrations, work := s.db, locks := [] }) with holder := some i }
      else none
    | none => none
  | .exec i =>
    match s.sessions i with
    | some x =>
      match x.todo with
      | st :: rest =>
        match Ddl.exec (x.env E) st x.work with
        | .error _ => some (s.finish i)
        | .ok work => some (s.setSession i (some { x with
            done := x.done ++ [st], todo := rest, work := work, locks := x.locks ++ st.locks }))
      | [] => none
    | none => none
  | .plan i =>
    match s.sessions i with
    | some x =>
      if x.phase = .ensuring ∧ x.todo = [] then
        match Migrations.plan x.kind x.work with
        | .error _ => some (s.finish i)
        | .ok script => some (s.setSession i (some { x with phase := .applying, todo := script }))
      else none
    | none => none
  | .commit i =>
    match s.sessions i with
    | some x => if x.phase = .applying ∧ x.todo = [] then some { s.finish i with db := x.work } else none
    | none => none
  | .abort i => some (s.finish i)
  | .write n rows =>
    if s.writable E n rows then
      some { s with
        db := s.db.setRows n rows
        sessions := fun i => (s.sessions i).map fun x => { x with work := x.work.setRows n rows } }
    else none

/-- The states reached from a namespace without EmitLane. -/
def Reachable (s : State) : Prop := ∃ schema, Runs.Reach (step E) Runs.Free (State.init schema) s

end

/-! ## Lock discipline -/

/-- Each statement reads only tables that are locked by then, or the history. -/
def disciplined : List Name → List (Stmt Name) → Bool
  | _, [] => true
  | locks, st :: rest =>
    st.reads.all (fun T => T = .schema_migrations || T ∈ locks ++ st.locks) && disciplined (locks ++ st.locks) rest

/-- The scripts a plan can be. -/
theorem scripts_disciplined : (∀ v ≤ 4, disciplined [.schema_migrations] (upScript v) = true) ∧
    (∀ v < 4, disciplined [.schema_migrations] (downScript v) = true) ∧ disciplined [] ensureMigrations = true := by
  decide

section

variable {E : Env Name} {s s' : State}

theorem plan_disciplined {v : Nat} {db : Db Name} (h : Ready E.call v db) {kind : Kind} {script : List (Stmt Name)}
    (hplan : plan kind db = .ok script) : disciplined [.schema_migrations] script = true := by
  cases kind with
  | up =>
    rw [plan_up h] at hplan
    exact Except.ok.inj hplan ▸ scripts_disciplined.1 v h.le
  | down =>
    cases v with
    | zero =>
      rw [plan_down_zero h] at hplan
      exact Except.ok.inj hplan ▸ rfl
    | succ v =>
      rw [plan_down h] at hplan
      exact Except.ok.inj hplan ▸ scripts_disciplined.2.1 v h.le

/-! ## The invariant -/

/-- What the holder of the advisory lock has done so far is what its statements would do now. -/
structure Running (E : Env Name) (db : Db Name) (x : Session) : Prop where
  started : x.phase ≠ .waiting
  result : execAll (x.env E) x.done db = .ok x.work
  locks : x.locks = x.done.flatMap Stmt.locks
  covered : ∀ st ∈ x.done, ∀ T ∈ st.reads, T = .schema_migrations ∨ T ∈ x.locks
  todo : disciplined x.locks x.todo = true
  ensuring : x.phase = .ensuring → x.done ++ x.todo = ensureMigrations
  applying : x.phase = .applying → ∃ db₁ script, execAll (x.env E) ensureMigrations db = .ok db₁ ∧
    plan x.kind db₁ = .ok script ∧ x.done ++ x.todo = ensureMigrations ++ script

structure Inv (E : Env Name) (s : State) : Prop where
  at_version : ∃ v, At E.call v s.db
  waiting : ∀ i x, s.sessions i = some x → s.holder ≠ some i → x.phase = .waiting ∧ x.todo = []
  running : ∀ i, s.holder = some i → ∃ x, s.sessions i = some x ∧ Running E s.db x

theorem appliedVersions_setRows {db : Db Name} {T : Name} {rows : List (Row Name)} (hT : T ≠ .schema_migrations) :
    appliedVersions (db.setRows T rows) = appliedVersions db :=
  congrArg (List.filterMap rowVersion) (Function.update_of_ne (Ne.symm hT) _ _)

/-- A write by others to a table that is not locked. -/
theorem Running.write {db : Db Name} {x : Session} (h : Running E db x) {T : Name} (rows : List (Row Name))
    (hT : T ≠ .schema_migrations) (hfree : T ∉ x.locks) :
    Running E (db.setRows T rows) { x with work := x.work.setRows T rows } where
  started := h.started
  result := by
    refine execAll_setRows rows (fun st hst hmem => ?_) h.result
    rcases h.covered st hst T hmem with heq | hmem
    · exact hT heq
    · exact hfree hmem
  locks := h.locks
  covered := h.covered
  todo := h.todo
  ensuring := h.ensuring
  applying hphase := by
    obtain ⟨db₁, script, hensure, hplan, hscript⟩ := h.applying hphase
    refine ⟨db₁.setRows T rows, script, execAll_setRows rows (fun st hst hmem => ?_) hensure, ?_, hscript⟩
    · rcases List.mem_cons.mp hst with rfl | hst
      · cases hmem
      · obtain rfl := List.mem_singleton.mp hst
        exact hT (List.mem_singleton.mp hmem)
    · unfold plan at hplan ⊢
      rw [appliedVersions_setRows hT]
      exact hplan

/-- The database stays at its version under writes. -/
theorem At.write {v : Nat} {db : Db Name} (h : At E.call v db) {n : Name} {t : Table Name} {rows : List (Row Name)}
    (hn : n ≠ .schema_migrations) (ht : db.catalog.table n = some t) (hrows : ∀ r ∈ rows, t.Admits E.call r)
    (hkeys : n ∈ seededTables → keys t rows = keys t (db.rows n)) : At E.call v (db.setRows n rows) := by
  have hother : ∀ m, m ≠ n → (db.setRows n rows).rows m = db.rows m := fun m hm => Function.update_of_ne hm _ _
  have hself : (db.setRows n rows).rows n = rows := Function.update_self ..
  refine ⟨h.le, h.schema, h.catalog, ?_, ?_, ?_⟩
  · exact (appliedVersions_setRows hn).trans h.versions
  · -- the seeded tables have the same keys at every version
    have hkey : ∀ (t₀ : Table Name), (∀ v ≤ 4, ∀ t ∈ (catalogAt v).tables, t.name = t₀.name → t.key = t₀.key) →
        t₀.name ∈ seededTables →
          keys t₀ ((db.setRows n rows).rows t₀.name) = keys t₀ (db.rows t₀.name) := by
      intro t₀ hclosed hseeded
      by_cases hn' : t₀.name = n
      · have hkey₀ : t.key = t₀.key := by
          have hmem := List.mem_of_find?_eq_some ht
          rcases h.catalog with heq | ⟨-, heq⟩
          · rw [heq] at hmem
            exact hclosed v h.le t hmem ((table_name ht).trans hn'.symm)
          · rw [heq] at hmem
            cases hmem
        have hk := hkeys (hn' ▸ hseeded)
        unfold keys at hk ⊢
        rw [hn', hself, ← hkey₀]
        exact hk
      · rw [hother _ hn']
    refine ⟨fun hv => ?_, fun hv => ?_⟩
    · exact (hkey runtimeControl (by decide) (by decide)).trans (h.seeded.control hv)
    · exact (hkey orderingPartitions (by decide) (by decide)).trans (h.seeded.partitions hv)
  · exact valid_rows (E := E) h.valid ht (fun r hr => hrows r (hself ▸ hr)) hother

/-- The first statement of the rest. -/
theorem Running.exec {db work : Db Name} {x : Session} (h : Running E db x) {st : Stmt Name} {rest : List (Stmt Name)}
    (htodo : x.todo = st :: rest) (hexec : Ddl.exec (x.env E) st x.work = .ok work) :
    Running E db { x with done := x.done ++ [st], todo := rest, work := work, locks := x.locks ++ st.locks } := by
  obtain ⟨hreads, hrest⟩ := Bool.and_eq_true_iff.mp (htodo ▸ h.todo)
  have hsplit : (x.done ++ [st]) ++ rest = x.done ++ x.todo := by rw [htodo, List.append_assoc]; rfl
  refine ⟨h.started, ?_, ?_, ?_, hrest, fun hphase => hsplit.trans (h.ensuring hphase), fun hphase => ?_⟩
  · show execAll (x.env E) (x.done ++ [st]) db = _
    rw [execAll_append, h.result]
    show (Ddl.exec (x.env E) st x.work).bind _ = _
    rw [hexec]
    rfl
  · show x.locks ++ st.locks = (x.done ++ [st]).flatMap Stmt.locks
    rw [h.locks, List.flatMap_append, List.flatMap_singleton]
  · intro st' hst' T hT
    rcases List.mem_append.mp hst' with hst' | hst'
    · exact (h.covered st' hst' T hT).imp_right (List.mem_append_left _)
    · obtain rfl := List.mem_singleton.mp hst'
      simpa using List.all_eq_true.mp hreads T hT
  · obtain ⟨db₁, script, hensure, hplan, hscript⟩ := h.applying hphase
    exact ⟨db₁, script, hensure, hplan, hsplit.trans hscript⟩

/-- The versions are read and the script is chosen. -/
theorem Running.plan {v : Nat} {db : Db Name} {x : Session} (h : Running E db x) (hat : At E.call v db)
    (hphase : x.phase = .ensuring) (htodo : x.todo = []) {script : List (Stmt Name)}
    (hplan : plan x.kind x.work = .ok script) : Running E db { x with phase := .applying, todo := script } := by
  have hdone : x.done = ensureMigrations := by
    have hsplit := h.ensuring hphase
    rwa [htodo, List.append_nil] at hsplit
  have hensure : execAll (x.env E) ensureMigrations db = .ok x.work := hdone ▸ h.result
  have hlocks : x.locks = [.schema_migrations] := by rw [h.locks, hdone]; rfl
  have hready : Ready (x.env E).call v x.work := ensure_ready (E := x.env E) hat hensure
  refine ⟨(nomatch ·), h.result, h.locks, h.covered, ?_, (nomatch ·), fun _ => ?_⟩
  · show disciplined x.locks script = true
    rw [hlocks]
    exact plan_disciplined (E := x.env E) hready hplan
  · exact ⟨x.work, script, hensure, hplan, congrArg (· ++ script) hdone⟩

/-- A migration that has executed everything did what the call does as one function, on what is committed now. -/
theorem Running.result_migrate {db : Db Name} {x : Session} (h : Running E db x) (hphase : x.phase = .applying)
    (htodo : x.todo = []) : migrate (x.env E) x.kind db = .ok x.work := by
  obtain ⟨db₁, script, hensure, hplan, hscript⟩ := h.applying hphase
  rw [htodo, List.append_nil] at hscript
  have hresult := h.result
  rw [hscript, execAll_append, hensure] at hresult
  exact migrate_ok hensure hplan hresult

/-! ## Steps -/

/-- What a step does. -/
inductive Next (E : Env Name) (s : State) : Action → State → Prop
  | begin {i : Nat} {kind : Kind} {now : Int} (hnew : s.sessions i = none) :
    Next E s (.begin i kind now) (s.setSession i (some ⟨kind, now, .waiting, [], [], s.db, []⟩))
  | acquire {i : Nat} {x : Session} (hx : s.sessions i = some x) (hfree : s.holder = none) :
    Next E s (.acquire i) { s.setSession i (some { x with
      phase := .ensuring, done := [], todo := ensureMigrations, work := s.db, locks := [] }) with holder := some i }
  | exec {i : Nat} {x : Session} {st : Stmt Name} {rest : List (Stmt Name)} {work : Db Name}
      (hx : s.sessions i = some x)
    (htodo : x.todo = st :: rest) (hexec : Ddl.exec (x.env E) st x.work = .ok work) :
    Next E s (.exec i) (s.setSession i (some { x with
      done := x.done ++ [st], todo := rest, work := work, locks := x.locks ++ st.locks }))
  | plan {i : Nat} {x : Session} {script : List (Stmt Name)} (hx : s.sessions i = some x) (hphase : x.phase = .ensuring)
    (htodo : x.todo = []) (hplan : Migrations.plan x.kind x.work = .ok script) :
    Next E s (.plan i) (s.setSession i (some { x with phase := .applying, todo := script }))
  | commit {i : Nat} {x : Session} (hx : s.sessions i = some x) (hphase : x.phase = .applying) (htodo : x.todo = []) :
    Next E s (.commit i) { s.finish i with db := x.work }
  | rollback {a : Action} (i : Nat) : Next E s a (s.finish i)
  | write {n : Name} {rows : List (Row Name)} (hwritable : s.writable E n rows = true) :
    Next E s (.write n rows) { s with
      db := s.db.setRows n rows
      sessions := fun i => (s.sessions i).map fun x => { x with work := x.work.setRows n rows } }

theorem next_of_step {a : Action} (h : step E s a = some s') : Next E s a s' := by
  cases a with
  | begin i kind now =>
    simp only [step] at h
    split at h
    · cases h
    next hnew =>
      obtain rfl := Option.some.inj h
      exact .begin hnew
  | acquire i =>
    simp only [step] at h
    split at h
    next x hx =>
      split_ifs at h with hc
      obtain rfl := Option.some.inj h
      exact .acquire hx hc.2
    · cases h
  | exec i =>
    simp only [step] at h
    split at h
    next x hx =>
      split at h
      next st rest htodo =>
        split at h
        · obtain rfl := Option.some.inj h
          exact .rollback i
        next work hexec =>
          obtain rfl := Option.some.inj h
          exact .exec hx htodo hexec
      · cases h
    · cases h
  | plan i =>
    simp only [step] at h
    split at h
    next x hx =>
      split_ifs at h with hc
      split at h
      · obtain rfl := Option.some.inj h
        exact .rollback i
      next script hplan =>
        obtain rfl := Option.some.inj h
        exact .plan hx hc.1 hc.2 hplan
    · cases h
  | commit i =>
    simp only [step] at h
    split at h
    next x hx =>
      split_ifs at h with hc
      obtain rfl := Option.some.inj h
      exact .commit hx hc.1 hc.2
    · cases h
  | abort i =>
    obtain rfl := Option.some.inj h
    exact .rollback i
  | write n rows =>
    simp only [step] at h
    split_ifs at h with hw
    obtain rfl := Option.some.inj h
    exact .write hw

/-- A session that does not wait holds the advisory lock. -/
theorem Inv.holds (h : Inv E s) {i : Nat} {x : Session} (hx : s.sessions i = some x)
    (hne : ¬ (x.phase = .waiting ∧ x.todo = [])) : s.holder = some i ∧ Running E s.db x := by
  have hholder : s.holder = some i := by
    by_contra hno
    exact hne (h.waiting i x hx hno)
  obtain ⟨y, hy, hrun⟩ := h.running i hholder
  rw [hx] at hy
  exact ⟨hholder, Option.some.inj hy ▸ hrun⟩

/-- The holder goes on, the others are as they were. -/
theorem Inv.set_running (h : Inv E s) {i : Nat} {x : Session} (hholder : s.holder = some i)
    (hrun : Running E s.db x) : Inv E (s.setSession i (some x)) := by
  refine ⟨h.at_version, fun j y hj hno => ?_, fun j hj => ?_⟩
  · obtain ⟨rfl, -⟩ | ⟨-, hy⟩ := Runs.of_update hj
    · exact absurd hholder hno
    · exact h.waiting j y hy hno
  · obtain rfl : i = j := Option.some.inj (hholder.symm.trans hj)
    exact ⟨x, Function.update_self .., hrun⟩

theorem Inv.finish (h : Inv E s) (i : Nat) : Inv E (s.finish i) := by
  have hholder : (s.finish i).holder = if s.holder = some i then none else s.holder := rfl
  refine ⟨h.at_version, fun j x hj hno => ?_, fun j hj => ?_⟩
  · obtain ⟨-, hx⟩ | ⟨hne, hx⟩ := Runs.of_update hj
    · cases hx
    · refine h.waiting j x hx fun heq => hno ?_
      rw [hholder, heq, if_neg (by simpa using hne)]
  · rw [hholder] at hj
    split_ifs at hj with hi
    obtain ⟨x, hx, hrun⟩ := h.running j hj
    have hne : j ≠ i := fun heq => hi (heq ▸ hj)
    exact ⟨x, (Function.update_of_ne hne _ _).trans hx, hrun⟩

/-- What is committed changes only when nobody is past waiting. -/
theorem Inv.commit (h : Inv E s) {i v : Nat} {db : Db Name} (hholder : s.holder = some i) (hat : At E.call v db) :
    Inv E { s.finish i with db := db } := by
  have hnone : (s.finish i).holder = none := if_pos hholder
  refine ⟨⟨v, hat⟩, (h.finish i).waiting, fun j hj => ?_⟩
  cases hnone.symm.trans hj

theorem Inv.acquire (h : Inv E s) {i : Nat} {x : Session} (hfree : s.holder = none)
    (hrun : Running E s.db x) :
    Inv E { s.setSession i (some x) with holder := some i } := by
  refine ⟨h.at_version, fun j y hj hno => ?_, fun j hj => ?_⟩
  · obtain ⟨rfl, -⟩ | ⟨-, hy⟩ := Runs.of_update hj
    · exact absurd rfl hno
    · exact h.waiting j y hy (by rw [hfree]; exact (nomatch ·))
  · obtain rfl := Option.some.inj hj
    exact ⟨x, Function.update_self .., hrun⟩

theorem running_start (db : Db Name) (x : Session) : Running E db
    { x with phase := .ensuring, done := [], todo := ensureMigrations, work := db, locks := [] } where
  started := (nomatch ·)
  result := rfl
  locks := rfl
  covered _ hst := nomatch hst
  todo := scripts_disciplined.2.2
  ensuring _ := rfl
  applying h := nomatch h

theorem Inv.write (h : Inv E s) {n : Name} {rows : List (Row Name)} (hw : s.writable E n rows = true) :
    Inv E { s with
      db := s.db.setRows n rows
      sessions := fun i => (s.sessions i).map fun x => { x with work := x.work.setRows n rows } } := by
  unfold State.writable at hw
  simp only [Bool.and_eq_true, decide_eq_true_eq, Option.any_eq_true, Bool.or_eq_true] at hw
  obtain ⟨⟨hn, hlocked⟩, t, ht, hrows, hkeys⟩ := hw
  obtain ⟨v, hat⟩ := h.at_version
  refine ⟨⟨v, hat.write hn ht hrows fun hseeded => hkeys.resolve_left (not_not.mpr hseeded)⟩,
    fun i x hi hno => ?_,
    fun i hi => ?_⟩
  · obtain ⟨y, hy, rfl⟩ := Option.map_eq_some_iff.mp hi
    exact h.waiting i y hy hno
  · obtain ⟨x, hx, hrun⟩ := h.running i hi
    refine ⟨_, Option.map_eq_some_iff.mpr ⟨x, hx, rfl⟩, hrun.write rows hn ?_⟩
    unfold State.locked at hlocked
    have hi : s.holder = some i := hi
    rw [hi] at hlocked
    simpa [hx] using hlocked

/-- **One step.** -/
theorem Next.inv {a : Action} (hnext : Next E s a s') (h : Inv E s) : Inv E s' := by
  cases hnext with
  | @begin i kind now hnew =>
    refine ⟨h.at_version, fun j y hj hno => ?_, fun j hj => ?_⟩
    · obtain ⟨-, hy⟩ | ⟨-, hy⟩ := Runs.of_update hj
      · exact Option.some.inj hy ▸ ⟨rfl, rfl⟩
      · exact h.waiting j y hy hno
    · obtain ⟨x, hx, hrun⟩ := h.running j hj
      have hne : j ≠ i := fun heq => by
        rw [heq, hnew] at hx
        cases hx
      exact ⟨x, (Function.update_of_ne hne _ _).trans hx, hrun⟩
  | acquire hx hfree => exact h.acquire hfree (running_start ..)
  | @exec i x st rest work hx htodo hexec =>
    obtain ⟨hholder, hrun⟩ := h.holds hx fun hno => by simp [htodo] at hno
    exact h.set_running hholder (hrun.exec htodo hexec)
  | @plan i x script hx hphase htodo hplan =>
    obtain ⟨v, hat⟩ := h.at_version
    obtain ⟨hholder, hrun⟩ := h.holds hx fun hno => by simp [hphase] at hno
    exact h.set_running hholder (hrun.plan hat hphase htodo hplan)
  | @commit i x hx hphase htodo =>
    obtain ⟨v, hat⟩ := h.at_version
    obtain ⟨hholder, hrun⟩ := h.holds hx fun hno => by simp [hphase] at hno
    exact h.commit hholder (migrate_at (E := x.env E) hat (hrun.result_migrate hphase htodo))
  | rollback i => exact h.finish i
  | write hw => exact h.write hw

theorem at_init (schema : Bool) : At E.call 0 (State.init schema).db :=
  ⟨by decide, .inr rfl, .inr ⟨rfl, rfl⟩, rfl, ⟨fun h => absurd h (by decide), fun h => absurd h (by decide)⟩,
    ⟨(fun _ _ ht => nomatch ht), (fun _ _ ht => nomatch ht), fun _ _ => rfl⟩⟩

theorem inv_init (schema : Bool) : Inv E (State.init schema) :=
  ⟨⟨0, at_init schema⟩, (fun _ _ hx => nomatch hx), fun _ hi => nomatch hi⟩

/-- **Every run.** -/
theorem Reachable.inv (h : Reachable E s) : Inv E s := by
  obtain ⟨schema, h⟩ := h
  exact h.inv (fun s a s' hs _ hstep => (next_of_step hstep).inv hs) (inv_init schema)

/-- A commit. -/
theorem Inv.committed (h : Inv E s) {i : Nat} (hstep : step E s (.commit i) = some s') :
    ∃ x, s.sessions i = some x ∧ migrate (x.env E) x.kind s.db = .ok s'.db := by
  simp only [step] at hstep
  split at hstep
  next x hx =>
    split_ifs at hstep with hc
    obtain rfl := Option.some.inj hstep
    have hrun := (h.holds hx fun hno => by simp [hc.1] at hno).2
    exact ⟨x, hx, hrun.result_migrate hc.1 hc.2⟩
  · cases hstep

theorem At.schemaVersion {v : Nat} {db : Db Name} (h : At E.call v db) : schemaVersion db = .ok (v : Int) := by
  unfold Migrations.schemaVersion tableExists
  rcases h.catalog with heq | ⟨rfl, heq⟩
  · rw [heq, table_history v h.le, h.versions]
    exact validateVersions_history v h.le
  · rw [heq]
    rfl

theorem At.unique {v w : Nat} {db : Db Name} (h : At E.call v db) (hw : Migrations.schemaVersion db = .ok (w : Int)) :
    v = w :=
  Int.ofNat.inj (Except.ok.inj (h.schemaVersion.symm.trans hw))

/-! ## A call that runs alone -/

theorem setSession_setSession (s : State) (i : Nat) (x y : Option Session) :
    (s.setSession i x).setSession i y = s.setSession i y :=
  congrArg (fun f => { s with sessions := f }) (Function.update_idem ..)

theorem setSession_self {i : Nat} {x : Option Session} (hx : s.sessions i = x) : s.setSession i x = s :=
  congrArg (fun f => { s with sessions := f }) (Function.update_eq_self_iff.mpr hx.symm)

/-- The statements of a session, one after the other. -/
theorem reach_exec {i : Nat} : ∀ {script rest : List (Stmt Name)} {s : State} {x : Session} {work : Db Name},
    s.sessions i = some x → x.todo = script ++ rest → execAll (x.env E) script x.work = .ok work →
      ∃ x', x'.kind = x.kind ∧ x'.now = x.now ∧ x'.phase = x.phase ∧ x'.todo = rest ∧ x'.work = work ∧
        Runs.Reach (step E) Runs.Free s (s.setSession i (some x'))
  | [], rest, s, x, work, hx, htodo, h => by
    refine ⟨x, rfl, rfl, rfl, htodo, Except.ok.inj h, ?_⟩
    rw [setSession_self hx]
    exact .refl s
  | st :: script, rest, s, x, work, hx, htodo, h => by
    obtain ⟨work₁, hst, h⟩ := bind_ok.mp h
    let x₁ : Session := { x with
      done := x.done ++ [st], todo := script ++ rest, work := work₁, locks := x.locks ++ st.locks }
    have hstep : step E s (.exec i) = some (s.setSession i (some x₁)) := by
      simp only [step, hx, htodo, List.cons_append, hst]
      rfl
    obtain ⟨x', hkind, hnow, hphase, htodo', hwork, hreach⟩ :=
      reach_exec (s := s.setSession i (some x₁)) (x := x₁) (Function.update_self ..) rfl h
    rw [setSession_setSession] at hreach
    exact ⟨x', hkind, hnow, hphase, htodo', hwork, (Runs.Reach.single trivial hstep).trans hreach⟩

/-- A call that succeeds as one function can be taken step by step. -/
theorem reach_migrate {i : Nat} {kind : Kind} {now : Int} {db : Db Name} (hnew : s.sessions i = none)
    (hfree : s.holder = none) (h : migrate { E with now := now } kind s.db = .ok db) :
    ∃ s₁ x, Runs.Reach (step E) Runs.Free s s₁ ∧ s₁.db = s.db ∧ s₁.sessions i = some x ∧
      x.kind = kind ∧
      step E s₁ (.commit i) = some { s with db := db } := by
  obtain ⟨db₁, hensure, h⟩ := bind_ok.mp h
  obtain ⟨script, hplan, h⟩ := bind_ok.mp h
  -- begin and acquire
  let x₀ : Session := ⟨kind, now, .waiting, [], [], s.db, []⟩
  let x₁ : Session := { x₀ with phase := .ensuring, todo := ensureMigrations }
  let held : State := { s with holder := some i }
  have hbegin : step E s (.begin i kind now) = some (s.setSession i (some x₀)) := by
    simp only [step, hnew]
    rfl
  have hacquire : step E (s.setSession i (some x₀)) (.acquire i) = some (held.setSession i (some x₁)) := by
    have hx₀ : (s.setSession i (some x₀)).sessions i = some x₀ := Function.update_self ..
    have hcond : x₀.phase = .waiting ∧ (s.setSession i (some x₀)).holder = none := ⟨rfl, hfree⟩
    simp only [step, hx₀, if_pos hcond, setSession_setSession]
    rfl
  -- the two scripts, with the plan between them
  have htodo₁ : x₁.todo = ensureMigrations ++ [] := (List.append_nil _).symm
  obtain ⟨x₂, hkind₂, hnow₂, hphase₂, htodo₂, hwork₂, hreach₂⟩ :=
    reach_exec (s := held.setSession i (some x₁)) (Function.update_self ..) htodo₁ (mapError_ok hensure)
  rw [setSession_setSession] at hreach₂
  let x₃ : Session := { x₂ with phase := .applying, todo := script }
  have hplanned : step E (held.setSession i (some x₂)) (.plan i) = some (held.setSession i (some x₃)) := by
    have hx₂ : (held.setSession i (some x₂)).sessions i = some x₂ := Function.update_self ..
    have hplan₂ : Migrations.plan x₂.kind x₂.work = .ok script := by rw [hkind₂, hwork₂]; exact hplan
    have hcond : x₂.phase = .ensuring ∧ x₂.todo = [] := ⟨hphase₂, htodo₂⟩
    simp only [step, hx₂, if_pos hcond, hplan₂, setSession_setSession]
    rfl
  have htodo₃ : x₃.todo = script ++ [] := (List.append_nil _).symm
  have henv : x₃.env E = { E with now := now } := congrArg (Env.mk E.call E.foreign E.others E.uses) hnow₂
  have hexec₃ : execAll (x₃.env E) script x₃.work = .ok db := by
    rw [henv, show x₃.work = db₁ from hwork₂]
    exact mapError_ok h
  obtain ⟨x₄, hkind₄, -, hphase₄, htodo₄, hwork₄, hreach₄⟩ :=
    reach_exec (s := held.setSession i (some x₃)) (Function.update_self ..) htodo₃ hexec₃
  rw [setSession_setSession] at hreach₄
  have hcommit : step E (held.setSession i (some x₄)) (.commit i) = some { s with db := db } := by
    have hx₄ : (held.setSession i (some x₄)).sessions i = some x₄ := Function.update_self ..
    have hcond : x₄.phase = .applying ∧ x₄.todo = [] := ⟨hphase₄, htodo₄⟩
    have hback : (held.setSession i (some x₄)).finish i = s := by
      refine State.ext rfl ((if_pos rfl).trans hfree.symm) ?_
      exact (Function.update_idem ..).trans (Function.update_eq_self_iff.mpr hnew.symm)
    simp only [step, hx₄, if_pos hcond, hback, hwork₄]
  have hreach :=
    ((((Runs.Reach.single trivial hbegin).tail trivial hacquire).trans hreach₂).tail trivial hplanned).trans
    hreach₄
  exact ⟨_, x₄, hreach, rfl, Function.update_self .., hkind₄.trans hkind₂, hcommit⟩

/-! ## Main results -/

/-- **Migrations take effect one at a time.**  At every moment the committed database is at one of the versions, with
the catalog, the history, the seeds and the constraints of that version; and only a commit changes that, as MigrateUp or
MigrateDown would if it ran alone on what is committed at that instant. -/
theorem migrations_serialize (h : Reachable E s) :
    (∃ v : Nat, At E.call v s.db ∧ schemaVersion s.db = .ok (v : Int)) ∧
    ∀ a s', step E s a = some s' →
      s'.db = s.db ∨
      (∃ n rows, a = .write n rows ∧ n ≠ .schema_migrations ∧ s'.db = s.db.setRows n rows) ∨
      ∃ i x v, a = .commit i ∧ s.sessions i = some x ∧ migrate (x.env E) x.kind s.db = .ok s'.db ∧
        schemaVersion s.db = .ok (v : Nat) ∧ schemaVersion s'.db = .ok (x.kind.version v : Nat) := by
  obtain ⟨v, hat⟩ := h.inv.at_version
  refine ⟨⟨v, hat, hat.schemaVersion⟩, fun a s' hstep => ?_⟩
  cases next_of_step hstep with
  | @commit i x hx hphase htodo =>
    obtain ⟨y, hy, hmigrate⟩ := h.inv.committed hstep
    obtain rfl : x = y := Option.some.inj (hx.symm.trans hy)
    exact .inr (.inr ⟨i, x, v, rfl, hx, hmigrate, hat.schemaVersion,
      (migrate_at (E := x.env E) hat hmigrate).schemaVersion⟩)
  | @write n rows hw =>
    unfold State.writable at hw
    simp only [Bool.and_eq_true, decide_eq_true_eq] at hw
    exact .inr (.inl ⟨n, rows, rfl, hw.1.1, rfl⟩)
  | _ => exact .inl rfl

def exampleEnv : Env Name := ⟨fun _ _ => some true, [], false, [], 0⟩

/-- A row of the Inbox. -/
def exampleRow : Row Name :=
  [(.consumer, .text "billing"), (.event_id, .text "e1"), (.processed_at, .int 5), (.status, .text "processed"),
   (.attempts, .int 1), (.available_at, .int 3), (.lease_owner, .null), (.lease_token, .null), (.lease_until, .null),
   (.last_error, .null), (.first_seen_at, .int 3), (.updated_at, .int 5), (.source_topic, .text "events"),
   (.source_partition, .int 0), (.source_offset, .int 17), (.source_timestamp, .int 2)]

theorem exampleRow_admitted : ∃ t, (catalogAt 4).table .inbox_events = some t ∧
    t.Admits exampleEnv.call exampleRow := by
  have hclosed : ((catalogAt 4).table .inbox_events).any fun t =>
      decide (t.Admits exampleEnv.call exampleRow) := by decide
  obtain ⟨t, ht, hadmits⟩ := (Option.any_eq_true ..).mp hclosed
  exact ⟨t, ht, of_decide_eq_true hadmits⟩

theorem exists_upgraded : ∃ s, Reachable exampleEnv s ∧ s.sessions 0 = none ∧ s.holder = none ∧
    At exampleEnv.call 4 s.db ∧ s.db.rows .inbox_events = [exampleRow] := by
  obtain ⟨db, hup, hready⟩ :=
    migrateUp_succeeds (E := exampleEnv) (at_init false) fun _ _ h => nomatch h
  obtain ⟨s₁, x, hreach, -, -, -, hcommit⟩ :=
    reach_migrate (E := exampleEnv) (s := State.init false) (i := 0) rfl rfl hup
  obtain ⟨t, ht, hadmits⟩ := exampleRow_admitted
  have htable : db.catalog.table .inbox_events = some t := hready.catalog ▸ ht
  have hrows : ∀ r ∈ [exampleRow], t.Admits exampleEnv.call r := fun r hr => List.mem_singleton.mp hr ▸ hadmits
  let s₂ : State := { State.init false with db := db }
  let s₃ : State := { s₂ with db := db.setRows .inbox_events [exampleRow] }
  have hwrite : step exampleEnv s₂ (.write .inbox_events [exampleRow]) = some s₃ := by
    refine if_pos ?_
    have htable₂ : s₂.db.catalog.table .inbox_events = some t := htable
    unfold State.writable
    rw [htable₂, Option.any_some, decide_eq_true hrows]
    rfl
  refine ⟨s₃, ⟨false, (hreach.tail trivial hcommit).tail trivial hwrite⟩, rfl, rfl, ?_, ?_⟩
  · exact hready.at.write (by decide) htable hrows fun hseeded => absurd hseeded (by decide)
  · show Function.update db.rows .inbox_events [exampleRow] .inbox_events = _
    rw [Function.update_self]

theorem migrations_serialize_upgraded : ∃ s, Reachable exampleEnv s ∧
    (∃ v : Nat, At exampleEnv.call v s.db ∧ schemaVersion s.db = .ok (v : Int)) ∧
    schemaVersion s.db = .ok 4 := by
  obtain ⟨s, h, -, -, hat, -⟩ := exists_upgraded
  exact ⟨s, h, (migrations_serialize h).1, hat.schemaVersion⟩

/-- **From everywhere up.**  Whatever the migrations and the programs did so far, MigrateUp succeeds and leaves nothing
for doctor to find; the rows of every table are kept, with the new columns after the old; a second MigrateUp changes
nothing. -/
theorem migrateUp_anywhere (h : Reachable E s) (now : Int) (hclash : NoClash { E with now := now }) :
    ∃ db, migrate { E with now := now } .up s.db = .ok db ∧ doctor db = [] ∧
      (∀ now', migrate { E with now := now' } .up db = .ok db) ∧
      ∀ v : Nat, schemaVersion s.db = .ok (v : Int) → ∀ t ∈ (catalogAt v).tables,
        t.name ≠ .schema_migrations →
        db.rows t.name = (s.db.rows t.name).map (· ++ added { E with now := now } t.name (upScript v)) := by
  obtain ⟨v, hat⟩ := h.inv.at_version
  obtain ⟨db, hup, hready⟩ := migrateUp_succeeds (E := { E with now := now }) hat hclash
  refine ⟨db, hup, hready.doctor, fun now' => ?_, fun w hw t ht hT => ?_⟩
  · obtain ⟨db₁, hensure⟩ := ensure_succeeds (E := { E with now := now' }) db fun hmem =>
      absurd hmem (hclash _ (by decide))
    obtain rfl := ensure_same hready hensure
    exact migrate_ok hensure (plan_up hready) rfl
  · obtain rfl := hat.unique hw
    exact migrateUp_rows (E := { E with now := now }) hat hup ht hT

theorem exampleRow_settled : ∀ s : State, s.db.rows .inbox_events = [exampleRow] → ¬ Blocked 4 s.db := by
  intro s hrows
  have hsettled : col exampleRow .status = .text "processed" ∧ col exampleRow .processed_at ≠ .null := by decide
  simp [Blocked, hrows, hsettled]

/-- What version 3 keeps of the row. -/
def exampleRow3 : Row Name := [(.consumer, .text "billing"), (.event_id, .text "e1"), (.processed_at, .int 5)]

theorem exists_downgraded : ∃ s, Reachable exampleEnv s ∧ At exampleEnv.call 3 s.db ∧
    s.db.rows .inbox_events = [exampleRow3] := by
  obtain ⟨s, ⟨schema, hrun⟩, hnew, hfree, hat, hrows⟩ := exists_upgraded
  obtain ⟨db, hdown⟩ := (migrateDown_iff (E := { exampleEnv with now := 9 }) hat nofun).mpr
    ⟨exampleRow_settled s hrows, by simp [InUse, exampleEnv]⟩
  obtain ⟨s₁, x, hreach, -, -, -, hcommit⟩ := reach_migrate hnew hfree hdown
  refine ⟨_, ⟨schema, (hrun.trans hreach).tail trivial hcommit⟩,
    migrate_at (E := { exampleEnv with now := 9 }) hat hdown, ?_⟩
  rw [(migrateDown_inbox (E := { exampleEnv with now := 9 }) hat hdown).2.1, hrows]
  decide

theorem migrateUp_anywhere_upgraded : ∃ s, Reachable exampleEnv s ∧ schemaVersion s.db = .ok 3 ∧
    s.db.rows .inbox_events = [exampleRow3] ∧
    ∃ db, migrate { exampleEnv with now := 9 } .up s.db = .ok db ∧ doctor db = [] ∧
      db.rows .inbox_events = [exampleRow3 ++
        [(.status, .text "processed"), (.attempts, .int 0), (.available_at, .int 9), (.lease_owner, .null),
         (.lease_token, .null), (.lease_until, .null), (.last_error, .null), (.first_seen_at, .int 9),
         (.updated_at, .int 9), (.source_topic, .null), (.source_partition, .null), (.source_offset, .null),
         (.source_timestamp, .null)]] := by
  obtain ⟨s, h, hat, hrows⟩ := exists_downgraded
  obtain ⟨db, hup, hdoctor, -, hkeeps⟩ := migrateUp_anywhere h 9 fun _ _ h => nomatch h
  obtain ⟨t, ht, hname⟩ : ∃ t ∈ (catalogAt 3).tables, t.name = .inbox_events := by decide
  refine ⟨s, h, hat.schemaVersion, hrows, db, hup, hdoctor, ?_⟩
  have hinbox := hkeeps 3 hat.schemaVersion t ht (hname ▸ by decide)
  rw [hname, hrows] at hinbox
  rw [hinbox]
  decide

end

end Emitlane.Migrations
