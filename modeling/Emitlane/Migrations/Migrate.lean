import Emitlane.Lib.DdlValid
import Emitlane.Migrations.Scripts
import Mathlib.Tactic.IntervalCases

/-!
# Migrations.Migrate — MigrateUp and MigrateDown

`storage/postgres/migrate.go`, each call as one function on the database: `ensureMigrations`, then the recorded versions
are read and checked, then the statements they call for (`plan`).  System.lean takes the calls apart again.

* `At v`: the database is at version `v`: its catalog, its history, its seeded rows.
* `migrate_at`: a call that succeeds takes version to version.
-/

namespace Emitlane.Migrations

open Ddl

/-! ## Versions -/

def currentSchemaVersion : Int := 4

/-- `ErrSchemaIncompatible` with its reason. -/
inductive Incompatible
  /-- "database version %d exceeds binary schema %d". -/
  | exceeds (latest : Int)
  /-- "invalid recorded version %d". -/
  | invalid (version : Int)
  /-- "missing migration %d before version %d". -/
  | missing (version latest : Int)
  deriving DecidableEq

/-- The version column of a row of `schema_migrations`. -/
def rowVersion (r : Row Name) : Option Int :=
  match col r .version with
  | .int n => some n
  | _ => none

/-- `appliedVersions`; the list stands for the map, in any order of its keys. -/
def appliedVersions (db : Db Name) : List Int := (db.rows .schema_migrations).filterMap rowVersion

def latest (applied : List Int) : Int := applied.foldl (fun l v => if l < v then v else l) 0

def validateVersions (applied : List Int) : Except Incompatible Int :=
  if currentSchemaVersion < latest applied then .error (.exceeds (latest applied))
  else
    match applied.find? (· ≤ 0) with
    | some v => .error (.invalid v)
    | none =>
      match ((List.range (latest applied).toNat).map fun i : Nat => (i : Int) + 1).find? (· ∉ applied) with
      | some v => .error (.missing v (latest applied))
      | none => .ok (latest applied)

/-! ## The embedded files -/

/-- The SQL files of `migrations.SQL` in the order of their names. -/
def files : List (String × List (Stmt Name)) :=
  [("000001_init.down.sql", down1), ("000001_init.up.sql", up1),
   ("000002_operability.down.sql", down2), ("000002_operability.up.sql", up2),
   ("000003_ordering.down.sql", down3), ("000003_ordering.up.sql", up3),
   ("000004_inbox_lifecycle.down.sql", down4), ("000004_inbox_lifecycle.up.sql", up4)]

def migrationFiles (suffix : String) : List (String × List (Stmt Name)) :=
  files.filter fun f => suffix.toList.isSuffixOf f.1.toList

/-- The number before the first underscore. -/
def versionOf (name : String) : Option Nat :=
  let digits := name.toList.takeWhile (· ≠ '_')
  if digits.length = name.length || digits.isEmpty || !digits.all Char.isDigit then none
  else some (digits.foldl (fun n c => 10 * n + (c.toNat - 48)) 0)

/-- `INSERT INTO emitlane.schema_migrations (version) VALUES ($1)`. -/
def record (version : Nat) : Stmt Name := .insert .schema_migrations [[(.version, .int version)]] false

inductive MigrateError
  | incompatible (e : Incompatible)
  | sql (e : Ddl.Error Name)
  /-- A file name without a version, or no file for the version. -/
  | file
  deriving DecidableEq

/-- The loop of MigrateUp over the up files. -/
def upPlan (applied : List Int) : List (String × List (Stmt Name)) → Except MigrateError (List (Stmt Name))
  | [] => .ok []
  | f :: rest =>
    match versionOf f.1 with
    | none => .error .file
    | some version =>
      (upPlan applied rest).map fun script =>
        if (version : Int) ∈ applied then script else f.2 ++ record version :: script

/-- The locks MigrateDown takes before the script looks for state it must not drop. -/
def lockDowngrade : Int → List (Stmt Name)
  | 4 => [.lockTable [.inbox_events]]
  | 3 => [.lockTable [.ordering_partitions, .ordering_streams, .outbox_events]]
  | _ => []

/-- `downMigrationName` and the body of that file. -/
def downFile (version : Int) : List (String × List (Stmt Name)) → Except MigrateError (List (Stmt Name))
  | [] => .error .file
  | f :: rest =>
    match versionOf f.1 with
    | none => .error .file
    | some v => if (v : Int) = version then .ok f.2 else downFile version rest

inductive Kind
  | up
  | down
  deriving DecidableEq

/-- The statements a call executes after it has read the versions. -/
def plan (kind : Kind) (db : Db Name) : Except MigrateError (List (Stmt Name)) :=
  match validateVersions (appliedVersions db) with
  | .error e => .error (.incompatible e)
  | .ok version =>
    match kind with
    | .up => upPlan (appliedVersions db) (migrationFiles ".up.sql")
    | .down =>
      if version = 0 then .ok []
      else (downFile version (migrationFiles ".down.sql")).map (lockDowngrade version ++ ·)

/-- A call as one function: what its transaction leaves if it commits. -/
def migrate (E : Env Name) (kind : Kind) (db : Db Name) : Except MigrateError (Db Name) :=
  ((execAll E ensureMigrations db).mapError .sql).bind fun db =>
    (plan kind db).bind fun script => (execAll E script db).mapError .sql

/-! ## Versions of a database -/

/-- The history of version `v`. -/
def history (v : Nat) : List Int := (List.range v).map fun i : Nat => (i : Int) + 1

/-- The keys of the rows of a table. -/
def keys (t : Table Name) (rows : List (Row Name)) : List (List Value) := rows.map (project t.key)

/-- The rows the migrations seed, by their keys. -/
structure Seeded (v : Nat) (db : Db Name) : Prop where
  control : 2 ≤ v → keys runtimeControl (db.rows .runtime_control) = [[.bool true]]
  partitions : 3 ≤ v → keys orderingPartitions (db.rows .ordering_partitions) =
    (List.range 64).map fun i : Nat => [Value.int i]

/-- The database is at version `v`, and `schema_migrations` exists. -/
structure Ready (F : Functions Name) (v : Nat) (db : Db Name) : Prop where
  le : v ≤ 4
  schema : db.schema = true
  catalog : db.catalog = catalogAt v
  versions : appliedVersions db = history v
  seeded : Seeded v db
  valid : Valid F db

/-- The database is at version `v`; before the first migration it may lack `schema_migrations` and the namespace.  That
the rows of a table differ in its key is not part of it: programs that write rows may repeat a key. -/
structure At (F : Functions Name) (v : Nat) (db : Db Name) : Prop where
  le : v ≤ 4
  schema : db.schema = true ∨ db.catalog = .empty
  catalog : db.catalog = catalogAt v ∨ (v = 0 ∧ db.catalog = .empty)
  versions : appliedVersions db = history v
  seeded : Seeded v db
  valid : Valid F db

theorem validateVersions_history : ∀ v ≤ 4, validateVersions (history v) = .ok (v : Int) := by decide

theorem Ready.at {F : Functions Name} {v : Nat} {db : Db Name} (h : Ready F v db) : At F v db :=
  ⟨h.le, .inl h.schema, .inl h.catalog, h.versions, h.seeded, h.valid⟩

/-! ## The plans -/

/-- One round of MigrateUp. -/
def upStep (v : Nat) : List (Stmt Name) := up (v + 1) ++ [record (v + 1)]

/-- What MigrateUp executes at version `v`. -/
def upScript : Nat → List (Stmt Name)
  | 0 => upStep 0 ++ (upStep 1 ++ (upStep 2 ++ upStep 3))
  | 1 => upStep 1 ++ (upStep 2 ++ upStep 3)
  | 2 => upStep 2 ++ upStep 3
  | 3 => upStep 3
  | _ => []

/-- What MigrateDown executes at version `v + 1`. -/
def downScript (v : Nat) : List (Stmt Name) := lockDowngrade (v + 1 : Nat) ++ down (v + 1)

theorem upPlan_history : ∀ v ≤ 4, upPlan (history v) (migrationFiles ".up.sql") = .ok (upScript v) := by
  intro v hv
  interval_cases v <;> rfl

theorem downFile_version : ∀ v < 4, downFile (v + 1 : Nat) (migrationFiles ".down.sql") = .ok (down (v + 1)) := by
  decide

section

variable {E : Env Name} {F : Functions Name} {v : Nat} {db db' : Db Name}

theorem plan_up (h : Ready F v db) : plan .up db = .ok (upScript v) := by
  unfold plan
  rw [h.versions, validateVersions_history v h.le]
  exact upPlan_history v h.le

theorem plan_down_zero (h : Ready F 0 db) : plan .down db = .ok [] := by
  unfold plan
  rw [h.versions, validateVersions_history 0 h.le]
  rfl

theorem plan_down (h : Ready F (v + 1) db) : plan .down db = .ok (downScript v) := by
  have hv : v < 4 := h.le
  unfold plan
  rw [h.versions, validateVersions_history (v + 1) h.le]
  have hne : ¬ ((v + 1 : Nat) : Int) = 0 := by omega
  simp only [if_neg hne, downFile_version v hv]
  rfl

/-! ## One version up -/

theorem catalog_upStep (v : Nat) (hv : v < 4) : runCatalog (upStep v) (catalogAt v) = .ok (catalogAt (v + 1)) := by
  have hrecord : (record (v + 1)).catalog (catalogAt (v + 1)) = .ok (catalogAt (v + 1)) := by
    simp only [record, Stmt.catalog, table_history (v + 1) hv, Option.isSome_some, if_true]
  unfold upStep
  rw [runCatalog_append, catalog_up v hv]
  show ((record (v + 1)).catalog (catalogAt (v + 1))).bind _ = _
  rw [hrecord]
  rfl

theorem keepsSchema_upStep : ∀ v < 4, ∀ st ∈ upStep v, st.keepsSchema = true := by decide

theorem history_not_read : ∀ v < 4, ∀ st ∈ up (v + 1), .schema_migrations ∉ st.reads := by decide

/-- Migrations seed a table once. -/
theorem seeds_not_read : ∀ v < 4,
    (2 ≤ v → ∀ st ∈ upStep v, .runtime_control ∉ st.reads) ∧
      (3 ≤ v → ∀ st ∈ upStep v, .ordering_partitions ∉ st.reads) := by decide

theorem history_succ (v : Nat) : history (v + 1) = history v ++ [((v + 1 : Nat) : Int)] := by
  unfold history
  rw [List.range_succ, List.map_append]
  rfl

theorem appliedVersions_record (h : appliedVersions db = history v) {db' : Db Name}
    (hrows : db'.rows .schema_migrations =
      db.rows .schema_migrations ++ [schemaMigrations.fill E [(.version, .int (v + 1 : Nat))]]) :
    appliedVersions db' = history (v + 1) := by
  unfold appliedVersions at h ⊢
  rw [hrows, List.filterMap_append, h, history_succ]
  rfl

/-- The row of `runtime_control`. -/
theorem control_seeded {db₁ : Db Name} (hnil : db.rows .runtime_control = [])
    (h : exec E (.insert .runtime_control [[(.singleton, .bool true)]] true) db = .ok db₁)
    (ht : db.catalog.table .runtime_control = some runtimeControl) :
    keys runtimeControl (db₁.rows .runtime_control) = [[.bool true]] := by
  have hrows := exec_stmt_rows h
  simp only [Stmt.rows, ht] at hrows
  obtain ⟨rs, hrs, hupdate⟩ := onRows_ok hrows
  rw [hnil] at hrs
  obtain ⟨rs₁, hrow, hrest⟩ := bind_ok.mp hrs
  obtain rfl := Except.ok.inj hrest
  unfold insertRow at hrow
  split_ifs at hrow with hany hadmits
  · cases hany
  · rw [hupdate, Function.update_self, ← Except.ok.inj hrow]
    rfl

/-- The first half of version 2 makes the table. -/
theorem control_created (hcat : db.catalog = catalogAt 1) (h : execAll E up2Outbox db = .ok db') :
    db'.catalog.table .runtime_control = some runtimeControl := by
  have hrun := execAll_catalog h
  rw [hcat] at hrun
  have hclosed : (runCatalog up2Outbox (catalogAt 1)).map (·.table .runtime_control) = .ok (some runtimeControl) := by
    decide
  rw [hrun] at hclosed
  exact Except.ok.inj hclosed

theorem seeded_up2 (hrows : db.rows .runtime_control = []) (hcat : db.catalog = catalogAt 1)
    (h : execAll E (up2 ++ [record 2]) db = .ok db') : Seeded 2 db' := by
  obtain ⟨db₃, h, hrecord⟩ := execAll_append_ok h
  obtain ⟨db₁, hpre, h⟩ := execAll_append_ok h
  obtain ⟨db₂, hinsert, hpost⟩ := bind_ok.mp h
  refine ⟨fun _ => ?_, fun h => absurd h (by decide)⟩
  have hnil := execAll_rows_nil hpre (by decide) hrows
  have hkeep : db'.rows .runtime_control = db₂.rows .runtime_control := by
    rw [execAll_rows_of_not_reads hrecord (by decide), execAll_rows_of_not_reads hpost (by decide +kernel)]
  rw [hkeep]
  exact control_seeded hnil hinsert (control_created hcat hpre)

/-- The statements of version 3 before the seed. -/
def up3Outbox : List (Stmt Name) :=
  up3Columns ++ .addCheck .outbox_events .outbox_ordering_state_check orderingStateCheck ::
    .createIndex orderingSequenceIndex :: up3Tables

theorem partitions_created (hcat : db.catalog = catalogAt 2) (h : execAll E up3Outbox db = .ok db') :
    db'.catalog.table .ordering_partitions = some orderingPartitions := by
  have hrun := execAll_catalog h
  rw [hcat] at hrun
  have hclosed : (runCatalog up3Outbox (catalogAt 2)).map (·.table .ordering_partitions) =
      .ok (some orderingPartitions) := by decide
  rw [hrun] at hclosed
  exact Except.ok.inj hclosed

theorem seeded_up3 (hseeded : Seeded 2 db) (hrows : db.rows .ordering_partitions = []) (hcat : db.catalog = catalogAt 2)
    (h : execAll E (up3 ++ [record 3]) db = .ok db') : Seeded 3 db' := by
  have hcontrol : db'.rows .runtime_control = db.rows .runtime_control :=
    execAll_rows_of_not_reads h (by decide)
  refine ⟨fun _ => hcontrol ▸ hseeded.control (by decide), fun _ => ?_⟩
  obtain ⟨db₃, h, hrecord⟩ := execAll_append_ok h
  have hsplit : up3 = up3Outbox ++ .insert .ordering_partitions partitionSeed false :: up3Guard := rfl
  rw [hsplit] at h
  obtain ⟨db₁, hpre, h⟩ := execAll_append_ok h
  obtain ⟨db₂, hinsert, hpost⟩ := bind_ok.mp h
  have hnil := execAll_rows_nil hpre (by decide) hrows
  have hkeep : db'.rows .ordering_partitions = db₂.rows .ordering_partitions := by
    rw [execAll_rows_of_not_reads hrecord (by decide), execAll_rows_of_not_reads hpost (by decide +kernel)]
  rw [hkeep, exec_insert hinsert (partitions_created hcat hpre), hnil, List.nil_append]
  unfold keys partitionSeed
  rw [List.map_map, List.map_map]
  rfl

theorem absent_tables : (catalogAt 1).table .runtime_control = none ∧
    (catalogAt 2).table .ordering_partitions = none := by decide

theorem seeded_upStep (hready : Ready E.call v db) (hv : v < 4) (h : execAll E (upStep v) db = .ok db') :
    Seeded (v + 1) db' := by
  obtain ⟨hcontrol, hpartitions⟩ := seeds_not_read v hv
  interval_cases v
  · exact ⟨fun h => absurd h (by decide), fun h => absurd h (by decide)⟩
  · refine seeded_up2 (hready.valid.absent _ ?_) hready.catalog h
    rw [hready.catalog]
    exact absent_tables.1
  · refine seeded_up3 hready.seeded (hready.valid.absent _ ?_) hready.catalog h
    rw [hready.catalog]
    exact absent_tables.2
  · refine ⟨fun _ => ?_, fun _ => ?_⟩
    · rw [execAll_rows_of_not_reads h (hcontrol (by decide))]
      exact hready.seeded.control (by decide)
    · rw [execAll_rows_of_not_reads h (hpartitions le_rfl)]
      exact hready.seeded.partitions le_rfl

/-- A round of MigrateUp. -/
theorem ready_upStep (hready : Ready E.call v db) (hv : v < 4) (h : execAll E (upStep v) db = .ok db') :
    Ready E.call (v + 1) db' where
  le := hv
  schema := execAll_schema h (keepsSchema_upStep v hv) hready.schema
  catalog := by
    have hrun := execAll_catalog h
    rw [hready.catalog, catalog_upStep v hv] at hrun
    exact (Except.ok.inj hrun).symm
  versions := by
    obtain ⟨db₁, hup, hrecord⟩ := execAll_append_ok h
    obtain ⟨db₂, hinsert, hlast⟩ := bind_ok.mp hrecord
    obtain rfl := Except.ok.inj hlast
    have hcat : db₁.catalog.table .schema_migrations = some schemaMigrations := by
      have hrun := execAll_catalog hup
      rw [hready.catalog, catalog_up v hv] at hrun
      rw [← Except.ok.inj hrun]
      exact table_history (v + 1) hv
    refine appliedVersions_record (E := E) hready.versions ?_
    rw [exec_insert hinsert hcat, execAll_rows_of_not_reads hup (history_not_read v hv)]
    rfl
  seeded := seeded_upStep hready hv h
  valid := execAll_valid hready.valid h

/-- MigrateUp from any version. -/
theorem ready_upScript (hready : Ready E.call v db) (h : execAll E (upScript v) db = .ok db') : Ready E.call 4 db' := by
  have hle := hready.le
  have h3 : ∀ {db db' : Db Name}, Ready E.call 3 db → execAll E (upStep 3) db = .ok db' → Ready E.call 4 db' :=
    fun hready h => ready_upStep hready (by decide) h
  have h2 : ∀ {db db' : Db Name}, Ready E.call 2 db → execAll E (upStep 2 ++ upStep 3) db = .ok db' →
      Ready E.call 4 db' := by
    intro db db' hready h
    obtain ⟨db₁, h₁, h⟩ := execAll_append_ok h
    exact h3 (ready_upStep hready (by decide) h₁) h
  have h1 : ∀ {db db' : Db Name}, Ready E.call 1 db →
      execAll E (upStep 1 ++ (upStep 2 ++ upStep 3)) db = .ok db' →
      Ready E.call 4 db' := by
    intro db db' hready h
    obtain ⟨db₁, h₁, h⟩ := execAll_append_ok h
    exact h2 (ready_upStep hready (by decide) h₁) h
  interval_cases v
  · obtain ⟨db₁, h₁, h⟩ := execAll_append_ok h
    exact h1 (ready_upStep hready (by decide) h₁) h
  · exact h1 hready h
  · exact h2 hready h
  · exact h3 hready h
  · obtain rfl : db = db' := Except.ok.inj h
    exact hready

/-! ## One version down -/

/-- The locked tables exist. -/
theorem catalog_lock : ∀ v < 4, runCatalog (lockDowngrade (v + 1 : Nat)) (catalogAt (v + 1)) =
    .ok (catalogAt (v + 1)) := by
  have hclosed : ((catalogAt 4).table .inbox_events).isSome = true ∧
      [.ordering_partitions, .ordering_streams, .outbox_events].all (fun n => ((catalogAt 3).table n).isSome) =
      true := by
    decide
  intro v hv
  interval_cases v
  · rfl
  · rfl
  · simp only [Nat.reduceAdd, Nat.cast_ofNat, lockDowngrade, runCatalog, Stmt.catalog, hclosed.2, Except.bind, if_true]
  · simp only [Nat.reduceAdd, Nat.cast_ofNat, lockDowngrade, runCatalog, Stmt.catalog, List.all_cons, List.all_nil,
      hclosed.1, Bool.and_self, Except.bind, if_true]

theorem catalog_downScript (v : Nat) (hv : v < 4) : runCatalog (downScript v) (catalogAt (v + 1)) =
    .ok (if v = 0 then .empty else catalogAt v) := by
  unfold downScript
  rw [runCatalog_append, catalog_lock v hv]
  exact catalog_down v hv

/-- The last statement of a down script takes its version out of the history. -/
theorem downScript_forgets : ∀ v < 4, 0 < v → ∃ script, downScript v = script ++ [forget (v + 1 : Nat)] ∧
    (∀ st ∈ script, .schema_migrations ∉ st.reads) ∧ ∀ st ∈ downScript v, st.keepsSchema = true := by
  intro v hv hpos
  refine ⟨(downScript v).dropLast, ?_⟩
  interval_cases v <;> decide

theorem seeds_kept : ∀ v < 4,
    (2 ≤ v → ∀ st ∈ downScript v, .runtime_control ∉ st.reads) ∧
      (3 ≤ v → ∀ st ∈ downScript v, .ordering_partitions ∉ st.reads) := by decide

theorem history_filter : ∀ v < 4, (history (v + 1)).filter (· ≠ ((v + 1 : Nat) : Int)) = history v := by decide

theorem eval_version (r : Row Name) (n : Int) :
    (Cond.eq .version (.int n)).eval F r = some true ↔ rowVersion r = some n := by
  unfold rowVersion Cond.eval
  cases col r .version <;> simp

theorem filterMap_filter_ne {α : Type} (f : α → Option Int) (n : Int) (l : List α) :
    (l.filter fun x => f x ≠ some n).filterMap f = (l.filterMap f).filter (· ≠ n) := by
  induction l with
  | nil => rfl
  | cons x l ih =>
    rw [List.filter_cons, List.filterMap_cons]
    cases hx : f x with
    | none =>
      rw [if_pos (by simp), List.filterMap_cons_none hx]
      exact ih
    | some m =>
      by_cases hm : m = n
      · rw [if_neg (by simp [hm]), List.filter_cons_of_neg (by simp [hm])]
        exact ih
      · rw [if_pos (by simp [hm]), List.filterMap_cons_some hx, List.filter_cons_of_pos (by simp [hm]), ih]

/-- DELETE by version. -/
theorem appliedVersions_forget {n : Int} (hrows : db'.rows .schema_migrations =
    (db.rows .schema_migrations).filter fun r => (Cond.eq .version (.int n)).eval F r ≠ some true) :
    appliedVersions db' = (appliedVersions db).filter (· ≠ n) := by
  unfold appliedVersions
  rw [hrows, ← filterMap_filter_ne]
  congr 1
  exact List.filter_congr fun r _ => by simp [eval_version]

/-- MigrateDown from version `v + 1`. -/
theorem at_downScript (hready : Ready E.call (v + 1) db) (h : execAll E (downScript v) db = .ok db') :
    At E.call v db' := by
  have hv : v < 4 := hready.le
  have hvalid := execAll_valid hready.valid h
  have hcat := execAll_catalog h
  rw [hready.catalog, catalog_downScript v hv] at hcat
  have hcat := Except.ok.inj hcat
  rcases Nat.eq_zero_or_pos v with rfl | hpos
  · have hempty : db'.catalog = .empty := hcat.symm
    have hnil : db'.rows .schema_migrations = [] := hvalid.absent _ (by rw [hempty]; rfl)
    refine ⟨by decide, .inr hempty, .inr ⟨rfl, hempty⟩, ?_, ?_, hvalid⟩
    · unfold appliedVersions
      rw [hnil]
      rfl
    · exact ⟨fun h => absurd h (by decide), fun h => absurd h (by decide)⟩
  · rw [if_neg (by omega)] at hcat
    obtain ⟨script, hscript, hnotRead, hkeeps⟩ := downScript_forgets v hv hpos
    obtain ⟨hcontrol, hpartitions⟩ := seeds_kept v hv
    refine ⟨by omega, .inl (execAll_schema h hkeeps hready.schema), .inl hcat.symm, ?_,
      ⟨fun h2 => ?_, fun h3 => ?_⟩,
      hvalid⟩
    · rw [hscript] at h
      obtain ⟨db₁, hpre, hlast⟩ := execAll_append_ok h
      obtain ⟨db₂, hdelete, hnil⟩ := bind_ok.mp hlast
      obtain rfl := Except.ok.inj hnil
      have hversions : appliedVersions db₁ = history (v + 1) := by
        unfold appliedVersions
        rw [execAll_rows_of_not_reads hpre hnotRead]
        exact hready.versions
      rw [appliedVersions_forget (exec_delete hdelete), hversions, history_filter v hv]
    · rw [execAll_rows_of_not_reads h (hcontrol h2)]
      exact hready.seeded.control (by omega)
    · rw [execAll_rows_of_not_reads h (hpartitions h3)]
      exact hready.seeded.partitions (by omega)

/-! ## Calls -/

theorem ensure_rows (h : execAll E ensureMigrations db = .ok db') {T : Name} (hT : T ≠ .schema_migrations) :
    db'.rows T = db.rows T := by
  refine execAll_rows_of_not_reads h fun st hst => ?_
  rcases List.mem_cons.mp hst with rfl | hst
  · exact List.not_mem_nil
  · obtain rfl := List.mem_singleton.mp hst
    exact fun hmem => hT (List.mem_singleton.mp hmem)

theorem ensure_ready (hat : At E.call v db) (h : execAll E ensureMigrations db = .ok db') : Ready E.call v db' := by
  have hcat := execAll_catalog h
  have hvalid := execAll_valid hat.valid h
  have hschema : db'.schema = true := by
    obtain ⟨db₁, h₁, h⟩ := bind_ok.mp h
    refine execAll_schema h (by decide) ?_
    obtain ⟨-, -, -, c, rows, -, -, rfl⟩ := exec_ok_iff.mp h₁
    rfl
  have hseeded : Seeded v db' := by
    refine ⟨fun hv => ?_, fun hv => ?_⟩
    · rw [ensure_rows h (by decide)]
      exact hat.seeded.control hv
    · rw [ensure_rows h (by decide)]
      exact hat.seeded.partitions hv
  rcases hat.catalog with heq | ⟨rfl, heq⟩
  · have hmem : schemaMigrations.name ∈ (catalogAt v).relations := mem_relations (table_history v hat.le)
    have hsame : runCatalog ensureMigrations (catalogAt v) = .ok (catalogAt v) := by
      simp only [ensureMigrations, runCatalog, Stmt.catalog, Except.bind, if_pos hmem, if_true]
    rw [heq, hsame] at hcat
    refine ⟨hat.le, hschema, (Except.ok.inj hcat).symm, ?_, hseeded, hvalid⟩
    have hrows : db'.rows = db.rows := by
      obtain ⟨db₁, h₁, h⟩ := bind_ok.mp h
      obtain ⟨db₂, h₂, h⟩ := bind_ok.mp h
      obtain rfl := Except.ok.inj h
      have hrows₂ := exec_stmt_rows h₂
      have hcat₁ : db₁.catalog = catalogAt v := by
        rw [← Except.ok.inj (exec_catalog h₁), heq]
      simp only [Stmt.rows, hcat₁, if_pos hmem] at hrows₂
      rw [← Except.ok.inj hrows₂, ← Except.ok.inj (exec_stmt_rows h₁)]
    unfold appliedVersions
    rw [hrows]
    exact hat.versions
  · have hclosed : runCatalog ensureMigrations .empty = .ok (catalogAt 0) := by decide
    rw [heq, hclosed] at hcat
    refine ⟨hat.le, hschema, (Except.ok.inj hcat).symm, ?_, hseeded, hvalid⟩
    have hnil : db.rows .schema_migrations = [] := hat.valid.absent _ (by rw [heq]; rfl)
    unfold appliedVersions
    rw [execAll_rows_nil h (by decide) hnil]
    rfl

/-- `ensureMigrations` the second time. -/
theorem ensure_same {F : Functions Name} (hready : Ready F v db) (h : execAll E ensureMigrations db = .ok db') :
    db = db' := by
  obtain ⟨db₁, h₁, h⟩ := bind_ok.mp h
  obtain ⟨db₂, h₂, h⟩ := bind_ok.mp h
  obtain rfl := Except.ok.inj h
  have hmem : schemaMigrations.name ∈ db.catalog.relations :=
    hready.catalog ▸ mem_relations (table_history v hready.le)
  have hfirst : db = db₁ := by
    obtain ⟨-, -, -, c, rows, hc, hrows, rfl⟩ := exec_ok_iff.mp h₁
    rw [← Except.ok.inj hc, ← Except.ok.inj hrows]
    exact congrArg (Db.mk · db.catalog db.rows) hready.schema
  subst hfirst
  obtain ⟨-, -, -, c, rows, hc, hrows, rfl⟩ := exec_ok_iff.mp h₂
  simp only [Stmt.catalog, Stmt.rows, if_pos hmem, if_true] at hc hrows
  rw [← Except.ok.inj hc, ← Except.ok.inj hrows]
  rfl

theorem mapError_ok {ε ε' α : Type} {f : ε → ε'} {x : Except ε α} {a : α} (h : x.mapError f = .ok a) :
    x = .ok a := by
  cases x with
  | error e => cases h
  | ok b => exact congrArg Except.ok (Except.ok.inj h)

/-- A call from its parts. -/
theorem migrate_ok {kind : Kind} {db₁ : Db Name} {script : List (Stmt Name)}
    (hensure : execAll E ensureMigrations db = .ok db₁)
    (hplan : plan kind db₁ = .ok script) (hexec : execAll E script db₁ = .ok db') :
    migrate E kind db = .ok db' := by
  unfold migrate
  rw [hensure]
  show (plan kind db₁).bind _ = _
  rw [hplan]
  show (execAll E script db₁).mapError _ = _
  rw [hexec]
  rfl

/-- The version after a call. -/
def Kind.version (v : Nat) : Kind → Nat
  | .up => 4
  | .down => v - 1

/-- **A call takes version to version.** -/
theorem migrate_at {kind : Kind} (hat : At E.call v db) (h : migrate E kind db = .ok db') :
    At E.call (kind.version v) db' := by
  obtain ⟨db₁, hensure, h⟩ := bind_ok.mp h
  have hready := ensure_ready hat (mapError_ok hensure)
  obtain ⟨script, hplan, h⟩ := bind_ok.mp h
  have h := mapError_ok h
  cases kind with
  | up =>
    rw [plan_up hready] at hplan
    obtain rfl := Except.ok.inj hplan
    exact (ready_upScript hready h).at
  | down =>
    cases v with
    | zero =>
      rw [plan_down_zero hready] at hplan
      obtain rfl := Except.ok.inj hplan
      obtain rfl : db₁ = db' := Except.ok.inj h
      exact hready.at
    | succ v =>
      rw [plan_down hready] at hplan
      obtain rfl := Except.ok.inj hplan
      exact at_downScript hready h

end

end Emitlane.Migrations
