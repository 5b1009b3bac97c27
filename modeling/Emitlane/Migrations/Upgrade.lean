import Emitlane.Migrations.Migrate

/-!
# Migrations.Upgrade — MigrateUp succeeds

From every version, whatever the tables contain, MigrateUp reaches the current version, as long as no object of others
in the namespace has one of its names.  New columns have defaults that pass the new constraints, so old rows never stop
an upgrade, and they are kept.

* `upStep_succeeds`: one round; `migrateUp_succeeds`: the call.
* `migrateUp_rows`: what happens to the rows.
* `doctor`: what `emitlane doctor` finds wrong with the schema.
-/

namespace Emitlane.Migrations

open Ddl

section

variable {E : Env Name} {v : Nat} {db db' : Db Name}

/-- The names the migrations take. -/
def ownNames : List Name := (ensureMigrations ++ up1 ++ up2 ++ up3 ++ up4).flatMap Stmt.creates

/-- No object of others has such a name. -/
def NoClash (E : Env Name) : Prop := ∀ n ∈ ownNames, n ∉ E.foreign

theorem creates_upStep : ∀ v < 4, ∀ st ∈ upStep v, ∀ n ∈ st.creates, n ∈ ownNames := by decide

/-- MigrateUp drops nothing that others may use. -/
theorem breaks_upStep : ∀ v < 4, ∀ st ∈ upStep v, ∀ u, st.breaks u = false := by
  have hdrops : ∀ v < 4, ∀ st ∈ upStep v, st.dropsObject = false := by decide
  exact fun v hv st hst u => Stmt.breaks_eq_false (hdrops v hv st hst) u

theorem runnable_upStep (h : Ready E.call v db) (hv : v < 4) (hclash : NoClash E) : Runnable E (upStep v) db where
  schema := h.schema
  keeps := keepsSchema_upStep v hv
  foreign st hst n hn := hclash n (creates_upStep v hv st hst n hn)
  uses st hst u _ := breaks_upStep v hv st hst u
  catalog := ⟨_, h.catalog ▸ catalog_upStep v hv⟩

/-! ## The record -/

theorem admits_history (F : Functions Name) (n : Int) :
    schemaMigrations.Admits F (schemaMigrations.fill E [(.version, .int n)]) where
  names := rfl
  notNull c hc _ := by
    have hcases : c = required .version ∨ c = stamped .applied_at := by simpa [schemaMigrations] using hc
    rcases hcases with rfl | rfl
    · exact Value.noConfusion
    · exact Value.noConfusion
  checks k hk := by cases hk

/-- A new version is recorded. -/
theorem record_succeeds {rest : List (Stmt Name)} (h : Runnable E (record (v + 1) :: rest) db)
    (ht : db.catalog.table .schema_migrations = some schemaMigrations) (hversions : appliedVersions db = history v) :
    ∃ db', exec E (record (v + 1)) db = .ok db' ∧ Runnable E rest db' := by
  refine h.insert ht (fun x hx g hg heq => ?_) (List.nodup_singleton _) fun g hg => ?_
  · obtain rfl := List.mem_singleton.mp hg
    have hcol : col x .version = .int (v + 1 : Nat) := (List.cons.inj heq).1
    have hmem : ((v + 1 : Nat) : Int) ∈ appliedVersions db :=
      List.mem_filterMap.mpr ⟨x, hx, by simp only [rowVersion, hcol]⟩
    rw [hversions] at hmem
    obtain ⟨i, hi, heq⟩ := List.mem_map.mp hmem
    have := List.mem_range.mp hi
    omega
  · obtain rfl := List.mem_singleton.mp hg
    exact admits_history E.call _

/-- A round whose script has succeeded. -/
theorem upStep_of_up (h : Ready E.call v db) (hv : v < 4) {db₁ : Db Name}
    (hup : execAll E (up (v + 1)) db = .ok db₁)
    (hrun : Runnable E [record (v + 1)] db₁) : ∃ db', execAll E (upStep v) db = .ok db' := by
  have hcat : db₁.catalog.table .schema_migrations = some schemaMigrations := by
    have hrun := execAll_catalog hup
    rw [h.catalog, catalog_up v hv] at hrun
    rw [← Except.ok.inj hrun]
    exact table_history (v + 1) hv
  have hversions : appliedVersions db₁ = history v := by
    unfold appliedVersions
    rw [execAll_rows_of_not_reads hup (history_not_read v hv)]
    exact h.versions
  obtain ⟨db', hrecord, -⟩ := record_succeeds hrun hcat hversions
  exact ⟨db', (execAll_append _ _ db).trans (bind_ok.mpr ⟨db₁, hup, bind_ok.mpr ⟨db', hrecord, rfl⟩⟩)⟩

/-! ## The scripts -/

theorem upStep_zero (h : Ready E.call 0 db) (hclash : NoClash E) : ∃ db', execAll E (upStep 0) db = .ok db' := by
  have hrun : Runnable E (up1 ++ [record 1]) db := runnable_upStep h (by decide) hclash
  obtain ⟨db₁, hup, hrest⟩ := hrun.unconditional (by decide)
  exact upStep_of_up h (by decide) hup hrest

theorem admits_control (F : Functions Name) :
    runtimeControl.Admits F (runtimeControl.fill E [(.singleton, .bool true)]) where
  names := rfl
  notNull c hc hnot := by
    have hcases : c = defaulted .singleton (.bool true) ∨ c = defaulted .paused (.bool false) ∨
      c = optional .reason ∨
        c = stamped .updated_at ∨ c = defaulted .updated_by (.text "migration") := by simpa [runtimeControl] using hc
    rcases hcases with rfl | rfl | rfl | rfl | rfl
    · exact Value.noConfusion
    · exact Value.noConfusion
    · cases hnot
    · exact Value.noConfusion
    · exact Value.noConfusion
  checks k hk := by
    have hcases : k = (.runtime_control_singleton_check, .isTrue .singleton) ∨
        k = (.runtime_control_actor_check, filled .updated_by) := by simpa [runtimeControl] using hk
    rcases hcases with rfl | rfl
    · exact fun heq => by cases heq
    · exact fun heq => by cases heq

theorem upStep_one (h : Ready E.call 1 db) (hclash : NoClash E) : ∃ db', execAll E (upStep 1) db = .ok db' := by
  have hrun : Runnable E (up2Outbox ++ (.insert .runtime_control [[(.singleton, .bool true)]] true ::
      (up2Tables ++ [record 2]))) db := runnable_upStep h (by decide) hclash
  obtain ⟨db₁, hpre, hrun⟩ := hrun.unconditional (by decide)
  have hnil : db₁.rows .runtime_control = [] := by
    refine execAll_rows_nil hpre (by decide) (h.valid.absent _ ?_)
    rw [h.catalog]
    exact absent_tables.1
  have ht : db₁.catalog.table .runtime_control = some runtimeControl := control_created h.catalog hpre
  obtain ⟨db₂, hinsert, hrun⟩ := hrun.insert ht (fun x hx => by rw [hnil] at hx; cases hx)
    (List.nodup_singleton _)
    fun g hg => List.mem_singleton.mp hg ▸ admits_control E.call
  obtain ⟨db₃, hpost, hrun⟩ := hrun.unconditional (by decide)
  refine upStep_of_up h (by decide) ?_ hrun
  exact (execAll_append _ _ db).trans (bind_ok.mpr ⟨db₁, hpre, bind_ok.mpr ⟨db₂, hinsert, hpost⟩⟩)

/-- The columns version 3 adds to an event. -/
def unordered : Row Name := [(.ordering_key, .null), (.ordering_sequence, .null), (.ordering_partition, .null)]

theorem rowMap_up3Columns (r : Row Name) : rowMap E .outbox_events up3Columns r = r ++ unordered := by
  simp [rowMap, up3Columns, Stmt.rowMap, unordered, optional, Default.eval]

theorem outbox_columns : ((catalogAt 2).table .outbox_events).map (·.columnNames) =
    some (outboxEvents.columnNames ++ [.replayed_from_event_id, .replay_batch_id]) := by decide

/-- The rows of a table at a version have its columns. -/
theorem Ready.names (h : Ready E.call v db) {n : Name} {columns : List Name}
    (hcolumns : ((catalogAt v).table n).map (·.columnNames) = some columns) {r : Row Name} (hr : r ∈ db.rows n) :
    names r = columns := by
  rw [← h.catalog] at hcolumns
  obtain ⟨t, ht, rfl⟩ := Option.map_eq_some_iff.mp hcolumns
  exact (h.valid.admits n t ht r hr).names

theorem col_unordered {r : Row Name} (hr : names r = outboxEvents.columnNames ++
      [.replayed_from_event_id, .replay_batch_id]) :
    ∀ c ∈ Ddl.names unordered, col (r ++ unordered) c = .null := by
  have hclosed : ∀ c ∈ Ddl.names unordered,
      c ∉ outboxEvents.columnNames ++ [.replayed_from_event_id, .replay_batch_id] ∧ col unordered c = .null := by
    decide
  intro c hc
  obtain ⟨hfresh, hnull⟩ := hclosed c hc
  rw [col_append_of_not_mem (hr ▸ hfresh)]
  exact hnull

theorem admits_partition (F : Functions Name) {i : Nat} (hi : i < 64) :
    orderingPartitions.Admits F (orderingPartitions.fill E [(.partition_id, .int i)]) where
  names := rfl
  notNull c hc hnot := by
    have hcases : c = required .partition_id ∨ c = optional .lease_owner ∨ c = optional .lease_until ∨
        c = defaulted .epoch (.int 0) ∨ c = optional .handoff_not_before ∨ c = optional .publish_timeout_ms ∨
        c = stamped .updated_at := by simpa [orderingPartitions] using hc
    rcases hcases with rfl | rfl | rfl | rfl | rfl | rfl | rfl
    · exact Value.noConfusion
    · cases hnot
    · cases hnot
    · exact Value.noConfusion
    · cases hnot
    · cases hnot
    · exact Value.noConfusion
  checks k hk := by
    have hid : col (orderingPartitions.fill E [(.partition_id, .int i)]) .partition_id = .int i := rfl
    have hepoch : col (orderingPartitions.fill E [(.partition_id, .int i)]) .epoch = .int 0 := rfl
    have hnull : ∀ c ∈ [.lease_owner, .lease_until, .publish_timeout_ms],
        col (orderingPartitions.fill E [(.partition_id, .int i)]) c = .null := by
      intro c hc
      have hcases : c = .lease_owner ∨ c = .lease_until ∨ c = .publish_timeout_ms := by simpa using hc
      rcases hcases with rfl | rfl | rfl <;> rfl
    have hi' : (i : Int) ≤ 63 := by omega
    simp only [orderingPartitions, List.mem_cons, List.not_mem_nil, or_false] at hk
    rcases hk with rfl | rfl | rfl | rfl
    · simp [Cond.eval, hid, and3, hi']
    · simp [Cond.eval, hepoch]
    · simp [Cond.eval, hnull, or3]
    · simp [Cond.eval, hnull, or3, and3]

theorem partitionSeed_nodup :
    (partitionSeed.map fun g => project orderingPartitions.key (orderingPartitions.fill E g)).Nodup := by
  unfold partitionSeed
  rw [List.map_map]
  refine List.Nodup.map (fun i j heq => ?_) List.nodup_range
  exact Int.ofNat.inj (Value.int.inj (List.cons.inj heq).1)

theorem upStep_two (h : Ready E.call 2 db) (hclash : NoClash E) : ∃ db', execAll E (upStep 2) db = .ok db' := by
  have hrun : Runnable E (up3Columns ++ (List.map (fun k : Name × Cond Name => Stmt.addCheck .outbox_events k.1 k.2)
      [(.outbox_ordering_state_check, orderingStateCheck)] ++ .createIndex orderingSequenceIndex ::
        (up3Tables ++ .insert .ordering_partitions partitionSeed false :: (up3Guard ++ [record 3])))) db :=
    runnable_upStep h (by decide) hclash
  obtain ⟨db₁, hcolumns, hrun⟩ := hrun.unconditional (by decide)
  have hrows : ∀ r ∈ db₁.rows .outbox_events, ∀ c ∈ Ddl.names unordered, col r c = .null := by
    rw [execAll_rows hcolumns (by decide)]
    intro r hr
    obtain ⟨r₀, hr₀, rfl⟩ := List.mem_map.mp hr
    rw [rowMap_up3Columns]
    exact col_unordered (h.names outbox_columns hr₀)
  obtain ⟨db₂, hcheck, hrun⟩ := hrun.checks fun k hk r hr => by
    obtain rfl := List.mem_singleton.mp hk
    have hnull := hrows r hr
    simp [orderingStateCheck, Cond.eval, and3, or3, hnull _ (by decide : .ordering_key ∈ Ddl.names unordered),
      hnull _ (by decide : .ordering_sequence ∈ Ddl.names unordered),
      hnull _ (by decide : .ordering_partition ∈ Ddl.names unordered)]
  have hrows₂ : db₂.rows .outbox_events = db₁.rows .outbox_events :=
    (execAll_rows hcheck (by decide)).trans (List.map_id' _)
  obtain ⟨db₃, hindex, hrun⟩ := hrun.uniqueIndex fun r hr => by
    rw [show orderingSequenceIndex.table = .outbox_events from rfl, hrows₂] at hr
    simp [orderingSequenceIndex, notNull, Cond.eval, hrows r hr _ (by decide : .ordering_key ∈ Ddl.names unordered)]
  obtain ⟨db₄, htables, hrun⟩ := hrun.unconditional (by decide)
  have hpre : execAll E up3Outbox db = .ok db₄ := by
    refine (execAll_append up3Columns _ db).trans (bind_ok.mpr ⟨db₁, hcolumns, ?_⟩)
    obtain ⟨db₂', hcheck', hnil⟩ := bind_ok.mp hcheck
    obtain rfl := Except.ok.inj hnil
    exact bind_ok.mpr ⟨_, hcheck', bind_ok.mpr ⟨db₃, hindex, htables⟩⟩
  have hnil : db₄.rows .ordering_partitions = [] := by
    refine execAll_rows_nil hpre (by decide) (h.valid.absent _ ?_)
    rw [h.catalog]
    exact absent_tables.2
  obtain ⟨db₅, hinsert, hrun⟩ := hrun.insert (partitions_created h.catalog hpre)
    (fun x hx => by rw [hnil] at hx; cases hx) partitionSeed_nodup fun g hg => by
      obtain ⟨i, hi, rfl⟩ := List.mem_map.mp hg
      exact admits_partition E.call (List.mem_range.mp hi)
  obtain ⟨db₆, hguard, hrun⟩ := hrun.unconditional (by decide)
  refine upStep_of_up h (by decide) ?_ hrun
  exact (execAll_append up3Outbox _ db).trans (bind_ok.mpr ⟨db₄, hpre, bind_ok.mpr ⟨db₅, hinsert, hguard⟩⟩)

/-- The columns version 4 adds to a processed row. -/
def legacy (E : Env Name) : Row Name :=
  [(.status, .text "processed"), (.attempts, .int 0), (.available_at, .int E.now), (.lease_owner, .null),
   (.lease_token, .null), (.lease_until, .null), (.last_error, .null), (.first_seen_at, .int E.now),
   (.updated_at, .int E.now), (.source_topic, .null), (.source_partition, .null), (.source_offset, .null),
   (.source_timestamp, .null)]

theorem rowMap_up4Columns (r : Row Name) : rowMap E .inbox_events up4Columns r = r ++ legacy E := by
  simp [rowMap, up4Columns, Stmt.rowMap, legacy, optional, defaulted, stamped, Default.eval]

theorem inbox_table : (catalogAt 3).table .inbox_events = some inboxEvents := by decide

/-- A row of version 3 under the constraints of version 4. -/
theorem legacy_checked {r : Row Name} (h : inboxEvents.Admits E.call r) :
    ∀ k ∈ inboxChecks, k.2.eval E.call (r ++ legacy E) ≠ some false := by
  have hnames : ∀ c ∈ names (legacy E), col (r ++ legacy E) c = col (legacy E) c := by
    have hclosed : ∀ c ∈ [.status, .attempts, .available_at, .lease_owner, .lease_token, .lease_until, .last_error,
        .first_seen_at, .updated_at, .source_topic, .source_partition, .source_offset, .source_timestamp],
        c ∉ inboxEvents.columnNames := by decide
    intro c hc
    exact col_append_of_not_mem (h.names ▸ hclosed c hc) _
  have hprocessed : col (r ++ legacy E) .processed_at ≠ .null := by
    rw [col_append_of_mem (h.names ▸ by decide)]
    exact h.notNull (stamped .processed_at) (by decide) rfl
  have hstatus : col (r ++ legacy E) .status = .text "processed" := hnames _ (by simp [names, legacy])
  have hattempts : col (r ++ legacy E) .attempts = .int 0 := hnames _ (by simp [names, legacy])
  have hnull : ∀ c ∈ [.lease_owner, .lease_token, .lease_until, .source_topic, .source_partition, .source_offset,
      .source_timestamp], col (r ++ legacy E) c = .null := by
    intro c hc
    simp only [List.mem_cons, List.not_mem_nil, or_false] at hc
    rcases hc with rfl | rfl | rfl | rfl | rfl | rfl | rfl <;> exact hnames _ (by simp [names, legacy])
  intro k hk
  simp only [inboxChecks, List.mem_cons, List.not_mem_nil, or_false] at hk
  rcases hk with rfl | rfl | rfl | rfl | rfl
  · simp [Cond.mem, Cond.eval, hstatus, or3]
  · simp [Cond.eval, hattempts]
  · simp [is, notNull, Cond.eval, hstatus, hnull, and3, or3]
  · simp [is, notNull, Cond.eval, hstatus, hprocessed]
  · simp [is, notNull, Cond.eval, hstatus, hnull, and3, or3]

theorem upStep_three (h : Ready E.call 3 db) (hclash : NoClash E) : ∃ db', execAll E (upStep 3) db = .ok db' := by
  have hrun : Runnable E (up4Columns ++ (inboxChecks.map (fun k => Stmt.addCheck .inbox_events k.1 k.2) ++
      (up4Indexes ++ .createIndex inboxSourceIndex :: (up4Guard ++ [record 4])))) db :=
    runnable_upStep h (by decide) hclash
  obtain ⟨db₁, hcolumns, hrun⟩ := hrun.unconditional (by decide)
  have hrows : ∀ r ∈ db₁.rows .inbox_events, ∃ r₀, inboxEvents.Admits E.call r₀ ∧
    r = r₀ ++ legacy E := by
    rw [execAll_rows hcolumns (by decide)]
    intro r hr
    obtain ⟨r₀, hr₀, rfl⟩ := List.mem_map.mp hr
    exact ⟨r₀, h.valid.admits _ _ (h.catalog ▸ inbox_table) r₀ hr₀, rowMap_up4Columns r₀⟩
  obtain ⟨db₂, hchecks, hrun⟩ := hrun.checks fun k hk r hr => by
    obtain ⟨r₀, hr₀, rfl⟩ := hrows r hr
    exact legacy_checked hr₀ k hk
  obtain ⟨db₃, hindexes, hrun⟩ := hrun.unconditional (by decide)
  have hrows₃ : db₃.rows .inbox_events = db₁.rows .inbox_events := by
    rw [execAll_rows hindexes (by decide), execAll_rows hchecks (by decide +kernel)]
    exact (List.map_id' _).trans (List.map_id' _)
  obtain ⟨db₄, hindex, hrun⟩ := hrun.uniqueIndex fun r hr => by
    rw [show inboxSourceIndex.table = .inbox_events from rfl, hrows₃] at hr
    obtain ⟨r₀, hr₀, rfl⟩ := hrows r hr
    have hclosed : .source_topic ∉ inboxEvents.columnNames := by decide
    have hnull : col (r₀ ++ legacy E) .source_topic = .null := col_append_of_not_mem (hr₀.names ▸ hclosed) _
    simp [inboxSourceIndex, notNull, Cond.eval, hnull]
  obtain ⟨db₅, hguard, hrun⟩ := hrun.unconditional (by decide)
  refine upStep_of_up h (by decide) ?_ hrun
  refine (execAll_append up4Columns _ db).trans (bind_ok.mpr ⟨db₁, hcolumns, ?_⟩)
  refine (execAll_append _ _ db₁).trans (bind_ok.mpr ⟨db₂, hchecks, ?_⟩)
  refine (execAll_append up4Indexes _ db₂).trans (bind_ok.mpr ⟨db₃, hindexes, ?_⟩)
  exact bind_ok.mpr ⟨db₄, hindex, hguard⟩

/-! ## Whole calls -/

theorem upStep_succeeds (h : Ready E.call v db) (hv : v < 4) (hclash : NoClash E) :
    ∃ db', execAll E (upStep v) db = .ok db' ∧ Ready E.call (v + 1) db' := by
  have hok : ∃ db', execAll E (upStep v) db = .ok db' := by
    interval_cases v
    · exact upStep_zero h hclash
    · exact upStep_one h hclash
    · exact upStep_two h hclash
    · exact upStep_three h hclash
  obtain ⟨db', hok⟩ := hok
  exact ⟨db', hok, ready_upStep h hv hok⟩

theorem upScript_succ : ∀ v < 4, upScript v = upStep v ++ upScript (v + 1) := by
  intro v hv
  interval_cases v
  · rfl
  · rfl
  · rfl
  · exact (List.append_nil _).symm

/-- From a version that is `n` below the current one. -/
theorem upScript_succeeds (hclash : NoClash E) :
    ∀ (n : Nat) {v : Nat} {db : Db Name}, v + n = 4 → Ready E.call v db →
    ∃ db', execAll E (upScript v) db = .ok db'
  | 0, v, db, hv, _ => by
    obtain rfl : v = 4 := hv
    exact ⟨db, rfl⟩
  | n + 1, v, db, hv, h => by
    have hlt : v < 4 := by omega
    obtain ⟨db₁, hstep, hready⟩ := upStep_succeeds h hlt hclash
    obtain ⟨db', hrest⟩ := upScript_succeeds hclash n (by omega) hready
    exact ⟨db', by rw [upScript_succ v hlt, execAll_append, hstep]; exact hrest⟩

/-- The history is found or can be created. -/
theorem ensure_succeeds (db : Db Name)
    (hname : schemaMigrations.name ∈ E.foreign → schemaMigrations.name ∈ db.catalog.relations) :
    ∃ db', execAll E ensureMigrations db = .ok db' := by
  obtain ⟨db₁, h₁⟩ : ∃ db₁, exec E .createSchema db = .ok db₁ :=
    ⟨_, exec_ok_iff.mpr ⟨.inl rfl, (fun n hn => by cases hn), fun _ _ => rfl, _, _, rfl, rfl, rfl⟩⟩
  have hschema : db₁.schema = true := by
    obtain ⟨-, -, -, c, rows, -, -, rfl⟩ := exec_ok_iff.mp h₁
    rfl
  have hcat₁ : db₁.catalog = db.catalog := (Except.ok.inj (exec_catalog h₁)).symm
  have hcat : ∃ c, (Stmt.createTable schemaMigrations true).catalog db₁.catalog = .ok c := by
    have hwf : schemaMigrations.wellFormed = true := rfl
    simp only [Stmt.catalog, hwf, if_true]
    split_ifs
    · exact ⟨_, rfl⟩
    · exact ⟨_, rfl⟩
  obtain ⟨c, hcat⟩ := hcat
  have hforeign : ∀ n ∈ (Stmt.createTable schemaMigrations true).creates, n ∈ E.foreign →
    n ∈ db₁.catalog.relations := by
    intro n hn
    obtain rfl := List.mem_singleton.mp hn
    exact hcat₁ ▸ hname
  obtain ⟨db₂, h₂⟩ := exec_succeeds hschema hforeign (fun _ _ => rfl) hcat (rows_unconditional rfl _ _)
  exact ⟨db₂, bind_ok.mpr ⟨db₁, h₁, bind_ok.mpr ⟨db₂, h₂, rfl⟩⟩⟩

theorem migrateUp_succeeds (hat : At E.call v db) (hclash : NoClash E) :
    ∃ db', migrate E .up db = .ok db' ∧ Ready E.call 4 db' := by
  obtain ⟨db₁, hensure⟩ := ensure_succeeds db fun hmem => absurd hmem (hclash _ (by decide))
  have hready := ensure_ready hat hensure
  obtain ⟨db', hscript⟩ := upScript_succeeds hclash (4 - v) (by have := hat.le; omega) hready
  exact ⟨db', migrate_ok hensure (plan_up hready) hscript, ready_upScript hready hscript⟩

/-! ## Rows are kept -/

theorem upScript_keeps : ∀ v ≤ 4, (∀ st ∈ upScript v, st.drops = false) ∧
    ∀ t ∈ (catalogAt v).tables, t.name ≠ .schema_migrations → ∀ st ∈ upScript v,
    st.replaces t.name = false := by
  decide

/-- The rows of a table of version `v` after MigrateUp. -/
theorem migrateUp_rows (hat : At E.call v db) (h : migrate E .up db = .ok db') {t : Table Name}
    (ht : t ∈ (catalogAt v).tables)
    (hT : t.name ≠ .schema_migrations) : db'.rows t.name =
    (db.rows t.name).map (· ++ added E t.name (upScript v)) := by
  obtain ⟨db₁, hensure, h⟩ := bind_ok.mp h
  have hensure := mapError_ok hensure
  have hready := ensure_ready hat hensure
  obtain ⟨script, hplan, h⟩ := bind_ok.mp h
  rw [plan_up hready] at hplan
  obtain rfl := Except.ok.inj hplan
  obtain ⟨hdrops, hreplaces⟩ := upScript_keeps v hat.le
  rw [execAll_rows (mapError_ok h) (hreplaces t ht hT), ensure_rows hensure hT]
  exact List.map_congr_left fun r _ => rowMap_added r hdrops

/-! ## What doctor asks -/

def requiredIndexes : List Name :=
  [.outbox_pending_idx, .outbox_inflight_lease_idx, .outbox_dead_idx, .outbox_created_idx,
   .outbox_status_created_idx, .outbox_destination_type_created_idx, .outbox_replay_batch_idx,
   .admin_audit_created_idx, .outbox_ordering_sequence_unique_idx, .outbox_ordered_claim_idx,
   .ordering_stream_partition_idx, .inbox_due_idx, .inbox_expired_lease_idx, .inbox_dead_idx,
   .inbox_source_unique_idx, .inbox_processed_retention_idx]

def requiredTables : List Name :=
  [.outbox_events, .inbox_events, .runtime_control, .relay_instances, .admin_audit_log, .ordering_streams,
   .ordering_partitions]

def requiredColumns : List Name :=
  [.replayed_from_event_id, .replay_batch_id, .ordering_key, .ordering_sequence, .ordering_partition]

def requiredConstraints : List (Name × Name) :=
  [(.outbox_events, .outbox_ordering_state_check), (.ordering_streams, .ordering_stream_partition_check),
   (.ordering_streams, .ordering_stream_start_check), (.ordering_streams, .ordering_stream_next_check),
   (.ordering_partitions, .ordering_partition_lease_check), (.ordering_partitions, .ordering_partition_epoch_check),
   (.inbox_events, .inbox_status_check), (.inbox_events, .inbox_attempts_check),
   (.inbox_events, .inbox_lease_state_check), (.inbox_events, .inbox_processed_state_check),
   (.inbox_events, .inbox_source_metadata_check)]

def tableExists (c : Catalog Name) (n : Name) : Bool := (c.table n).isSome

def indexExists (c : Catalog Name) (n : Name) : Bool := c.indexes.any (·.name = n)

def columnExists (c : Catalog Name) (n column : Name) : Bool := (c.table n).any (column ∈ ·.columnNames)

def constraintExists (c : Catalog Name) (n name : Name) : Bool := (c.table n).any (name ∈ ·.checks.map (·.1))

/-- `SELECT COUNT(*)`; a missing table is an error. -/
def orderingPartitionCount (db : Db Name) : Option Nat :=
  if tableExists db.catalog .ordering_partitions then some (db.rows .ordering_partitions).length else none

def runtimeControlExists (db : Db Name) : Bool :=
  tableExists db.catalog .runtime_control && (db.rows .runtime_control).any fun r => col r .singleton = .bool true

/-- `SchemaVersion`. -/
def schemaVersion (db : Db Name) : Except Incompatible Int :=
  if tableExists db.catalog .schema_migrations then validateVersions (appliedVersions db) else .ok 0

/-- A check of the schema that doctorCmd reports as failed. -/
inductive Failed
  | schema
  | migrations
  | index (n : Name)
  | table (n : Name)
  | column (n : Name)
  | constraint (table n : Name)
  | partitionSeed
  | controlSingleton

/-- The checks of the schema that doctorCmd makes. -/
def doctor (db : Db Name) : List Failed :=
  (if db.schema then
      match schemaVersion db with
      | .error _ => [.schema, .migrations]
      | .ok version => if version ≠ currentSchemaVersion then [.migrations] else []
    else [.schema]) ++
    (requiredIndexes.filter fun n => !indexExists db.catalog n).map .index ++
    (requiredTables.filter fun n => !tableExists db.catalog n).map .table ++
    (requiredColumns.filter fun c => !columnExists db.catalog .outbox_events c).map .column ++
    (requiredConstraints.filter fun k => !constraintExists db.catalog k.1 k.2).map (fun k => .constraint k.1 k.2) ++
    (if orderingPartitionCount db = some 64 then [] else [.partitionSeed]) ++
    (if runtimeControlExists db then [] else [.controlSingleton])

theorem doctor_objects :
    (∀ n ∈ requiredIndexes, indexExists (catalogAt 4) n = true) ∧
    (∀ n ∈ requiredTables, tableExists (catalogAt 4) n = true) ∧
    (∀ c ∈ requiredColumns, columnExists (catalogAt 4) .outbox_events c = true) ∧
    (∀ k ∈ requiredConstraints, constraintExists (catalogAt 4) k.1 k.2 = true) := by decide

theorem filter_not_nil {α : Type} {p : α → Bool} {l : List α} (h : ∀ x ∈ l, p x = true) :
    l.filter (fun x => !p x) = [] :=
  List.filter_eq_nil_iff.mpr fun x hx => by simp [h x hx]

/-- At the current version doctor finds nothing. -/
theorem Ready.doctor (h : Ready E.call 4 db) : doctor db = [] := by
  obtain ⟨hindexes, htables, hcolumns, hconstraints⟩ := doctor_objects
  have hversion : schemaVersion db = .ok 4 := by
    unfold schemaVersion tableExists
    rw [h.catalog, table_history 4 le_rfl, h.versions]
    exact validateVersions_history 4 le_rfl
  have hcount : orderingPartitionCount db = some 64 := by
    have hlen := congrArg List.length (h.seeded.partitions (by decide))
    unfold keys at hlen
    rw [List.length_map, List.length_map, List.length_range] at hlen
    unfold orderingPartitionCount
    rw [h.catalog, htables _ (by decide), if_pos rfl, hlen]
  have hcontrol : runtimeControlExists db = true := by
    have hkeys := h.seeded.control (by decide)
    unfold keys at hkeys
    obtain ⟨r, hr, hkey⟩ : ∃ r ∈ db.rows .runtime_control, project runtimeControl.key r = [.bool true] :=
      List.mem_map.mp (hkeys ▸ List.mem_singleton_self _)
    unfold runtimeControlExists
    rw [h.catalog, htables _ (by decide), Bool.true_and]
    exact List.any_eq_true.mpr ⟨r, hr, decide_eq_true (List.cons.inj hkey).1⟩
  unfold Migrations.doctor
  rw [hversion, hcount, hcontrol, h.schema, h.catalog, filter_not_nil hindexes, filter_not_nil htables,
    filter_not_nil hcolumns, filter_not_nil hconstraints]
  rfl

end

end Emitlane.Migrations
