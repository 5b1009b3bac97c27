import Emitlane.Migrations.Upgrade

/-!
# Migrations.Downgrade — what MigrateDown refuses and what it keeps

The down scripts of versions 4 and 3 look for state the older version has no place for, and raise.  So a MigrateDown
that succeeds has found none: every row of the Inbox was processed, no event was ordered.  No script says `CASCADE`, so
that it also fails where an object of the application depends on what the script drops.
-/

namespace Emitlane.Migrations

open Ddl

variable {E : Env Name} {v : Nat} {db db' : Db Name}

/-- MigrateDown: the history, then the script of the version. -/
theorem migrateDown_script (hat : At E.call (v + 1) db) (h : migrate E .down db = .ok db') :
    ∃ db₁, Ready E.call (v + 1) db₁ ∧ (∀ T, T ≠ .schema_migrations → db₁.rows T = db.rows T) ∧
      execAll E (downScript v) db₁ = .ok db' := by
  obtain ⟨db₁, hensure, h⟩ := bind_ok.mp h
  have hensure := mapError_ok hensure
  have hready := ensure_ready hat hensure
  obtain ⟨script, hplan, h⟩ := bind_ok.mp h
  rw [plan_down hready] at hplan
  obtain rfl := Except.ok.inj hplan
  exact ⟨db₁, hready, fun T hT => ensure_rows hensure hT, mapError_ok h⟩

/-- The lock, the guard and the rest. -/
theorem guard_ok {locked : List Name} {guards : List (Name × Cond Name)} {message : String} {rest : List (Stmt Name)}
    (h : execAll E (.lockTable locked :: .raiseIf guards message :: rest) db = .ok db') :
    ∀ g ∈ guards, ∀ r ∈ db.rows g.1, g.2.eval E.call r ≠ some true := by
  obtain ⟨db₁, hlock, h⟩ := bind_ok.mp h
  obtain ⟨db₂, hraise, -⟩ := bind_ok.mp h
  have hrows : db₁.rows = db.rows := (Except.ok.inj (exec_stmt_rows hlock)).symm
  rw [← hrows]
  exact (exec_raiseIf hraise).2

theorem downScript_adds : ∀ v < 4, ∀ st ∈ downScript v, st.adds = false := by decide

/-- The rows of a table both versions have. -/
theorem downScript_rows {T : Name} (hv : v < 4) (h : execAll E (downScript v) db = .ok db')
    (hT : ∀ st ∈ downScript v, st.replaces T = false) :
    db'.rows T = (db.rows T).map fun r => r.filter (·.1 ∉ dropped T (downScript v)) := by
  rw [execAll_rows h hT]
  exact List.map_congr_left fun r _ => rowMap_dropped r (downScript_adds v hv)

theorem downScript_replaces : ∀ v < 4, ∀ t ∈ (catalogAt v).tables, t.name ≠ .schema_migrations →
    ∀ st ∈ downScript v, st.replaces t.name = false := by decide

/-- The rows of a table of the older version after MigrateDown. -/
theorem migrateDown_rows (hat : At E.call (v + 1) db) (h : migrate E .down db = .ok db') {t : Table Name}
    (ht : t ∈ (catalogAt v).tables) (hT : t.name ≠ .schema_migrations) :
    db'.rows t.name = (db.rows t.name).map fun r => r.filter (·.1 ∉ dropped t.name (downScript v)) := by
  obtain ⟨db₁, -, hsame, h⟩ := migrateDown_script hat h
  rw [downScript_rows hat.le h (downScript_replaces v hat.le t ht hT), hsame _ hT]

/-! ## From version 4 -/

/-- The columns of the Inbox before version 4. -/
def inboxColumns : List Name := [.consumer, .event_id, .processed_at]

theorem inbox_columns4 : ∃ t, (catalogAt 4).table .inbox_events = some t ∧
    t.columnNames = inboxColumns ++ (dropped .inbox_events (downScript 3)).reverse ∧
    (⟨.status, true, .value (.text "processed")⟩ : Column Name) ∈ t.columns := by
  have hclosed : ((catalogAt 4).table .inbox_events).map (fun t =>
      (t.columnNames, decide ((⟨.status, true, .value (.text "processed")⟩ : Column Name) ∈ t.columns))) =
      some (inboxColumns ++ (dropped .inbox_events (downScript 3)).reverse, true) := by decide
  obtain ⟨t, ht, heq⟩ := Option.map_eq_some_iff.mp hclosed
  exact ⟨t, ht, congrArg Prod.fst heq, of_decide_eq_true (congrArg Prod.snd heq)⟩

/-- The DROP statements between the guard and SET NOT NULL. -/
def drops4 : List (Stmt Name) := (downScript 3).drop 2 |>.dropLast.dropLast

theorem down4_split : downScript 3 = .lockTable [.inbox_events] :: .raiseIf [(.inbox_events, active)]
    "cannot downgrade EmitLane schema v4 while active managed Inbox state exists" ::
      (drops4 ++ .setNotNull .inbox_events .processed_at :: [forget 4]) := by decide

theorem down4_reads : (∀ st ∈ downScript 3, st.replaces .inbox_events = false) ∧
    ∀ st ∈ downScript 3, ∀ T ∈ st.reads, T = .inbox_events ∨ T = .schema_migrations := by decide

/-- A row the guard lets pass. -/
theorem settled_of_guard {F : Functions Name} {r : Row Name} (hstatus : col r .status ≠ .null)
    (h : active.eval F r ≠ some true) : col r .status = .text "processed" ∧ col r .processed_at ≠ .null := by
  have heval : active.eval F r =
      or3 (some (!decide (col r .status = .text "processed"))) (some (decide (col r .processed_at = .null))) := by
    simp [active, is, Cond.eval, hstatus]
  rw [heval] at h
  by_cases hprocessed : col r .status = .text "processed"
  · refine ⟨hprocessed, fun hnull => h ?_⟩
    simp [hprocessed, hnull, or3]
  · exact absurd (by simp [hprocessed, or3]) h

/-- MigrateDown from version 4: nothing of the Inbox was in flight, and what the older version knows of it is kept. -/
theorem migrateDown_inbox (hat : At E.call 4 db) (h : migrate E .down db = .ok db') :
    (∀ r ∈ db.rows .inbox_events, col r .status = .text "processed" ∧ col r .processed_at ≠ .null) ∧
      db'.rows .inbox_events = (db.rows .inbox_events).map (fun r => r.filter (·.1 ∈ inboxColumns)) ∧
      ∀ T, T ≠ .inbox_events → T ≠ .schema_migrations → db'.rows T = db.rows T := by
  obtain ⟨db₁, hready, hsame, h⟩ := migrateDown_script hat h
  obtain ⟨t, ht, hcolumns, hstatus⟩ := inbox_columns4
  have hinbox : db₁.rows .inbox_events = db.rows .inbox_events := hsame _ (by decide)
  have hadmits : ∀ r ∈ db.rows .inbox_events, t.Admits E.call r := by
    rw [← hinbox]
    exact hready.valid.admits _ t (hready.catalog ▸ ht)
  refine ⟨fun r hr => ?_, ?_, fun T hT hhistory => ?_⟩
  · have hguard := guard_ok (down4_split ▸ h) (.inbox_events, active) (List.mem_singleton_self _) r (hinbox ▸ hr)
    exact settled_of_guard ((hadmits r hr).notNull _ hstatus rfl) hguard
  · rw [downScript_rows (by decide) h down4_reads.1, hinbox]
    refine List.map_congr_left fun r hr => List.filter_congr fun x hx => ?_
    have hmem : x.1 ∈ inboxColumns ++ (dropped .inbox_events (downScript 3)).reverse :=
      hcolumns ▸ (hadmits r hr).names ▸ List.mem_map_of_mem hx
    have hdisjoint : ∀ c ∈ inboxColumns, c ∉ dropped .inbox_events (downScript 3) := by decide
    rw [decide_eq_decide]
    rcases List.mem_append.mp hmem with hmem | hmem
    · exact ⟨fun _ => hmem, hdisjoint _⟩
    · have hmem := List.mem_reverse.mp hmem
      exact ⟨fun hno => absurd hmem hno, fun hin => absurd hmem (hdisjoint _ hin)⟩
  · rw [execAll_rows_of_not_reads h fun st hst hmem => ?_, hsame T hhistory]
    exact (down4_reads.2 st hst T hmem).elim hT hhistory

/-! ## From version 3 -/

theorem outbox_columns3 : ∃ t, (catalogAt 3).table .outbox_events = some t ∧
    t.columnNames = outboxEvents.columnNames ++ [.replayed_from_event_id, .replay_batch_id] ++ Ddl.names unordered ∧
    (.outbox_ordering_state_check, orderingStateCheck) ∈ t.checks := by
  have hclosed : ((catalogAt 3).table .outbox_events).map (fun t =>
      (t.columnNames, decide ((.outbox_ordering_state_check, orderingStateCheck) ∈ t.checks))) =
      some (outboxEvents.columnNames ++ [.replayed_from_event_id, .replay_batch_id] ++ Ddl.names unordered, true) := by
    decide
  obtain ⟨t, ht, heq⟩ := Option.map_eq_some_iff.mp hclosed
  exact ⟨t, ht, congrArg Prod.fst heq, of_decide_eq_true (congrArg Prod.snd heq)⟩

theorem down3_split : downScript 2 = .lockTable [.ordering_partitions, .ordering_streams, .outbox_events] ::
    .raiseIf [(.ordering_streams, .always), (.outbox_events, notNull .ordering_key)]
      "cannot downgrade EmitLane schema v3 while ordered stream state exists" :: down3.tail := rfl

theorem down3_reads : (∀ st ∈ downScript 2, st.replaces .outbox_events = false) ∧
    (∀ st ∈ downScript 2, ∀ T ∈ st.reads, T ∈ [.outbox_events, .ordering_streams, .ordering_partitions,
      .relay_instances, .schema_migrations]) ∧
    (dropped .outbox_events (downScript 2)).reverse = Ddl.names unordered := by decide

/-- The CHECK keeps the ordering columns of an event without a key empty. -/
theorem unordered_of_check {F : Functions Name} {r : Row Name} (hkey : col r .ordering_key = .null)
    (h : orderingStateCheck.eval F r ≠ some false) : ∀ c ∈ Ddl.names unordered, col r c = .null := by
  have hboth : col r .ordering_sequence = .null ∧ col r .ordering_partition = .null := by
    by_contra hno
    refine h ?_
    simp only [orderingStateCheck, notNull, Cond.eval, hkey]
    by_cases hseq : col r .ordering_sequence = .null
    · have hpart : col r .ordering_partition ≠ .null := fun hpart => hno ⟨hseq, hpart⟩
      simp [hseq, hpart, and3, or3]
    · simp [hseq, and3, or3]
  intro c hc
  have hc : c = .ordering_key ∨ c = .ordering_sequence ∨ c = .ordering_partition := by
    simpa [unordered, Ddl.names] using hc
  rcases hc with rfl | rfl | rfl
  · exact hkey
  · exact hboth.1
  · exact hboth.2

/-- Dropping the ordering columns of an unordered row loses nothing. -/
theorem filter_unordered {r : Row Name} {columns : List Name} (hnames : Ddl.names r = columns ++ Ddl.names unordered)
    (hdisjoint : ∀ c ∈ columns, c ∉ Ddl.names unordered)
    (hnull : ∀ c ∈ Ddl.names unordered, col r c = .null) :
    (r.filter (·.1 ∉ Ddl.names unordered)) ++ unordered = r := by
  obtain ⟨r₁, r₂, rfl, h₁, h₂⟩ := List.map_eq_append_iff.mp hnames
  have hkeep : (r₁ ++ r₂).filter (·.1 ∉ Ddl.names unordered) = r₁ := by
    have hfirst : r₁.filter (·.1 ∉ Ddl.names unordered) = r₁ :=
      List.filter_eq_self.mpr fun x hx => decide_eq_true (hdisjoint _ (h₁ ▸ List.mem_map_of_mem hx))
    have hsecond : r₂.filter (·.1 ∉ Ddl.names unordered) = [] :=
      List.filter_eq_nil_iff.mpr fun x hx hno =>
        of_decide_eq_true hno (h₂ ▸ List.mem_map_of_mem hx)
    rw [List.filter_append, hfirst, hsecond, List.append_nil]
  have hnull₂ : ∀ c ∈ Ddl.names unordered, col r₂ c = .null := by
    intro c hc
    have hnot : c ∉ Ddl.names r₁ := fun hmem => hdisjoint c (h₁ ▸ hmem) hc
    rw [← col_append_of_not_mem hnot]
    exact hnull c hc
  have hsecond : unordered = r₂ := by
    refine row_ext h₂.symm (by decide) fun c hc => ?_
    have hclosed : ∀ c ∈ Ddl.names unordered, col unordered c = .null := by decide
    rw [hclosed c hc, hnull₂ c hc]
  rw [hkeep, hsecond]

theorem relayInstances_mem : ∃ t ∈ (catalogAt 2).tables, t.name = .relay_instances := by decide

theorem down3_relays : dropped .relay_instances (downScript 2) = [.ordering_capable] := by decide

/-- MigrateDown from version 3: there were no streams and no ordered events, and every event and relay is kept. -/
theorem migrateDown_ordering (hat : At E.call 3 db) (h : migrate E .down db = .ok db') :
    db.rows .ordering_streams = [] ∧
      (∀ r ∈ db.rows .outbox_events, col r .ordering_key = .null) ∧
      (db'.rows .outbox_events).map (· ++ unordered) = db.rows .outbox_events ∧
      db'.rows .relay_instances = (db.rows .relay_instances).map (fun r => r.filter (·.1 ≠ .ordering_capable)) ∧
      ∀ T, T ∉ [.outbox_events, .ordering_streams, .ordering_partitions, .relay_instances, .schema_migrations] →
        db'.rows T = db.rows T := by
  have hrelays : db'.rows .relay_instances =
      (db.rows .relay_instances).map (fun r => r.filter (·.1 ≠ .ordering_capable)) := by
    obtain ⟨t, ht, hname⟩ := relayInstances_mem
    have hrows := migrateDown_rows hat h ht (hname ▸ by decide)
    rw [hname, down3_relays] at hrows
    simpa only [List.mem_singleton] using hrows
  obtain ⟨db₁, hready, hsame, h⟩ := migrateDown_script hat h
  obtain ⟨t, ht, hcolumns, hcheck⟩ := outbox_columns3
  have houtbox : db₁.rows .outbox_events = db.rows .outbox_events := hsame _ (by decide)
  have hguard := guard_ok (down3_split ▸ h)
  have hkey : ∀ r ∈ db.rows .outbox_events, col r .ordering_key = .null := by
    intro r hr
    by_contra hne
    refine hguard (.outbox_events, notNull .ordering_key) (List.mem_cons_of_mem _ List.mem_cons_self) r
      (houtbox ▸ hr) ?_
    simp [notNull, Cond.eval, hne]
  refine ⟨?_, hkey, ?_, hrelays, fun T hT => ?_⟩
  · rw [← hsame .ordering_streams (by decide)]
    refine List.eq_nil_iff_forall_not_mem.mpr fun r hr => ?_
    exact hguard (.ordering_streams, .always) List.mem_cons_self r hr rfl
  · rw [downScript_rows (by decide) h down3_reads.1, houtbox, List.map_map]
    refine (List.map_congr_left fun r hr => ?_).trans (List.map_id _)
    have hadmits := hready.valid.admits _ t (hready.catalog ▸ ht) r (houtbox ▸ hr)
    have hdropped : ∀ c, c ∈ dropped .outbox_events (downScript 2) ↔ c ∈ Ddl.names unordered := fun c => by
      rw [← down3_reads.2.2, List.mem_reverse]
    show (r.filter (·.1 ∉ dropped .outbox_events (downScript 2))) ++ unordered = r
    simp only [hdropped]
    exact filter_unordered (hadmits.names.trans hcolumns) (by decide)
      (unordered_of_check (hkey r hr) (hadmits.checks _ hcheck))
  · have hhistory : T ≠ .schema_migrations := fun heq => hT (by simp [heq])
    rw [execAll_rows_of_not_reads h fun st hst hmem => hT (down3_reads.2.1 st hst T hmem), hsame T hhistory]

/-! ## When MigrateDown succeeds -/

/-- The database at version `v` holds state the version before has no place for. -/
def Blocked (v : Nat) (db : Db Name) : Prop :=
  (v = 4 ∧ ∃ r ∈ db.rows .inbox_events, col r .status ≠ .text "processed" ∨ col r .processed_at = .null) ∨
  (v = 3 ∧ (db.rows .ordering_streams ≠ [] ∨ ∃ r ∈ db.rows .outbox_events, col r .ordering_key ≠ .null))

theorem downScript_creates : ∀ v < 4, ∀ st ∈ downScript v, st.creates = [] := by decide

theorem runnable_downScript (h : Ready E.call (v + 1) db) (hpos : 0 < v)
    (huses : ∀ st ∈ downScript v, ∀ u ∈ E.uses, st.breaks u = false) : Runnable E (downScript v) db where
  schema := h.schema
  keeps := by
    obtain ⟨-, -, -, hkeeps⟩ := downScript_forgets v h.le hpos
    exact hkeeps
  foreign st hst n hn := by
    rw [downScript_creates v h.le st hst] at hn
    cases hn
  uses := huses
  catalog := ⟨_, h.catalog ▸ catalog_downScript v h.le⟩

/-- The lock and a guard that does not raise. -/
theorem Runnable.guard {locked : List Name} {guards : List (Name × Cond Name)} {message : String}
    {rest : List (Stmt Name)} (h : Runnable E (.lockTable locked :: .raiseIf guards message :: rest) db)
    (hall : ∀ g ∈ guards, ∀ r ∈ db.rows g.1, g.2.eval E.call r ≠ some true) :
    ∃ db₁, db₁.rows = db.rows ∧ Runnable E rest db₁ ∧ ∀ db', execAll E rest db₁ = .ok db' →
      execAll E (.lockTable locked :: .raiseIf guards message :: rest) db = .ok db' := by
  obtain ⟨db₁, hlock, h⟩ := h.step ⟨_, rfl⟩
  have hrows : db₁.rows = db.rows := (Except.ok.inj (exec_stmt_rows hlock)).symm
  obtain ⟨db₂, hraise, h⟩ := h.raiseIf (hrows ▸ hall)
  exact ⟨db₂, (exec_raiseIf hraise).1.trans hrows, h, fun db' hrest =>
    bind_ok.mpr ⟨db₁, hlock, bind_ok.mpr ⟨db₂, hraise, hrest⟩⟩⟩

theorem down1_succeeds (h : Ready E.call 1 db)
    (huses : ∀ st ∈ downScript 0, ∀ u ∈ E.uses, st.breaks u = false) :
    ∃ db', execAll E (downScript 0) db = .ok db' := by
  have hsplit : downScript 0 = down1.dropLast ++ [.dropSchema] := by decide
  have hrun : Runnable E (down1.dropLast ++ []) db := by
    rw [List.append_nil]
    refine ⟨h.schema, by decide, fun st hst n hn => ?_,
      fun st hst => huses st (hsplit ▸ List.mem_append_left _ hst), ?_⟩
    · rw [downScript_creates 0 (by decide) st (hsplit ▸ List.mem_append_left _ hst)] at hn
      cases hn
    · have hcat := catalog_downScript 0 (by decide)
      rw [hsplit, runCatalog_append] at hcat
      obtain ⟨c, hc, -⟩ := bind_ok.mp hcat
      exact ⟨c, h.catalog ▸ hc⟩
  obtain ⟨db₁, hexec, -⟩ := hrun.unconditional (by decide)
  obtain ⟨db₂, hschema⟩ : ∃ db₂, exec E .dropSchema db₁ = .ok db₂ :=
    ⟨_, exec_ok_iff.mpr ⟨.inl rfl, (fun n hn => by cases hn), fun _ _ => rfl, _, _, rfl, rfl, rfl⟩⟩
  have hlast : execAll E [.dropSchema] db₁ = .ok db₂ := bind_ok.mpr ⟨db₂, hschema, rfl⟩
  exact ⟨db₂, by rw [hsplit, execAll_append, hexec]; exact hlast⟩

theorem down2_succeeds (h : Ready E.call 2 db)
    (huses : ∀ st ∈ downScript 1, ∀ u ∈ E.uses, st.breaks u = false) :
    ∃ db', execAll E (downScript 1) db = .ok db' := by
  have hrun : Runnable E (downScript 1 ++ []) db := by
    rw [List.append_nil]
    exact runnable_downScript h (by decide) huses
  obtain ⟨db', hexec, -⟩ := hrun.unconditional (by decide)
  exact ⟨db', hexec⟩

theorem down3_succeeds (h : Ready E.call 3 db) (huses : ∀ st ∈ downScript 2, ∀ u ∈ E.uses, st.breaks u = false)
    (hno : ¬ Blocked 3 db) : ∃ db', execAll E (downScript 2) db = .ok db' := by
  obtain ⟨hstreams, hevents⟩ : db.rows .ordering_streams = [] ∧
      ∀ r ∈ db.rows .outbox_events, col r .ordering_key = .null := by
    simpa [Blocked] using hno
  have hrun := runnable_downScript h (by decide) huses
  rw [down3_split] at hrun
  obtain ⟨db₁, -, hrun, hguard⟩ := Runnable.guard hrun fun g hg r hr => by
    rcases List.mem_cons.mp hg with rfl | hg
    · rw [hstreams] at hr
      cases hr
    · obtain rfl := List.mem_singleton.mp hg
      simp [notNull, Cond.eval, hevents r hr]
  rw [← List.append_nil down3.tail] at hrun
  obtain ⟨db', hexec, -⟩ := hrun.unconditional (by decide)
  exact ⟨db', down3_split ▸ hguard db' hexec⟩

theorem down4_drops : (∀ st ∈ drops4, st.unconditional = true) ∧
    (∀ st ∈ drops4, st.replaces .inbox_events = false) ∧
    (∀ st ∈ drops4, st.adds = false) ∧ .processed_at ∉ dropped .inbox_events drops4 := by decide

theorem down4_succeeds (h : Ready E.call 4 db) (huses : ∀ st ∈ downScript 3, ∀ u ∈ E.uses, st.breaks u = false)
    (hno : ¬ Blocked 4 db) : ∃ db', execAll E (downScript 3) db = .ok db' := by
  have hrows : ∀ r ∈ db.rows .inbox_events, col r .status = .text "processed" ∧
    col r .processed_at ≠ .null := by
    simpa [Blocked] using hno
  have hrun := runnable_downScript h (by decide) huses
  rw [down4_split] at hrun
  obtain ⟨db₁, hsame, hrun, hguard⟩ := Runnable.guard hrun fun g hg r hr => by
    obtain rfl := List.mem_singleton.mp hg
    obtain ⟨hstatus, hprocessed⟩ := hrows r hr
    simp [active, is, Cond.eval, or3, hstatus, hprocessed]
  obtain ⟨db₂, hdrops, hrun⟩ := hrun.unconditional down4_drops.1
  obtain ⟨db₃, hnotNull, hrun⟩ := hrun.setNotNull fun r hr => by
    obtain ⟨-, hreplaces, hadds, hkept⟩ := down4_drops
    rw [execAll_rows hdrops hreplaces, hsame] at hr
    obtain ⟨r₀, hr₀, rfl⟩ := List.mem_map.mp hr
    rw [rowMap_dropped r₀ hadds,
      col_filter (p := fun c => decide (c ∉ dropped .inbox_events drops4)) (decide_eq_true hkept)]
    exact (hrows r₀ hr₀).2
  obtain ⟨db', hforget, -⟩ := hrun.step ⟨_, rfl⟩
  refine ⟨db', down4_split ▸ hguard db' ?_⟩
  rw [execAll_append]
  exact bind_ok.mpr ⟨db₂, hdrops, bind_ok.mpr ⟨db₃, hnotNull, bind_ok.mpr ⟨db', hforget, rfl⟩⟩⟩

theorem downScript_succeeds (h : Ready E.call (v + 1) db)
    (huses : ∀ st ∈ downScript v, ∀ u ∈ E.uses, st.breaks u = false) (hno : ¬ Blocked (v + 1) db) :
    ∃ db', execAll E (downScript v) db = .ok db' := by
  have hv : v < 4 := h.le
  interval_cases v
  · exact down1_succeeds h huses
  · exact down2_succeeds h huses
  · exact down3_succeeds h huses hno
  · exact down4_succeeds h huses hno

/-- An object of others depends on what MigrateDown drops at version `v`. -/
def InUse (E : Env Name) (v : Nat) : Prop :=
  0 < v ∧ ∃ st ∈ downScript (v - 1), ∃ u ∈ E.uses, st.breaks u = true

theorem not_inUse_succ : ¬ InUse E (v + 1) ↔ ∀ st ∈ downScript v, ∀ u ∈ E.uses, st.breaks u = false := by
  simp [InUse]

theorem not_blocked_of_ok (hat : At E.call v db) (h : migrate E .down db = .ok db') : ¬ Blocked v db := by
  rintro (⟨rfl, r, hr, hactive⟩ | ⟨rfl, hordered⟩)
  · obtain ⟨hstatus, hprocessed⟩ := (migrateDown_inbox hat h).1 r hr
    exact hactive.elim (· hstatus) hprocessed
  · obtain ⟨hstreams, hevents, -⟩ := migrateDown_ordering hat h
    rcases hordered with hne | ⟨r, hr, hkey⟩
    · exact hne hstreams
    · exact hkey (hevents r hr)

theorem not_inUse_of_ok (hat : At E.call v db) (h : migrate E .down db = .ok db') : ¬ InUse E v := by
  cases v with
  | zero => simp [InUse]
  | succ v =>
    obtain ⟨db₁, -, -, hscript⟩ := migrateDown_script hat h
    exact not_inUse_succ.mpr (execAll_breaks hscript)

/-- From version 1 on the history is there. -/
theorem At.schemaMigrations_mem (hat : At E.call (v + 1) db) : schemaMigrations.name ∈ db.catalog.relations := by
  have hclosed : ∀ v < 4, schemaMigrations.name ∈ (catalogAt (v + 1)).relations := by decide
  rcases hat.catalog with hcat | ⟨hzero, -⟩
  · exact hcat ▸ hclosed v hat.le
  · cases hzero

/-- **MigrateDown is refused exactly when it would lose state or break an object of others.**  At version 0 there is
nothing to undo, and only the creation of the history can fail. -/
theorem migrateDown_iff (hat : At E.call v db) (hclash : v = 0 → NoClash E) :
    (∃ db', migrate E .down db = .ok db') ↔ ¬ Blocked v db ∧ ¬ InUse E v := by
  constructor
  · rintro ⟨db', h⟩
    exact ⟨not_blocked_of_ok hat h, not_inUse_of_ok hat h⟩
  · rintro ⟨hno, huses⟩
    cases v with
    | zero =>
      obtain ⟨db₁, hensure⟩ := ensure_succeeds db fun hmem => absurd hmem (hclash rfl _ (by decide))
      exact ⟨db₁, migrate_ok hensure (plan_down_zero (ensure_ready hat hensure)) rfl⟩
    | succ v =>
      obtain ⟨db₁, hensure⟩ := ensure_succeeds db fun _ => hat.schemaMigrations_mem
      have hready := ensure_ready hat hensure
      have hrows : ∀ T, T ≠ .schema_migrations → db₁.rows T = db.rows T := fun T hT => ensure_rows hensure hT
      have hno₁ : ¬ Blocked (v + 1) db₁ := by
        unfold Blocked at hno ⊢
        rwa [hrows _ (by decide), hrows _ (by decide), hrows _ (by decide)]
      obtain ⟨db', hexec⟩ := downScript_succeeds hready (not_inUse_succ.mp huses) hno₁
      exact ⟨db', migrate_ok hensure (plan_down hready) hexec⟩

end Emitlane.Migrations
