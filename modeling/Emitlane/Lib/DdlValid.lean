import Emitlane.Lib.Ddl

/-!
# DdlValid — rows that fit their tables, and scripts that succeed

* `exec_valid`: rows keep fitting their tables, whatever a script does.
* `Runnable`: what a script needs of the namespace and the catalog.  The rows can still refuse it; the rules for
  unconditional statements, checks, unique indexes and INSERT say when they do not.
-/

namespace Ddl

section Spec

variable {ν : Type} [DecidableEq ν] {E : Env ν} {st : Stmt ν} {rest : List (Stmt ν)} {db db' : Db ν}

/-! ## Rows fit their tables -/

/-- A row is its columns. -/
theorem row_ext : ∀ {r r' : Row ν}, names r = names r' → (names r).Nodup →
    (∀ c ∈ names r, col r c = col r' c) → r = r'
  | [], [], _, _, _ => rfl
  | [], _ :: _, h, _, _ => nomatch h
  | _ :: _, [], h, _, _ => nomatch h
  | (c, x) :: r, (c', x') :: r', h, hnodup, hcol => by
    obtain ⟨rfl, hnames⟩ := List.cons.inj h
    obtain ⟨hc, hnodup⟩ := List.nodup_cons.mp hnodup
    have hx : x = x' := by simpa [col] using hcol c List.mem_cons_self
    have hr : r = r' := row_ext hnames hnodup fun d hd => by
      have hne : (d == c) = false := beq_false_of_ne fun heq => hc (heq ▸ hd)
      simpa [col, List.lookup_cons, hne] using hcol d (List.mem_cons_of_mem _ hd)
    rw [hx, hr]

theorem col_append_of_mem {r : Row ν} {c : ν} (h : c ∈ names r) (r' : Row ν) : col (r ++ r') c = col r c := by
  induction r with
  | nil => cases h
  | cons x r ih =>
    unfold col
    rw [List.cons_append, List.lookup_cons, List.lookup_cons]
    by_cases hx : c = x.1
    · simp [hx]
    · have hmem : c ∈ names r := (List.mem_cons.mp h).resolve_left hx
      simp only [beq_eq_false_iff_ne.mpr hx]
      exact ih hmem

theorem col_append_of_not_mem {r : Row ν} {c : ν} (h : c ∉ names r) (r' : Row ν) : col (r ++ r') c = col r' c := by
  induction r with
  | nil => rfl
  | cons x r ih =>
    obtain ⟨hx, hmem⟩ := not_or.mp (mt List.mem_cons.mpr h)
    unfold col
    rw [List.cons_append, List.lookup_cons]
    simp only [beq_eq_false_iff_ne.mpr hx]
    exact ih hmem

/-- A column that is kept. -/
theorem col_filter {p : ν → Bool} {d : ν} (hd : p d = true) (r : Row ν) :
    col (r.filter fun x => p x.1) d = col r d := by
  induction r with
  | nil => rfl
  | cons x r ih =>
    by_cases hx : p x.1 = true
    · rw [List.filter_cons_of_pos (p := fun x : ν × Value => p x.1) hx]
      unfold col at ih ⊢
      rw [List.lookup_cons, List.lookup_cons]
      cases hd : d == x.1 with
      | true => rfl
      | false => exact ih
    · have hne : d ≠ x.1 := fun heq => hx (heq ▸ hd)
      rw [List.filter_cons_of_neg (p := fun x : ν × Value => p x.1) hx]
      unfold col at ih ⊢
      rw [ih, List.lookup_cons]
      simp only [beq_eq_false_iff_ne.mpr hne]

theorem col_dropValue {c d : ν} (hne : d ≠ c) (r : Row ν) : col (dropValue c r) d = col r d :=
  col_filter (p := fun x => decide (x ≠ c)) (decide_eq_true hne) r

omit [DecidableEq ν] in
theorem names_append (r r' : Row ν) : names (r ++ r') = names r ++ names r' := List.map_append

theorem names_dropValue (c : ν) (r : Row ν) : names (dropValue c r) = (names r).filter (· ≠ c) := by
  unfold names dropValue
  rw [List.filter_map]
  rfl

/-- A condition is about its columns. -/
theorem eval_congr {F : Functions ν} {r r' : Row ν} : ∀ {p : Cond ν}, (∀ c ∈ p.columns, col r c = col r' c) →
    p.eval F r = p.eval F r'
  | .always, _ => rfl
  | .isNull c, h | .eq c _, h | .ge c _, h | .le c _, h | .blank c, h | .isTrue c, h | .call _ c, h => by
    simp only [Cond.eval, h c (List.mem_singleton_self c)]
  | .geCol c d, h => by
    simp only [Cond.eval, h c List.mem_cons_self, h d (List.mem_cons_of_mem _ List.mem_cons_self)]
  | .not p, h => by
    simp only [Cond.eval, eval_congr (p := p) h]
  | .and p q, h | .or p q, h | .iff p q, h => by
    simp only [Cond.eval, eval_congr (p := p) fun c hc => h c (List.mem_append_left _ hc),
      eval_congr (p := q) fun c hc => h c (List.mem_append_right _ hc)]

/-- Every row fits its table, and there are no other rows. -/
structure Valid (F : Functions ν) (db : Db ν) : Prop where
  wellFormed : ∀ n t, db.catalog.table n = some t → t.wellFormed = true
  admits : ∀ n t, db.catalog.table n = some t → ∀ r ∈ db.rows n, t.Admits F r
  absent : ∀ n, db.catalog.table n = none → db.rows n = []

theorem table_name {c : Catalog ν} {n : ν} {t : Table ν} (h : c.table n = some t) : t.name = n :=
  of_decide_eq_true (List.find?_some (p := fun t : Table ν => decide (t.name = n)) h)

theorem mem_relations {c : Catalog ν} {n : ν} {t : Table ν} (h : c.table n = some t) : n ∈ c.relations := by
  refine List.mem_append_left _ (List.mem_map.mpr ⟨t, List.mem_of_find?_eq_some h, table_name h⟩)

/-- Looking up a table among tables one of which was replaced. -/
theorem find_replace {n : ν} {t' : Table ν} (hname : t'.name = n) (m : ν) : ∀ ts : List (Table ν),
    (ts.map fun x => if x.name = n then t' else x).find? (fun t => decide (t.name = m)) =
      (ts.find? fun t => decide (t.name = m)).map fun x => if m = n then t' else x
  | [] => rfl
  | x :: ts => by
    have hx : (if x.name = n then t' else x).name = x.name := by
      split_ifs with hx
      · exact hname.trans hx.symm
      · rfl
    rw [List.map_cons]
    by_cases hm : x.name = m
    · rw [List.find?_cons_of_pos (by simpa [hx] using hm), List.find?_cons_of_pos (by simpa using hm), Option.map_some,
        hm]
    · rw [List.find?_cons_of_neg (by simpa [hx] using hm), List.find?_cons_of_neg (by simpa using hm)]
      exact find_replace hname m ts

/-- The tables after an ALTER. -/
theorem alter_ok {c c' : Catalog ν} {n : ν} {f : Table ν → Except (Error ν) (Table ν)} (h : c.alter n f = .ok c')
    (hname : ∀ t t', f t = .ok t' → t'.name = t.name) :
    ∃ t t', c.table n = some t ∧ f t = .ok t' ∧ ∀ m, c'.table m = if m = n then some t' else c.table m := by
  unfold Catalog.alter at h
  split at h
  · cases h
  · rename_i t ht
    obtain ⟨t', hf, rfl⟩ := map_ok.mp h
    refine ⟨t, t', ht, hf, fun m => ?_⟩
    refine (find_replace ((hname t t' hf).trans (table_name ht)) m c.tables).trans ?_
    split_ifs with hm
    · subst hm
      show (c.table m).map _ = _
      rw [ht]
      rfl
    · exact Option.map_id'

/-- A change of one table. -/
theorem Valid.alter {F : Functions ν} {c' : Catalog ν} {rows' : ν → List (Row ν)} {schema : Bool} {n : ν}
    {t' : Table ν} (h : Valid F db) (hc' : ∀ m, c'.table m = if m = n then some t' else db.catalog.table m)
    (hwf : t'.wellFormed = true) (hrows : ∀ r ∈ rows' n, t'.Admits F r)
    (hother : ∀ m, m ≠ n → rows' m = db.rows m) :
    Valid F { schema := schema, catalog := c', rows := rows' } where
  wellFormed m t ht := by
    rw [hc'] at ht
    split_ifs at ht
    · exact Option.some.inj ht ▸ hwf
    · exact h.wellFormed m t ht
  admits m t ht r hr := by
    rw [hc'] at ht
    split_ifs at ht with hm
    · subst hm
      exact Option.some.inj ht ▸ hrows r hr
    · exact h.admits m t ht r (hother m hm ▸ hr)
  absent m ht := by
    rw [hc'] at ht
    split_ifs at ht with hm
    exact (hother m hm).trans (h.absent m ht)

/-- A statement that leaves the tables and their rows. -/
theorem Valid.same {F : Functions ν} {c' : Catalog ν} {schema : Bool} (h : Valid F db)
    (hc' : c'.tables = db.catalog.tables) : Valid F { schema := schema, catalog := c', rows := db.rows } := by
  have htable : ∀ n, c'.table n = db.catalog.table n := by
    intro n
    unfold Catalog.table
    rw [hc']
  exact ⟨fun n t ht => h.wellFormed n t (htable n ▸ ht), fun n t ht => h.admits n t (htable n ▸ ht),
    fun n ht => h.absent n (htable n ▸ ht)⟩

theorem Table.columns_of_check {t : Table ν} (h : t.wellFormed = true) {k : ν × Cond ν} (hk : k ∈ t.checks)
    {c : ν} (hc : c ∈ k.2.columns) : c ∈ t.columnNames := by
  have hall := List.all_eq_true.mp h k hk
  exact of_decide_eq_true (List.all_eq_true.mp hall c hc)

theorem Table.Admits.addColumn {F : Functions ν} {t : Table ν} {r : Row ν} (h : t.Admits F r)
    (hwf : t.wellFormed = true)
    {x : Column ν} {v : Value} (hx : x.name ∉ t.columnNames) (hv : x.notNull = true → v ≠ .null) :
    Table.Admits F { t with columns := t.columns ++ [x] } (r ++ [(x.name, v)]) where
  names := by
    rw [names_append, h.names]
    simp [Table.columnNames, Ddl.names]
  notNull c hc hnotNull := by
    rcases List.mem_append.mp hc with hc | hc
    · rw [col_append_of_mem (h.names ▸ List.mem_map_of_mem hc)]
      exact h.notNull c hc hnotNull
    · obtain rfl := List.mem_singleton.mp hc
      rw [col_append_of_not_mem (h.names ▸ hx)]
      simpa [col] using hv hnotNull
  checks k hk := by
    rw [eval_congr fun c hc => col_append_of_mem (h.names ▸ Table.columns_of_check hwf hk hc) _]
    exact h.checks k hk

theorem Table.Admits.dropColumn {F : Functions ν} {t : Table ν} {r : Row ν} (h : t.Admits F r) (x : ν)
    (key : List ν) :
    Table.Admits F
      { t with columns := t.columns.filter (·.name ≠ x), key := key, checks :=
  t.checks.filter fun k => x ∉ k.2.columns }
      (dropValue x r) where
  names := by
    rw [names_dropValue, h.names]
    show (t.columns.map (·.name)).filter (· ≠ x) = (t.columns.filter (·.name ≠ x)).map (·.name)
    rw [List.filter_map]
    rfl
  notNull c hc hnotNull := by
    obtain ⟨hc, hne⟩ := List.mem_filter.mp hc
    rw [col_dropValue (of_decide_eq_true hne)]
    exact h.notNull c hc hnotNull
  checks k hk := by
    obtain ⟨hk, hx⟩ := List.mem_filter.mp hk
    have hne : ∀ c ∈ k.2.columns, c ≠ x := fun c hc heq => of_decide_eq_true hx (heq ▸ hc)
    rw [eval_congr fun c hc => col_dropValue (hne c hc) r]
    exact h.checks k hk

theorem Table.wellFormed_mono {t t' : Table ν} (h : t.wellFormed = true) (hchecks : t'.checks ⊆ t.checks)
    (hcolumns : t.columnNames ⊆ t'.columnNames) : t'.wellFormed = true := by
  refine List.all_eq_true.mpr fun k hk => List.all_eq_true.mpr fun c hc => decide_eq_true ?_
  exact hcolumns (Table.columns_of_check h (hchecks hk) hc)

theorem wellFormed_dropColumn {t : Table ν} (h : t.wellFormed = true) (x : ν) (key : List ν) :
    Table.wellFormed { t with
      columns := t.columns.filter (·.name ≠ x), key := key, checks := t.checks.filter fun k =>
      x ∉ k.2.columns } = true := by
  refine List.all_eq_true.mpr fun k hk => List.all_eq_true.mpr fun c hc => decide_eq_true ?_
  obtain ⟨hk, hx⟩ := List.mem_filter.mp hk
  obtain ⟨y, hy, rfl⟩ := List.mem_map.mp (Table.columns_of_check h hk hc)
  refine List.mem_map_of_mem (List.mem_filter.mpr ⟨hy, decide_eq_true fun heq => ?_⟩)
  exact of_decide_eq_true hx (heq ▸ hc)

theorem columnNames_setNotNull (t : Table ν) (x : ν) (b : Bool) :
    Table.columnNames { t with columns := t.columns.map fun y => if y.name = x then { y with notNull := b } else y } =
      t.columnNames := by
  unfold Table.columnNames
  rw [List.map_map]
  refine List.map_congr_left fun y _ => ?_
  show (if y.name = x then { y with notNull := b } else y).name = y.name
  split_ifs <;> rfl

theorem Table.Admits.setNotNull {F : Functions ν} {t : Table ν} {r : Row ν} (h : t.Admits F r) (x : ν) (b : Bool)
    (hb : b = true → col r x ≠ .null) :
    Table.Admits F
      { t with columns := t.columns.map fun y => if y.name = x then { y with notNull := b } else y } r where
  names := h.names.trans (columnNames_setNotNull t x b).symm
  notNull c hc hnot := by
    obtain ⟨y, hy, rfl⟩ := List.mem_map.mp hc
    split_ifs at hnot ⊢ with hyx
    · rw [hyx]
      exact hb hnot
    · exact h.notNull y hy hnot
  checks := h.checks

theorem insertRows_admits {t : Table ν} {doNothing : Bool} : ∀ {given : List (Row ν)} {rows rs : List (Row ν)},
    insertRows E t doNothing given rows = .ok rs → (∀ r ∈ rows, t.Admits E.call r) →
    ∀ r ∈ rs, t.Admits E.call r
  | [], rows, rs, h, hrows => by
    obtain rfl : rows = rs := Except.ok.inj h
    exact hrows
  | g :: given, rows, rs, h, hrows => by
    obtain ⟨rows₁, hrow, hrest⟩ := bind_ok.mp h
    refine insertRows_admits hrest ?_
    unfold insertRow at hrow
    split_ifs at hrow with hkey hnothing hadmits
    · exact Except.ok.inj hrow ▸ hrows
    · rw [← Except.ok.inj hrow]
      intro r hr
      rcases List.mem_append.mp hr with hr | hr
      · exact hrows r hr
      · exact List.mem_singleton.mp hr ▸ hadmits

theorem onRows_self {n : ν} {f : List (Row ν) → Except (Error ν) (List (Row ν))}
    {rows rows' : ν → List (Row ν)}
    (h : onRows n f rows = .ok rows') : f (rows n) = .ok (rows' n) ∧ ∀ m, m ≠ n → rows' m = rows m := by
  obtain ⟨rs, hrs, rfl⟩ := onRows_ok h
  exact ⟨by rw [hrs, Function.update_self], fun m hm => Function.update_of_ne hm _ _⟩

section Cases

variable {c : Catalog ν} {rows : ν → List (Row ν)} {schema : Bool} (h : Valid E.call db)
include h

theorem valid_createTable {t : Table ν} {ifNotExists : Bool}
    (hc : (Stmt.createTable t ifNotExists).catalog db.catalog = .ok c)
    (hrows : (Stmt.createTable t ifNotExists).rows E db.catalog db.rows = .ok rows) :
    Valid E.call ⟨schema, c, rows⟩ := by
  simp only [Stmt.catalog] at hc
  simp only [Stmt.rows] at hrows
  split_ifs at hc hrows with hmem hif hwf
  · obtain rfl := Except.ok.inj hc
    obtain rfl := Except.ok.inj hrows
    exact h.same rfl
  · obtain rfl := Except.ok.inj hc
    obtain ⟨hself, hother⟩ := onRows_self hrows
    have hnone : db.catalog.table t.name = none := by
      cases ht : db.catalog.table t.name with
      | none => rfl
      | some t' => exact absurd (mem_relations ht) hmem
    refine h.alter (fun m => ?_) hwf (fun r hr => by rw [← Except.ok.inj hself] at hr; cases hr) hother
    show (db.catalog.tables ++ [t]).find? (fun t => decide (t.name = m)) = _
    rw [List.find?_append]
    show (db.catalog.table m).or _ = _
    split_ifs with hm
    · rw [hm, hnone]
      simp
    · have hm' : ¬ t.name = m := fun heq => hm heq.symm
      simp [hm']

omit h in
theorem table_dropTable (c : Catalog ν) (n m : ν) (indexes : List (Index ν)) (triggers : List (Trigger ν)) :
    Catalog.table { c with tables := c.tables.filter (·.name ≠ n), indexes := indexes, triggers := triggers } m =
      if m = n then none else c.table m := by
  show (c.tables.filter (·.name ≠ n)).find? (fun t => decide (t.name = m)) = _
  rw [List.find?_filter]
  split_ifs with hm
  · refine List.find?_eq_none.mpr fun t _ => ?_
    simp [hm]
  · unfold Catalog.table
    congr 1
    funext t
    by_cases ht : t.name = m
    · simp [ht, hm]
    · simp [ht]

theorem valid_dropTable {n : ν} (hc : (Stmt.dropTable n).catalog db.catalog = .ok c)
    (hrows : (Stmt.dropTable n).rows E db.catalog db.rows = .ok rows) : Valid E.call ⟨schema, c, rows⟩ := by
  obtain rfl := Except.ok.inj hc
  simp only [Stmt.rows] at hrows
  obtain ⟨hself, hother⟩ := onRows_self hrows
  have htable := table_dropTable db.catalog n
  refine ⟨fun m t ht => ?_, fun m t ht r hr => ?_, fun m ht => ?_⟩
  · rw [htable] at ht
    split_ifs at ht
    exact h.wellFormed m t ht
  · rw [htable] at ht
    split_ifs at ht with hm
    exact h.admits m t ht r (hother m hm ▸ hr)
  · rw [htable] at ht
    by_cases hm : m = n
    · rw [hm]
      exact (Except.ok.inj hself).symm
    · rw [if_neg hm] at ht
      exact (hother m hm).trans (h.absent m ht)

theorem valid_addColumn {n : ν} {x : Column ν} (hc : (Stmt.addColumn n x).catalog db.catalog = .ok c)
    (hrows : (Stmt.addColumn n x).rows E db.catalog db.rows = .ok rows) : Valid E.call ⟨schema, c, rows⟩ := by
  obtain ⟨t, t', ht, hf, htable⟩ := alter_ok hc fun t t' hf => by split_ifs at hf; exact Except.ok.inj hf ▸ rfl
  simp only [Stmt.rows] at hrows
  obtain ⟨hself, hother⟩ := onRows_self hrows
  split_ifs at hf hself with hx hnull
  obtain rfl := Except.ok.inj hf
  have hwf := h.wellFormed n t ht
  refine h.alter htable (Table.wellFormed_mono hwf (fun _ hk => hk) ?_) (fun r hr => ?_) hother
  · simp [Table.columnNames]
  · rw [← Except.ok.inj hself] at hr
    obtain ⟨r₀, hr₀, rfl⟩ := List.mem_map.mp hr
    refine (h.admits n t ht r₀ hr₀).addColumn hwf hx fun hnot hv => hnull ?_
    have hne : (db.rows n).isEmpty = false := by
      cases hrs : db.rows n with
      | nil => rw [hrs] at hr₀; cases hr₀
      | cons => rfl
    simp [hnot, hv, hne]

theorem valid_dropColumn {n x : ν} (hc : (Stmt.dropColumn n x).catalog db.catalog = .ok c)
    (hrows : (Stmt.dropColumn n x).rows E db.catalog db.rows = .ok rows) : Valid E.call ⟨schema, c, rows⟩ := by
  obtain ⟨c₁, hc₁, rfl⟩ := map_ok.mp hc
  obtain ⟨t, t', ht, hf, htable⟩ := alter_ok hc₁ fun t t' hf => Except.ok.inj hf ▸ rfl
  obtain rfl := Except.ok.inj hf
  simp only [Stmt.rows] at hrows
  obtain ⟨hself, hother⟩ := onRows_self hrows
  refine h.alter htable (wellFormed_dropColumn (h.wellFormed n t ht) x _) (fun r hr => ?_) hother
  rw [← Except.ok.inj hself] at hr
  obtain ⟨r₀, hr₀, rfl⟩ := List.mem_map.mp hr
  exact (h.admits n t ht r₀ hr₀).dropColumn x _

/-- SET NOT NULL and DROP NOT NULL. -/
theorem valid_setNotNull {n x : ν} {b : Bool} (hc : db.catalog.alter n (Stmt.catalog.setNotNull x b) = .ok c)
    (hrows : ∀ r ∈ rows n, r ∈ db.rows n ∧ (b = true → col r x ≠ .null))
    (hother : ∀ m, m ≠ n → rows m = db.rows m) : Valid E.call ⟨schema, c, rows⟩ := by
  obtain ⟨t, t', ht, hf, htable⟩ := alter_ok hc fun t t' hf => by
    unfold Stmt.catalog.setNotNull at hf
    split_ifs at hf
    exact Except.ok.inj hf ▸ rfl
  unfold Stmt.catalog.setNotNull at hf
  split_ifs at hf
  obtain rfl := Except.ok.inj hf
  refine h.alter htable (Table.wellFormed_mono (h.wellFormed n t ht) (fun _ hk => hk) ?_) (fun r hr => ?_) hother
  · rw [columnNames_setNotNull]
    exact fun _ hc => hc
  · obtain ⟨hr, hb⟩ := hrows r hr
    exact (h.admits n t ht r hr).setNotNull x b hb

theorem valid_addCheck {n name : ν} {p : Cond ν} (hc : (Stmt.addCheck n name p).catalog db.catalog = .ok c)
    (hrows : (Stmt.addCheck n name p).rows E db.catalog db.rows = .ok rows) : Valid E.call ⟨schema, c, rows⟩ := by
  obtain ⟨t, t', ht, hf, htable⟩ := alter_ok hc fun t t' hf => by split_ifs at hf; exact Except.ok.inj hf ▸ rfl
  obtain ⟨hself, hother⟩ := onRows_self hrows
  obtain ⟨hsame, hp⟩ := refuse_ok hself
  split_ifs at hf with hname hcols
  obtain rfl := Except.ok.inj hf
  refine h.alter htable ?_ (fun r hr => ?_) hother
  · refine List.all_eq_true.mpr fun k hk => ?_
    rcases List.mem_append.mp hk with hk | hk
    · exact List.all_eq_true.mp (h.wellFormed n t ht) k hk
    · obtain rfl := List.mem_singleton.mp hk
      exact (Bool.and_eq_true_iff.mp hcols).1
  · rw [hsame] at hr
    have hr₀ := h.admits n t ht r hr
    refine ⟨hr₀.names, hr₀.notNull, fun k hk => ?_⟩
    rcases List.mem_append.mp hk with hk | hk
    · exact hr₀.checks k hk
    · obtain rfl := List.mem_singleton.mp hk
      exact of_decide_eq_false (hp r hr)

theorem valid_dropCheck {n name : ν} (hc : (Stmt.dropCheck n name).catalog db.catalog = .ok c) :
    Valid E.call ⟨schema, c, db.rows⟩ := by
  simp only [Stmt.catalog] at hc
  obtain ⟨t, t', ht, hf, htable⟩ := alter_ok hc fun t t' hf => Except.ok.inj hf ▸ rfl
  obtain rfl := Except.ok.inj hf
  have hsub : ∀ k ∈ t.checks.filter (·.1 ≠ name), k ∈ t.checks := fun k hk => List.mem_of_mem_filter hk
  refine h.alter htable (Table.wellFormed_mono (h.wellFormed n t ht) hsub fun _ hc => hc)
    (fun r hr => ?_) fun _ _ => rfl
  have hr₀ := h.admits n t ht r hr
  exact ⟨hr₀.names, hr₀.notNull, fun k hk => hr₀.checks k (hsub k hk)⟩

theorem valid_createIndex {i : Index ν} (hc : (Stmt.createIndex i).catalog db.catalog = .ok c)
    (hrows : (Stmt.createIndex i).rows E db.catalog db.rows = .ok rows) : Valid E.call ⟨schema, c, rows⟩ := by
  simp only [Stmt.catalog] at hc
  simp only [Stmt.rows] at hrows
  obtain ⟨hself, hother⟩ := onRows_self hrows
  split_ifs at hc hself
  obtain rfl : rows = db.rows := by
    funext m
    by_cases hm : m = i.table
    · rw [hm]
      exact (Except.ok.inj hself).symm
    · exact hother m hm
  split at hc
  · cases hc
  · split_ifs at hc
    obtain rfl := Except.ok.inj hc
    exact h.same rfl

/-- New rows for one table. -/
theorem valid_rows {n : ν} {t : Table ν} (ht : db.catalog.table n = some t)
    (hrows : ∀ r ∈ rows n, t.Admits E.call r)
    (hother : ∀ m, m ≠ n → rows m = db.rows m) : Valid E.call ⟨schema, db.catalog, rows⟩ := by
  refine h.alter (n := n) (fun m => ?_) (h.wellFormed n t ht) hrows hother
  split_ifs with hm
  · rw [hm, ht]
  · rfl

end Cases

/-- **Rows keep fitting their tables.** -/
theorem exec_valid (h : Valid E.call db) (hs : exec E st db = .ok db') : Valid E.call db' := by
  obtain ⟨-, -, -, c, rows, hc, hrows, rfl⟩ := exec_ok_iff.mp hs
  cases st with
  | createTable t ifNotExists => exact valid_createTable h hc hrows
  | dropTable n => exact valid_dropTable h hc hrows
  | addColumn n x => exact valid_addColumn h hc hrows
  | dropColumn n x => exact valid_dropColumn h hc hrows
  | setNotNull n x =>
    obtain ⟨hself, hother⟩ := onRows_self hrows
    obtain ⟨hsame, hnull⟩ := refuse_ok hself
    refine valid_setNotNull h hc (fun r hr => ?_) hother
    rw [hsame] at hr
    exact ⟨hr, fun _ => of_decide_eq_false (hnull r hr)⟩
  | dropNotNull n x =>
    obtain rfl := Except.ok.inj hrows
    exact valid_setNotNull h hc (fun r hr => ⟨hr, fun hb => by cases hb⟩) fun _ _ => rfl
  | addCheck n name p => exact valid_addCheck h hc hrows
  | dropCheck n name =>
    obtain rfl := Except.ok.inj hrows
    exact valid_dropCheck h hc
  | createIndex i => exact valid_createIndex h hc hrows
  | insert n given doNothing =>
    simp only [Stmt.catalog] at hc
    simp only [Stmt.rows] at hrows
    split_ifs at hc
    obtain rfl := Except.ok.inj hc
    split at hrows
    · cases hrows
    · rename_i t ht
      obtain ⟨hself, hother⟩ := onRows_self hrows
      exact valid_rows h ht (insertRows_admits hself (h.admits n t ht)) hother
  | delete n p =>
    simp only [Stmt.catalog] at hc
    simp only [Stmt.rows] at hrows
    split_ifs at hc with hsome
    obtain rfl := Except.ok.inj hc
    obtain ⟨t, ht⟩ := Option.isSome_iff_exists.mp hsome
    obtain ⟨hself, hother⟩ := onRows_self hrows
    refine valid_rows h ht (fun r hr => ?_) hother
    rw [← Except.ok.inj hself] at hr
    exact h.admits n t ht r (List.mem_of_mem_filter hr)
  | raiseIf | createFunction | dropFunction | createTrigger | lockTable =>
    -- these keep the tables, whatever they check
    simp only [Stmt.catalog] at hc
    simp only [Stmt.rows] at hrows
    split_ifs at hc hrows
    obtain rfl := Except.ok.inj hc
    obtain rfl := Except.ok.inj hrows
    exact h.same rfl
  | createSchema | dropSchema | dropIndex | dropTrigger =>
    obtain rfl := Except.ok.inj hc
    obtain rfl := Except.ok.inj hrows
    exact h.same rfl

theorem execAll_valid : ∀ {script : List (Stmt ν)} {db : Db ν}, Valid E.call db →
    execAll E script db = .ok db' → Valid E.call db'
  | [], db, h, hs => by
    obtain rfl : db = db' := Except.ok.inj hs
    exact h
  | st :: rest, db, h, hs => by
    obtain ⟨db₁, hst, hrest⟩ := bind_ok.mp hs
    exact execAll_valid (exec_valid h hst) hrest

/-! ## When a script succeeds -/

/-- The statement cannot fail on rows. -/
def Stmt.unconditional : Stmt ν → Bool
  | .addColumn _ x => !x.notNull || x.default ≠ .value .null
  | .createIndex i => !i.unique
  | .setNotNull _ _ | .addCheck _ _ _ | .insert _ _ _ | .raiseIf _ _ => false
  | _ => true

def Stmt.keepsSchema : Stmt ν → Bool
  | .dropSchema => false
  | _ => true

theorem rows_unconditional (h : st.unconditional = true) (c : Catalog ν) (rows : ν → List (Row ν)) :
    ∃ rows', st.rows E c rows = .ok rows' := by
  cases st with
  | createTable t ifNotExists =>
    simp only [Stmt.rows]
    split_ifs
    · exact ⟨_, rfl⟩
    · exact ⟨_, rfl⟩
  | addColumn n x =>
    have hvalue : ¬ (x.notNull && decide (x.default.eval E = .null) && !(rows n).isEmpty) = true := by
      cases hx : x.default with
      | now => simp [Default.eval]
      | value v =>
        simp only [Stmt.unconditional, hx, Bool.or_eq_true, Bool.not_eq_true', decide_eq_true_eq] at h
        simp only [Default.eval, Bool.and_eq_true, not_and]
        rintro ⟨hnot, hnull⟩
        rw [of_decide_eq_true hnull] at h
        rcases h with h | h
        · rw [hnot] at h
          cases h
        · exact absurd rfl h
    simp only [Stmt.rows, onRows, if_neg hvalue]
    exact ⟨_, rfl⟩
  | createIndex i =>
    have hi : (!i.unique || decide ((rows i.table).Pairwise fun a b => i.conflict E.call a b = false)) = true := by
      rw [show (!i.unique) = true from h, Bool.true_or]
    simp only [Stmt.rows, onRows, if_pos hi]
    exact ⟨_, rfl⟩
  | setNotNull | addCheck | insert | raiseIf => cases h
  | _ => exact ⟨_, rfl⟩

theorem exec_succeeds {c : Catalog ν} (hschema : db.schema = true)
    (hforeign : ∀ n ∈ st.creates, n ∈ E.foreign → n ∈ db.catalog.relations)
    (huses : ∀ u ∈ E.uses, st.breaks u = false)
    (hc : st.catalog db.catalog = .ok c) (hrows : ∃ rows, st.rows E db.catalog db.rows = .ok rows) :
    ∃ db', exec E st db = .ok db' := by
  obtain ⟨rows, hrows⟩ := hrows
  exact ⟨_, exec_ok_iff.mpr ⟨.inr hschema, hforeign, huses, c, rows, hc, hrows, rfl⟩⟩

theorem exec_schema (h : exec E st db = .ok db') (hst : st.keepsSchema = true) (hschema : db.schema = true) :
    db'.schema = true := by
  obtain ⟨-, -, -, c, rows, -, -, rfl⟩ := exec_ok_iff.mp h
  cases st with
  | createSchema => rfl
  | dropSchema => cases hst
  | _ => exact hschema

theorem execAll_schema : ∀ {script : List (Stmt ν)} {db : Db ν}, execAll E script db = .ok db' →
    (∀ st ∈ script, st.keepsSchema = true) → db.schema = true → db'.schema = true
  | [], db, h, _, hschema => by
    obtain rfl : db = db' := Except.ok.inj h
    exact hschema
  | st :: rest, db, h, hst, hschema => by
    obtain ⟨db₁, hexec, hrest⟩ := bind_ok.mp h
    exact execAll_schema hrest (fun st hst' => hst st (List.mem_cons_of_mem _ hst'))
      (exec_schema hexec (hst st List.mem_cons_self) hschema)

/-- What a script needs of the namespace and of the catalog. -/
structure Runnable (E : Env ν) (script : List (Stmt ν)) (db : Db ν) : Prop where
  schema : db.schema = true
  keeps : ∀ st ∈ script, st.keepsSchema = true
  foreign : ∀ st ∈ script, ∀ n ∈ st.creates, n ∉ E.foreign
  uses : ∀ st ∈ script, ∀ u ∈ E.uses, st.breaks u = false
  catalog : ∃ c, runCatalog script db.catalog = .ok c

/-- The first statement of a runnable script, if its rows allow it, and what remains. -/
theorem Runnable.step (h : Runnable E (st :: rest) db) (hrows : ∃ rows, st.rows E db.catalog db.rows = .ok rows) :
    ∃ db', exec E st db = .ok db' ∧ Runnable E rest db' := by
  obtain ⟨c, hc⟩ := h.catalog
  obtain ⟨c₁, hst, hrest⟩ := bind_ok.mp hc
  obtain ⟨db', hexec⟩ := exec_succeeds h.schema
    (fun n hn hmem => absurd hmem (h.foreign st List.mem_cons_self n hn)) (h.uses st List.mem_cons_self) hst hrows
  have hc₁ : db'.catalog = c₁ := Except.ok.inj ((exec_catalog hexec).symm.trans hst)
  exact ⟨db', hexec, exec_schema hexec (h.keeps st List.mem_cons_self) h.schema,
    fun st hst => h.keeps st (List.mem_cons_of_mem _ hst), fun st hst => h.foreign st (List.mem_cons_of_mem _ hst),
    fun st hst => h.uses st (List.mem_cons_of_mem _ hst), c, hc₁ ▸ hrest⟩

/-- Unconditional statements succeed. -/
theorem Runnable.unconditional : ∀ {script rest : List (Stmt ν)} {db : Db ν}, Runnable E (script ++ rest) db →
    (∀ st ∈ script, st.unconditional = true) → ∃ db', execAll E script db = .ok db' ∧ Runnable E rest db'
  | [], _, db, h, _ => ⟨db, rfl, h⟩
  | st :: script, rest, db, h, hall => by
    have hcons : Runnable E (st :: (script ++ rest)) db := h
    obtain ⟨db₁, hexec, hrun⟩ := hcons.step (rows_unconditional (hall st List.mem_cons_self) _ _)
    obtain ⟨db', hexecs, hrest⟩ := Runnable.unconditional hrun fun st hst => hall st (List.mem_cons_of_mem _ hst)
    exact ⟨db', bind_ok.mpr ⟨db₁, hexec, hexecs⟩, hrest⟩

/-- So do checks that the rows meet. -/
theorem Runnable.checks {n : ν} : ∀ {checks : List (ν × Cond ν)} {rest : List (Stmt ν)} {db : Db ν},
    Runnable E (checks.map (fun k => Stmt.addCheck n k.1 k.2) ++ rest) db →
    (∀ k ∈ checks, ∀ r ∈ db.rows n, k.2.eval E.call r ≠ some false) →
    ∃ db', execAll E (checks.map fun k => Stmt.addCheck n k.1 k.2) db = .ok db' ∧ Runnable E rest db'
  | [], _, db, h, _ => ⟨db, rfl, h⟩
  | k :: checks, rest, db, h, hall => by
    have hok : refuse (.violates k.1) (fun r => decide (k.2.eval E.call r = some false)) (db.rows n) =
        .ok (db.rows n) := by
      refine if_neg fun hany => ?_
      obtain ⟨r, hr, hp⟩ := List.any_eq_true.mp hany
      exact hall k List.mem_cons_self r hr (of_decide_eq_true hp)
    have hcons : Runnable E (.addCheck n k.1 k.2 :: (checks.map (fun k => Stmt.addCheck n k.1 k.2) ++ rest)) db := h
    obtain ⟨db₁, hexec, hrun⟩ := hcons.step ⟨_, map_ok.mpr ⟨_, hok, rfl⟩⟩
    have hrows : db₁.rows n = db.rows n := (exec_rows hexec rfl).trans (List.map_id' _)
    obtain ⟨db', hexecs, hrest⟩ := Runnable.checks hrun fun k hk => hrows ▸ hall k (List.mem_cons_of_mem _ hk)
    exact ⟨db', bind_ok.mpr ⟨db₁, hexec, hexecs⟩, hrest⟩

/-- So does a guard that no row meets. -/
theorem Runnable.raiseIf {guards : List (ν × Cond ν)} {message : String}
    (h : Runnable E (.raiseIf guards message :: rest) db)
    (hall : ∀ g ∈ guards, ∀ r ∈ db.rows g.1, g.2.eval E.call r ≠ some true) :
    ∃ db', exec E (.raiseIf guards message) db = .ok db' ∧ Runnable E rest db' := by
  refine h.step ⟨db.rows, if_neg fun hany => ?_⟩
  obtain ⟨g, hg, hany⟩ := List.any_eq_true.mp hany
  obtain ⟨r, hr, htrue⟩ := List.any_eq_true.mp hany
  exact hall g hg r hr (of_decide_eq_true htrue)

/-- So does SET NOT NULL on a column without NULLs. -/
theorem Runnable.setNotNull {n x : ν} (h : Runnable E (.setNotNull n x :: rest) db)
    (hall : ∀ r ∈ db.rows n, col r x ≠ .null) :
    ∃ db', exec E (.setNotNull n x) db = .ok db' ∧ Runnable E rest db' := by
  have hok : refuse (.violates x) (fun r => decide (col r x = .null)) (db.rows n) = .ok (db.rows n) := by
    refine if_neg fun hany => ?_
    obtain ⟨r, hr, hnull⟩ := List.any_eq_true.mp hany
    exact hall r hr (of_decide_eq_true hnull)
  exact h.step ⟨_, map_ok.mpr ⟨_, hok, rfl⟩⟩

/-- So does a unique index over rows that its condition leaves out. -/
theorem Runnable.uniqueIndex {i : Index ν} (h : Runnable E (.createIndex i :: rest) db)
    (hall : ∀ r ∈ db.rows i.table, i.pred.eval E.call r ≠ some true) :
    ∃ db', exec E (.createIndex i) db = .ok db' ∧ Runnable E rest db' := by
  have hpair : (db.rows i.table).Pairwise fun a b => i.conflict E.call a b = false := by
    refine List.Pairwise.imp_of_mem (fun {a b} ha _ _ => ?_)
      (List.pairwise_of_forall (R := fun _ _ => True) fun _ _ => trivial)
    simp [Index.conflict, hall a ha]
  refine h.step ?_
  simp only [Stmt.rows, onRows, hpair, decide_true, Bool.or_true, if_true]
  exact ⟨_, rfl⟩

/-- And so does an INSERT of new rows that fit. -/
theorem insertRows_fresh (t : Table ν) (doNothing : Bool) : ∀ (given rows : List (Row ν)),
    (∀ x ∈ rows, ∀ g ∈ given, project t.key x ≠ project t.key (t.fill E g)) →
    (given.map fun g => project t.key (t.fill E g)).Nodup → (∀ g ∈ given, t.Admits E.call (t.fill E g)) →
    insertRows E t doNothing given rows = .ok (rows ++ given.map (t.fill E))
  | [], rows, _, _, _ => by simp [insertRows]
  | g :: given, rows, hfresh, hkeys, hadmits => by
    obtain ⟨hnew, hkeys⟩ := List.nodup_cons.mp hkeys
    have hnone : ¬ (rows.any fun x => project t.key x = project t.key (t.fill E g)) = true := by
      intro hany
      obtain ⟨x, hx, heq⟩ := List.any_eq_true.mp hany
      exact hfresh x hx g List.mem_cons_self (of_decide_eq_true heq)
    have hrow : insertRow E t doNothing rows g = .ok (rows ++ [t.fill E g]) := by
      unfold insertRow
      rw [if_neg hnone, if_pos (hadmits g List.mem_cons_self)]
    have hrest := insertRows_fresh t doNothing given (rows ++ [t.fill E g]) ?_ hkeys
      fun g hg => hadmits g (List.mem_cons_of_mem _ hg)
    · show (insertRow E t doNothing rows g).bind _ = _
      rw [hrow]
      exact hrest.trans (by simp)
    · intro x hx g' hg'
      rcases List.mem_append.mp hx with hx | hx
      · exact hfresh x hx g' (List.mem_cons_of_mem _ hg')
      · obtain rfl := List.mem_singleton.mp hx
        exact fun heq => hnew (List.mem_map.mpr ⟨g', hg', heq.symm⟩)

theorem Runnable.insert {n : ν} {t : Table ν} {given : List (Row ν)} {doNothing : Bool}
    (h : Runnable E (.insert n given doNothing :: rest) db) (ht : db.catalog.table n = some t)
    (hfresh : ∀ x ∈ db.rows n, ∀ g ∈ given, project t.key x ≠ project t.key (t.fill E g))
    (hkeys : (given.map fun g => project t.key (t.fill E g)).Nodup)
    (hadmits : ∀ g ∈ given, t.Admits E.call (t.fill E g)) :
    ∃ db', exec E (.insert n given doNothing) db = .ok db' ∧ Runnable E rest db' := by
  have hinsert := insertRows_fresh t doNothing given (db.rows n) hfresh hkeys hadmits
  refine h.step ⟨Function.update db.rows n (db.rows n ++ given.map (t.fill E)), ?_⟩
  simp only [Stmt.rows, ht, onRows, hinsert]
  rfl

end Spec

end Ddl
