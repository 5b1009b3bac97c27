import Mathlib.Data.List.Nodup
import Mathlib.Logic.Function.Basic
import Mathlib.Tactic.SplitIfs

/-!
# Ddl — schema changes over tables with rows

One namespace of a database: its tables with columns and CHECK constraints, its indexes, functions and triggers
(`Catalog`), and the rows.  A `Stmt` is one statement of a migration script; `exec` runs it inside a transaction and
fails where the database would.  Conditions have three truth values, and a CHECK refuses a row only if it is false.

* `exec_catalog`: the new catalog is a function of the old one, so what a script does to the catalog is a computation.
* `exec_rows`: what a statement does to the rows of a table it neither creates nor empties.
* `exec_setRows`: a statement commutes with a write to a table whose rows it does not touch.
-/

namespace Ddl

variable {ν : Type}

/-! ## Rows and conditions -/

/-- The value of a column; an instant is an integer. -/
inductive Value
  | null
  | bool (b : Bool)
  | int (n : Int)
  | text (s : String)
  deriving DecidableEq

/-- A row with the names of its columns. -/
abbrev Row (ν : Type) := List (ν × Value)

def names (r : Row ν) : List ν := r.map (·.1)

variable [DecidableEq ν]

def col (r : Row ν) (c : ν) : Value := (r.lookup c).getD .null

def dropValue (c : ν) (r : Row ν) : Row ν := r.filter (·.1 ≠ c)

/-- A condition on a row. -/
inductive Cond (ν : Type)
  | always
  | isNull (c : ν)
  | eq (c : ν) (v : Value)
  /-- The column is at least `n`. -/
  | ge (c : ν) (n : Int)
  /-- The column is at most `n`. -/
  | le (c : ν) (n : Int)
  /-- The first column is at least the second. -/
  | geCol (c d : ν)
  /-- `BTRIM(c) = ''`. -/
  | blank (c : ν)
  /-- A boolean column. -/
  | isTrue (c : ν)
  /-- A function of the database applied to the column. -/
  | call (f : ν) (c : ν)
  | not (p : Cond ν)
  | and (p q : Cond ν)
  | or (p q : Cond ν)
  /-- Equality of truth values. -/
  | iff (p q : Cond ν)
  deriving DecidableEq

def Cond.columns : Cond ν → List ν
  | .always => []
  | .isNull c | .eq c _ | .ge c _ | .le c _ | .blank c | .isTrue c | .call _ c => [c]
  | .geCol c d => [c, d]
  | .not p => p.columns
  | .and p q | .or p q | .iff p q => p.columns ++ q.columns

/-- The functions the condition calls. -/
def Cond.calls : Cond ν → List ν
  | .call f _ => [f]
  | .not p => p.calls
  | .and p q | .or p q | .iff p q => p.calls ++ q.calls
  | _ => []

/-- The column is one of the values. -/
def Cond.mem (c : ν) : List Value → Cond ν
  | [] => .not .always
  | [v] => .eq c v
  | v :: vs => .or (.eq c v) (.mem c vs)

def and3 : Option Bool → Option Bool → Option Bool
  | some false, _ | _, some false => some false
  | some true, some true => some true
  | _, _ => none

def or3 : Option Bool → Option Bool → Option Bool
  | some true, _ | _, some true => some true
  | some false, some false => some false
  | _, _ => none

/-- What the functions of the database return. -/
abbrev Functions (ν : Type) := ν → Value → Option Bool

/-- What an object of others may depend on: a table, an index or a function, or one column of a table. -/
inductive Use (ν : Type)
  | object (name : ν)
  | column (table column : ν)
  deriving DecidableEq

/-- What the statements of a transaction depend on beside the tables: the functions that conditions call, the names of
objects of others in the namespace, and `NOW()`. -/
structure Env (ν : Type) where
  call : Functions ν
  foreign : List ν
  /-- There are more objects in the namespace. -/
  others : Bool
  /-- What objects of others depend on, as their views and foreign keys do. -/
  uses : List (Use ν)
  now : Int

/-- The truth value of a condition; `none` is NULL. -/
def Cond.eval (F : Functions ν) (r : Row ν) : Cond ν → Option Bool
  | .always => some true
  | .isNull c => some (decide (col r c = .null))
  | .eq c v => if col r c = .null ∨ v = .null then none else some (decide (col r c = v))
  | .ge c n => match col r c with
    | .int m => some (decide (n ≤ m))
    | _ => none
  | .le c n => match col r c with
    | .int m => some (decide (m ≤ n))
    | _ => none
  | .geCol c d => match col r c, col r d with
    | .int m, .int n => some (decide (n ≤ m))
    | _, _ => none
  | .blank c => match col r c with
    | .text s => some (s.toList.all (· = ' '))
    | _ => none
  | .isTrue c => match col r c with
    | .bool b => some b
    | _ => none
  | .call f c => F f (col r c)
  | .not p => (p.eval F r).map (!·)
  | .and p q => and3 (p.eval F r) (q.eval F r)
  | .or p q => or3 (p.eval F r) (q.eval F r)
  | .iff p q => match p.eval F r, q.eval F r with
    | some a, some b => some (a == b)
    | _, _ => none

/-! ## Catalogs -/

/-- The DEFAULT of a column; a column without one has the default NULL. -/
inductive Default
  | value (v : Value)
  | now
  deriving DecidableEq

def Default.eval (E : Env ν) : Default → Value
  | .value v => v
  | .now => .int E.now

structure Column (ν : Type) where
  name : ν
  notNull : Bool
  default : Default
  deriving DecidableEq

structure Table (ν : Type) where
  name : ν
  columns : List (Column ν)
  key : List ν
  checks : List (ν × Cond ν)
  deriving DecidableEq

structure Index (ν : Type) where
  name : ν
  table : ν
  columns : List ν
  unique : Bool
  /-- The WHERE clause. -/
  pred : Cond ν
  deriving DecidableEq

structure Trigger (ν : Type) where
  name : ν
  table : ν
  function : ν
  deriving DecidableEq

structure Catalog (ν : Type) where
  tables : List (Table ν)
  indexes : List (Index ν)
  functions : List ν
  triggers : List (Trigger ν)
  deriving DecidableEq

def Catalog.empty : Catalog ν := ⟨[], [], [], []⟩

def Table.columnNames (t : Table ν) : List ν := t.columns.map (·.name)

/-- The constraints are about columns of the table. -/
def Table.wellFormed (t : Table ν) : Bool :=
  t.checks.all fun k => k.2.columns.all (· ∈ t.columnNames)

def Catalog.table (c : Catalog ν) (n : ν) : Option (Table ν) := c.tables.find? (·.name = n)

/-- Tables and indexes share their names. -/
def Catalog.relations (c : Catalog ν) : List ν := c.tables.map (·.name) ++ c.indexes.map (·.name)

inductive Error (ν : Type)
  | noSchema
  | undefined (name : ν)
  | undefinedTable
  | duplicate (name : ν)
  /-- An object of others has the name. -/
  | foreign
  | dependent (name : ν)
  /-- An object of others depends on what is dropped. -/
  | used
  | violates (name : ν)
  | raised (message : String)
  deriving DecidableEq

/-- One statement.  `CREATE` fails on a taken name, `DROP` is `IF EXISTS` and never `CASCADE`. -/
inductive Stmt (ν : Type)
  | createSchema
  /-- Drops the namespace if nothing is left in it. -/
  | dropSchema
  | createTable (t : Table ν) (ifNotExists : Bool)
  | dropTable (name : ν)
  | addColumn (table : ν) (column : Column ν)
  | dropColumn (table column : ν)
  | setNotNull (table column : ν)
  | dropNotNull (table column : ν)
  | addCheck (table name : ν) (p : Cond ν)
  | dropCheck (table name : ν)
  | createIndex (i : Index ν)
  | dropIndex (name : ν)
  | createFunction (name : ν)
  | dropFunction (name : ν)
  | createTrigger (t : Trigger ν)
  | dropTrigger (name table : ν)
  /-- INSERT of partial rows, with ON CONFLICT DO NOTHING or without. -/
  | insert (table : ν) (given : List (Row ν)) (doNothing : Bool)
  | delete (table : ν) (p : Cond ν)
  /-- Raises if one of the tables has a row that meets its condition. -/
  | raiseIf (guards : List (ν × Cond ν)) (message : String)
  /-- LOCK TABLE … IN ACCESS EXCLUSIVE MODE. -/
  | lockTable (tables : List ν)
  deriving DecidableEq

/-- Change one table of the catalog. -/
def Catalog.alter (c : Catalog ν) (n : ν) (f : Table ν → Except (Error ν) (Table ν)) :
    Except (Error ν) (Catalog ν) :=
  match c.table n with
  | none => .error (.undefined n)
  | some t => (f t).map fun t' => { c with tables := c.tables.map fun x => if x.name = n then t' else x }

/-- The catalog after a statement. -/
def Stmt.catalog (c : Catalog ν) : Stmt ν → Except (Error ν) (Catalog ν)
  | .createTable t ifNotExists =>
    if t.name ∈ c.relations then if ifNotExists then .ok c else .error (.duplicate t.name)
    else if t.wellFormed then .ok { c with tables := c.tables ++ [t] }
    else .error (.undefined t.name)
  | .dropTable n =>
    .ok { c with
      tables := c.tables.filter (·.name ≠ n)
      indexes := c.indexes.filter (·.table ≠ n)
      triggers := c.triggers.filter (·.table ≠ n) }
  | .addColumn n x =>
    c.alter n fun t =>
      if x.name ∈ t.columnNames then .error (.duplicate x.name) else .ok { t with columns := t.columns ++ [x] }
  | .dropColumn n x =>
    -- constraints and indexes on the column go with it
    (c.alter n fun t => .ok { t with
      columns := t.columns.filter (·.name ≠ x)
      key := if x ∈ t.key then [] else t.key
      checks := t.checks.filter fun k => x ∉ k.2.columns }).map fun c => { c with
        indexes := c.indexes.filter fun i => !(i.table = n && (x ∈ i.columns || x ∈ i.pred.columns)) }
  | .setNotNull n x => c.alter n (setNotNull x true)
  | .dropNotNull n x => c.alter n (setNotNull x false)
  | .addCheck n name p =>
    c.alter n fun t =>
      if name ∈ t.checks.map (·.1) then .error (.duplicate name)
      else if p.columns.all (· ∈ t.columnNames) && p.calls.all (· ∈ c.functions) then
        .ok { t with checks := t.checks ++ [(name, p)] }
      else .error (.undefined name)
  | .dropCheck n name => c.alter n fun t => .ok { t with checks := t.checks.filter (·.1 ≠ name) }
  | .createIndex i =>
    if i.name ∈ c.relations then .error (.duplicate i.name) else
    match c.table i.table with
    | none => .error (.undefined i.table)
    | some t =>
      if (i.columns ++ i.pred.columns).all (· ∈ t.columnNames) then .ok { c with indexes := c.indexes ++ [i] }
      else .error (.undefined i.name)
  | .dropIndex n => .ok { c with indexes := c.indexes.filter (·.name ≠ n) }
  | .createFunction n =>
    if n ∈ c.functions then .error (.duplicate n) else .ok { c with functions := c.functions ++ [n] }
  | .dropFunction n =>
    if c.triggers.any (·.function = n) || c.tables.any (fun t => t.checks.any fun k => n ∈ k.2.calls) then
      .error (.dependent n)
    else .ok { c with functions := c.functions.filter (· ≠ n) }
  | .createTrigger t =>
    if c.triggers.any (fun x => x.name = t.name && x.table = t.table) then .error (.duplicate t.name)
    else if (c.table t.table).isSome && t.function ∈ c.functions then .ok { c with triggers := c.triggers ++ [t] }
    else .error (.undefined t.name)
  | .dropTrigger n table => .ok { c with triggers := c.triggers.filter fun x => !(x.name = n && x.table = table) }
  | .insert n _ _ | .delete n _ => if (c.table n).isSome then .ok c else .error (.undefined n)
  | .raiseIf guards _ =>
    if guards.all fun g => (c.table g.1).isSome then .ok c else .error .undefinedTable
  | .lockTable ns => if ns.all fun n => (c.table n).isSome then .ok c else .error .undefinedTable
  | .createSchema | .dropSchema => .ok c
where
  setNotNull (x : ν) (b : Bool) (t : Table ν) : Except (Error ν) (Table ν) :=
    if x ∈ t.columnNames then
      .ok { t with columns := t.columns.map fun y => if y.name = x then { y with notNull := b } else y }
    else .error (.undefined x)

/-! ## Rows -/

/-- The row fits the table. -/
structure Table.Admits (F : Functions ν) (t : Table ν) (r : Row ν) : Prop where
  names : names r = t.columnNames
  notNull : ∀ c ∈ t.columns, c.notNull = true → col r c.name ≠ .null
  checks : ∀ k ∈ t.checks, k.2.eval F r ≠ some false

instance Table.decidableAdmits (F : Functions ν) (t : Table ν) (r : Row ν) : Decidable (t.Admits F r) :=
  decidable_of_iff
    (Ddl.names r = t.columnNames ∧ (∀ c ∈ t.columns, c.notNull = true → col r c.name ≠ .null) ∧
      ∀ k ∈ t.checks, k.2.eval F r ≠ some false)
    ⟨fun h => ⟨h.1, h.2.1, h.2.2⟩, fun h => ⟨h.names, h.notNull, h.checks⟩⟩

/-- The row an INSERT makes of the given columns. -/
def Table.fill (E : Env ν) (t : Table ν) (given : Row ν) : Row ν :=
  t.columns.map fun c => (c.name, (given.lookup c.name).getD (c.default.eval E))

/-- The values of the columns. -/
def project (columns : List ν) (r : Row ν) : List Value := columns.map (col r)

def insertRow (E : Env ν) (t : Table ν) (doNothing : Bool) (rows : List (Row ν)) (given : Row ν) :
    Except (Error ν) (List (Row ν)) :=
  if rows.any (fun x => project t.key x = project t.key (t.fill E given)) then
    if doNothing then .ok rows else .error (.violates t.name)
  else if t.Admits E.call (t.fill E given) then .ok (rows ++ [t.fill E given])
  else .error (.violates t.name)

/-- Insert one row after another. -/
def insertRows (E : Env ν) (t : Table ν) (doNothing : Bool) :
    List (Row ν) → List (Row ν) → Except (Error ν) (List (Row ν))
  | [], rows => .ok rows
  | given :: rest, rows => (insertRow E t doNothing rows given).bind (insertRows E t doNothing rest)

/-- Two rows of a unique index with the same key; NULLs are distinct. -/
def Index.conflict (F : Functions ν) (i : Index ν) (a b : Row ν) : Bool :=
  i.pred.eval F a = some true && i.pred.eval F b = some true && project i.columns a = project i.columns b &&
    (project i.columns a).all (· ≠ .null)

/-- Change the rows of one table. -/
def onRows (n : ν) (f : List (Row ν) → Except (Error ν) (List (Row ν))) (rows : ν → List (Row ν)) :
    Except (Error ν) (ν → List (Row ν)) :=
  (f (rows n)).map (Function.update rows n)

/-- Fail on a row with `p`. -/
def refuse (e : Error ν) (p : Row ν → Bool) (rows : List (Row ν)) : Except (Error ν) (List (Row ν)) :=
  if rows.any p then .error e else .ok rows

/-- The rows after a statement. -/
def Stmt.rows (E : Env ν) (c : Catalog ν) (rows : ν → List (Row ν)) :
    Stmt ν → Except (Error ν) (ν → List (Row ν))
  | .createTable t _ => if t.name ∈ c.relations then .ok rows else onRows t.name (fun _ => .ok []) rows
  | .dropTable n => onRows n (fun _ => .ok []) rows
  | .addColumn n x =>
    onRows n (fun rs =>
      if x.notNull && x.default.eval E = .null && !rs.isEmpty then .error (.violates x.name)
      else .ok (rs.map (· ++ [(x.name, x.default.eval E)]))) rows
  | .dropColumn n x => onRows n (fun rs => .ok (rs.map (dropValue x))) rows
  | .setNotNull n x => onRows n (refuse (.violates x) fun r => col r x = .null) rows
  | .addCheck n name p => onRows n (refuse (.violates name) fun r => p.eval E.call r = some false) rows
  | .createIndex i =>
    onRows i.table (fun rs =>
      if !i.unique || rs.Pairwise (fun a b => i.conflict E.call a b = false) then .ok rs
      else .error (.violates i.name)) rows
  | .insert n given doNothing =>
    match c.table n with
    | none => .error (.undefined n)
    | some t => onRows n (insertRows E t doNothing given) rows
  | .delete n p => onRows n (fun rs => .ok (rs.filter fun r => p.eval E.call r ≠ some true)) rows
  | .raiseIf guards message =>
    if guards.any fun g => (rows g.1).any fun r => g.2.eval E.call r = some true then .error (.raised message)
    else .ok rows
  | _ => .ok rows

/-! ## Statements -/

/-- One namespace: whether it exists, what is in it, and the rows. -/
structure Db (ν : Type) where
  schema : Bool
  catalog : Catalog ν
  rows : ν → List (Row ν)

def Db.setRows (db : Db ν) (n : ν) (rs : List (Row ν)) : Db ν := { db with rows := Function.update db.rows n rs }

/-- The names a statement takes. -/
def Stmt.creates : Stmt ν → List ν
  | .createTable t _ => [t.name]
  | .createIndex i => [i.name]
  | .createFunction n => [n]
  | _ => []

/-- The statement drops what is used; it is never `CASCADE`. -/
def Stmt.breaks : Stmt ν → Use ν → Bool
  | .dropTable n, .object m => m = n
  | .dropTable n, .column t _ => t = n
  | .dropColumn n x, .column t c => t = n && c = x
  | .dropIndex n, .object m => m = n
  | .dropFunction n, .object m => m = n
  | _, _ => false

def Stmt.dropsObject : Stmt ν → Bool
  | .dropTable _ | .dropColumn _ _ | .dropIndex _ | .dropFunction _ => true
  | _ => false

theorem Stmt.breaks_eq_false {st : Stmt ν} (h : st.dropsObject = false) (u : Use ν) : st.breaks u = false := by
  cases st with
  | dropTable | dropColumn | dropIndex | dropFunction => cases h
  | _ => rfl

def Stmt.schema (E : Env ν) (db : Db ν) : Stmt ν → Bool
  | .createSchema => true
  | .dropSchema => db.schema && !(db.catalog = .empty && E.foreign.isEmpty && !E.others)
  | _ => db.schema

/-- One statement of a transaction. -/
def exec (E : Env ν) (st : Stmt ν) (db : Db ν) : Except (Error ν) (Db ν) :=
  if !st.creates.isEmpty && !db.schema then .error .noSchema
  else if st.creates.any fun n => n ∈ E.foreign && n ∉ db.catalog.relations then .error .foreign
  else if E.uses.any st.breaks then .error .used
  else
    (st.catalog db.catalog).bind fun c =>
      (st.rows E db.catalog db.rows).map fun rows => { schema := st.schema E db, catalog := c, rows := rows }

def execAll (E : Env ν) : List (Stmt ν) → Db ν → Except (Error ν) (Db ν)
  | [], db => .ok db
  | st :: rest, db => (exec E st db).bind (execAll E rest)

/-- What a script does to the catalog. -/
def runCatalog : List (Stmt ν) → Catalog ν → Except (Error ν) (Catalog ν)
  | [], c => .ok c
  | st :: rest, c => (st.catalog c).bind (runCatalog rest)

/-- The tables whose rows a statement reads or writes. -/
def Stmt.reads : Stmt ν → List ν
  | .createTable t _ => [t.name]
  | .dropTable n | .addColumn n _ | .dropColumn n _ | .setNotNull n _ | .addCheck n _ _ => [n]
  | .insert n _ _ | .delete n _ => [n]
  | .createIndex i => [i.table]
  | .raiseIf guards _ => guards.map (·.1)
  | _ => []

/-- The tables that are locked against writers from the statement to the end of its transaction.  A new table is not
visible to them; INSERT, DELETE and queries lock no table against them. -/
def Stmt.locks : Stmt ν → List ν
  | .lockTable ns => ns
  | .createTable t _ => [t.name]
  | .dropTable n | .addColumn n _ | .dropColumn n _ | .setNotNull n _ | .dropNotNull n _ | .addCheck n _ _
  | .dropCheck n _ => [n]
  | .createIndex i => [i.table]
  | .createTrigger t => [t.table]
  | .dropTrigger _ n => [n]
  | _ => []

section Spec

variable {E : Env ν} {st : Stmt ν} {script rest : List (Stmt ν)} {db db' : Db ν}

theorem bind_ok {ε α β : Type} {x : Except ε α} {f : α → Except ε β} {b : β} :
    x.bind f = .ok b ↔ ∃ a, x = .ok a ∧ f a = .ok b := by
  cases x <;> simp [Except.bind]

theorem map_ok {ε α β : Type} {x : Except ε α} {f : α → β} {b : β} :
    x.map f = .ok b ↔ ∃ a, x = .ok a ∧ f a = b := by
  cases x <;> simp [Except.map]

theorem exec_ok_iff : exec E st db = .ok db' ↔
    (st.creates = [] ∨ db.schema = true) ∧
      (∀ n ∈ st.creates, n ∈ E.foreign → n ∈ db.catalog.relations) ∧ (∀ u ∈ E.uses, st.breaks u = false) ∧
      ∃ c rows, st.catalog db.catalog = .ok c ∧ st.rows E db.catalog db.rows = .ok rows ∧
        db' = { schema := st.schema E db, catalog := c, rows := rows } := by
  unfold exec
  split_ifs with hschema hforeign huses
  · simp only [false_iff]
    rintro ⟨h, -⟩
    simp_all
  · simp only [false_iff]
    rintro ⟨-, h, -⟩
    obtain ⟨n, hn, hmem⟩ := List.any_eq_true.mp hforeign
    simp only [Bool.and_eq_true, decide_eq_true_eq] at hmem
    exact hmem.2 (h n hn hmem.1)
  · simp only [false_iff]
    rintro ⟨-, -, h, -⟩
    obtain ⟨u, hu, hbreaks⟩ := List.any_eq_true.mp huses
    rw [h u hu] at hbreaks
    cases hbreaks
  · have h1 : st.creates = [] ∨ db.schema = true := by
      cases hs : db.schema with
      | false => exact .inl (by simpa [hs] using hschema)
      | true => exact .inr rfl
    have h2 : ∀ n ∈ st.creates, n ∈ E.foreign → n ∈ db.catalog.relations := by
      intro n hn hmem
      by_contra hnot
      refine hforeign (List.any_eq_true.mpr ⟨n, hn, ?_⟩)
      simp [hmem, hnot]
    have h3 : ∀ u ∈ E.uses, st.breaks u = false := fun u hu =>
      Bool.eq_false_iff.mpr fun hbreaks => huses (List.any_eq_true.mpr ⟨u, hu, hbreaks⟩)
    rw [bind_ok]
    constructor
    · rintro ⟨c, hc, hrows⟩
      obtain ⟨rows, hmap, rfl⟩ := map_ok.mp hrows
      exact ⟨h1, h2, h3, c, rows, hc, hmap, rfl⟩
    · rintro ⟨-, -, -, c, rows, hc, hrows, rfl⟩
      exact ⟨c, hc, map_ok.mpr ⟨rows, hrows, rfl⟩⟩

/-- The new catalog is a function of the old one. -/
theorem exec_catalog (h : exec E st db = .ok db') : st.catalog db.catalog = .ok db'.catalog := by
  obtain ⟨-, -, -, c, rows, hc, -, rfl⟩ := exec_ok_iff.mp h
  exact hc

theorem exec_stmt_rows (h : exec E st db = .ok db') : st.rows E db.catalog db.rows = .ok db'.rows := by
  obtain ⟨-, -, -, c, rows, -, hrows, rfl⟩ := exec_ok_iff.mp h
  exact hrows

theorem execAll_append (a b : List (Stmt ν)) (db : Db ν) :
    execAll E (a ++ b) db = (execAll E a db).bind (execAll E b) := by
  induction a generalizing db with
  | nil => rfl
  | cons st a ih =>
    show (exec E st db).bind (execAll E (a ++ b)) = ((exec E st db).bind (execAll E a)).bind (execAll E b)
    cases exec E st db with
    | error e => rfl
    | ok db₁ => exact ih db₁

theorem runCatalog_append (a b : List (Stmt ν)) (c : Catalog ν) :
    runCatalog (a ++ b) c = (runCatalog a c).bind (runCatalog b) := by
  induction a generalizing c with
  | nil => rfl
  | cons st a ih =>
    show (st.catalog c).bind (runCatalog (a ++ b)) = ((st.catalog c).bind (runCatalog a)).bind (runCatalog b)
    cases st.catalog c with
    | error e => rfl
    | ok c₁ => exact ih c₁

theorem execAll_append_ok {a b : List (Stmt ν)} (h : execAll E (a ++ b) db = .ok db') :
    ∃ db₁, execAll E a db = .ok db₁ ∧ execAll E b db₁ = .ok db' := by
  rw [execAll_append] at h
  exact bind_ok.mp h

theorem execAll_catalog : ∀ {script : List (Stmt ν)} {db : Db ν}, execAll E script db = .ok db' →
    runCatalog script db.catalog = .ok db'.catalog
  | [], db, h => by
    obtain rfl : db = db' := Except.ok.inj h
    rfl
  | st :: rest, db, h => by
    obtain ⟨db₁, hst, hrest⟩ := bind_ok.mp h
    exact bind_ok.mpr ⟨db₁.catalog, exec_catalog hst, execAll_catalog hrest⟩

/-! ## The frame -/

/-- A change to one table commutes with a write to another. -/
theorem onRows_update {n T : ν} (hne : T ≠ n) (f : List (Row ν) → Except (Error ν) (List (Row ν)))
    (rows : ν → List (Row ν)) (x : List (Row ν)) :
    onRows n f (Function.update rows T x) = (onRows n f rows).map fun rs => Function.update rs T x := by
  unfold onRows
  rw [Function.update_of_ne (Ne.symm hne)]
  cases f (rows n) with
  | error e => rfl
  | ok rs => exact congrArg Except.ok (Function.update_comm hne x rs rows)

theorem rows_update {T : ν} (hT : T ∉ st.reads) (c : Catalog ν) (rows : ν → List (Row ν)) (x : List (Row ν)) :
    st.rows E c (Function.update rows T x) = (st.rows E c rows).map fun rs => Function.update rs T x := by
  cases st with
  | createTable t ifNotExists =>
    simp only [Stmt.rows]
    split_ifs
    · rfl
    · exact onRows_update (by simpa [Stmt.reads] using hT) _ _ _
  | insert n given doNothing =>
    simp only [Stmt.rows]
    cases c.table n with
    | none => rfl
    | some t => exact onRows_update (by simpa [Stmt.reads] using hT) _ _ _
  | raiseIf guards message =>
    have hsame : ∀ g ∈ guards, Function.update rows T x g.1 = rows g.1 := by
      intro g hg
      refine Function.update_of_ne (fun heq => hT ?_) _ _
      exact heq ▸ List.mem_map_of_mem hg
    have hany : (guards.any fun g => (Function.update rows T x g.1).any fun r => g.2.eval E.call r = some true) =
        guards.any fun g => (rows g.1).any fun r => g.2.eval E.call r = some true := by
      rw [Bool.eq_iff_iff, List.any_eq_true, List.any_eq_true]
      exact exists_congr fun g => and_congr_right fun hg => by rw [hsame g hg]
    simp only [Stmt.rows, hany]
    split_ifs <;> rfl
  | dropTable | addColumn | dropColumn | setNotNull | addCheck | createIndex | delete =>
    simp only [Stmt.rows]
    exact onRows_update (by simpa [Stmt.reads] using hT) _ _ _
  | _ => rfl

/-- A statement commutes with a write to a table whose rows it does not touch. -/
theorem exec_setRows {T : ν} (hT : T ∉ st.reads) (h : exec E st db = .ok db') (x : List (Row ν)) :
    exec E st (db.setRows T x) = .ok (db'.setRows T x) := by
  obtain ⟨hschema, hforeign, huses, c, rows, hc, hrows, rfl⟩ := exec_ok_iff.mp h
  refine exec_ok_iff.mpr ⟨hschema, hforeign, huses, c, Function.update rows T x, hc, ?_, ?_⟩
  · exact (rows_update hT db.catalog db.rows x).trans (by rw [hrows]; rfl)
  · cases st <;> rfl

/-- A script that succeeds drops nothing that others use. -/
theorem execAll_breaks : ∀ {script : List (Stmt ν)} {db : Db ν}, execAll E script db = .ok db' →
    ∀ st ∈ script, ∀ u ∈ E.uses, st.breaks u = false
  | [], _, _ => by simp
  | st :: rest, db, h => by
    obtain ⟨db₁, hst, hrest⟩ := bind_ok.mp h
    obtain ⟨-, -, hbreaks, -⟩ := exec_ok_iff.mp hst
    exact List.forall_mem_cons.mpr ⟨hbreaks, execAll_breaks hrest⟩

theorem execAll_setRows {T : ν} (x : List (Row ν)) : ∀ {script : List (Stmt ν)} {db : Db ν},
    (∀ st ∈ script, T ∉ st.reads) → execAll E script db = .ok db' →
      execAll E script (db.setRows T x) = .ok (db'.setRows T x)
  | [], db, _, h => by
    obtain rfl : db = db' := Except.ok.inj h
    rfl
  | st :: rest, db, hT, h => by
    obtain ⟨db₁, hst, hrest⟩ := bind_ok.mp h
    exact bind_ok.mpr ⟨db₁.setRows T x, exec_setRows (hT st List.mem_cons_self) hst x,
      execAll_setRows x (fun st hst => hT st (List.mem_cons_of_mem _ hst)) hrest⟩

/-! ## What happens to the rows of a table -/

/-- The statement creates, empties, fills or thins out the table. -/
def Stmt.replaces (T : ν) : Stmt ν → Bool
  | .createTable t _ => t.name = T
  | .dropTable n | .insert n _ _ | .delete n _ => n = T
  | _ => false

/-- What a statement does to a row of the table. -/
def Stmt.rowMap (E : Env ν) (T : ν) : Stmt ν → Row ν → Row ν
  | .addColumn n x, r => if n = T then r ++ [(x.name, x.default.eval E)] else r
  | .dropColumn n x, r => if n = T then dropValue x r else r
  | _, r => r

/-- What a script does to a row of the table. -/
def rowMap (E : Env ν) (T : ν) (script : List (Stmt ν)) (r : Row ν) :
    Row ν := script.foldl (fun r st => st.rowMap E T r) r

theorem onRows_ok {n : ν} {f : List (Row ν) → Except (Error ν) (List (Row ν))} {rows rows' : ν → List (Row ν)}
    (h : onRows n f rows = .ok rows') : ∃ rs, f (rows n) = .ok rs ∧ rows' = Function.update rows n rs := by
  obtain ⟨rs, hrs, rfl⟩ := map_ok.mp h
  exact ⟨rs, hrs, rfl⟩

omit [DecidableEq ν] in
theorem refuse_ok {e : Error ν} {p : Row ν → Bool} {rows rs : List (Row ν)} (h : refuse e p rows = .ok rs) :
    rs = rows ∧ ∀ r ∈ rows, p r = false := by
  unfold refuse at h
  split_ifs at h with hany
  refine ⟨(Except.ok.inj h).symm, fun r hr => ?_⟩
  by_contra hp
  exact hany (List.any_eq_true.mpr ⟨r, hr, by simpa using hp⟩)

/-- A change to one table leaves the others, and may be a map on its own. -/
theorem onRows_map {n T : ν} {f : List (Row ν) → Except (Error ν) (List (Row ν))} {g : Row ν → Row ν}
    {rows rows' : ν → List (Row ν)} (h : onRows n f rows = .ok rows')
    (hf : ∀ rs, f (rows n) = .ok rs → n = T → rs = (rows n).map g) (hg : n ≠ T → ∀ r, g r = r) :
    rows' T = (rows T).map g := by
  obtain ⟨rs, hrs, rfl⟩ := onRows_ok h
  by_cases hn : n = T
  · subst hn
    rw [Function.update_self]
    exact hf rs hrs rfl
  · rw [Function.update_of_ne (Ne.symm hn), List.map_congr_left (fun r _ => hg hn r), List.map_id']

theorem exec_rows {T : ν} (h : exec E st db = .ok db') (hT : st.replaces T = false) :
    db'.rows T = (db.rows T).map (st.rowMap E T) := by
  have hrows := exec_stmt_rows h
  have hkeep : ∀ {n : ν} {f : List (Row ν) → Except (Error ν) (List (Row ν))},
    onRows n f db.rows = .ok db'.rows →
      (∀ rs, f (db.rows n) = .ok rs → n = T → rs = db.rows n) → db'.rows T = (db.rows T).map fun r => r := by
    intro n f h hf
    refine onRows_map h (fun rs hrs hn => ?_) fun _ _ => rfl
    rw [List.map_id']
    exact hf rs hrs hn
  cases st with
  | createTable t ifNotExists =>
    simp only [Stmt.rows] at hrows
    split_ifs at hrows
    · rw [← Except.ok.inj hrows]
      exact (List.map_id' _).symm
    · exact hkeep hrows fun rs _ hn => absurd hn (of_decide_eq_false hT)
  | dropTable n =>
    simp only [Stmt.rows] at hrows
    exact hkeep hrows fun rs _ hn => absurd hn (of_decide_eq_false hT)
  | addColumn n x =>
    simp only [Stmt.rows] at hrows
    refine onRows_map hrows (fun rs hrs hn => ?_) fun hn r => if_neg hn
    split_ifs at hrs
    rw [← Except.ok.inj hrs]
    exact List.map_congr_left fun r _ => (if_pos hn).symm
  | dropColumn n x =>
    simp only [Stmt.rows] at hrows
    refine onRows_map hrows (fun rs hrs hn => ?_) fun hn r => if_neg hn
    rw [← Except.ok.inj hrs]
    exact List.map_congr_left fun r _ => (if_pos hn).symm
  | setNotNull n x => exact hkeep hrows fun rs hrs _ => (refuse_ok hrs).1
  | addCheck n name p => exact hkeep hrows fun rs hrs _ => (refuse_ok hrs).1
  | createIndex i =>
    simp only [Stmt.rows] at hrows
    refine hkeep hrows fun rs hrs _ => ?_
    split_ifs at hrs
    exact (Except.ok.inj hrs).symm
  | insert n given doNothing =>
    simp only [Stmt.rows] at hrows
    split at hrows
    · cases hrows
    · exact hkeep hrows fun rs _ hn => absurd hn (of_decide_eq_false hT)
  | delete n p =>
    simp only [Stmt.rows] at hrows
    exact hkeep hrows fun rs _ hn => absurd hn (of_decide_eq_false hT)
  | raiseIf guards message =>
    simp only [Stmt.rows] at hrows
    split_ifs at hrows
    rw [← Except.ok.inj hrows]
    exact (List.map_id' _).symm
  | _ =>
    rw [← Except.ok.inj hrows]
    exact (List.map_id' _).symm

/-- Over a whole script. -/
theorem execAll_rows {T : ν} : ∀ {script : List (Stmt ν)} {db : Db ν}, execAll E script db = .ok db' →
    (∀ st ∈ script, st.replaces T = false) → db'.rows T = (db.rows T).map (rowMap E T script)
  | [], db, h, _ => by
    obtain rfl : db = db' := Except.ok.inj h
    exact (List.map_id' _).symm
  | st :: rest, db, h, hT => by
    obtain ⟨db₁, hst, hrest⟩ := bind_ok.mp h
    rw [execAll_rows hrest fun st hst => hT st (List.mem_cons_of_mem _ hst),
      exec_rows hst (hT st List.mem_cons_self), List.map_map]
    rfl

/-- A table whose rows no statement touches. -/
theorem exec_rows_of_not_reads {T : ν} (h : exec E st db = .ok db') (hT : T ∉ st.reads) :
    db'.rows T = db.rows T := by
  have hreplaces : st.replaces T = false := by
    cases st <;> simp_all [Stmt.reads, Stmt.replaces, eq_comm]
  have hmap : ∀ r, st.rowMap E T r = r := by
    intro r
    cases st with
    | addColumn n x => exact if_neg fun heq : n = T => hT (heq ▸ List.mem_singleton_self n)
    | dropColumn n x => exact if_neg fun heq : n = T => hT (heq ▸ List.mem_singleton_self n)
    | _ => rfl
  rw [exec_rows h hreplaces, List.map_congr_left fun r _ => hmap r, List.map_id']

theorem execAll_rows_of_not_reads {T : ν} : ∀ {script : List (Stmt ν)} {db : Db ν},
    execAll E script db = .ok db' → (∀ st ∈ script, T ∉ st.reads) → db'.rows T = db.rows T
  | [], db, h, _ => by
    obtain rfl : db = db' := Except.ok.inj h
    rfl
  | st :: rest, db, h, hT => by
    obtain ⟨db₁, hst, hrest⟩ := bind_ok.mp h
    exact (execAll_rows_of_not_reads hrest fun st hst => hT st (List.mem_cons_of_mem _ hst)).trans
      (exec_rows_of_not_reads hst (hT st List.mem_cons_self))

/-- The statement inserts into the table. -/
def Stmt.insertsInto (T : ν) : Stmt ν → Bool
  | .insert n _ _ => n = T
  | _ => false

/-- An empty table stays empty without an INSERT. -/
theorem exec_rows_nil {T : ν} (h : exec E st db = .ok db') (hT : st.insertsInto T = false) (hnil : db.rows T = []) :
    db'.rows T = [] := by
  have hrows := exec_stmt_rows h
  by_cases hreplaces : st.replaces T = false
  · rw [exec_rows h hreplaces, hnil, List.map_nil]
  · cases st with
    | createTable t ifNotExists =>
      have ht : t.name = T := by simpa [Stmt.replaces] using hreplaces
      simp only [Stmt.rows] at hrows
      split_ifs at hrows
      · rw [← Except.ok.inj hrows, hnil]
      · obtain ⟨rs, hrs, hupdate⟩ := onRows_ok hrows
        rw [hupdate, ← ht, Function.update_self, ← Except.ok.inj hrs]
    | dropTable n =>
      have hn : n = T := by simpa [Stmt.replaces] using hreplaces
      simp only [Stmt.rows] at hrows
      obtain ⟨rs, hrs, hupdate⟩ := onRows_ok hrows
      rw [hupdate, ← hn, Function.update_self, ← Except.ok.inj hrs]
    | delete n p =>
      have hn : n = T := by simpa [Stmt.replaces] using hreplaces
      simp only [Stmt.rows] at hrows
      obtain ⟨rs, hrs, hupdate⟩ := onRows_ok hrows
      rw [hupdate, ← hn, Function.update_self, ← Except.ok.inj hrs, hn, hnil, List.filter_nil]
    | insert n given doNothing => exact absurd hT hreplaces
    | _ => exact absurd rfl hreplaces

theorem execAll_rows_nil {T : ν} : ∀ {script : List (Stmt ν)} {db : Db ν}, execAll E script db = .ok db' →
    (∀ st ∈ script, st.insertsInto T = false) → db.rows T = [] → db'.rows T = []
  | [], db, h, _, hnil => by
    obtain rfl : db = db' := Except.ok.inj h
    exact hnil
  | st :: rest, db, h, hT, hnil => by
    obtain ⟨db₁, hst, hrest⟩ := bind_ok.mp h
    exact execAll_rows_nil hrest (fun st hst => hT st (List.mem_cons_of_mem _ hst))
      (exec_rows_nil hst (hT st List.mem_cons_self) hnil)

/-- An INSERT without ON CONFLICT that succeeds adds all its rows. -/
theorem insertRows_ok {t : Table ν} : ∀ {given rows rs : List (Row ν)}, insertRows E t false given rows = .ok rs →
    rs = rows ++ given.map (t.fill E)
  | [], rows, rs, h => by
    obtain rfl : rows = rs := Except.ok.inj h
    simp
  | g :: given, rows, rs, h => by
    obtain ⟨rows₁, hrow, hrest⟩ := bind_ok.mp h
    unfold insertRow at hrow
    split_ifs at hrow with hkey hnothing hadmits
    · exact hnothing.elim
    · rw [insertRows_ok hrest, ← Except.ok.inj hrow]
      simp

theorem exec_insert {n : ν} {t : Table ν} {given : List (Row ν)} (h : exec E (.insert n given false) db = .ok db')
    (ht : db.catalog.table n = some t) : db'.rows n = db.rows n ++ given.map (t.fill E) := by
  have hrows := exec_stmt_rows h
  simp only [Stmt.rows, ht] at hrows
  obtain ⟨rs, hrs, hupdate⟩ := onRows_ok hrows
  rw [hupdate, Function.update_self]
  exact insertRows_ok hrs

theorem exec_delete {n : ν} {p : Cond ν} (h : exec E (.delete n p) db = .ok db') :
    db'.rows n = (db.rows n).filter fun r => p.eval E.call r ≠ some true := by
  have hrows := exec_stmt_rows h
  simp only [Stmt.rows] at hrows
  obtain ⟨rs, hrs, hupdate⟩ := onRows_ok hrows
  rw [hupdate, Function.update_self]
  exact (Except.ok.inj hrs).symm

/-- A guard that did not raise. -/
theorem exec_raiseIf {guards : List (ν × Cond ν)} {message : String}
    (h : exec E (.raiseIf guards message) db = .ok db') :
    db'.rows = db.rows ∧ ∀ g ∈ guards, ∀ r ∈ db.rows g.1, g.2.eval E.call r ≠ some true := by
  have hrows := exec_stmt_rows h
  simp only [Stmt.rows] at hrows
  split_ifs at hrows with hany
  refine ⟨(Except.ok.inj hrows).symm, fun g hg r hr htrue => hany ?_⟩
  exact List.any_eq_true.mpr ⟨g, hg, List.any_eq_true.mpr ⟨r, hr, decide_eq_true htrue⟩⟩

/-! ## Scripts that only add columns, and scripts that only drop them -/

def Stmt.added (E : Env ν) (T : ν) : Stmt ν → Option (ν × Value)
  | .addColumn n x => if n = T then some (x.name, x.default.eval E) else none
  | _ => none

/-- The columns a script adds to the rows of a table. -/
def added (E : Env ν) (T : ν) (script : List (Stmt ν)) : Row ν := script.filterMap (Stmt.added E T)

def Stmt.drops : Stmt ν → Bool
  | .dropColumn _ _ => true
  | _ => false

theorem rowMap_added {T : ν} : ∀ {script : List (Stmt ν)} (r : Row ν), (∀ st ∈ script, st.drops = false) →
    rowMap E T script r = r ++ added E T script
  | [], r, _ => (List.append_nil r).symm
  | st :: script, r, h => by
    have hrest : ∀ r, rowMap E T script r = r ++ added E T script :=
      fun r => rowMap_added r fun st hst => h st (List.mem_cons_of_mem _ hst)
    show rowMap E T script (st.rowMap E T r) = _
    rw [hrest]
    cases st with
    | addColumn n x =>
      by_cases hn : n = T
      · simp [added, Stmt.added, Stmt.rowMap, hn]
      · simp [added, Stmt.added, Stmt.rowMap, hn]
    | dropColumn n x => cases h _ List.mem_cons_self
    | _ => rfl

def Stmt.dropped (T : ν) : Stmt ν → Option ν
  | .dropColumn n x => if n = T then some x else none
  | _ => none

/-- The columns a script drops from the table. -/
def dropped (T : ν) (script : List (Stmt ν)) : List ν := script.filterMap (Stmt.dropped T)

def Stmt.adds : Stmt ν → Bool
  | .addColumn _ _ => true
  | _ => false

theorem rowMap_dropped {T : ν} : ∀ {script : List (Stmt ν)} (r : Row ν), (∀ st ∈ script, st.adds = false) →
    rowMap E T script r = r.filter (·.1 ∉ dropped T script)
  | [], r, _ => (List.filter_eq_self.mpr fun _ _ => rfl).symm
  | st :: script, r, h => by
    have hrest : ∀ r, rowMap E T script r = r.filter (·.1 ∉ dropped T script) :=
      fun r => rowMap_dropped r fun st hst => h st (List.mem_cons_of_mem _ hst)
    show rowMap E T script (st.rowMap E T r) = _
    rw [hrest]
    cases st with
    | dropColumn n x =>
      by_cases hn : n = T
      · have hdrop : dropped T (.dropColumn n x :: script) = x :: dropped T script :=
          List.filterMap_cons_some (if_pos hn)
        rw [hdrop, Stmt.rowMap, if_pos hn, dropValue, List.filter_filter]
        exact List.filter_congr fun y _ => by simp [Bool.and_comm]
      · have hdrop : dropped T (.dropColumn n x :: script) = dropped T script :=
          List.filterMap_cons_none (if_neg hn)
        rw [hdrop, Stmt.rowMap, if_neg hn]
    | addColumn n x => cases h _ List.mem_cons_self
    | _ => rfl

end Spec

end Ddl
