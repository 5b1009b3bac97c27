import Mathlib.Data.List.Nodup

/-!
# Table — relational tables with constraints

A `Schema` is what the database checks when a statement ends: keys, unique indexes, CHECK constraints and column
ranges, as one decidable condition on the rows.  A `Table` carries its rows with a proof of it, so a table that
breaks a constraint cannot be built: a statement that would leave one fails (`none`) and changes nothing.

`insert`, `update` and `delete` are the three statement forms.  `update p f` rewrites every row that matches `p`; `put`
writes a row over the one with its key.  In a `Keyed` schema they fail only on a taken key or on a row check.
-/

namespace Rel

variable {ρ : Type}

/-- The constraints checked at the end of every statement. -/
structure Schema (ρ : Type) where
  Ok : List ρ → Prop
  dec : DecidablePred Ok

instance (S : Schema ρ) : DecidablePred S.Ok := S.dec

/-- Rows that satisfy the constraints. -/
structure Table (S : Schema ρ) where
  rows : List ρ
  ok : S.Ok rows

variable {S : Schema ρ}

/-- Replace the rows, if the constraints allow it. -/
def Table.write (_ : Table S) (rows : List ρ) : Option (Table S) :=
  if h : S.Ok rows then some ⟨rows, h⟩ else none

def Table.insert (t : Table S) (r : ρ) : Option (Table S) := t.write (t.rows ++ [r])

def Table.update (t : Table S) (p : ρ → Bool) (f : ρ → ρ) : Option (Table S) :=
  t.write (t.rows.map fun r => if p r then f r else r)

def Table.delete (t : Table S) (p : ρ → Bool) : Option (Table S) := t.write (t.rows.filter fun r => !p r)

theorem Table.write_rows {t t' : Table S} {rows : List ρ} (h : t.write rows = some t') : t'.rows = rows := by
  unfold Table.write at h
  split_ifs at h
  obtain rfl := Option.some.inj h
  rfl

theorem Table.insert_of_ok {t : Table S} {r : ρ} (h : S.Ok (t.rows ++ [r])) :
    t.insert r = some ⟨t.rows ++ [r], h⟩ := dif_pos h

theorem Table.insert_of_not_ok {t : Table S} {r : ρ} (h : ¬S.Ok (t.rows ++ [r])) : t.insert r = none := dif_neg h

theorem Table.update_of_ok {t : Table S} {p : ρ → Bool} {f : ρ → ρ}
    (h : S.Ok (t.rows.map fun r => if p r then f r else r)) : t.update p f = some ⟨_, h⟩ := dif_pos h

theorem Table.mem_insert {t t' : Table S} {r x : ρ} (h : t.insert r = some t') :
    x ∈ t'.rows ↔ x ∈ t.rows ∨ x = r := by
  rw [Table.write_rows h]; simp

theorem Table.mem_delete {t t' : Table S} {p : ρ → Bool} {x : ρ} (h : t.delete p = some t') :
    x ∈ t'.rows ↔ x ∈ t.rows ∧ p x = false := by
  rw [Table.write_rows h, List.mem_filter]; simp

theorem Table.length_update {t t' : Table S} {p : ρ → Bool} {f : ρ → ρ} (h : t.update p f = some t') :
    t'.rows.length = t.rows.length := by
  rw [Table.write_rows h, List.length_map]

/-- Two rows with one key are the same row. -/
theorem eq_of_key {κ : Type} {key : ρ → κ} {l : List ρ} (hl : (l.map key).Nodup) {x y : ρ} (hx : x ∈ l)
    (hy : y ∈ l) (h : key x = key y) : x = y := List.inj_on_of_nodup_map hl hx hy h

/-! ## Unique keys and row checks -/

section Keyed

variable {κ : Type} {key : ρ → κ} {check : ρ → Bool}

/-- The constraints are a unique key and a check on each row. -/
def Schema.Keyed (S : Schema ρ) (key : ρ → κ) (check : ρ → Bool) : Prop :=
  ∀ rows, S.Ok rows ↔ (rows.map key).Nodup ∧ ∀ r ∈ rows, check r = true

/-- Such an UPDATE fails only on a check. -/
theorem Table.update_keyed {t : Table S} {p : ρ → Bool} {f : ρ → ρ} (hS : S.Keyed key check)
    (hkey : ∀ r ∈ t.rows, p r = true → key (f r) = key r)
    (hcheck : ∀ r ∈ t.rows, p r = true → check (f r) = true) : ∃ t', t.update p f = some t' := by
  obtain ⟨hnodup, hchecks⟩ := (hS t.rows).mp t.ok
  have hok : S.Ok (t.rows.map fun r => if p r then f r else r) := by
    refine (hS _).mpr ⟨?_, fun x hx => ?_⟩
    · have hkeys : (t.rows.map fun r => if p r then f r else r).map key = t.rows.map key := by
        rw [List.map_map]
        refine List.map_congr_left fun r hr => ?_
        simp only [Function.comp]
        split_ifs with hp
        · exact hkey r hr hp
        · rfl
      rw [hkeys]
      exact hnodup
    · obtain ⟨r, hr, rfl⟩ := List.mem_map.mp hx
      split_ifs with hp
      · exact hcheck r hr hp
      · exact hchecks r hr
  exact ⟨_, Table.update_of_ok hok⟩

end Keyed

/-! ## Lookup by key -/

section Lookup

variable {κ : Type} [DecidableEq κ] (key : ρ → κ)

/-- The row with a given key. -/
def lookup (rows : List ρ) (k : κ) : Option ρ := rows.find? fun r => key r = k

variable {key}

theorem lookup_key {rows : List ρ} {k : κ} {r : ρ} (h : lookup key rows k = some r) : key r = k := by
  simpa using List.find?_some h

theorem lookup_mem {rows : List ρ} {k : κ} {r : ρ} (h : lookup key rows k = some r) : r ∈ rows :=
  List.mem_of_find?_eq_some h

theorem lookup_eq_none {rows : List ρ} {k : κ} : lookup key rows k = none ↔ ∀ r ∈ rows, key r ≠ k := by
  simp [lookup]

/-- Where keys are unique, the rows are what the lookups find. -/
theorem lookup_eq_some {rows : List ρ} (hn : (rows.map key).Nodup) {k : κ} {r : ρ} :
    lookup key rows k = some r ↔ r ∈ rows ∧ key r = k := by
  refine ⟨fun h => ⟨lookup_mem h, lookup_key h⟩, fun ⟨hr, hk⟩ => ?_⟩
  cases h : lookup key rows k with
  | none => exact absurd hk (lookup_eq_none.mp h r hr)
  | some x => rw [eq_of_key hn (lookup_mem h) hr ((lookup_key h).trans hk.symm)]

/-- Selecting by a unique key gives at most the row the lookup finds. -/
theorem filterMap_key {β : Type} {g : ρ → β} {k : κ} :
    ∀ {rows : List ρ}, (rows.map key).Nodup →
      rows.filterMap (fun x => if key x = k then some (g x) else none) = ((lookup key rows k).map g).toList
  | [], _ => rfl
  | a :: rows, hn => by
    obtain ⟨ha, hn⟩ := List.nodup_cons.mp hn
    have ih := filterMap_key (g := g) (k := k) hn
    by_cases hk : key a = k
    · have hnone : lookup key rows k = none := by
        refine lookup_eq_none.mpr fun r hr hrk => ha ?_
        rw [hk, ← hrk]
        exact List.mem_map_of_mem hr
      rw [hnone] at ih
      simp only [List.filterMap_cons, hk, if_true, ih, lookup, List.find?_cons, decide_true, Option.map_some,
        Option.map_none, Option.toList_none, Option.toList_some]
    · simp only [List.filterMap_cons, hk, if_false, ih, lookup, List.find?_cons, decide_false]

theorem filter_eq_lookup {rows : List ρ} (hn : (rows.map key).Nodup) (k : κ) :
    rows.filter (fun x => key x = k) = (lookup key rows k).toList := by
  have h := filterMap_key (g := fun x : ρ => x) (k := k) hn
  rw [Option.map_id'] at h
  rw [← h, ← List.filterMap_eq_filter]
  refine congrArg (fun f => List.filterMap f rows) (funext fun x => ?_)
  by_cases hk : key x = k <;> simp [Option.guard, hk]

theorem Table.lookup_update {t t' : Table S} {p : ρ → Bool} {f : ρ → ρ}
    (hf : ∀ r, p r = true → key (f r) = key r) (h : t.update p f = some t') (k : κ) :
    lookup key t'.rows k = (lookup key t.rows k).map fun r => if p r then f r else r := by
  rw [Table.write_rows h, lookup, lookup, List.find?_map]
  congr 1
  refine congrArg (fun q => List.find? q t.rows) (funext fun r => ?_)
  simp only [Function.comp]
  split_ifs with hp
  · rw [hf r hp]
  · rfl

theorem Table.lookup_insert {t t' : Table S} {r : ρ} (h : t.insert r = some t') (k : κ) :
    lookup key t'.rows k = (lookup key t.rows k).or (if key r = k then some r else none) := by
  rw [Table.write_rows h, lookup, lookup, List.find?_append]
  by_cases hk : key r = k <;> simp [hk]

variable (key) in
/-- Write a row over the one with its key, or as a new one. -/
def Table.put (t : Table S) (r : ρ) : Option (Table S) :=
  if t.rows.any (fun x => key x = key r) then t.update (fun x => key x = key r) (fun _ => r) else t.insert r

theorem Table.lookup_put {t t' : Table S} {r : ρ} (h : t.put key r = some t') (k : κ) :
    lookup key t'.rows k = if key r = k then some r else lookup key t.rows k := by
  unfold Table.put at h
  split_ifs at h with hany
  · obtain ⟨x, hx, hxr⟩ := List.any_eq_true.mp hany
    have hkeys : ∀ y : ρ, decide (key y = key r) = true → key r = key y := fun y hy => (of_decide_eq_true hy).symm
    rw [Table.lookup_update hkeys h]
    cases hy : lookup key t.rows k with
    | none =>
      have hne : key r ≠ k := fun hk => lookup_eq_none.mp hy x hx ((of_decide_eq_true hxr).trans hk)
      simp [hne]
    | some y =>
      rw [Option.map_some, lookup_key hy]
      by_cases hk : key r = k
      · simp [hk]
      · simp [hk, Ne.symm hk]
  · have hnone : lookup key t.rows (key r) = none := by
      refine lookup_eq_none.mpr fun x hx hxr => hany (List.any_eq_true.mpr ⟨x, hx, ?_⟩)
      exact decide_eq_true hxr
    rw [Table.lookup_insert h]
    by_cases hk : key r = k
    · rw [← hk, hnone, if_pos rfl, Option.none_or]
    · rw [if_neg hk, if_neg hk, Option.or_none]

theorem Table.put_keyed {t : Table S} {check : ρ → Bool} {r : ρ} (hS : S.Keyed key check)
    (hcheck : check r = true) : ∃ t', t.put key r = some t' := by
  unfold Table.put
  split_ifs with hany
  · exact Table.update_keyed hS (fun x _ hx => (of_decide_eq_true hx).symm) fun _ _ _ => hcheck
  · have hfresh : key r ∉ t.rows.map key := by
      intro hmem
      obtain ⟨x, hx, hkey⟩ := List.mem_map.mp hmem
      exact hany (List.any_eq_true.mpr ⟨x, hx, decide_eq_true hkey⟩)
    obtain ⟨hnodup, hchecks⟩ := (hS t.rows).mp t.ok
    have hok : S.Ok (t.rows ++ [r]) := by
      refine (hS _).mpr ⟨?_, fun x hx => ?_⟩
      · rw [List.map_append, List.map_singleton]
        exact hnodup.append (List.nodup_singleton _) (List.disjoint_singleton.mpr hfresh)
      · rcases List.mem_append.mp hx with hx | hx
        · exact hchecks x hx
        · rw [List.mem_singleton.mp hx]
          exact hcheck
    exact ⟨_, Table.insert_of_ok hok⟩

theorem Table.lookup_delete {t t' : Table S} {p : ρ → Bool} (hn : (t.rows.map key).Nodup)
    (h : t.delete p = some t') (k : κ) :
    lookup key t'.rows k = (lookup key t.rows k).filter fun r => !p r := by
  have hn' : (t'.rows.map key).Nodup := by
    rw [Table.write_rows h]
    exact hn.sublist (List.filter_sublist.map key)
  ext x
  rw [lookup_eq_some hn', Table.mem_delete h, Option.filter_eq_some_iff, lookup_eq_some hn]
  cases p x <;> simp

end Lookup

end Rel
