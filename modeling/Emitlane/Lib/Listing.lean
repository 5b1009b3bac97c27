import Mathlib.Data.List.Sort

/-!
# Listing — sorted listings that are read in parts

`ORDER BY` sorts by a total order that tells the rows of a table apart (`Tells`), so a sorted listing is determined by
its rows.

* `top r k` is `ORDER BY r LIMIT k`.  The first `k` of two tables together are among the first `k` of each
  (`top_append`).
* `follow` reads a listing page by page, each page telling where the next begins.  If every page is the next piece of
  a list, the pages together are the list if and only if every page end is read back (`follow_eq_iff`).
-/

namespace Listing

variable {α : Type*} {r : α → α → Prop} {l l' xs ys : List α}

/-! ## Sorting -/

section Sorting

/-- The order `r` tells the members of `l` apart. -/
def Tells (r : α → α → Prop) (l : List α) : Prop := ∀ a ∈ l, ∀ b ∈ l, r a b → r b a → a = b

theorem Tells.mono (h : Tells r l) (hsub : l' ⊆ l) : Tells r l' := fun a ha b hb => h a (hsub ha) b (hsub hb)

/-- Sorted lists with the same members are equal. -/
theorem Tells.eq_of_perm (h : Tells r l) (hl : l.Pairwise r) (hl' : l'.Pairwise r) (hperm : l.Perm l') : l = l' :=
  List.Perm.eq_of_pairwise (fun a b ha hb => h a ha b (hperm.mem_iff.mpr hb)) hl hl' hperm

/-- `r` compares a key. -/
def ByKey {κ : Type*} [LinearOrder κ] (r : α → α → Prop) (key : α → κ) :
    Prop := ∀ a b, r a b ↔ key a ≤ key b

section ByKey

variable {κ : Type*} [LinearOrder κ] {key : α → κ}

theorem ByKey.total (h : ByKey r key) : Std.Total r where
  total a b := by
    rw [h a b, h b a]
    exact le_total _ _

theorem ByKey.trans (h : ByKey r key) : IsTrans α r where
  trans a b c hab hbc := (h a c).mpr (((h a b).mp hab).trans ((h b c).mp hbc))

theorem ByKey.tells (h : ByKey r key) (hinj : ∀ a ∈ l, ∀ b ∈ l, key a = key b → a = b) : Tells r l :=
  fun a ha b hb hab hba => hinj a ha b hb (((h a b).mp hab).antisymm ((h b a).mp hba))

end ByKey

variable [DecidableRel r] [Std.Total r] [IsTrans α r]

theorem Tells.sort_eq (h : Tells r l) (hl' : l'.Pairwise r) (hperm : l.Perm l') : l.insertionSort r = l' := by
  have hsort := List.perm_insertionSort r l
  exact (h.mono fun a ha => hsort.mem_iff.mp ha).eq_of_perm (List.pairwise_insertionSort r l) hl' (hsort.trans hperm)

theorem Tells.sort_perm (h : Tells r l) (hperm : l.Perm l') : l.insertionSort r = l'.insertionSort r :=
  h.sort_eq (List.pairwise_insertionSort r l') (hperm.trans (List.perm_insertionSort r l').symm)

theorem Tells.sort_append (h : Tells r (xs ++ ys)) :
    (xs ++ ys).insertionSort r = (xs.insertionSort r).merge (ys.insertionSort r) (r · ·) := by
  refine h.sort_eq ((List.pairwise_insertionSort r xs).merge (List.pairwise_insertionSort r ys)) ?_
  have hparts := (List.perm_insertionSort r xs).append (List.perm_insertionSort r ys)
  exact hparts.symm.trans (List.merge_perm_append _).symm

end Sorting

/-! ## The first rows of a listing -/

section Top

/-- The first `k` of a merge need only the first `k` of each side. -/
theorem take_merge_take (le : α → α → Bool) (k m n : Nat) (xs ys : List α) (hm : k ≤ m) (hn : k ≤ n) :
    ((xs.take m).merge (ys.take n) le).take k = (xs.merge ys le).take k := by
  induction k generalizing m n xs ys with
  | zero => rfl
  | succ k ih =>
    obtain ⟨m, rfl⟩ := Nat.exists_eq_add_of_lt hm
    obtain ⟨n, rfl⟩ := Nat.exists_eq_add_of_lt hn
    cases xs with
    | nil =>
      rw [List.take_nil, List.nil_merge, List.nil_merge, List.take_take]
      congr 1
      omega
    | cons x xs =>
      cases ys with
      | nil =>
        rw [List.take_nil, List.merge_right, List.merge_right, List.take_take]
        congr 1
        omega
      | cons y ys =>
        have hx := ih (k + m) (k + n + 1) xs (y :: ys) (by omega) (by omega)
        have hy := ih (k + m + 1) (k + n) (x :: xs) ys (by omega) (by omega)
        rw [List.take_succ_cons] at hx hy
        rw [List.take_succ_cons, List.take_succ_cons, List.cons_merge_cons, List.cons_merge_cons]
        split_ifs
        · rw [List.take_succ_cons, List.take_succ_cons, hx]
        · rw [List.take_succ_cons, List.take_succ_cons, hy]

variable [DecidableRel r]

variable (r) in
/-- `ORDER BY r LIMIT k`. -/
def top (k : Nat) (l : List α) : List α := (l.insertionSort r).take k

theorem top_subset (k : Nat) : top r k l ⊆ l := fun _ ha => (List.mem_insertionSort r).mp (List.mem_of_mem_take ha)

theorem top_nodup {β : Type*} (f : α → β) (k : Nat) (h : (l.map f).Nodup) : ((top r k l).map f).Nodup :=
  (((List.perm_insertionSort r l).map f).nodup_iff.mpr h).sublist ((List.take_sublist _ _).map f)

theorem length_top (k : Nat) : (top r k l).length = min k l.length := by
  rw [top, List.length_take, List.length_insertionSort]

variable [Std.Total r] [IsTrans α r]

theorem top_pairwise (k : Nat) : (top r k l).Pairwise r :=
  (List.pairwise_insertionSort r l).sublist (List.take_sublist _ _)

/-- **The first rows of two tables together are among the first rows of each.** -/
theorem top_append (k : Nat) (h : Tells r (xs ++ ys)) : top r k (top r k xs ++ top r k ys) = top r k (xs ++ ys) := by
  have hsub : top r k xs ++ top r k ys ⊆ xs ++ ys :=
    List.append_subset.mpr ⟨List.subset_append_of_subset_left ys (top_subset k),
      List.subset_append_of_subset_right xs (top_subset k)⟩
  show (((top r k xs ++ top r k ys)).insertionSort r).take k = ((xs ++ ys).insertionSort r).take k
  rw [(h.mono hsub).sort_append, h.sort_append, (top_pairwise k).insertionSort_eq, (top_pairwise k).insertionSort_eq]
  exact take_merge_take _ k k k _ _ le_rfl le_rfl

end Top

/-! ## Pages -/

section Pages

variable {κ ε : Type*}

/-- The query of a page: the rows behind the cursor, and one more than the page holds. -/
def probe (r : α → α → Prop) [DecidableRel r] (behind : κ → α → Bool) (limit : Nat) (l : List α)
    (c : Option κ) :
    List α := top r (limit + 1) (l.filter fun a => c.all (behind · a))

/-- Behind the last row read are the rows not read yet. -/
theorem filter_behind {l done rest : List α} {d : α} (p : α → Bool) (htells : Tells r l) (hnodup : l.Nodup)
    (hsorted : l.Pairwise r) (hl : l = done ++ d :: rest) (hp : ∀ a ∈ l, p a = true ↔ r d a ∧ d ≠ a) :
    l.filter p = rest := by
  have hd : d ∈ l := by simp [hl]
  have hread : ∀ a ∈ done, p a = false := by
    intro a ha
    have hal : a ∈ l := by simp [hl, ha]
    rw [Bool.eq_false_iff, ne_eq, hp a hal]
    rintro ⟨hda, hne⟩
    rw [hl] at hsorted
    exact hne (htells d hd a hal hda (List.pairwise_append.mp hsorted |>.2.2 a ha d (by simp)))
  have hself : p d = false := by
    rw [Bool.eq_false_iff, ne_eq, hp d hd]
    exact fun h => h.2 rfl
  have hrest : ∀ a ∈ rest, p a = true := by
    intro a ha
    rw [hl] at hsorted hnodup
    refine (hp a (by simp [hl, ha])).mpr ⟨?_, ?_⟩
    · exact List.rel_of_pairwise_cons (List.pairwise_append.mp hsorted).2.1 ha
    · rintro rfl
      exact (List.nodup_cons.mp (List.nodup_append.mp hnodup).2.1).1 ha
  rw [hl, List.filter_append, List.filter_eq_nil_iff.mpr fun a ha => by simp [hread a ha], List.nil_append,
    List.filter_cons, hself, List.filter_eq_self.mpr hrest]
  rfl

variable [DecidableRel r] [Std.Total r] [IsTrans α r]

theorem Tells.sort_filter (h : Tells r l) (p : α → Bool) :
    (l.filter p).insertionSort r = (l.insertionSort r).filter p :=
  (h.mono (List.filter_subset_self _)).sort_eq ((List.pairwise_insertionSort r l).filter p)
    ((List.perm_insertionSort r l).filter p).symm

/-- A page begins behind the last row of the pages before it. -/
theorem probe_eq {behind : κ → α → Bool} (key : α → κ) {done rest : List α} (limit : Nat)
    (htells : Tells r l)
    (hnodup : l.Nodup) (hbehind : ∀ a ∈ l, ∀ b ∈ l, behind (key a) b = true ↔ r a b ∧ a ≠ b)
    (hl : l.insertionSort r = done ++ rest) :
    probe r behind limit l (done.getLast?.map key) = rest.take (limit + 1) := by
  have hsort := List.perm_insertionSort r l
  unfold probe top
  rw [htells.sort_filter]
  congr 1
  rcases List.eq_nil_or_concat done with rfl | ⟨init, d, rfl⟩
  · exact (List.filter_eq_self.mpr fun a _ => rfl).trans hl
  · rw [List.concat_eq_append, List.append_assoc, List.singleton_append] at hl
    have hd : d ∈ l := hsort.mem_iff.mp (by simp [hl])
    refine filter_behind _ (htells.mono fun a ha => hsort.mem_iff.mp ha) (hsort.nodup_iff.mpr hnodup)
      (List.pairwise_insertionSort r l) hl fun a ha => ?_
    rw [List.concat_eq_append, List.getLast?_append]
    exact hbehind d hd a (hsort.mem_iff.mp ha)

/-- Read page after page: `list` answers with a page and the cursor of the next one. -/
def follow (list : Option κ → Except ε (List α × Option κ)) (stuck : ε) :
    Nat → Option κ → Except ε (List α)
  | 0, _ => .error stuck
  | n + 1, c => (list c).bind fun page =>
    if page.2.isNone then .ok page.1 else (follow list stuck n page.2).map (page.1 ++ ·)

/-- `a` ends a page of `rows`, and there is a page behind it. -/
def PageEnd (limit : Nat) (rows : List α) (a : α) : Prop :=
  ∃ done rest, rows = done ++ a :: rest ∧ rest ≠ [] ∧ limit ∣ done.length + 1

theorem PageEnd.mem {limit : Nat} {rows : List α} {a : α} (h : PageEnd limit rows a) : a ∈ rows := by
  obtain ⟨done, rest, rfl, -, -⟩ := h
  simp

theorem not_pageEnd {limit : Nat} {rows : List α} (h : rows.length ≤ limit) (a : α) : ¬PageEnd limit rows a := by
  rintro ⟨done, rest, rfl, hrest, hdvd⟩
  have hpos := List.length_pos_iff.mpr hrest
  have hle := Nat.le_of_dvd (by omega) hdvd
  simp only [List.length_append, List.length_cons] at h
  omega

/-- The page ends of a listing are that of its first page and those of the listing behind it. -/
theorem pageEnd_iff {limit : Nat} {rows : List α} (hlimit : 0 < limit) (h : limit < rows.length) (a : α) :
    PageEnd limit rows a ↔ a = rows[limit - 1] ∨ PageEnd limit (rows.drop limit) a := by
  constructor
  · rintro ⟨done, rest, rfl, hrest, hdvd⟩
    rcases Nat.lt_or_ge done.length limit with hlt | hge
    · have hle := Nat.le_of_dvd (by omega) hdvd
      have hidx : limit - 1 = done.length := by omega
      exact .inl (by simp [hidx])
    · refine .inr ⟨done.drop limit, rest, List.drop_append_of_le_length hge, hrest, ?_⟩
      rw [List.length_drop]
      have hsub : done.length - limit + 1 = done.length + 1 - limit := by omega
      rw [hsub]
      exact Nat.dvd_sub hdvd (Nat.dvd_refl limit)
  · rintro (rfl | ⟨done, rest, hsplit, hrest, hdvd⟩)
    · refine ⟨rows.take (limit - 1), rows.drop limit, ?_, ?_, ?_⟩
      · have hcons := List.drop_eq_getElem_cons (show limit - 1 < rows.length by omega)
        rw [Nat.sub_add_cancel hlimit] at hcons
        rw [← hcons, List.take_append_drop]
      · exact List.ne_nil_of_length_pos (by rw [List.length_drop]; omega)
      · have hlength : (rows.take (limit - 1)).length + 1 = limit := by
          rw [List.length_take, Nat.min_eq_left (by omega), Nat.sub_add_cancel hlimit]
        exact ⟨1, by rw [hlength, Nat.mul_one]⟩
    · refine ⟨rows.take limit ++ done, rest, ?_, hrest, ?_⟩
      · rw [List.append_assoc, ← hsplit, List.take_append_drop]
      · rw [List.length_append, List.length_take, Nat.min_eq_left h.le, Nat.add_assoc]
        exact Nat.dvd_add (Nat.dvd_refl limit) hdvd

/-- **Every page is the next piece of `rows`, or fails with the cursor of its last row: the pages together are `rows` if
and only if the cursor of every page end is read back.** -/
theorem follow_eq_iff {list : Option κ → Except ε (List α × Option κ)} (cursor : α → κ)
    (read : α → Except ε (Option κ)) {limit : Nat} {rows : List α} (stuck : ε) (hlimit : 0 < limit)
    (hlast : ∀ done rest, rows = done ++ rest → rest.length ≤ limit →
      list (done.getLast?.map cursor) = .ok (rest, none))
    (hmore : ∀ done rest, rows = done ++ rest → (h : limit < rest.length) →
      list (done.getLast?.map cursor) = (read rest[limit - 1]).map fun next => (rest.take limit, next))
    (hread : ∀ a ∈ rows, read a = .ok (some (cursor a)) ∨ ∃ err, read a = .error err)
    {fuel : Nat} (hfuel : rows.length < fuel) :
    follow list stuck fuel none = .ok rows ↔ ∀ a, PageEnd limit rows a → read a = .ok (some (cursor a)) := by
  suffices h : ∀ fuel done rest, rows = done ++ rest → rest.length < fuel →
      (follow list stuck fuel (done.getLast?.map cursor) = .ok rest ↔
        ∀ a, PageEnd limit rest a → read a = .ok (some (cursor a))) from h fuel [] rows rfl hfuel
  intro fuel
  induction fuel with
  | zero => exact fun _ _ _ h => absurd h (by omega)
  | succ fuel ih =>
    intro done rest hrows hlen
    rw [follow]
    rcases Nat.lt_or_ge limit rest.length with hlt | hle
    · have hend : PageEnd limit rest rest[limit - 1] := (pageEnd_iff hlimit hlt _).mpr (.inl rfl)
      rw [hmore done rest hrows hlt]
      rcases hread rest[limit - 1] (hrows ▸ List.mem_append_right done (List.getElem_mem _)) with
        hok | ⟨err, herr⟩
      · have hgetLast : (done ++ rest.take limit).getLast? = some rest[limit - 1] := by
          rw [List.getLast?_append, List.getLast?_take, if_neg (by omega), List.getElem?_eq_getElem (by omega)]
          rfl
        have hnext := ih (done ++ rest.take limit) (rest.drop limit)
          (by rw [List.append_assoc, List.take_append_drop, hrows]) (by rw [List.length_drop]; omega)
        rw [hgetLast, Option.map_some] at hnext
        simp only [hok, Except.map, Except.bind, Option.isNone_some, Bool.false_eq_true, if_false]
        constructor
        · intro hfollow a ha
          rcases (pageEnd_iff hlimit hlt a).mp ha with rfl | ha
          · exact hok
          · refine hnext.mp ?_ a ha
            cases hrest : follow list stuck fuel (some (cursor rest[limit - 1])) with
            | error err =>
              rw [hrest] at hfollow
              cases hfollow
            | ok items =>
              rw [hrest] at hfollow
              have hitems := Except.ok.inj hfollow
              nth_rewrite 2 [← List.take_append_drop limit rest] at hitems
              rw [List.append_cancel_left hitems]
        · intro hall
          rw [hnext.mpr fun a ha => hall a ((pageEnd_iff hlimit hlt a).mpr (.inr ha))]
          exact congrArg Except.ok (List.take_append_drop limit rest)
      · simp only [herr, Except.map, Except.bind]
        constructor
        · intro hfollow
          cases hfollow
        · intro hall
          rw [hall _ hend] at herr
          cases herr
    · rw [hlast done rest hrows hle]
      exact ⟨fun _ a ha => absurd ha (not_pageEnd hle a), fun _ => rfl⟩

end Pages

end Listing
