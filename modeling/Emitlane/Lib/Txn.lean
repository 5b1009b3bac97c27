import Emitlane.Lib.Runs

/-!
# Txn — open transactions and row locks

`rows k` is the committed row of the key `k`, `ts t` are the writes of the open transaction `t`, newest first.  A
write remembers the committed row it replaces.  It becomes visible when its transaction commits (`install`); until
then its key is locked: no other transaction writes it, and no other statement changes its row.

`Held` says what this discipline gives: **a written row is still the row its write found**.  So what a statement
checked about the row when it wrote it holds when the transaction commits, however late that is.
-/

namespace Txn

variable {ρ κ : Type*}

/-- A row written by an open transaction, and the committed row it replaces. -/
structure Write (ρ : Type*) where
  old : Option ρ
  new : ρ

variable (key : ρ → κ)

/-- The transaction writes the key `k`. -/
def Writes (ws : List (Write ρ)) (k : κ) : Prop := ∃ w ∈ ws, key w.new = k

instance [DecidableEq κ] (ws : List (Write ρ)) (k : κ) : Decidable (Writes key ws k) :=
  inferInstanceAs (Decidable (∃ w ∈ ws, key w.new = k))

/-- A transaction other than `t` writes the key `k`. -/
def LockedFor (ts : Nat → Option (List (Write ρ))) (t : Nat) (k : κ) : Prop :=
  ∃ t' ws, t' ≠ t ∧ ts t' = some ws ∧ Writes key ws k

/-- An open transaction writes the key `k`. -/
def Locked (ts : Nat → Option (List (Write ρ))) (k : κ) : Prop := ∃ t ws, ts t = some ws ∧ Writes key ws k

/-- The committed rows after the writes `ws`. -/
def install [DecidableEq κ] (rows : κ → Option ρ) (ws : List (Write ρ)) (k : κ) : Option ρ :=
  ((ws.find? fun w => key w.new = k).map Write.new).or (rows k)

section Install

variable {key} [DecidableEq κ] {rows : κ → Option ρ} {ws : List (Write ρ)} {k : κ}

theorem install_of_not_writes (h : ¬ Writes key ws k) : install key rows ws k = rows k := by
  have hnone : ws.find? (fun w => key w.new = k) = none := by
    refine List.find?_eq_none.mpr fun w hw hk => h ⟨w, hw, ?_⟩
    simpa using hk
  simp [install, hnone]

variable (rows) in
theorem install_of_writes (h : Writes key ws k) :
    ∃ w ∈ ws, key w.new = k ∧ install key rows ws k = some w.new := by
  obtain ⟨w, hw, hk⟩ := h
  cases hf : ws.find? (fun w => key w.new = k) with
  | none => exact absurd hk (by simpa using List.find?_eq_none.mp hf w hw)
  | some x => exact ⟨x, List.mem_of_find?_eq_some hf, by simpa using List.find?_some hf, by simp [install, hf]⟩

end Install

/-- Every written row is still the row its write found, and no two transactions write one key. -/
structure Held (rows : κ → Option ρ) (ts : Nat → Option (List (Write ρ))) : Prop where
  current : ∀ {t ws}, ts t = some ws → ∀ w ∈ ws, rows (key w.new) = w.old
  apart : ∀ {t ws k}, ts t = some ws → Writes key ws k → ¬ LockedFor key ts t k

namespace Held

variable {key} {rows rows' : κ → Option ρ} {ts ts' : Nat → Option (List (Write ρ))}

theorem init : Held key rows fun _ => none where
  current h := nomatch h
  apart h := nomatch h

/-- A statement outside the open transactions that leaves the locked rows alone. -/
theorem call (h : Held key rows ts) (hrows : ∀ k, Locked key ts k → rows' k = rows k) : Held key rows' ts where
  current ht w hw := by
    rw [hrows _ ⟨_, _, ht, w, hw, rfl⟩]
    exact h.current ht w hw
  apart := h.apart

/-- Transactions that begin, end without effect or go back to a savepoint. -/
theorem shrink (h : Held key rows ts)
    (hts : ∀ t ws', ts' t = some ws' → ∀ w ∈ ws', ∃ ws, ts t = some ws ∧ w ∈ ws) : Held key rows ts' where
  current ht w hw := by
    obtain ⟨ws, ht, hw⟩ := hts _ _ ht w hw
    exact h.current ht w hw
  apart := by
    rintro t ws' k ht ⟨w, hw, hk⟩ ⟨t', us', hne, ht', u, hu, hk'⟩
    obtain ⟨ws, hts1, hw⟩ := hts _ _ ht w hw
    obtain ⟨us, hts2, hu⟩ := hts _ _ ht' u hu
    exact h.apart hts1 ⟨w, hw, hk⟩ ⟨t', us, hne, hts2, u, hu, hk'⟩

/-- A write of a key that no other transaction has written. -/
theorem write (h : Held key rows ts) {t : Nat} {ws : List (Write ρ)} (ht : ts t = some ws) (r : ρ)
    (hfree : ¬ LockedFor key ts t (key r)) : Held key rows
    (Function.update ts t (some (⟨rows (key r), r⟩ :: ws))) where
  current := by
    intro t' ws' ht' w hw
    rcases Runs.of_update ht' with ⟨rfl, hws⟩ | ⟨-, ht'⟩
    · rw [← Option.some.inj hws] at hw
      rcases List.mem_cons.mp hw with rfl | hw
      · rfl
      · exact h.current ht w hw
    · exact h.current ht' w hw
  apart := by
    -- whoever holds the key now held it before, or is `t` with its new write
    have hback : ∀ {t' ws' k}, Function.update ts t (some (⟨rows (key r), r⟩ :: ws)) t' = some ws' →
      Writes key ws' k →
        (t' = t ∧ key r = k) ∨ ∃ us, ts t' = some us ∧ Writes key us k := by
      rintro t' ws' k ht' ⟨w, hw, hk⟩
      rcases Runs.of_update ht' with ⟨rfl, hws⟩ | ⟨-, ht'⟩
      · rw [← Option.some.inj hws] at hw
        rcases List.mem_cons.mp hw with rfl | hw
        · exact .inl ⟨rfl, hk⟩
        · exact .inr ⟨ws, ht, w, hw, hk⟩
      · exact .inr ⟨ws', ht', w, hw, hk⟩
    rintro t1 ws1 k h1 hw1 ⟨t2, ws2, hne, h2, hw2⟩
    rcases hback h1 hw1 with ⟨rfl, rfl⟩ | ⟨us1, hu1, hk1⟩
    · rcases hback h2 hw2 with ⟨rfl, -⟩ | ⟨us2, hu2, hk2⟩
      · exact hne rfl
      · exact hfree ⟨t2, us2, hne, hu2, hk2⟩
    · rcases hback h2 hw2 with ⟨rfl, rfl⟩ | ⟨us2, hu2, hk2⟩
      · exact hfree ⟨t1, us1, hne.symm, hu1, hk1⟩
      · exact h.apart hu1 hk1 ⟨t2, us2, hne, hu2, hk2⟩

/-- A commit changes no row that another transaction has written. -/
theorem commit [DecidableEq κ] (h : Held key rows ts) {t : Nat} {ws : List (Write ρ)} (ht : ts t = some ws) :
    Held key (install key rows ws) (Function.update ts t none) := by
  have hopen : ∀ {t' us}, Function.update ts t none t' = some us → t' ≠ t ∧ ts t' = some us := by
    intro t' us ht'
    rcases Runs.of_update ht' with ⟨-, hnone⟩ | hother
    · cases hnone
    · exact hother
  refine (h.shrink fun t' us ht' w hw => ⟨us, (hopen ht').2, hw⟩).call ?_
  rintro k ⟨t', us, ht', hw⟩
  obtain ⟨hne, ht'⟩ := hopen ht'
  exact install_of_not_writes fun hws => h.apart ht hws ⟨t', us, hne, ht', hw⟩

end Held

end Txn
