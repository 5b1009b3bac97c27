import Emitlane.Lib.Table

/-!
# Overlay — the uncommitted rows of a transaction over a table

An open transaction sees the committed rows and its own: `extend` puts `rows` behind the rows of a table, if the
constraints allow it.  Where the constraints speak of single rows and of pairs of rows (`Schema.Apart`), what two
transactions add can be added one after the other exactly if no row of one clashes with a row of the other.
-/

namespace Rel

variable {ρ : Type} {S : Schema ρ}

def Table.extend (t : Table S) (rows : List ρ) : Option (Table S) := t.write (t.rows ++ rows)

theorem Table.extend_eq_some {t t' : Table S} {rows : List ρ} :
    t.extend rows = some t' ↔ t'.rows = t.rows ++ rows := by
  constructor
  · exact Table.write_rows
  · intro h
    obtain ⟨rows', hok⟩ := t'
    subst h
    exact dif_pos hok

theorem Table.extend_isSome {t : Table S} {rows : List ρ} : (t.extend rows).isSome ↔ S.Ok (t.rows ++ rows) := by
  unfold Table.extend Table.write
  split_ifs with h
  · exact ⟨fun _ => h, fun _ => rfl⟩
  · exact ⟨fun h' => absurd h' (by simp), fun h' => absurd h' h⟩

@[simp] theorem Table.extend_nil (t : Table S) : t.extend [] = some t :=
  Table.extend_eq_some.mpr (List.append_nil _).symm

theorem Table.lookup_extend {κ : Type} [DecidableEq κ] {key : ρ → κ} {t t' : Table S} {rows : List ρ}
    (h : t.extend rows = some t') (k : κ) :
    lookup key t'.rows k = (lookup key t.rows k).or (lookup key rows k) := by
  rw [Table.extend_eq_some.mp h, lookup, List.find?_append]
  rfl

/-- The constraints are a check on each row, and that no two rows clash. -/
def Schema.Apart (S : Schema ρ) (clash : ρ → ρ → Prop) (check : ρ → Bool) : Prop :=
  ∀ rows, S.Ok rows ↔ rows.Pairwise (fun a b => ¬ clash a b) ∧ ∀ r ∈ rows, check r = true

section Apart

variable {clash : ρ → ρ → Prop} {check : ρ → Bool} (hS : S.Apart clash check)

include hS

theorem Schema.Apart.append {l m : List ρ} :
    S.Ok (l ++ m) ↔ S.Ok l ∧ S.Ok m ∧ ∀ a ∈ l, ∀ b ∈ m, ¬ clash a b := by
  rw [hS, hS, hS, List.pairwise_append, List.forall_mem_append]
  constructor
  · rintro ⟨⟨h1, h2, h3⟩, h4, h5⟩
    exact ⟨⟨h1, h4⟩, ⟨h2, h5⟩, h3⟩
  · rintro ⟨⟨h1, h4⟩, ⟨h2, h5⟩, h3⟩
    exact ⟨⟨h1, h2, h3⟩, h4, h5⟩

theorem Table.extend_append (t : Table S) (l m : List ρ) : t.extend (l ++ m) = (t.extend l).bind (·.extend m) := by
  cases hl : t.extend l with
  | none =>
    have hno : ¬ S.Ok (t.rows ++ l) := by
      rw [← Table.extend_isSome, hl]
      exact Bool.false_ne_true
    have hno' : ¬ S.Ok (t.rows ++ (l ++ m)) := by
      rw [← List.append_assoc]
      exact fun h => hno (hS.append.mp h).1
    exact dif_neg hno'
  | some t' =>
    show t.extend (l ++ m) = t'.write (t'.rows ++ m)
    rw [Table.extend_eq_some.mp hl, List.append_assoc]
    rfl

/-- Rows that were seen to fit still fit behind rows they do not clash with. -/
theorem Table.extend_after {t t' : Table S} {l m : List ρ} (hl : t.extend l = some t') (hm : (t.extend m).isSome)
    (hlm : ∀ a ∈ l, ∀ b ∈ m, ¬ clash a b) : (t'.extend m).isSome := by
  rw [Table.extend_isSome] at hm ⊢
  obtain ⟨-, hm, hold⟩ := hS.append.mp hm
  refine hS.append.mpr ⟨t'.ok, hm, fun a ha b hb => ?_⟩
  rw [Table.extend_eq_some.mp hl] at ha
  rcases List.mem_append.mp ha with ha | ha
  · exact hold a ha b hb
  · exact hlm a ha b hb

end Apart

end Rel
