import Mathlib.Logic.Function.Basic
import Mathlib.Logic.Relation
import Mathlib.Tactic.SplitIfs

/-!
# Runs — runs of a partial step function

`step s a = some s'` is one atomic step of a system under the action `a`; `none` means that the action is not
enabled.  A condition `C s a` restricts the steps a run may take: `Reach step C s s'` holds if `s'` is reached from
`s` by steps that all meet `C`, in any order and number.  `Free` is the condition that restricts nothing.

* `Reach.inv`: an invariant kept by every step holds at the end of every run.
* `Reach.sim`: a map that sends steps to runs sends runs to runs.
* `exec`: run a list of actions; `exists_of_exec` and `exists_of_guarded` turn a computed run into a `Reach`.
* `of_update`: what is in a map of parties after a step of one of them.
* `suffix_of_not_mem`: an entry of a history that a step did not add is in the old one, with the same entries before it.
-/

namespace Runs

variable {σ α : Type*}

/-- One step from `s` to `s'` under an action that meets `C`. -/
def Step (step : σ → α → Option σ) (C : σ → α → Prop) (s s' : σ) : Prop :=
  ∃ a, C s a ∧ step s a = some s'

/-- `s'` is reached from `s` by steps that all meet `C`. -/
def Reach (step : σ → α → Option σ) (C : σ → α → Prop) : σ → σ → Prop :=
  Relation.ReflTransGen (Step step C)

/-- The condition that restricts nothing. -/
def Free : σ → α → Prop := fun _ _ => True

variable {step : σ → α → Option σ} {C : σ → α → Prop}

theorem Reach.refl (s : σ) : Reach step C s s := Relation.ReflTransGen.refl

theorem Reach.tail {s t u : σ} {a : α} (h : Reach step C s t) (hC : C t a) (hs : step t a = some u) :
    Reach step C s u := Relation.ReflTransGen.tail h ⟨a, hC, hs⟩

theorem Reach.trans {s t u : σ} (h : Reach step C s t) (h' : Reach step C t u) : Reach step C s u :=
  Relation.ReflTransGen.trans h h'

theorem Reach.single {s t : σ} {a : α} (hC : C s a) (hs : step s a = some t) : Reach step C s t :=
  (Reach.refl s).tail hC hs

/-- An invariant kept by every step that meets `C` is kept by every run. -/
theorem Reach.inv {I : σ → Prop} (hI : ∀ s a s', I s → C s a → step s a = some s' → I s') {s s' : σ}
    (h : Reach step C s s') (h0 : I s) : I s' := by
  induction h with
  | refl => exact h0
  | tail _ hs ih =>
    obtain ⟨a, hC, hs⟩ := hs
    exact hI _ a _ ih hC hs

theorem Reach.weaken {C' : σ → α → Prop} (hC : ∀ s a, C s a → C' s a) {s s' : σ} (h : Reach step C s s') :
    Reach step C' s s' := by
  induction h with
  | refl => exact Reach.refl _
  | tail _ hs ih =>
    obtain ⟨a, h1, h2⟩ := hs
    exact ih.tail (hC _ a h1) h2

/-- **Simulation**: if `f` sends every step from a state with `I` to a run, it sends runs to runs. -/
theorem Reach.sim {τ β : Type*} {step' : τ → β → Option τ} {C' : τ → β → Prop} (f : σ → τ)
    {I : σ → Prop} (hI : ∀ s a s', I s → C s a → step s a = some s' → I s')
    (hf : ∀ s a s', I s → C s a → step s a = some s' → Reach step' C' (f s) (f s')) {s s' : σ}
    (h : Reach step C s s') (h0 : I s) : Reach step' C' (f s) (f s') := by
  induction h with
  | refl => exact Reach.refl _
  | tail h1 hs ih =>
    obtain ⟨a, hC, hs⟩ := hs
    exact ih.trans (hf _ a _ (Reach.inv hI h1 h0) hC hs)

/-- Take the actions of a list in order. -/
def exec (step : σ → α → Option σ) : σ → List α → Option σ
  | s, [] => some s
  | s, a :: as => (step s a).bind fun s' => exec step s' as

theorem reach_of_exec : ∀ (as : List α) {s s' : σ}, exec step s as = some s' → Reach step Free s s'
  | [], s, s', h => by
    obtain rfl : s = s' := by simpa [exec] using h
    exact Reach.refl s
  | a :: as, s, s', h => by
    obtain ⟨t, ht, h⟩ := Option.bind_eq_some_iff.mp h
    exact (Reach.single trivial ht).trans (reach_of_exec as h)

/-- A computed run whose last state passes a test. -/
theorem exists_of_exec (step : σ → α → Option σ) (s : σ) (as : List α) (p : σ → Bool)
    (h : (exec step s as).any p = true) :
    ∃ s', Reach step Free s s' ∧ p s' = true := by
  obtain ⟨s', hs, hp⟩ := (Option.any_eq_true ..).mp h
  exact ⟨s', reach_of_exec as hs, hp⟩

/-- The steps that pass a test. -/
def guarded (step : σ → α → Option σ) (c : σ → α → Bool) (s : σ) (a : α) : Option σ :=
  if c s a then step s a else none

/-- A computed run whose steps pass a test for `C`, which may rely on an invariant. -/
theorem exists_of_guarded (step : σ → α → Option σ) {C : σ → α → Prop} (c : σ → α → Bool)
    {I : σ → Prop}
    (hI : ∀ s a s', I s → step s a = some s' → I s') (hc : ∀ s a, I s → c s a = true → C s a) (s : σ)
    (h0 : I s) (as : List α) (p : σ → Bool) (h : (exec (guarded step c) s as).any p = true) :
    ∃ s', Reach step C s s' ∧ p s' = true := by
  obtain ⟨s', hs, hp⟩ := (Option.any_eq_true ..).mp h
  have hstep : ∀ {t u : σ} {a : α}, guarded step c t a = some u → c t a = true ∧ step t a = some u := by
    intro t u a htu
    unfold guarded at htu
    split_ifs at htu with hca
    exact ⟨hca, htu⟩
  refine ⟨s', (reach_of_exec as hs).sim id ?_ ?_ h0, hp⟩
  · intro t a u hi _ htu
    exact hI t a u hi (hstep htu).2
  · intro t a u hi _ htu
    obtain ⟨hca, htu⟩ := hstep htu
    exact Reach.single (hc t a hi hca) htu

/-- An entry of a partial map after one was written: that one, or another that was there before. -/
theorem of_update {ι β : Type*} [DecidableEq ι] {f : ι → Option β} {i j : ι} {x : Option β} {y : β}
    (h : Function.update f i x j = some y) : (j = i ∧ x = some y) ∨ (j ≠ i ∧ f j = some y) := by
  by_cases hne : j = i
  · subst hne
    rw [Function.update_self] at h
    exact .inl ⟨rfl, h⟩
  · rw [Function.update_of_ne hne] at h
    exact .inr ⟨hne, h⟩

theorem suffix_of_not_mem {β : Type*} {x : β} {pre l : List β} :
    ∀ {new : List β}, x ∉ new → (x :: pre) <:+ new ++ l → (x :: pre) <:+ l
  | [], _, h => h
  | y :: new, hx, h => by
    rcases List.suffix_cons_iff.mp h with heq | h
    · obtain ⟨rfl, -⟩ := List.cons.inj heq
      exact absurd List.mem_cons_self hx
    · exact suffix_of_not_mem (fun hmem => hx (List.mem_cons_of_mem _ hmem)) h

end Runs
