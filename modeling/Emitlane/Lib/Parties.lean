import Mathlib.Logic.Function.Basic
import Emitlane.Lib.Runs

/-!
# Parties — local programs over a shared world

Each party `w : ω` has a local state and steps on it and on the world; the environment steps on the world alone.  Any
party may take the next step.

`inv` is the rely/guarantee rule.  A party's steps keep its own invariant and change the world only within a relation
that keeps the invariants of the others.  Then every invariant holds in every run.
-/

namespace Parties

structure State (ω ν σ : Type*) where
  world : ν
  party : ω → σ

inductive Action (ω α ε : Type*)
  | party (w : ω) (a : α)
  | env (e : ε)

structure System (ω ν σ α ε : Type*) where
  step : ω → ν → σ → α → Option (ν × σ)
  env : ν → ε → Option ν

variable {ω ν σ α ε : Type*} [DecidableEq ω] (S : System ω ν σ α ε)

def System.run (s : State ω ν σ) : Action ω α ε → Option (State ω ν σ)
  | .party w a => (S.step w s.world (s.party w) a).map fun x => ⟨x.1, Function.update s.party w x.2⟩
  | .env e => (S.env s.world e).map fun v => ⟨v, s.party⟩

variable {S}

/-- **Rely and guarantee**: `G` is the invariant of the world, `P` that of a party, `E` what steps may do to
the world. -/
theorem inv {C : State ω ν σ → Action ω α ε → Prop} {G : ν → Prop} {P : ω → ν → σ → Prop}
    {E : ν → ν → Prop} (hstep : ∀ s w a v' x', C s (.party w a) → G s.world → P w s.world (s.party w) →
      S.step w s.world (s.party w) a = some (v', x') → G v' ∧ E s.world v' ∧ P w v' x')
    (henv : ∀ v e v', G v → S.env v e = some v' → G v' ∧ E v v')
    (hstable : ∀ w v v' x, P w v x → E v v' → P w v' x)
    {s s' : State ω ν σ} (h : Runs.Reach S.run C s s') (hworld : G s.world)
    (hparty : ∀ w, P w s.world (s.party w)) : G s'.world ∧ ∀ w, P w s'.world (s'.party w) := by
  refine h.inv (I := fun s => G s.world ∧ ∀ w, P w s.world (s.party w)) ?_ ⟨hworld, hparty⟩
  rintro t a u ⟨hworld, hparty⟩ hC hrun
  cases a with
  | party w a =>
    obtain ⟨⟨v', x'⟩, hs, rfl⟩ := Option.map_eq_some_iff.mp hrun
    obtain ⟨hworld', hev, hw'⟩ := hstep t w a v' x' hC hworld (hparty w) hs
    refine ⟨hworld', fun w' => ?_⟩
    by_cases hne : w' = w
    · subst hne
      simpa using hw'
    · simpa [Function.update_of_ne hne] using hstable w' _ _ _ (hparty w') hev
  | env e =>
    obtain ⟨v', hv, rfl⟩ := Option.map_eq_some_iff.mp hrun
    obtain ⟨hworld', hev⟩ := henv _ e v' hworld hv
    exact ⟨hworld', fun w => hstable w _ _ _ (hparty w) hev⟩

end Parties
