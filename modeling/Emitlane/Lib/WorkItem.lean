import Mathlib.Data.List.Basic

/-!
# WorkItem — the life of a leased work item

An item waits, is leased to an owner by a numbered claim, and is worked on in counted attempts.  Its owner finishes it
(`done`), gives it back (`waiting`) or gives it up (`dead`); a claim may also take a leased item over.  A dead item
may be revived, which starts a new count, and only a done item is deleted.

`Trace ls x` says that the labels `ls`, newest first, lead from nothing to `x`.  What a life can look like follows
from it by induction: `Trace.attempts`, `Trace.done` and `Trace.kept`.
-/

namespace WorkItem

/-- Owners are of type `ο`, claims of type `κ`. -/
inductive Phase
  | waiting
  | leased
  | done
  | dead
  deriving DecidableEq

structure Item (ο : Type) where
  phase : Phase
  owner : Option ο
  attempts : Int

inductive Label (ο κ : Type)
  | created
  | claimed (k : κ) (o : ο)
  | began (k : κ) (o : ο) (n : Int)
  | finished (k : κ) (o : ο) (p : Phase)
  | revived
  | deleted

variable {ο κ : Type}

/-- The labels, newest first, lead from nothing to the item. -/
inductive Trace : List (Label ο κ) → Option (Item ο) → Prop
  | nil : Trace [] none
  | created {ls : List (Label ο κ)} (h : Trace ls none) : Trace (.created :: ls) (some ⟨.waiting, none, 0⟩)
  | claimed {ls : List (Label ο κ)} {it : Item ο} (k : κ) (o : ο) (h : Trace ls (some it))
      (hp : it.phase = .waiting ∨ it.phase = .leased) :
      Trace (.claimed k o :: ls) (some ⟨.leased, some o, it.attempts⟩)
  | began {ls : List (Label ο κ)} {it : Item ο} (k : κ) {o : ο} (h : Trace ls (some it)) (hp : it.phase = .leased)
      (ho : it.owner = some o) :
      Trace (.began k o (it.attempts + 1) :: ls) (some ⟨.leased, some o, it.attempts + 1⟩)
  | finished {ls : List (Label ο κ)} {it : Item ο} (k : κ) {o : ο} {p : Phase} (h : Trace ls (some it))
      (hp : it.phase = .leased) (ho : it.owner = some o) (hne : p ≠ .leased) :
      Trace (.finished k o p :: ls) (some ⟨p, none, it.attempts⟩)
  | revived {ls : List (Label ο κ)} {it : Item ο} (h : Trace ls (some it)) (hp : it.phase = .dead) :
      Trace (.revived :: ls) (some ⟨.waiting, none, 0⟩)
  | deleted {ls : List (Label ο κ)} {it : Item ο} (h : Trace ls (some it)) (hp : it.phase = .done) :
      Trace (.deleted :: ls) none

/-! ## Attempts -/

/-- The attempt numbers since the item was created or revived, newest first. -/
def attemptsSince : List (Label ο κ) → List Int
  | [] => []
  | .began _ _ n :: ls => n :: attemptsSince ls
  | .created :: _ => []
  | .revived :: _ => []
  | _ :: ls => attemptsSince ls

/-- `n, …, 2, 1`. -/
def countdown : Nat → List Int
  | 0 => []
  | n + 1 => ((n : Int) + 1) :: countdown n

/-- **The attempts of a life are numbered 1, 2, 3, …**, and the counter is their number. -/
theorem Trace.attempts {ls : List (Label ο κ)} {x : Option (Item ο)} (h : Trace ls x) :
    attemptsSince ls = countdown (attemptsSince ls).length ∧
      ∀ it, x = some it → it.attempts = (attemptsSince ls).length := by
  induction h with
  | nil => exact ⟨rfl, fun it hit => by cases hit⟩
  | created _ _ => exact ⟨rfl, fun it hit => by obtain rfl := Option.some.inj hit; rfl⟩
  | @claimed ls it k o _ _ ih =>
    exact ⟨ih.1, fun it' hit => by obtain rfl := Option.some.inj hit; exact ih.2 it rfl⟩
  | @began ls it k o _ _ _ ih =>
    have hn : it.attempts = (attemptsSince ls).length := ih.2 it rfl
    constructor
    · show (it.attempts + 1) :: attemptsSince ls = countdown ((attemptsSince ls).length + 1)
      rw [countdown, ← ih.1, hn]
    · intro it' hit
      obtain rfl := Option.some.inj hit
      show it.attempts + 1 = (((attemptsSince ls).length + 1 : Nat) : Int)
      omega
  | @finished ls it k o p _ _ _ _ ih =>
    exact ⟨ih.1, fun it' hit => by obtain rfl := Option.some.inj hit; exact ih.2 it rfl⟩
  | revived _ _ _ => exact ⟨rfl, fun it hit => by obtain rfl := Option.some.inj hit; rfl⟩
  | deleted _ _ ih => exact ⟨ih.1, fun it hit => by cases hit⟩

/-! ## Nothing is lost -/

/-- A done item was finished by some claim. -/
theorem Trace.done {ls : List (Label ο κ)} {x : Option (Item ο)} (h : Trace ls x) :
    ∀ it, x = some it → it.phase = .done → ∃ k o, Label.finished k o .done ∈ ls := by
  induction h with
  | nil => intro it hit; cases hit
  | created _ _ => intro it hit hd; obtain rfl := Option.some.inj hit; cases hd
  | claimed k o _ _ _ => intro it hit hd; obtain rfl := Option.some.inj hit; cases hd
  | began k _ _ _ _ => intro it hit hd; obtain rfl := Option.some.inj hit; cases hd
  | @finished ls it k o p _ _ _ _ _ =>
    intro it' hit hd
    obtain rfl := Option.some.inj hit
    obtain rfl : p = .done := hd
    exact ⟨k, o, List.mem_cons_self⟩
  | revived _ _ _ => intro it hit hd; obtain rfl := Option.some.inj hit; cases hd
  | deleted _ _ _ => intro it hit; cases hit

/-- A created item exists, or some claim has finished it. -/
theorem Trace.kept {ls : List (Label ο κ)} {x : Option (Item ο)} (h : Trace ls x) :
    Label.created ∈ ls → x.isSome ∨ ∃ k o, Label.finished k o .done ∈ ls := by
  induction h with
  | nil => intro hc; cases hc
  | @deleted ls it htr hp ih =>
    intro _
    obtain ⟨k, o, hko⟩ := htr.done it rfl hp
    exact .inr ⟨k, o, List.mem_cons_of_mem _ hko⟩
  | created _ _ => exact fun _ => .inl rfl
  | claimed k o _ _ _ => exact fun _ => .inl rfl
  | began k _ _ _ _ => exact fun _ => .inl rfl
  | finished k _ _ _ _ _ => exact fun _ => .inl rfl
  | revived _ _ _ => exact fun _ => .inl rfl

end WorkItem
