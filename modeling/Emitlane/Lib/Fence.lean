import Mathlib.Order.Basic
import Mathlib.Data.List.Basic
import Mathlib.Tactic.Linarith

/-!
# Fence — timed leases with epochs and a handoff barrier

A `Lease` is held by at most one owner at a time.  Every change of ownership starts a new epoch, and nothing may be
used before the barrier of the epoch.  A `Use` is work begun at some instant under an epoch, which may go on until
its deadline.

`Inv now l us` is what keeps the work of different epochs apart: no use is of a later epoch; a use of the current
epoch ends within the lease; a use of an earlier epoch ends before the barrier.  The three ways a lease moves keep
it (`Inv.extend`, `Inv.end_epoch`, `Inv.use`), and `Inv.apart` is the purpose: when a use begins, every use of
another epoch is of an earlier one and is over.
-/

namespace Fence

variable {ο T : Type} [LinearOrder T]

/-- `until?` is the end of the lease, `barrier` the first instant at which the epoch may be used. -/
structure Lease (ο T : Type) where
  owner : Option ο
  until? : Option T
  epoch : Int
  barrier : Option T

/-- Work begun at `start` under `epoch` that is over at `deadline`. -/
structure Use (T : Type) where
  epoch : Int
  start : T
  deadline : T

/-- The barrier has passed at `t`; no barrier is the earliest one. -/
def Passed (b : Option T) (t : T) : Prop := ∀ x, b = some x → x ≤ t

/-- `d` ends before the barrier. -/
def Before (d : T) (b : Option T) : Prop := ∃ x, b = some x ∧ d ≤ x

structure Inv (l : Lease ο T) (us : List (Use T)) : Prop where
  bound : ∀ u ∈ us, u.epoch ≤ l.epoch
  current : ∀ u ∈ us, u.epoch = l.epoch → l.owner.isSome ∧ Before u.deadline l.until?
  past : ∀ u ∈ us, u.epoch < l.epoch → Before u.deadline l.barrier

theorem Inv.init (l : Lease ο T) : Inv l [] := ⟨by simp, by simp, by simp⟩

/-- The owner renews: owner, epoch and barrier stay, and the current uses still end within the lease. -/
theorem Inv.extend {l l' : Lease ο T} {us : List (Use T)} (h : Inv l us) (ho : l'.owner = l.owner)
    (he : l'.epoch = l.epoch) (hb : l'.barrier = l.barrier)
    (hu : ∀ u ∈ us, u.epoch = l.epoch → Before u.deadline l'.until?) : Inv l' us where
  bound u hm := he ▸ h.bound u hm
  current u hm hc := by
    rw [he] at hc
    exact ⟨ho ▸ (h.current u hm hc).1, hu u hm hc⟩
  past u hm hc := by
    rw [he] at hc
    exact hb ▸ h.past u hm hc

/-- Ownership changes: the epoch moves on, the barrier does not move back, and the uses of the ended epoch are over
before the new barrier. -/
theorem Inv.end_epoch {l l' : Lease ο T} {us : List (Use T)} (h : Inv l us) (he : l'.epoch = l.epoch + 1)
    (hb : ∀ x, l.barrier = some x → Before x l'.barrier)
    (hu : ∀ u ∈ us, u.epoch = l.epoch → Before u.deadline l'.barrier) : Inv l' us where
  bound u hm := by have := h.bound u hm; omega
  current u hm hc := by have := h.bound u hm; omega
  past u hm _ := by
    rcases lt_or_eq_of_le (h.bound u hm) with hlt | heq
    · obtain ⟨x, hx, hd⟩ := h.past u hm hlt
      obtain ⟨y, hy, hxy⟩ := hb x hx
      exact ⟨y, hy, hd.trans hxy⟩
    · exact hu u hm heq

/-- Work begins under the current epoch and within the lease. -/
theorem Inv.use {l : Lease ο T} {us : List (Use T)} (h : Inv l us) {u : Use T} (he : u.epoch = l.epoch)
    (ho : l.owner.isSome) (hd : Before u.deadline l.until?) : Inv l (u :: us) where
  bound v hv := by
    rcases List.mem_cons.mp hv with rfl | hv
    · exact he.le
    · exact h.bound v hv
  current v hv hc := by
    rcases List.mem_cons.mp hv with rfl | hv
    · exact ⟨ho, hd⟩
    · exact h.current v hv hc
  past v hv hc := by
    rcases List.mem_cons.mp hv with rfl | hv
    · omega
    · exact h.past v hv hc

/-- **The epochs are kept apart**: once the barrier has passed, every use of another epoch is of an earlier epoch
and is over. -/
theorem Inv.apart {l : Lease ο T} {us : List (Use T)} (h : Inv l us) {now : T} (hp : Passed l.barrier now)
    {u : Use T} (hu : u ∈ us) (hne : u.epoch ≠ l.epoch) : u.epoch < l.epoch ∧ u.deadline ≤ now := by
  have hlt : u.epoch < l.epoch := lt_of_le_of_ne (h.bound u hu) hne
  obtain ⟨x, hx, hd⟩ := h.past u hu hlt
  exact ⟨hlt, hd.trans (hp x hx)⟩

end Fence
