import Mathlib.Data.List.Perm.Basic

/-!
# Pool — a bounded pool of workers with a completion channel

The owner of the pool counts its workers in `active`.  It adds the jobs it dispatches, and takes one off for every
completion it receives.  A worker that is done sends one completion, over a channel with room for `cap` of them.

* `Inv cap`: the counter is the number of workers at work and of completions in the channel, and is at most `cap`.
* `Inv.room`: a worker that is done finds room in the channel.
-/

namespace Pool

structure State (ε : Type) where
  active : Int
  /-- The jobs at work. -/
  running : List ε
  /-- The completions in the channel. -/
  buffered : Nat
  /-- All jobs dispatched so far, the finished ones, and how many completions were received. -/
  dispatched : List ε
  finished : List ε
  received : Nat

def State.init (ε : Type) : State ε := ⟨0, [], 0, [], [], 0⟩

variable {ε : Type} {p p' : State ε} {cap : Int}

def State.dispatch (p : State ε) (jobs : List ε) : State ε :=
  { p with
    active := p.active + jobs.length
    running := p.running ++ jobs
    dispatched := p.dispatched ++ jobs }

/-- The `i`-th job at work ends and its completion is sent; a full channel blocks it. -/
def State.finish (p : State ε) (cap : Int) (i : Nat) : Option (State ε) :=
  match p.running[i]? with
  | none => none
  | some job =>
    if (p.buffered : Int) < cap then
      some { p with running := p.running.eraseIdx i, buffered := p.buffered + 1, finished := job :: p.finished }
    else none

/-- The owner receives a completion. -/
def State.receive (p : State ε) : Option (State ε) :=
  match p.buffered with
  | 0 => none
  | n + 1 => some { p with active := p.active - 1, buffered := n, received := p.received + 1 }

theorem dispatch_nil (p : State ε) : p.dispatch [] = p := by simp [State.dispatch]

theorem receive_eq_some (h : p.receive = some p') :
    ∃ n, p.buffered = n + 1 ∧
      p' = { p with active := p.active - 1, buffered := n, received := p.received + 1 } := by
  unfold State.receive at h
  cases hbuffered : p.buffered with
  | zero =>
    rw [hbuffered] at h
    cases h
  | succ n =>
    rw [hbuffered] at h
    exact ⟨n, rfl, (Option.some.inj h).symm⟩

theorem finish_eq_some {i : Nat} (h : p.finish cap i = some p') :
    ∃ hi : i < p.running.length, p' = { p with
      running := p.running.eraseIdx i, buffered := p.buffered + 1,
      finished := p.running.get ⟨i, hi⟩ :: p.finished } := by
  unfold State.finish at h
  cases hjob : p.running[i]? with
  | none =>
    rw [hjob] at h
    cases h
  | some job =>
    obtain ⟨hi, rfl⟩ := List.getElem?_eq_some_iff.mp hjob
    rw [hjob] at h
    simp only at h
    split_ifs at h
    exact ⟨hi, (Option.some.inj h).symm⟩

structure Inv (cap : Int) (p : State ε) : Prop where
  active : p.active = p.running.length + p.buffered
  le : p.active ≤ cap
  jobs : p.dispatched.Perm (p.finished ++ p.running)
  completions : p.finished.length = p.received + p.buffered

theorem Inv.init (h : 0 ≤ cap) : Inv cap (State.init ε) := ⟨rfl, h, .refl _, rfl⟩

theorem Inv.dispatch (h : Inv cap p) {jobs : List ε} (hroom : jobs.length ≤ cap - p.active) :
    Inv cap (p.dispatch jobs) where
  active := by
    have := h.active
    simp only [State.dispatch, List.length_append]
    omega
  le := by
    simp only [State.dispatch]
    omega
  jobs := by
    simp only [State.dispatch, ← List.append_assoc]
    exact h.jobs.append_right jobs
  completions := h.completions

theorem Inv.finish (h : Inv cap p) {i : Nat} (hp : p.finish cap i = some p') : Inv cap p' := by
  obtain ⟨hi, rfl⟩ := finish_eq_some hp
  have hactive := h.active
  have hcompletions := h.completions
  refine ⟨?_, h.le, ?_, ?_⟩
  · simp only [List.length_eraseIdx_of_lt hi]
    omega
  · refine h.jobs.trans ?_
    have hmoved := (List.getElem_cons_eraseIdx_perm hi).symm
    exact (hmoved.append_left p.finished).trans List.perm_middle
  · simp only [List.length_cons]
    omega

theorem Inv.receive (h : Inv cap p) (hp : p.receive = some p') : Inv cap p' := by
  obtain ⟨n, hbuffered, rfl⟩ := receive_eq_some hp
  have hactive := h.active
  have hcompletions := h.completions
  have hle := h.le
  exact ⟨by simp only; omega, by simp only; omega, h.jobs, by simp only; omega⟩

/-- The counter is the number of dispatched jobs whose completion was not received. -/
theorem Inv.outstanding (h : Inv cap p) : p.active = p.dispatched.length - p.received := by
  have hactive := h.active
  have hcompletions := h.completions
  have hjobs := h.jobs.length_eq
  rw [List.length_append] at hjobs
  omega

theorem Inv.nonneg (h : Inv cap p) : 0 ≤ p.active := by
  have := h.active
  omega

/-- A worker that is done finds room in the channel. -/
theorem Inv.room (h : Inv cap p) (hrunning : p.running ≠ []) : (p.buffered : Int) < cap := by
  have hactive := h.active
  have hle := h.le
  have hpos := List.length_pos_iff.mpr hrunning
  omega

end Pool
