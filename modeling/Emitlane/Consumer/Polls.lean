import Emitlane.Consumer.PartitionOrder

/-!
# Consumer.Polls — what becomes of the records the client hands out

PollRecords may return a record of one partition together with errors of others.  `consumerSource.Poll` then returns
the first error, and `worker.run` takes every error as "no record": it neither processes nor rewinds.  The client's
position is past the record, so the next poll of this partition goes on behind it (`record_dropped`).

Without such fetches every record that is handed out is passed to `process` (`nothing_dropped`).
-/

namespace Emitlane.Consumer

variable {ω : Type}

/-- A record of the partition behind `o` is processed or committed. -/
def Event.beyond (w : ω) (tp : TopicPartition) (o : Nat) : Event ω → Prop
  | .passed w' tp' o' => w' = w ∧ tp' = tp ∧ o < o'
  | .committed w' tp' o' => w' = w ∧ tp' = tp ∧ o + 1 < o'
  | _ => False

/-- Every record that is handed out is passed to `process`, or the position is moved back to it before a later record of
its partition is processed or committed. -/
def NothingDropped (events : List (Event ω)) : Prop :=
  ∀ w tp o later earlier, events = later ++ .handed w tp o :: earlier →
    .passed w tp o ∈ later ∨
      ∀ newer e older, later = newer ++ e :: older → e.beyond w tp o → .rewound w tp o ∈ older

/-- Every record that is handed out is passed on. -/
def AllPassed (events : List (Event ω)) : Prop :=
  ∀ w tp o later earlier, events = later ++ .handed w tp o :: earlier → .passed w tp o ∈ later

theorem AllPassed.nothingDropped {events : List (Event ω)} (h : AllPassed events) : NothingDropped events :=
  fun w tp o later earlier heq => .inl (h w tp o later earlier heq)

theorem AllPassed.append {new events : List (Event ω)} (h : AllPassed events) (hnew : AllPassed new) :
    AllPassed (new ++ events) := by
  intro w tp o later earlier heq
  rcases List.append_eq_append_iff.mp heq with ⟨rest, rfl, hrest⟩ | ⟨rest, hsplit, hrest⟩
  · exact List.mem_append_right _ (h w tp o rest earlier hrest)
  · cases rest with
    | nil =>
      rw [List.append_nil] at hsplit
      have hmem := h w tp o [] earlier hrest.symm
      cases hmem
    | cons e rest =>
      obtain ⟨rfl, -⟩ := List.cons.inj hrest
      exact hnew w tp o later rest hsplit

/-- Events other than `handed`. -/
theorem allPassed_of_none {new : List (Event ω)} (h : ∀ w tp o, .handed w tp o ∉ new) : AllPassed new := by
  rintro w tp o later earlier rfl
  exact absurd (List.mem_append_right _ List.mem_cons_self) (h w tp o)

theorem allPassed_poll (w : ω) (tp : TopicPartition) (o : Nat) : AllPassed [.passed w tp o, .handed w tp o] := by
  intro w' tp' o' later earlier heq
  match later, heq with
  | [], heq => cases heq
  | [e], heq =>
    cases heq
    exact List.mem_singleton_self _
  | _ :: _ :: later, heq => exact absurd (congrArg List.length heq) (by simp)

section Steps

variable {d : Deployment ω} {w : ω} {v v' : World ω} {x x' : Worker}

/-- The events of a step with a clean poll. -/
def Emits (v v' : World ω) : Prop := ∃ new, v'.events = new ++ v.events ∧ AllPassed new

theorem Emits.none (h : v'.events = v.events) : Emits v v' := ⟨[], h, allPassed_of_none fun _ _ _ h => nomatch h⟩

theorem Next.emits {a : WorkerAction}
    (hclean : ∀ fetch ctxDone, a = .pollRecords fetch ctxDone → fetch.record.isSome = true → fetch.errors = [])
    (hs : Next d w v x a v' x') : Emits v v' := by
  cases hs with
  | @passed _ _ tp o _ hpc hfetch herrors hposition hrecord => exact ⟨_, rfl, allPassed_poll w tp o⟩
  | dropped hpc hfetch herrors hposition hrecord => exact absurd (hclean _ _ rfl (by rw [hfetch]; rfl)) herrors
  | began hpc hs => exact ⟨[_], rfl, allPassed_of_none (by simp)⟩
  | offsetLost hpc => exact ⟨[_], rfl, allPassed_of_none (by simp)⟩
  | offsetCommitted hpc => exact ⟨[_], rfl, allPassed_of_none (by simp)⟩
  | rewound hpc => exact ⟨[_], rfl, allPassed_of_none (by simp)⟩
  -- the other steps emit nothing
  | _ => exact .none rfl

end Steps

section Runs

variable [DecidableEq ω] {d : Deployment ω} {start : TopicPartition → Nat} {s : State ω}

theorem Reachable.allPassed (h : Reachable d start s) : AllPassed s.world.events := by
  obtain ⟨clock, logs, hrun⟩ := h
  refine (Parties.inv (G := fun v : World ω => AllPassed v.events) (P := fun _ _ _ => True) (E := fun _ _ => True)
    ?_ ?_ (fun _ _ _ _ _ _ => trivial) hrun (allPassed_of_none fun _ _ _ h => nomatch h) fun _ => trivial).1
  · intro t w a v' x' hclean hall _ hs
    have hclean' := fun fetch ctxDone (ha : a = .pollRecords fetch ctxDone) => hclean w fetch ctxDone (by rw [ha])
    obtain ⟨new, hnew, hpassed⟩ := (next_of_workerStep hs).emits hclean'
    refine ⟨?_, trivial, trivial⟩
    rw [hnew]
    exact hall.append hpassed
  · intro v e v' hall hs
    rw [envStep_events hs]
    exact ⟨hall, trivial⟩

/-- **The adapter drops no record** in a run whose fetches carry a record or errors, not both: every record handed out
is passed to `process`, and no offset commit skips a record that is not processed. -/
theorem nothing_dropped (h : Reachable d start s) : NothingDropped s.world.events ∧
    ∀ tp o, start tp ≤ o → o < s.world.kafka.committed tp → Processed d s.world.toShared tp o :=
  ⟨h.allPassed.nothingDropped, fun tp => (h.good.1.committed tp).2⟩

end Runs

/-- The first worker processes the next record and commits its offset. -/
def exampleNext : List (Action Bool) :=
  examplePoll false 0 1 ++ [.party false (.beginTx none)] ++ exampleCommit false 0 ++
    [.party false (.commitOffset .ok 0)]

theorem nothing_dropped_retry : ∃ s : State Bool, Reachable exampleDeployment (fun _ => 0) s ∧
    NothingDropped s.world.events ∧ s.world.kafka.committed examplePartition = 1 := by
  -- an error without a record, then the first record
  obtain ⟨s, hrun, hp⟩ := Runs.exists_of_guarded (system exampleDeployment).run pollsClean (I := fun _ => True)
    (fun _ _ _ _ _ => trivial) (fun _ _ _ => pollsClean_sound) (State.init 0 exampleLogs fun _ => 0) trivial
    ([.party false (.assigned examplePartition), .party false (.resumeDue 0 fun _ => false), .party false (.ping true),
      .party false (.pollRecords ⟨none, ["TOPIC_AUTHORIZATION_FAILED"]⟩ false)] ++ exampleNext)
    (fun s => s.world.kafka.committed examplePartition = 1) (by decide +kernel)
  have hreach : Reachable exampleDeployment (fun _ => 0) s := ⟨0, exampleLogs, hrun⟩
  exact ⟨s, hreach, (nothing_dropped hreach).1, of_decide_eq_true hp⟩

/-- A fetch with the first record and an error of another topic: the record is dropped, the second one is processed,
and the committed offset is past both. -/
theorem record_dropped : ∃ s : State Bool,
    Runs.Reach (system exampleDeployment).run Runs.Free (State.init 0 exampleLogs fun _ => 0) s ∧
    ¬ NothingDropped s.world.events ∧ s.world.kafka.committed examplePartition = 2 ∧
    ¬ Processed exampleDeployment s.world.toShared examplePartition 0 := by
  obtain ⟨s, hrun, hp⟩ := Runs.exists_of_exec (system exampleDeployment).run (State.init 0 exampleLogs fun _ => 0)
    ([.party false (.assigned examplePartition), .party false (.resumeDue 0 fun _ => false), .party false (.ping true),
      .party false (.pollRecords ⟨some examplePartition, ["TOPIC_AUTHORIZATION_FAILED"]⟩ false)] ++ exampleNext)
    (fun s => s.world.events = [.committed false examplePartition 2, .started false ("billing", 8) 1,
        .passed false examplePartition 1, .handed false examplePartition 1] ++ [.handed false examplePartition 0] &&
      s.world.kafka.committed examplePartition = 2 && (s.world.inbox.db.row ("billing", 7)).isNone &&
      s.world.kafka.record examplePartition 0 = some ⟨⟨none, [7], [], []⟩, examplePartition, 0⟩)
    (by decide +kernel)
  simp only [Bool.and_eq_true, decide_eq_true_eq] at hp
  obtain ⟨⟨⟨hevents, hcommitted⟩, hrow⟩, hrecord⟩ := hp
  refine ⟨s, hrun, fun hnone => ?_, hcommitted, ?_⟩
  · rcases hnone false examplePartition 0 _ [] hevents with hpassed | hrewound
    · simp at hpassed
    · have hmem := hrewound [.committed false examplePartition 2, .started false ("billing", 8) 1]
        (.passed false examplePartition 1) [.handed false examplePartition 1] rfl ⟨rfl, rfl, Nat.one_pos⟩
      simp at hmem
  · rintro ⟨r, id, hr, hid, x, hx, -⟩
    obtain rfl := Option.some.inj (hrecord.symm.trans hr)
    obtain rfl : (7 : Uuid) = id := Except.ok.inj hid
    rw [show s.world.inbox.db.row ("billing", 7) = some x from hx] at hrow
    cases hrow

end Emitlane.Consumer
