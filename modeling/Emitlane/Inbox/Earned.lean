import Emitlane.Inbox.Effect

/-!
# Inbox.Earned — what a processed row says where no legacy call runs

`Inv.spent` says that committed effects leave a processed row.  The converse fails for legacy markers, whose effects are
the caller's own business.  Under managed workers alone it holds: a transaction writes the row of its handler and no
other, so a row becomes processed only with the effects of its pair (`Earned.carried`).
-/

namespace Emitlane.Inbox

structure Earned (s : State) : Prop where
  /-- A transaction has written the row of its handler only. -/
  own : ∀ {t tx}, s.txs t = some tx → ∀ w ∈ tx.work.writes, ∃ token, tx.managed = some (w.new.key, token)
  /-- The effects of a processed pair are committed. -/
  carried : ∀ {k}, Row.isProcessed (s.db.row k) → ∃ o ∈ s.hist, o.carries k = true

theorem Earned.init (clock : Int) : Earned (State.init clock) where
  own htx := nomatch htx
  carried h := by
    obtain ⟨r, hr, -⟩ := h
    cases hr

section Steps

variable {s s' : State} {a : Action}

theorem Next.own (h : Next s a s') (ha : a.isLegacy = false)
    (hown : ∀ {t tx}, s.txs t = some tx → ∀ w ∈ tx.work.writes, ∃ token, tx.managed = some (w.new.key, token))
    {t : Nat} {tx : Tx} (htx : s'.txs t = some tx) :
    ∀ w ∈ tx.work.writes, ∃ token, tx.managed = some (w.new.key, token) := by
  cases h with
  | tick | idle | call => exact hown htx
  | begin managed =>
    rcases Runs.of_update htx with ⟨-, hnew⟩ | ⟨-, hold⟩
    · obtain rfl := Option.some.inj hnew
      exact fun w hw => nomatch hw
    · exact hown hold
  | @markProcessed t0 tx0 k token r htx0 hmanaged hcalls hview hholds hfree =>
    rcases Runs.of_update htx with ⟨-, hnew⟩ | ⟨-, hold⟩
    · obtain rfl := Option.some.inj hnew
      intro w hw
      rcases List.mem_cons.mp hw with rfl | hw
      · have hkey : r.key = k := Tx.view_key hview
        exact ⟨token, hmanaged.trans (by rw [← hkey]; rfl)⟩
      · exact hown htx0 w hw
    · exact hown hold
  | process | «return» => cases ha
  | commit | rollback =>
    rcases Runs.of_update htx with ⟨-, hnone⟩ | ⟨-, hold⟩
    · cases hnone
    · exact hown hold

/-- A call of the store leaves no row processed that was not. -/
theorem Action.tokenCall_status {now : Int} {k : Key} {token : Uuid} {f : Row → Row} {r : Row}
    (h : a.tokenCall now = some (k, token, f)) (hr : r.status ≠ .processed) : (f r).status ≠ .processed := by
  cases a with
  | renew =>
    cases h
    exact hr
  | markRetry | markDead =>
    cases h
    simp [Row.retried, Row.killed]
  | _ => cases h

/-- A row that a step makes processed has its effects committed by that step. -/
theorem Earned.processed (h : Earned s) (hi : Inv s) (hs : step s a = some s') {k : Key}
    (hk : Row.isProcessed (s'.db.row k)) (hold : ¬ Row.isProcessed (s.db.row k)) :
    ∃ o ∈ s'.hist, o.carries k = true := by
  obtain ⟨r, hr, hstatus⟩ := hk
  have hsame : s'.db.row k ≠ s.db.row k := fun hrow => hold ⟨r, hrow ▸ hr, hstatus⟩
  cases effect_of_step hi hs with
  | none hrows => exact absurd (hrows k) hsame
  | claim hvalid hrow hclaimable hnew hrows =>
    rw [hrows] at hr hsame
    split_ifs at hr hsame
    · obtain rfl := Option.some.inj hr
      cases hstatus
    · exact absurd rfl hsame
  | token hcall hrow hholds hrows =>
    rw [hrows] at hr hsame
    split_ifs at hr hsame
    · obtain rfl := Option.some.inj hr
      exact absurd hstatus (Action.tokenCall_status hcall (Row.holds_status hholds))
    · exact absurd rfl hsame
  | retryDead hrow hdead hrows =>
    rw [hrows] at hr hsame
    split_ifs at hr hsame
    · obtain rfl := Option.some.inj hr
      cases hstatus
    · exact absurd rfl hsame
  | @commit t tx _ htx hrows =>
    rcases hrows k with hrow | ⟨w, hw, -, hnew, -⟩
    · exact absurd hrow hsame
    · have hkey : w.new.key = k := (s'.db.row_eq_some.mp hnew).2
      obtain ⟨token, hmanaged⟩ := h.own htx w hw
      refine ⟨.committed t tx.effects, ?_, ?_⟩
      · simp only [step, htx] at hs
        split_ifs at hs
        obtain ⟨db, -, rfl⟩ := Option.map_eq_some_iff.mp hs
        exact List.mem_cons_self
      · refine decide_eq_true (List.mem_append_left _ ?_)
        rw [hmanaged, hkey]
        exact List.mem_singleton_self k

theorem Earned.next (h : Earned s) (hi : Inv s) (ha : a.isLegacy = false) (hs : step s a = some s') : Earned s' where
  own htx := (next_of_step hi.bounded hs).own ha h.own htx
  carried {k} hk := by
    by_cases hold : Row.isProcessed (s.db.row k)
    · obtain ⟨o, ho, hcarries⟩ := h.carried hold
      obtain ⟨new, hhist, -⟩ := (next_of_step hi.bounded hs).hist hi
      exact ⟨o, hhist ▸ List.mem_append_right new ho, hcarries⟩
    · exact h.processed hi hs hk hold

/-- The effects of a processed pair are committed exactly once. -/
theorem Earned.once (h : Earned s) (hi : Inv s) {k : Key} (hk : Row.isProcessed (s.db.row k)) :
    (s.hist.filter (Obs.carries k)).length = 1 := by
  obtain ⟨o, ho, hcarries⟩ := h.carried hk
  have hpos := List.length_pos_of_mem (List.mem_filter.mpr ⟨ho, hcarries⟩)
  have hone := hi.once k
  omega

end Steps

end Emitlane.Inbox
