import OutboxPattern.Orders.Serial

/-!
# Every request is answered

The row locks of PostgreSQL make a request wait, and waiting is where a transactional service can
stop for good.  This one cannot: a transaction touches a single row of `orders`, so a transaction
that holds a lock waits for nobody.

* `exists_advance_of_waits` finds, for a statement that waits, the one statement that it waits for.
* `pending` counts the statements that are still to be run, at most.  Each statement decreases it,
  also one that fails.
* `progress_of_run` puts the two together.

A failure is an action of its own (`Action.raise`), and the requests come to their answers without
any.  That is not to say that all are answered with success: a statement that runs may be a write
which the database refuses, and ends in a 500.
-/

namespace OutboxPattern

variable {V : Type}

/-- An action that runs a statement of a request that has begun, or makes it fail. -/
def Action.isStatement : Action V → Bool
  | .begin _ _ => false
  | .advance _ => true
  | .raise _ => true

/-- The action lets a statement run, and injects no failure. -/
def Action.isAdvance : Action V → Bool
  | .advance _ => true
  | _ => false

theorem Action.isStatement_of_isAdvance {action : Action V} (h : action.isAdvance = true) :
    action.isStatement = true := by
  cases action with
  | advance t => rfl
  | begin elapsed request => cases h
  | raise t => cases h

namespace World

/-- How many statements may run, or fail, before every transaction has been answered. -/
def pending (w : World V) : ℕ := (w.txs.map (·.phase.rank)).sum

/-- The open transaction `t` has to wait for `t'`, which has written the row of its order. -/
def WaitsFor (w : World V) (t t' : TxId) : Prop :=
  ∃ tx row, w.txs[t]? = some tx ∧ tx.phase.isClosed = false ∧
    (w.orders tx.request.orderId).writer = some (t', row)

/-- **Progress**, of a world. -/
structure Progress [BEq V] (w : World V) : Prop where
  /-- An open transaction can run its next statement, or waits for one that can. -/
  deadlockFree : ∀ t tx, w.txs[t]? = some tx → tx.phase.isClosed = false →
    (∃ w', w.step (.advance t) = some w') ∨
      ∃ t', w.WaitsFor t t' ∧ ∃ w', w.step (.advance t') = some w'
  /-- Without new requests, no more statements than `pending` can run or fail. -/
  bounded : ∀ actions w', (∀ action ∈ actions, action.isStatement = true) →
    Transition.run step w actions = some w' → actions.length + w'.pending ≤ w.pending
  /-- When no statement can run any more, every request has been answered. -/
  stuck : (∀ t, w.step (.advance t) = none) → w.quiescent = true
  /-- And it can be brought there by running statements, without a failure being injected.  A write
  that the database itself refuses is still answered with 500. -/
  drains : ∃ actions w', (∀ action ∈ actions, action.isAdvance = true) ∧
    Transition.run step w actions = some w' ∧ w'.quiescent = true

section Waiting

variable [BEq V] {w w' : World V} {t : TxId} {tx : Transaction V}

/-- A statement that cannot run waits for a transaction that has written the row. -/
theorem exists_writer_of_advance_none (hopen : tx.phase.isClosed = false)
    (hnone : w.advance t tx = none) :
    ∃ t' row, (w.orders tx.request.orderId).writer = some (t', row) := by
  unfold World.advance at hnone
  split at hnone
  · split at hnone
    · unfold World.flushInsert at hnone
      split at hnone
      · next entry hwriter => exact ⟨entry.1, entry.2, hwriter⟩
      · split at hnone
        · cases hnone
        · cases hnone
    · cases hnone
  · cases hnone
  · unfold World.flushUpdate at hnone
    split at hnone
    · next entry hwriter => exact ⟨entry.1, entry.2, hwriter⟩
    · split at hnone
      · cases hnone
      · cases hnone
  · split at hnone
    · cases hnone
    · cases hnone
  · cases hnone
  · cases hnone
  · cases hnone
  · next response hphase =>
    rw [hphase] at hopen
    cases hopen

/-- A transaction that has written its row waits for nobody. -/
theorem exists_advance_of_own (hinv : w.Inv) (htx : w.txs[t]? = some tx) {row : Order V}
    (hown : w.ownTuple t tx.request.orderId = some row) : ∃ w', w.advance t tx = some w' := by
  have hinvTx := hinv.txs t tx htx
  have hwritten : ¬ w.Idle t tx := by
    rintro ⟨hnone, -⟩
    rw [hown] at hnone
    cases hnone
  cases hphase : tx.phase with
  | flushed order changed =>
      simp only [World.advance, hphase]
      split
      · exact ⟨_, rfl⟩
      · exact ⟨_, rfl⟩
  | refreshed order changed => exact ⟨_, by simp only [World.advance, hphase]; rfl⟩
  | recorded order => exact ⟨_, by simp only [World.advance, hphase]; rfl⟩
  | assigned loaded order changed =>
      rw [TxInv, hphase] at hinvTx
      exact absurd hinvTx.1 hwritten
  | begun => exact absurd (by simpa [TxInv, hphase] using hinvTx) hwritten
  | missed => exact absurd (by simpa [TxInv, hphase] using hinvTx) hwritten
  | unchanged order => exact absurd (by simpa [TxInv, hphase] using hinvTx) hwritten
  | closed response => exact absurd (by simpa [TxInv, hphase] using hinvTx) hwritten

/-- **Nobody waits for somebody who waits.** -/
theorem exists_advance_of_waits (hinv : w.Inv) (htx : w.txs[t]? = some tx)
    (hopen : tx.phase.isClosed = false) (hnone : w.advance t tx = none) :
    ∃ t', w.WaitsFor t t' ∧ ∃ w', w.step (.advance t') = some w' := by
  obtain ⟨t', row, hwriter⟩ := exists_writer_of_advance_none hopen hnone
  obtain ⟨tx', htx', hid⟩ := hinv.owner _ t' row hwriter
  have hown : w.ownTuple t' tx'.request.orderId = some row := by
    rw [hid]
    exact ownTuple_eq_some_iff.mpr hwriter
  obtain ⟨w', hadvance⟩ := exists_advance_of_own hinv htx' hown
  exact ⟨t', ⟨tx, row, htx, hopen, hwriter⟩, w', (step_advance htx').trans hadvance⟩

theorem deadlockFree (hinv : w.Inv) (htx : w.txs[t]? = some tx)
    (hopen : tx.phase.isClosed = false) :
    (∃ w', w.step (.advance t) = some w') ∨
      ∃ t', w.WaitsFor t t' ∧ ∃ w', w.step (.advance t') = some w' := by
  cases hadvance : w.advance t tx with
  | some w' => exact Or.inl ⟨w', (step_advance htx).trans hadvance⟩
  | none => exact Or.inr (exists_advance_of_waits hinv htx hopen hadvance)

theorem quiescent_of_stuck (hinv : w.Inv) (hstuck : ∀ t, w.step (.advance t) = none) :
    w.quiescent = true := by
  refine quiescent_iff.mpr fun t tx htx => ?_
  cases hclosed : tx.phase.isClosed with
  | true => rfl
  | false =>
      rcases deadlockFree hinv htx hclosed with ⟨w', hstep⟩ | ⟨t', -, w', hstep⟩
      · rw [hstuck] at hstep
        cases hstep
      · rw [hstuck] at hstep
        cases hstep

end Waiting

/-! ### The measure -/

section Pending

variable {w w' : World V} {tx : Transaction V}

theorem rank_pos_of_open (hopen : ∀ response, tx.phase ≠ .closed response) :
    0 < tx.phase.rank := by
  cases hphase : tx.phase with
  | closed response => exact absurd hphase (hopen response)
  | _ => simp [Phase.rank]

/-- A statement, whether it runs or fails, brings its own transaction nearer to its answer. -/
theorem exists_set_of_statement [BEq V] {action : Action V} (hstatement : action.isStatement = true)
    (hstep : w.step action = some w') :
    ∃ t tx tx', w.txs[t]? = some tx ∧ w'.txs = w.txs.set t tx' ∧ tx'.request = tx.request ∧
      tx'.phase.rank < tx.phase.rank := by
  cases action with
  | begin elapsed request => cases hstatement
  | advance t =>
      obtain ⟨tx, htx, hadvance⟩ := Option.bind_eq_some_iff.mp hstep
      obtain ⟨tx', htxs, hstatement⟩ := statement_of_advance hadvance
      exact ⟨t, tx, tx', htx, htxs, hstatement.request, hstatement.rank⟩
  | raise t =>
      obtain ⟨tx, htx, hraise⟩ := Option.bind_eq_some_iff.mp hstep
      split at hraise
      · cases hraise
      · next hopen =>
        cases hraise
        exact ⟨t, tx, _, htx, txs_rollback w t tx internalServerError, rfl, rank_pos_of_open hopen⟩

/-- Each statement, whether it runs or fails, decreases the measure. -/
theorem pending_lt_of_step [BEq V] {action : Action V} (hstatement : action.isStatement = true)
    (hstep : w.step action = some w') : w'.pending < w.pending := by
  obtain ⟨t, tx, tx', htx, htxs, -, hrank⟩ := exists_set_of_statement hstatement hstep
  rw [pending, pending, htxs]
  exact Transition.sum_map_set_lt htx hrank

end Pending

/-- **Every request is answered.**  Whatever the interleaving that led to a world, some
statement can run in it as long as a request is unanswered, no request waits for one that waits,
and running statements comes to an end with every request answered. -/
theorem progress_of_run [BEq V] {schedule : List (Action V)} {w : World V}
    (h : runFromInit schedule = some w) : Progress w := by
  have hinv := inv_of_run h
  have hkeeps : ∀ (s : World V) a s', s.Inv → s.step a = some s' → s'.Inv :=
    fun s a s' hs hstep => hs.step hstep
  refine ⟨fun t tx => deadlockFree hinv, fun actions w' hall hrun => ?_, quiescent_of_stuck hinv,
    ?_⟩
  · exact Transition.run_length_le hkeeps (fun s a s' _ ha hstep => pending_lt_of_step ha hstep)
      hinv hall hrun
  · have hdecreases : ∀ (s : World V) (a : Action V) (s' : World V), s.Inv → a.isAdvance = true →
        s.step a = some s' → s'.pending < s.pending := fun s a s' _ ha hstep =>
      pending_lt_of_step (Action.isStatement_of_isAdvance ha) hstep
    refine Transition.exists_run_of_measure hkeeps hdecreases (fun s hs hopen => ?_) hinv
    by_contra hnone
    refine hopen (quiescent_of_stuck hs fun t => ?_)
    cases hstep : s.step (.advance t) with
    | none => rfl
    | some s' => exact absurd ⟨_, s', rfl, hstep⟩ hnone

end World

/-- Two updates have read the order, and one of them has written it. -/
def Sample.waiting : List (Action ℕ) :=
  [.begin 1 create] ++ statements 3 0 ++
  [.begin 1 (update (some .confirmed) none), .begin 1 (update (some .shipped) none),
    .advance 1, .advance 2, .advance 1]

open World in
/-- The other one waits. -/
theorem progress_of_run_waiting :
    ∃ w, runFromInit Sample.waiting = some w ∧ w.step (.advance 2) = none ∧
      Progress w := by
  have hrun : (runFromInit Sample.waiting).map (fun w => (w.step (.advance 2)).isNone) =
      some true := by decide
  obtain ⟨w, hw, hwaits⟩ := Option.map_eq_some_iff.mp hrun
  exact ⟨w, hw, Option.isNone_iff_eq_none.mp hwaits, progress_of_run hw⟩

end OutboxPattern
