import OutboxPattern.Guarantees.Atomicity
import OutboxPattern.Orders.Serial

/-!
# What a request does not depend on

Two things should make no difference to the requests on an order: the requests on other orders,
and the requests that have failed.  Neither is obvious of a run, since both sit on the same
database, take locks there, and make others wait.

The way to say it is to leave them out.  `Action.keeps live` drops, from a schedule, every statement
of the transactions that are not `live`; their `BEGIN`s stay, so that the clock and the names of the
transactions are the same.  `World.Restricts` compares the run of what is left with the run of the
whole, on the orders in `kept`: the same committed rows, locks of live transactions, events and
writes, and the same answers.  What may differ is how many writes a `SELECT` could see, for the
writes of all orders count there.

* `World.Restricts.advance` runs a statement of a live transaction on both sides.
* `World.Restricts.of_dropped` runs one of another transaction on one side only.
* The projection rule for runs makes `World.exists_restricts` of it, for any choice of orders
  and transactions such that every write of a kept order is by a live transaction.
-/

namespace OutboxPattern

variable {V : Type}

/-- The write, but for how many writes its request had seen. -/
def Write.unnumbered (write : Write V) : Write V := { write with snapshot := 0 }

/-- The transaction, but for how many writes it has seen. -/
def Transaction.unnumbered (tx : Transaction V) : Transaction V := { tx with snapshot := 0 }

/-- Two transactions that differ in nothing else differ in the number of writes they have seen. -/
theorem Transaction.eq_of_unnumbered {tx tx' : Transaction V}
    (h : tx'.unnumbered = tx.unnumbered) : tx' = { tx with snapshot := tx'.snapshot } := by
  have hall : { tx'.unnumbered with snapshot := tx'.snapshot } =
      ({ tx.unnumbered with snapshot := tx'.snapshot } : Transaction V) := by rw [h]
  exact hall

/-- The action is not a statement of a transaction that is not live. -/
def Action.keeps (live : TxId → Bool) : Action V → Bool
  | .begin _ _ => true
  | .advance t => live t
  | .raise t => live t

namespace World

/-- The transaction is on the order `id`. -/
def isOn (w : World V) (id : UUID) (t : TxId) : Bool :=
  (w.txs[t]?).any fun tx : Transaction V => decide (tx.request.orderId = id)

/-- A transaction that is there is on one order. -/
theorem isOn_iff {w : World V} {id : UUID} {t : TxId} :
    w.isOn id t = true ↔ ∃ tx, w.txs[t]? = some tx ∧ tx.request.orderId = id := by
  unfold isOn
  cases w.txs[t]? with
  | none => simp
  | some tx => simp

/-- **The world `v` is `w` on the orders `kept`**, seen by the transactions `live`. -/
structure Restricts (kept : UUID → Bool) (live : TxId → Bool) (w v : World V) : Prop where
  clock : v.clock = w.clock
  /-- The same requests have begun, so they have the same names. -/
  count : v.txs.length = w.txs.length
  /-- A live transaction has got as far, with the same rows, or has the same answer. -/
  txs : ∀ t, live t = true →
    v.txs[t]?.map Transaction.unnumbered = w.txs[t]?.map Transaction.unnumbered
  committed : ∀ id, kept id = true → (v.orders id).committed = (w.orders id).committed
  /-- Only live transactions hold locks. -/
  writer : ∀ id, kept id = true → ∀ t row,
    (v.orders id).writer = some (t, row) ↔ live t = true ∧ (w.orders id).writer = some (t, row)
  events : v.outbox = w.outbox.filter fun event => kept event.aggregateId
  /-- The writes of kept orders, in the same order. -/
  writes : v.history.map Write.unnumbered =
    (w.history.filter fun write => kept write.orderId).map Write.unnumbered

/-- Every write of an order in `kept` is by a live transaction, and these are on orders in
`kept`. -/
structure Covers (kept : UUID → Bool) (live : TxId → Bool) (w : World V) : Prop where
  writes : ∀ write ∈ w.history, kept write.orderId = true → live write.xid = true
  txs : ∀ (t : TxId) (tx : Transaction V), w.txs[t]? = some tx → live t = true →
    kept tx.request.orderId = true

section Restricts

variable {kept : UUID → Bool} {live : TxId → Bool} {w v : World V} {t : TxId}
  {tx : Transaction V} {id : UUID}

/-- A live transaction holds the same locks on both sides, and has written the same under them. -/
theorem Restricts.ownTuple (hR : w.Restricts kept live v) (hlive : live t = true)
    (hkept : kept id = true) : v.ownTuple t id = w.ownTuple t id := by
  refine Option.ext fun row => ?_
  rw [ownTuple_eq_some_iff, ownTuple_eq_some_iff, hR.writer id hkept, and_iff_right hlive]

/-- What nobody holds in the whole, nobody holds in the part: leaving transactions out makes nobody
wait. -/
theorem Restricts.writer_eq_none (hR : w.Restricts kept live v) (hkept : kept id = true)
    (hfree : (w.orders id).writer = none) : (v.orders id).writer = none := by
  cases hwriter : (v.orders id).writer with
  | none => rfl
  | some entry =>
      -- a lock in the part is one in the whole
      have hlocked := ((hR.writer id hkept entry.1 entry.2).mp hwriter).2
      rw [hfree] at hlocked
      cases hlocked

/-! What the statements are made of does the same on both sides: moving a transaction on, taking a
lock and giving it up, rolling back and committing.  A transaction is named by its `xid`, which is
the same on both sides because no `BEGIN` is left out. -/

/-- A transaction moves on to the same phase, whatever each side says of the writes it has seen. -/
theorem Restricts.setTx (hR : w.Restricts kept live v) {u u' : Transaction V}
    (hsame : u'.unnumbered = u.unnumbered) :
    (w.setTx t u).Restricts kept live (v.setTx t u') where
  clock := hR.clock
  count := by
    show (v.txs.set t u').length = (w.txs.set t u).length
    rw [List.length_set, List.length_set, hR.count]
  txs t' hlive := by
    show (v.txs.set t u')[t']?.map _ = (w.txs.set t u)[t']?.map _
    by_cases hne : t = t'
    · subst hne
      rw [List.getElem?_set, List.getElem?_set, hR.count]
      simp only [if_true]
      split
      · exact congrArg some hsame
      · rfl
    · rw [List.getElem?_set_ne hne, List.getElem?_set_ne hne, hR.txs t' hlive]
  committed := hR.committed
  writer := hR.writer
  events := hR.events
  writes := hR.writes

/-- A live transaction takes a lock. -/
theorem Restricts.lock (hR : w.Restricts kept live v) (hlive : live t = true) (row : Order V) :
    (w.lock t id row).Restricts kept live (v.lock t id row) where
  clock := hR.clock
  count := hR.count
  txs := hR.txs
  committed id' hkept := by
    rw [committed_lock, committed_lock, hR.committed id' hkept]
  writer id' hkept t' row' := by
    by_cases hid : id' = id
    · subst hid
      simp only [World.lock, Function.update_self, Option.some.injEq, Prod.mk.injEq]
      -- the new holder is live, as the clause asks
      refine (and_iff_right_of_imp ?_).symm
      rintro ⟨rfl, -⟩
      exact hlive
    · simp only [World.lock, Function.update_of_ne hid]
      exact hR.writer id' hkept t' row'
  events := hR.events
  writes := hR.writes

/-- A live transaction gives its lock up, if it has one. -/
theorem Restricts.unlock (hR : w.Restricts kept live v) (hlive : live t = true)
    (hkept : kept id = true) : (w.unlock t id).Restricts kept live (v.unlock t id) := by
  unfold World.unlock
  rw [hR.ownTuple hlive hkept]
  split
  · -- the lock is free on both sides, and no other one is concerned
    exact
      { clock := hR.clock
        count := hR.count
        txs := hR.txs
        committed := fun id' hkept' => by
          by_cases hid : id' = id
          · subst hid
            simp only [Function.update_self, hR.committed id' hkept']
          · simp only [Function.update_of_ne hid, hR.committed id' hkept']
        writer := fun id' hkept' t' row' => by
          by_cases hid : id' = id
          · subst hid
            simp only [Function.update_self, reduceCtorEq, and_false]
          · simp only [Function.update_of_ne hid, hR.writer id' hkept' t' row']
        events := hR.events
        writes := hR.writes }
  · exact hR

/-- A rollback gives the lock up and answers with the same error. -/
theorem Restricts.rollback (hR : w.Restricts kept live v) (hlive : live t = true)
    (hkept : kept tx.request.orderId = true) (snapshot snapshot' : ℕ) (error : HttpError) :
    (w.rollback t { tx with snapshot := snapshot } error).Restricts kept live
      (v.rollback t { tx with snapshot := snapshot' } error) :=
  (hR.unlock hlive hkept).setTx rfl

/-- A commit that makes nothing visible, or a write and its events. -/
theorem Restricts.commit (hR : w.Restricts kept live v) (hlive : live t = true)
    (hkept : kept tx.request.orderId = true)
    (hinserted : ∀ event ∈ tx.inserted, event.aggregateId = tx.request.orderId)
    (snapshot : ℕ) (order : Order V) :
    (w.commit t tx order).Restricts kept live
      (v.commit t { tx with snapshot := snapshot } order) := by
  have hown := hR.ownTuple hlive hkept
  have htxs : (w.setTx t { tx with
      inserted := []
      phase := .closed (.ok (toResponse order)) }).Restricts kept live (v.setTx t { tx with
        snapshot := snapshot
        inserted := []
        phase := .closed (.ok (toResponse order)) }) := hR.setTx rfl
  -- the events are of the transaction's own order, which is kept
  have hevents : v.outbox ++ tx.inserted =
      (w.outbox ++ tx.inserted).filter fun event => kept event.aggregateId := by
    have hall : (tx.inserted.filter fun event => kept event.aggregateId) = tx.inserted :=
      List.filter_eq_self.mpr fun event hevent => by rw [hinserted event hevent, hkept]
    rw [List.filter_append, hall, hR.events]
  cases hrow : w.ownTuple t tx.request.orderId with
  | none =>
      -- nothing was written: the commit is a mere answer
      have hpending : w.pendingWrite t tx = none := by rw [pendingWrite, hrow]; rfl
      have hpending' : v.pendingWrite t { tx with snapshot := snapshot } = none := by
        show (v.ownTuple t tx.request.orderId).map _ = none
        rw [hown, hrow]
        rfl
      unfold World.commit
      rw [hpending, hpending', Option.toList_none, List.append_nil, List.append_nil]
      exact
        { clock := hR.clock
          count := htxs.count
          txs := htxs.txs
          committed := hR.committed
          writer := hR.writer
          events := hevents
          writes := hR.writes }
  | some row =>
      have hpending := pendingWrite_of_own hrow
      have hpending' : v.pendingWrite t { tx with snapshot := snapshot } =
          some (v.writeOf t { tx with snapshot := snapshot } row) :=
        pendingWrite_of_own (hown.trans hrow)
      -- the row that is overwritten is the same, and so is the entry but for its snapshot
      have hsame : (v.writeOf t { tx with snapshot := snapshot } row).unnumbered =
          (w.writeOf t tx row).unnumbered := by
        simp only [writeOf, Write.unnumbered, hR.committed _ hkept]
      unfold World.commit
      rw [hpending, hpending', Option.toList_some, Option.toList_some]
      exact
        { clock := hR.clock
          count := htxs.count
          txs := htxs.txs
          committed := fun id hid => by
            by_cases hne : id = tx.request.orderId
            · subst hne
              simp only [Function.update_self]
              rfl
            · simp only [Function.update_of_ne hne, hR.committed id hid]
          writer := fun id hid t' row' => by
            by_cases hne : id = tx.request.orderId
            · subst hne
              simp only [Function.update_self, reduceCtorEq, and_false]
            · simp only [Function.update_of_ne hne, hR.writer id hid t' row']
          events := hevents
          writes := by
            have hwrite : kept (w.writeOf t tx row).orderId = true := hkept
            rw [List.filter_append, List.filter_singleton, hwrite, List.map_append,
              List.map_append, hR.writes]
            exact congrArg (_ ++ [·]) hsame }

/-! The statements themselves.  Each reads the row of its own order, which is kept, and its own
transaction, which is live; so it takes the same branch on both sides. -/

section Statements

variable {w' : World V}

/-- Loading an order reads its committed row, which is the same; the phase that follows depends on
that row and the request alone. -/
theorem Restricts.selectActive (hR : w.Restricts kept live v) (hlive : live t = true)
    (hkept : kept tx.request.orderId = true) (snapshot : ℕ) :
    (w.selectActive t tx).Restricts kept live
      (v.selectActive t { tx with snapshot := snapshot }) := by
  have hrow := hR.committed _ hkept
  unfold World.selectActive
  dsimp only
  rw [hrow]
  cases (w.orders tx.request.orderId).committed.filter (·.deletedAt.isNone) with
  | none => exact hR.setTx rfl
  | some loaded =>
      cases tx.request.operation with
      | create req => exact hR.setTx rfl
      | get => exact hR.setTx rfl
      | delete at_ => exact hR.setTx rfl
      | update req =>
          dsimp only
          cases updateOrder req loaded with
          | error e => exact hR.rollback hlive hkept _ _ e.toHttp
          | ok draft =>
              dsimp only
              split
              · exact hR.setTx rfl
              · exact hR.setTx rfl

/-- So does the second `SELECT`. -/
theorem Restricts.selectDeleted (hR : w.Restricts kept live v) (hlive : live t = true)
    (hkept : kept tx.request.orderId = true) (snapshot : ℕ) :
    (w.selectDeleted t tx).Restricts kept live
      (v.selectDeleted t { tx with snapshot := snapshot }) := by
  rw [selectDeleted_eq, selectDeleted_eq, hR.committed _ hkept]
  exact hR.rollback hlive hkept _ _ _

/-- An `INSERT` that gets the lock in the whole gets it in the part, and the row is absent in
both. -/
theorem Restricts.flushInsert (hR : w.Restricts kept live v) (hlive : live t = true)
    (hkept : kept tx.request.orderId = true) (snapshot : ℕ) {order : Order V}
    (hstep : w.flushInsert t tx order = some w') :
    ∃ v', v.flushInsert t { tx with snapshot := snapshot } order = some v' ∧
      w'.Restricts kept live v' := by
  unfold World.flushInsert at hstep ⊢
  dsimp only
  cases hwriter : (w.orders tx.request.orderId).writer with
  | some entry =>
      rw [hwriter] at hstep
      cases hstep
  | none =>
      rw [hwriter] at hstep
      rw [hR.writer_eq_none hkept hwriter, hR.committed _ hkept]
      dsimp only at hstep ⊢
      split at hstep
      · cases hstep
        exact ⟨_, rfl, (hR.lock hlive _).setTx rfl⟩
      · cases hstep
        exact ⟨_, rfl, hR.rollback hlive hkept _ _ _⟩

/-- An `UPDATE` that gets the lock in the whole gets it in the part, over the same present row, so
it writes the same tuple or is refused on both sides. -/
theorem Restricts.flushUpdate [BEq V] (hR : w.Restricts kept live v) (hlive : live t = true)
    (hkept : kept tx.request.orderId = true) (snapshot : ℕ) {loaded order : Order V}
    {changed : List OrderField} (hstep : w.flushUpdate t tx loaded order changed = some w') :
    ∃ v', v.flushUpdate t { tx with snapshot := snapshot } loaded order changed = some v' ∧
      w'.Restricts kept live v' := by
  unfold World.flushUpdate at hstep ⊢
  dsimp only
  cases hwriter : (w.orders tx.request.orderId).writer with
  | some entry =>
      rw [hwriter] at hstep
      cases hstep
  | none =>
      rw [hwriter] at hstep
      rw [hR.writer_eq_none hkept hwriter, hR.committed _ hkept]
      dsimp only at hstep ⊢
      split at hstep
      · cases hstep
        exact ⟨_, rfl, (hR.lock hlive _).setTx rfl⟩
      · cases hstep
        exact ⟨_, rfl, hR.rollback hlive hkept _ _ _⟩

/-- A refresh reads the tuple that the transaction has written, or else the committed row. -/
theorem Restricts.refresh (hR : w.Restricts kept live v) (hlive : live t = true)
    (hkept : kept tx.request.orderId = true) (snapshot : ℕ) (changed : List OrderField) :
    (w.refresh t tx changed).Restricts kept live
      (v.refresh t { tx with snapshot := snapshot } changed) := by
  -- what a transaction sees is its own tuple, or the committed row
  have hvisible : v.visible t tx.request.orderId = w.visible t tx.request.orderId := by
    rw [World.visible, World.visible, hR.ownTuple hlive hkept, hR.committed _ hkept]
  unfold World.refresh
  dsimp only
  rw [hvisible]
  split
  · exact hR.setTx rfl
  · exact hR.rollback hlive hkept _ _ _

/-- **A statement of a live transaction runs on both sides.** -/
theorem Restricts.advance [BEq V] (hinv : w.Inv) (hR : w.Restricts kept live v)
    (hlive : live t = true) (htx : w.txs[t]? = some tx) (hkept : kept tx.request.orderId = true)
    (snapshot : ℕ) (hstep : w.advance t tx = some w') :
    ∃ v', v.advance t { tx with snapshot := snapshot } = some v' ∧ w'.Restricts kept live v' := by
  have hinvTx := hinv.txs t tx htx
  -- the phase of the transaction is the same on both sides, so the same statement comes next
  unfold World.advance at hstep ⊢
  dsimp only
  cases hphase : tx.phase with
  | begun =>
      simp only [hphase] at hstep ⊢
      cases hoperation : tx.request.operation with
      | create req =>
          simp only [hoperation] at hstep ⊢
          exact hR.flushInsert hlive hkept snapshot hstep
      | _ =>
          simp only [hoperation] at hstep ⊢
          cases hstep
          exact ⟨_, rfl, hR.selectActive hlive hkept snapshot⟩
  | missed =>
      simp only [hphase] at hstep ⊢
      cases hstep
      exact ⟨_, rfl, hR.selectDeleted hlive hkept snapshot⟩
  | assigned loaded order changed =>
      simp only [hphase] at hstep ⊢
      exact hR.flushUpdate hlive hkept snapshot hstep
  | flushed order changed =>
      simp only [hphase] at hstep ⊢
      cases hoperation : tx.request.operation with
      | create req =>
          simp only [hoperation] at hstep ⊢
          cases hstep
          exact ⟨_, rfl, hR.setTx rfl⟩
      | _ =>
          simp only [hoperation] at hstep ⊢
          cases hstep
          exact ⟨_, rfl, hR.refresh hlive hkept snapshot changed⟩
  | refreshed order changed =>
      simp only [hphase] at hstep ⊢
      cases hstep
      exact ⟨_, rfl, hR.setTx rfl⟩
  | recorded order =>
      simp only [hphase] at hstep ⊢
      cases hstep
      rw [TxInv, hphase] at hinvTx
      obtain ⟨row, event, -, -, hinserted, hcommits⟩ := hinvTx
      -- the event that is committed is of the order that was written
      refine ⟨_, rfl, hR.commit hlive hkept (fun event' hevent' => ?_) snapshot order⟩
      rw [hinserted, List.mem_singleton] at hevent'
      rw [hevent']
      exact (hcommits.corresponds hinv.ledger).aggregateId
  | unchanged order =>
      simp only [hphase] at hstep ⊢
      cases hstep
      rw [TxInv, hphase] at hinvTx
      refine ⟨_, rfl, hR.commit hlive hkept (fun event hevent => ?_) snapshot order⟩
      rw [hinvTx.2] at hevent
      cases hevent
  | closed response =>
      simp only [hphase] at hstep
      cases hstep

end Statements

/-! ### Statements that are left out

The other side stands still.  A statement of a transaction that is not live changes nothing that is
compared: the clock runs at `BEGIN`s only, and what it locks or commits is not of a kept order. -/

section Dropped

variable [BEq V] {w' : World V}

omit [BEq V] in
/-- A rollback takes no time. -/
theorem clock_rollback (error : HttpError) : (w.rollback t tx error).clock = w.clock := by
  unfold World.rollback World.unlock
  split
  · rfl
  · rfl

/-- Statements take no time: it passes between two requests. -/
theorem clock_of_advance (hstep : w.advance t tx = some w') : w'.clock = w.clock := by
  unfold World.advance at hstep
  split at hstep
  · split at hstep
    · unfold World.flushInsert at hstep
      split at hstep
      · cases hstep
      · split at hstep
        · cases hstep
          rfl
        · cases hstep
          exact clock_rollback internalServerError
    · cases hstep
      unfold World.selectActive
      split
      · rfl
      · dsimp only
        split
        · split
          · exact clock_rollback _
          · split
            · rfl
            · rfl
        · rfl
        · rfl
  · cases hstep
    rw [selectDeleted_eq]
    exact clock_rollback _
  · unfold World.flushUpdate at hstep
    split at hstep
    · cases hstep
    · split at hstep
      · cases hstep
        rfl
      · cases hstep
        exact clock_rollback internalServerError
  · split at hstep
    · cases hstep
      rfl
    · cases hstep
      unfold World.refresh
      split
      · rfl
      · exact clock_rollback internalServerError
  · cases hstep
    rfl
  · cases hstep
    rfl
  · cases hstep
    rfl
  · cases hstep

/-- A statement that commits nothing, of a transaction that is not live. -/
theorem Restricts.of_quiet (hR : w.Restricts kept live v) (hdead : live t = false)
    (hclock : w'.clock = w.clock) (hquiet : Quiet w w' t tx) : w'.Restricts kept live v := by
  obtain ⟨tx', hlocal, -⟩ := hquiet
  -- what is compared is of live transactions, so not of this one
  have hne : ∀ t', live t' = true → t' ≠ t := by
    rintro t' hlive rfl
    rw [hdead] at hlive
    cases hlive
  exact
    { clock := hR.clock.trans hclock.symm
      count := by rw [hR.count, hlocal.txs, List.length_set]
      txs := fun t' hlive => by
        rw [hlocal.txs, List.getElem?_set_ne (hne t' hlive).symm, hR.txs t' hlive]
      committed := fun id hid => by rw [hR.committed id hid, hlocal.committed]
      writer := fun id hid t' row => by
        rw [hR.writer id hid]
        refine and_congr_right fun hlive => ?_
        rw [← ownTuple_eq_some_iff, ← ownTuple_eq_some_iff, hlocal.others t' (hne t' hlive)]
      events := by rw [hR.events, hlocal.outbox]
      writes := by rw [hR.writes, hlocal.history] }

/-- The commit of a write of another order. -/
theorem Restricts.of_commit (hinv : w.Inv) (hR : w.Restricts kept live v)
    (hdead : live t = false) (hother : kept tx.request.orderId = false) {order row : Order V}
    {event : OutboxEvent V} (hown : w.ownTuple t tx.request.orderId = some row)
    (hinserted : tx.inserted = [event]) (hcommits : Commits w.history (w.writeOf t tx row) event) :
    (w.commit t tx order).Restricts kept live v := by
  have hne : ∀ t', live t' = true → t ≠ t' := by
    rintro t' hlive rfl
    rw [hdead] at hlive
    cases hlive
  -- the order that is written is not kept, so no kept row, event or write is affected
  have hid : ∀ id, kept id = true → id ≠ tx.request.orderId := by
    rintro id hkept rfl
    rw [hother] at hkept
    cases hkept
  have haggregate : event.aggregateId = tx.request.orderId :=
    (hcommits.corresponds hinv.ledger).aggregateId
  -- the commit fills the slot of its own order
  have hslot : ∀ id, kept id = true → (w.commit t tx order).orders id = w.orders id := by
    intro id hkept
    rw [World.commit, pendingWrite_of_own hown]
    exact Function.update_of_ne (hid id hkept) _ _
  exact
    { clock := hR.clock
      count := by
        show v.txs.length = (w.txs.set t _).length
        rw [List.length_set, hR.count]
      txs := fun t' hlive => by
        show _ = (w.txs.set t _)[t']?.map _
        rw [List.getElem?_set_ne (hne t' hlive), hR.txs t' hlive]
      committed := fun id hkept => by rw [hslot id hkept, hR.committed id hkept]
      writer := fun id hkept t' row' => by rw [hslot id hkept, hR.writer id hkept]
      events := by
        rw [hR.events, World.commit, hinserted, List.filter_append, List.filter_singleton,
          haggregate, hother]
        exact (List.append_nil _).symm
      writes := by
        have hwrite : kept (w.writeOf t tx row).orderId = false := hother
        rw [hR.writes, World.commit, pendingWrite_of_own hown, Option.toList_some,
          List.filter_append, List.filter_singleton, hwrite]
        exact congrArg _ (List.append_nil _).symm }

end Dropped

/-! ### Runs

Which transactions have written is known at the end of a run, and `Covers` holds there; since
nothing is ever taken back from the history, it holds all the way (`Covers.of_step`). -/

section Runs

variable [BEq V] {w' : World V}

/-- A transaction stays, with its request. -/
theorem tx_of_step {action : Action V} (hstep : w.step action = some w')
    (htx : w.txs[t]? = some tx) : ∃ tx', w'.txs[t]? = some tx' ∧ tx'.request = tx.request := by
  have hlt := (List.getElem?_eq_some_iff.mp htx).1
  -- a statement replaces one transaction by another with the same request
  have hset : ∀ {t' : TxId} {u u' : Transaction V}, w.txs[t']? = some u →
      u'.request = u.request →
      ∃ tx', (w.txs.set t' u')[t]? = some tx' ∧ tx'.request = tx.request := by
    intro t' u u' hu hrequest
    by_cases hne : t' = t
    · subst hne
      obtain rfl := Option.some.inj (htx.symm.trans hu)
      exact ⟨u', List.getElem?_set_self hlt, hrequest⟩
    · exact ⟨tx, (List.getElem?_set_ne hne).trans htx, rfl⟩
  cases action with
  | begin elapsed request =>
      cases hstep
      exact ⟨tx, (List.getElem?_append_left hlt).trans htx, rfl⟩
  | advance t' =>
      obtain ⟨u, hu, hadvance⟩ := Option.bind_eq_some_iff.mp hstep
      obtain ⟨u', htxs, hstatement⟩ := statement_of_advance hadvance
      rw [htxs]
      exact hset hu hstatement.request
  | raise t' =>
      obtain ⟨u, hu, hraise⟩ := Option.bind_eq_some_iff.mp hstep
      split at hraise
      · cases hraise
      · cases hraise
        rw [txs_rollback]
        exact hset hu rfl

/-- What holds at the end of a run of the writes and the transactions held before. -/
theorem Covers.of_step (hinv : w.Inv) {action : Action V} (hstep : w.step action = some w')
    (h : w'.Covers kept live) : w.Covers kept live := by
  refine ⟨fun write hwrite => ?_, fun t tx htx hlive => ?_⟩
  · obtain ⟨ws, es, hhistory, -⟩ := hinv.committed_append
      ((Transition.run_cons_of_step World.step hstep []).trans rfl)
    exact h.writes write (hhistory ▸ List.mem_append_left ws hwrite)
  · obtain ⟨tx', htx', hrequest⟩ := tx_of_step hstep htx
    rw [← hrequest]
    exact h.txs t tx' htx' hlive

omit [BEq V] in
/-- The transaction on the other side. -/
theorem Restricts.exists_tx (hR : w.Restricts kept live v) (hlive : live t = true)
    (htx : w.txs[t]? = some tx) :
    ∃ snapshot, v.txs[t]? = some { tx with snapshot := snapshot } := by
  have hsame := hR.txs t hlive
  rw [htx] at hsame
  obtain ⟨tx', htx', hunnumbered⟩ := Option.map_eq_some_iff.mp hsame
  exact ⟨tx'.snapshot, htx'.trans (congrArg some (Transaction.eq_of_unnumbered hunnumbered))⟩

/-- An action that is kept. -/
theorem Restricts.step_kept (hinv : w.Inv) (hR : w.Restricts kept live v)
    (hcovers : w.Covers kept live) {action : Action V} (hkeeps : action.keeps live = true)
    (hstep : w.step action = some w') :
    ∃ v', v.step action = some v' ∧ w'.Restricts kept live v' := by
  cases action with
  | begin elapsed request =>
      -- the clocks agree, so the new transaction has the same `now` on both sides
      cases hstep
      refine ⟨_, rfl, ?_⟩
      exact
        { clock := congrArg (· + elapsed) hR.clock
          count := by
            show (v.txs ++ _).length = (w.txs ++ _).length
            rw [List.length_append, List.length_append, hR.count]
            rfl
          txs := fun t hlive => by
            show (v.txs ++ [_])[t]?.map _ = (w.txs ++ [_])[t]?.map _
            rw [hR.clock, List.getElem?_append, List.getElem?_append, hR.count]
            split
            · exact hR.txs t hlive
            · rfl
          committed := hR.committed
          writer := hR.writer
          events := hR.events
          writes := hR.writes }
  | advance t =>
      obtain ⟨tx, htx, hadvance⟩ := Option.bind_eq_some_iff.mp hstep
      obtain ⟨snapshot, htx'⟩ := hR.exists_tx hkeeps htx
      obtain ⟨v', hv', hR'⟩ :=
        hR.advance hinv hkeeps htx (hcovers.txs t tx htx hkeeps) snapshot hadvance
      exact ⟨v', (step_advance htx').trans hv', hR'⟩
  | raise t =>
      obtain ⟨tx, htx, hraise⟩ := Option.bind_eq_some_iff.mp hstep
      obtain ⟨snapshot, htx'⟩ := hR.exists_tx hkeeps htx
      split at hraise
      · cases hraise
      · next hopen =>
        cases hraise
        -- it is open on the other side as well, and can fail there
        refine ⟨v.rollback t { tx with snapshot := snapshot } internalServerError, ?_,
          hR.rollback hkeeps (hcovers.txs t tx htx hkeeps) _ _ _⟩
        show v.txs[t]?.bind _ = _
        rw [htx', Option.bind_some]
        split
        · next response hclosed => exact absurd hclosed (hopen response)
        · rfl

/-- An action that is left out. -/
theorem Restricts.step_dropped (hinv : w.Inv) (hR : w.Restricts kept live v)
    (hcovers : w'.Covers kept live) {action : Action V} (hdrops : action.keeps live = false)
    (hstep : w.step action = some w') : w'.Restricts kept live v := by
  cases action with
  | begin elapsed request => cases hdrops
  | raise t =>
      obtain ⟨tx, htx, hraise⟩ := Option.bind_eq_some_iff.mp hstep
      split at hraise
      · cases hraise
      · cases hraise
        exact hR.of_quiet hdrops (clock_rollback _) (quiet_rollback rfl)
  | advance t =>
      obtain ⟨tx, htx, hadvance⟩ := Option.bind_eq_some_iff.mp hstep
      rcases advance_cases hinv htx hadvance with
        ⟨hquiet, -⟩ | ⟨order, row, event, -, hown, -, hinserted, hcommits, rfl⟩
      · exact hR.of_quiet hdrops (clock_of_advance hadvance) hquiet
      · refine hR.of_commit hinv hdrops ?_ hown hinserted hcommits
        -- a write of a kept order would be by a live transaction
        have hmem : w.writeOf t tx row ∈ (w.commit t tx order).history := by
          rw [World.commit, pendingWrite_of_own hown]
          exact List.mem_append_right _ List.mem_cons_self
        by_contra hkept
        have hlive : live t = true := hcovers.writes _ hmem (Bool.eq_true_of_not_eq_false hkept)
        exact Bool.noConfusion (hlive.symm.trans hdrops)

/-- **The projection of a run.** -/
theorem exists_restricts {schedule : List (Action V)} (h : runFromInit schedule = some w)
    (hcovers : w.Covers kept live) :
    ∃ v, runFromInit (schedule.filter (Action.keeps live)) = some v ∧
      w.Restricts kept live v := by
  -- two empty worlds are the same on any orders
  have hinit : (World.init : World V).Restricts kept live World.init :=
    ⟨rfl, rfl, fun _ _ => rfl, fun _ _ => rfl, fun _ _ _ _ => by simp [World.init],
      rfl, rfl⟩
  exact Transition.run_filter_simulation (fun _ _ _ hs hstep => hs.step hstep)
    (fun _ _ _ hs hstep => Covers.of_step hs hstep)
    (fun _ _ _ _ hs hc hR hk hstep => hR.step_kept hs (Covers.of_step hs hstep hc) hk hstep)
    (fun _ _ _ _ hs hc hR hk hstep => hR.step_dropped hs hc hk hstep) Inv.init h hcovers hinit

end Runs

end Restricts

/-- **Orders are independent.**  Leave out of a run every statement of the requests on other
orders.  What remains is a run, and it leaves the same row and the same events of the order, by the
same writes, and every request on the order has the same answer or has got as far. -/
theorem orders_independent [BEq V] {schedule : List (Action V)} {w : World V}
    (h : runFromInit schedule = some w) (id : UUID) :
    ∃ v, runFromInit (schedule.filter (Action.keeps (w.isOn id))) = some v ∧
      (v.orders id).committed = (w.orders id).committed ∧
      v.outbox = eventsOf w.outbox id ∧
      v.history.map Write.unnumbered = (writesOf w.history id).map Write.unnumbered ∧
      ∀ (t : TxId) (tx : Transaction V), w.txs[t]? = some tx → tx.request.orderId = id →
        ∃ snapshot, v.txs[t]? = some { tx with snapshot := snapshot } := by
  have hinv := inv_of_run h
  -- a write of the order is by the transaction that was answered with it, which is on the order
  have hcovers : w.Covers (fun id' => decide (id' = id)) (w.isOn id) := by
    refine ⟨fun write hwrite hid => ?_, fun t tx htx hlive => ?_⟩
    · obtain ⟨tx, response, htx, hrequest, -⟩ := hinv.answered write hwrite
      exact isOn_iff.mpr ⟨tx, htx, hrequest ▸ of_decide_eq_true hid⟩
    · obtain ⟨tx', htx', hid⟩ := isOn_iff.mp hlive
      obtain rfl := Option.some.inj (htx.symm.trans htx')
      exact decide_eq_true hid
  obtain ⟨v, hv, hR⟩ := exists_restricts h hcovers
  exact ⟨v, hv, hR.committed id (decide_eq_true rfl), hR.events, hR.writes,
    fun t tx htx hid => hR.exists_tx (isOn_iff.mpr ⟨tx, htx, hid⟩) htx⟩

end World

/-- Two orders are created at the same time. -/
def Sample.twoOrders : List (Action ℕ) :=
  [.begin 1 create, .begin 1 { create with orderId := 2 },
    .advance 0, .advance 1, .advance 1, .advance 0, .advance 0, .advance 1]

open World in
/-- The second order is created in the same way without the first. -/
theorem orders_independent_twoOrders :
    ∃ w, runFromInit Sample.twoOrders = some w ∧
      ∃ v, runFromInit (Sample.twoOrders.filter (Action.keeps (w.isOn 2))) = some v ∧
        v.outbox = eventsOf w.outbox 2 := by
  have hrun : (runFromInit Sample.twoOrders).isSome := by decide
  obtain ⟨w, hw⟩ := Option.isSome_iff_exists.mp hrun
  obtain ⟨v, hv, -, houtbox, -⟩ := orders_independent hw 2
  exact ⟨w, hw, v, hv, houtbox⟩

namespace World

/-- **What has not committed leaves no trace.**  Leave out of a run every statement of the requests
that have committed no write: those that have failed, were refused, are under way, read, or found
nothing to change.  What remains is a run, and it leaves the same rows and the same outbox, by the
same writes, and every request that has written has the same answer. -/
theorem uncommitted_leaves_no_trace [BEq V] {schedule : List (Action V)} {w : World V}
    (h : runFromInit schedule = some w) :
    ∃ v, runFromInit (schedule.filter (Action.keeps fun t =>
        decide (t ∈ w.history.map Write.xid))) = some v ∧
      (∀ id, (v.orders id).committed = (w.orders id).committed) ∧
      v.outbox = w.outbox ∧
      v.history.map Write.unnumbered = w.history.map Write.unnumbered ∧
      ∀ write ∈ w.history, ∀ tx : Transaction V, w.txs[write.xid]? = some tx →
        ∃ snapshot, v.txs[write.xid]? = some { tx with snapshot := snapshot } := by
  -- all orders are kept, and a write is by a transaction that has written
  have hcovers : w.Covers (fun _ => true) (fun t => decide (t ∈ w.history.map Write.xid)) :=
    ⟨fun write hwrite _ => decide_eq_true (List.mem_map_of_mem hwrite), fun _ _ _ _ => rfl⟩
  obtain ⟨v, hv, hR⟩ := exists_restricts h hcovers
  refine ⟨v, hv, fun id => hR.committed id rfl, ?_, ?_, fun write hwrite tx htx =>
    hR.exists_tx (decide_eq_true (List.mem_map_of_mem hwrite)) htx⟩
  · rw [hR.events, List.filter_true]
  · rw [hR.writes, List.filter_true]

end World

open World in
/-- The third update of the race fails. -/
theorem uncommitted_leaves_no_trace_race :
    ∃ w v, runFromInit Sample.race = some w ∧
      runFromInit (Sample.race.filter (Action.keeps fun t =>
        decide (t ∈ w.history.map Write.xid))) = some v ∧ v.outbox = w.outbox := by
  have hrun : (runFromInit Sample.race).isSome := by decide
  obtain ⟨w, hw⟩ := Option.isSome_iff_exists.mp hrun
  obtain ⟨v, hv, -, houtbox, -⟩ := uncommitted_leaves_no_trace hw
  exact ⟨w, v, hw, hv, houtbox⟩

end OutboxPattern
