import OutboxPattern.Orders.Ledger

/-!
# Every reachable world has a ledger

`World.Inv` relates a world to its ledger: the committed rows are the rows of the
ledger, the committed events are its events, and every open transaction is on its way
to the next entry.  The last part is where locks and read-your-own-writes are used.

* A transaction that has not flushed yet (`Phase.assigned`) holds no lock; the row may
  change under it, and its entry is not determined.
* From the first flush on, it holds the row's lock, so the present row stays what it
  was; `World.Wrote` says that the entry is already complete but for the event, and the
  object the session holds is stored as the tuple that it wrote.

`World.Inv.step` shows that one step keeps the invariant, and `World.step_effect` that
it either leaves the ledger alone or commits one entry to it.
-/

namespace OutboxPattern

variable {V : Type}

/-- Every committed row is a stored tuple. -/
theorem Ledger.stored [BEq V] {ws : List (Write V)} {es : List (OutboxEvent V)}
    (h : Ledger ws es) : ∀ write ∈ ws, write.new.Stored := by
  refine h.forall_write fun ws write event ih commits => ?_
  cases commits with
  | insert _ _ stored _ => exact Order.stored_of_store stored
  | overwrite _ _ _ _ current written _ =>
      exact Order.stored_of_updateRow (of_rowAt ih current) written

/-- So is the row that a ledger has of an order. -/
theorem Ledger.stored_rowAt [BEq V] {ws : List (Write V)} {es : List (OutboxEvent V)}
    (h : Ledger ws es) {id : UUID} {row : Order V} (hrow : rowAt ws id = some row) :
    row.Stored := of_rowAt h.stored hrow

namespace World

/-! ### Locks

A row has a committed version, and at most one transaction that has written over it.  `ownTuple` is
what a transaction has written of a row itself; `lock` writes it, `unlock` takes it back.  What the
following lemmas say of them is all that is used later: who has written what, and that neither of
the two touches a committed row. -/

section Locks

variable (w : World V) (t : TxId) (id : UUID) (row : Order V)

/-- A transaction has an uncommitted tuple of each row that it has locked, and of no other. -/
theorem ownTuple_eq_some_iff {w : World V} {t : TxId} {id : UUID} {row : Order V} :
    w.ownTuple t id = some row ↔ (w.orders id).writer = some (t, row) := by
  unfold ownTuple
  cases (w.orders id).writer with
  | none => simp
  | some entry =>
      by_cases h : entry.1 = t
      · simp [h, Prod.ext_iff]
      · simp [h, Prod.ext_iff]

/-- Whoever locks a row has written it. -/
theorem ownTuple_lock_self : (w.lock t id row).ownTuple t id = some row := by
  simp [ownTuple, lock]

/-- Locking a row that nobody holds takes nothing from the other transactions. -/
theorem ownTuple_lock_of_ne {w : World V} {t t' : TxId} {id : UUID} (row : Order V)
    (hne : t' ≠ t) (hfree : (w.orders id).writer = none) (id' : UUID) :
    (w.lock t id row).ownTuple t' id' = w.ownTuple t' id' := by
  by_cases hid : id' = id
  · subst hid
    simp [ownTuple, lock, hfree, hne.symm]
  · simp [ownTuple, lock, Function.update_of_ne hid]

/-- Whoever gives its lock up has nothing written there any more. -/
theorem ownTuple_unlock_self : (w.unlock t id).ownTuple t id = none := by
  unfold unlock
  split
  · simp [ownTuple]
  · next h => simpa using h

/-- Giving up a lock is the business of its holder alone: `unlock` does nothing to a lock that
another transaction holds. -/
theorem ownTuple_unlock_of_ne {w : World V} {t t' : TxId} {id : UUID} (hne : t' ≠ t)
    (id' : UUID) : (w.unlock t id).ownTuple t' id' = w.ownTuple t' id' := by
  unfold unlock
  split
  · next h =>
    obtain ⟨row, hrow⟩ := Option.isSome_iff_exists.mp h
    have hwriter := ownTuple_eq_some_iff.mp hrow
    by_cases hid : id' = id
    · subst hid
      simp [ownTuple, hwriter, hne.symm]
    · simp [ownTuple, Function.update_of_ne hid]
  · rfl

/-- Nobody else sees what is locked: the committed row stays. -/
theorem committed_lock (id' : UUID) :
    ((w.lock t id row).orders id').committed = (w.orders id').committed := by
  by_cases hid : id' = id
  · subst hid
    simp [lock]
  · simp [lock, Function.update_of_ne hid]

/-- A rollback leaves the committed row as it was. -/
theorem committed_unlock (id' : UUID) :
    ((w.unlock t id).orders id').committed = (w.orders id').committed := by
  unfold unlock
  split
  · by_cases hid : id' = id
    · subst hid
      simp
    · simp [Function.update_of_ne hid]
  · rfl

/-- The locks that are left after a rollback were there before. -/
theorem writer_unlock {w : World V} {t : TxId} {id id' : UUID} {entry : TxId × Order V}
    (h : ((w.unlock t id).orders id').writer = some entry) :
    (w.orders id').writer = some entry := by
  unfold unlock at h
  split at h
  · by_cases hid : id' = id
    · subst hid
      simp at h
    · simpa [Function.update_of_ne hid] using h
  · exact h

end Locks

/-! ### The invariant

An entry of the ledger is determined before its transaction commits: the row by the flush, the
event by the object that it is recorded from.  The invariant says so phase by phase (`TxInv`), so
that at the commit there is nothing left to find out. -/

/-- The ledger entry that committing the tuple `row` of a transaction would append. -/
def writeOf (w : World V) (t : TxId) (tx : Transaction V) (row : Order V) : Write V where
  xid := t
  request := tx.request
  began := tx.now
  snapshot := tx.snapshot
  old := (w.orders tx.request.orderId).committed
  new := row

/-- A transaction that has written its row has an entry to commit. -/
theorem pendingWrite_of_own {w : World V} {t : TxId} {tx : Transaction V} {row : Order V}
    (h : w.ownTuple t tx.request.orderId = some row) :
    w.pendingWrite t tx = some (w.writeOf t tx row) := by
  rw [pendingWrite, h]
  rfl

/-- Locking a row does not change the entry that committing the row would append. -/
theorem writeOf_flushed (w : World V) (t : TxId) (tx : Transaction V) (id : UUID)
    (locked row : Order V) (phase : Phase V) :
    ((w.lock t id locked).setPhase t tx phase).writeOf t { tx with phase := phase } row =
      w.writeOf t tx row := by
  show Write.mk t tx.request tx.now tx.snapshot
    ((w.lock t id locked).orders tx.request.orderId).committed row = _
  rw [committed_lock]
  rfl

/-- The transaction has written nothing. -/
def Idle (w : World V) (t : TxId) (tx : Transaction V) : Prop :=
  w.ownTuple t tx.request.orderId = none ∧ tx.inserted = []

/-- The transaction has written `row`, and recording an event from `object`, which is
stored as that row, completes an entry of the ledger. -/
structure Wrote [BEq V] (w : World V) (t : TxId) (tx : Transaction V) (row object : Order V)
    (changed : List OrderField) : Prop where
  /-- The lock is held, and this is the tuple under it. -/
  own : w.ownTuple t tx.request.orderId = some row
  stored : object.store = some row
  /-- Whatever event is recorded from the object, the two can be committed together. -/
  entry : ∃ event, recordEvents tx.request object changed tx.now = [event] ∧
    Commits w.history (w.writeOf t tx row) event

/-- The object an event is recorded from: `create_order` keeps the one it built, the other
two read theirs back first. -/
def recordedObject (operation : Operation V) (order row : Order V) : Order V :=
  match operation with
  | .create _ => order
  | _ => row

/-- What is known of a transaction at each point of its way. -/
def TxInv [BEq V] (w : World V) (t : TxId) (tx : Transaction V) : Prop :=
  match tx.phase with
  | .assigned loaded order changed =>
      w.Idle t tx ∧ tx.snapshot ≤ w.history.length ∧
        rowAt (w.history.take tx.snapshot) tx.request.orderId = some loaded ∧
        loaded.deletedAt = none ∧ Assigns tx.request.operation loaded order changed
  | .flushed order changed =>
      tx.inserted = [] ∧
        ∃ row, w.Wrote t tx row (recordedObject tx.request.operation order row) changed
  | .refreshed order changed => tx.inserted = [] ∧ w.Wrote t tx order order changed
  | .recorded order =>
      ∃ row event, w.ownTuple t tx.request.orderId = some row ∧ order.store = some row ∧
        tx.inserted = [event] ∧ Commits w.history (w.writeOf t tx row) event
  | _ => w.Idle t tx

/-- **The invariant of reachable worlds.** -/
structure Inv [BEq V] (w : World V) : Prop where
  /-- The committed writes and events form a ledger. -/
  ledger : Ledger w.history w.outbox
  /-- The committed rows are the rows of the ledger. -/
  table : ∀ id, (w.orders id).committed = rowAt w.history id
  /-- Every transaction is on its way to an entry. -/
  txs : ∀ t tx, w.txs[t]? = some tx → w.TxInv t tx
  /-- A row is locked by a transaction on that row. -/
  owner : ∀ id t row, (w.orders id).writer = some (t, row) →
    ∃ tx, w.txs[t]? = some tx ∧ tx.request.orderId = id
  /-- A committed write is by a transaction that was answered with the row it left. -/
  answered : ∀ write ∈ w.history, ∃ tx response, w.txs[write.xid]? = some tx ∧
    tx.request = write.request ∧ tx.now = write.began ∧
    tx.phase = .closed (.ok response) ∧ response.Describes write.new
  /-- No transaction commits twice. -/
  xids : (w.history.map Write.xid).Nodup

/-- The empty database has the empty ledger, and nothing is under way. -/
theorem Inv.init [BEq V] : Inv (World.init : World V) where
  ledger := .nil
  table _ := rfl
  txs t tx h := by simp [World.init] at h
  owner id t row h := by simp [World.init] at h
  answered write h := by simp [World.init] at h
  xids := by simp [World.init]

/-- **Frame rule for transactions.**  A transaction is not affected by what happens to
rows it has not written, and as long as it holds its lock nothing happens to the row it
has written. -/
theorem TxInv.frame [BEq V] {w w' : World V} {t : TxId} {tx : Transaction V}
    (h : w.TxInv t tx) (suffix : List (Write V))
    (hhistory : w'.history = w.history ++ suffix)
    (hown : w'.ownTuple t tx.request.orderId = w.ownTuple t tx.request.orderId)
    (hlocked : ∀ row, w.ownTuple t tx.request.orderId = some row →
      KeyedLog.Untouched Write.orderId tx.request.orderId suffix ∧
        (w'.orders tx.request.orderId).committed = (w.orders tx.request.orderId).committed) :
    w'.TxInv t tx := by
  have hidle : w.Idle t tx → w'.Idle t tx := fun hi => ⟨hown.trans hi.1, hi.2⟩
  -- an entry that is complete stays so: nothing has been committed on its row
  have hentry : ∀ {row event}, w.ownTuple t tx.request.orderId = some row →
      Commits w.history (w.writeOf t tx row) event →
      Commits w'.history (w'.writeOf t tx row) event := by
    intro row event hrow hcommits
    obtain ⟨huntouched, hcommitted⟩ := hlocked row hrow
    have hwrite : w'.writeOf t tx row = w.writeOf t tx row := by
      rw [writeOf, hcommitted]
      rfl
    rw [hhistory, hwrite]
    exact hcommits.append huntouched
  have hwrote : ∀ {row object changed}, w.Wrote t tx row object changed →
      w'.Wrote t tx row object changed := by
    intro row object changed hw
    obtain ⟨event, hrecord, hcommits⟩ := hw.entry
    exact ⟨hown.trans hw.own, hw.stored, event, hrecord, hentry hw.own hcommits⟩
  unfold TxInv at h ⊢
  split
  · next loaded order changed hphase =>
    rw [hphase] at h
    obtain ⟨hi, hsnapshot, hread, hactive, hassigns⟩ := h
    -- what was committed when the row was loaded is a prefix of any longer ledger
    refine ⟨hidle hi, ?_, ?_, hactive, hassigns⟩
    · rw [hhistory, List.length_append]
      omega
    · rw [hhistory, List.take_append_of_le_length hsnapshot, hread]
  · next order changed hphase =>
    rw [hphase] at h
    obtain ⟨hinserted, row, hw⟩ := h
    exact ⟨hinserted, row, hwrote hw⟩
  · next order changed hphase =>
    rw [hphase] at h
    exact ⟨h.1, hwrote h.2⟩
  · next order hphase =>
    rw [hphase] at h
    obtain ⟨row, event, hrow, hstored, hinserted, hcommits⟩ := h
    exact ⟨row, event, hown.trans hrow, hstored, hinserted, hentry hrow hcommits⟩
  · next h₁ h₂ h₃ h₄ =>
    -- in all other phases nothing has been written
    split at h
    · next hphase => exact absurd hphase (h₁ _ _ _)
    · next hphase => exact absurd hphase (h₂ _ _)
    · next hphase => exact absurd hphase (h₃ _ _)
    · next hphase => exact absurd hphase (h₄ _)
    · exact hidle h

end World

section Recording

variable {loaded order : Order V} {changed : List OrderField}

/-- An update or a delete records its event from the row that it has read back. -/
theorem Assigns.recordedObject {operation : Operation V}
    (h : Assigns operation loaded order changed) (row : Order V) :
    World.recordedObject operation order row = row := by
  cases h <;> rfl

/-- An update or a delete records exactly one event. -/
theorem Assigns.recordEvents {request : Request V}
    (h : Assigns request.operation loaded order changed) (row : Order V) (now : Timestamp) :
    ∃ event, World.recordEvents request row changed now = [event] := by
  unfold World.recordEvents
  generalize request.operation = operation at h ⊢
  cases h <;> exact ⟨_, rfl⟩

end Recording

namespace World

/-! ### Statements that commit nothing

All statements but the last commit of a writing transaction are of this kind.  They keep the
invariant for one reason, given once (`Inv.quiet`): the ledger and the committed rows stay, and what
the others have locked stays locked. -/

/-- A statement of the transaction `t` that changes nothing but the transaction itself and
its lock. -/
structure LocalStep (w w' : World V) (t : TxId) (tx tx' : Transaction V) : Prop where
  history : w'.history = w.history
  outbox : w'.outbox = w.outbox
  committed : ∀ id, (w'.orders id).committed = (w.orders id).committed
  txs : w'.txs = w.txs.set t tx'
  request : tx'.request = tx.request
  /-- What others have written stays theirs. -/
  others : ∀ t', t' ≠ t → ∀ id, w'.ownTuple t' id = w.ownTuple t' id
  /-- A lock is an old one, or the one that `t` has taken on its row. -/
  owner : ∀ id t' row, (w'.orders id).writer = some (t', row) →
    (w.orders id).writer = some (t', row) ∨ (t' = t ∧ id = tx.request.orderId)

section LocalStep

variable {w w' : World V} {t : TxId} {tx tx' : Transaction V}

/-- A statement that only moves its transaction on. -/
theorem localStep_setTx (hrequest : tx'.request = tx.request) :
    LocalStep w (w.setTx t tx') t tx tx' where
  history := rfl
  outbox := rfl
  committed _ := rfl
  txs := rfl
  request := hrequest
  others _ _ _ := rfl
  owner _ _ _ h := Or.inl h

/-- A flush that gets the lock: the row has a writer from now on, and nothing is committed. -/
theorem localStep_lock {row : Order V} (hfree : (w.orders tx.request.orderId).writer = none)
    (hrequest : tx'.request = tx.request) :
    LocalStep w ((w.lock t tx.request.orderId row).setTx t tx') t tx tx' where
  history := rfl
  outbox := rfl
  committed id := committed_lock w t tx.request.orderId row id
  txs := rfl
  request := hrequest
  others t' hne id := ownTuple_lock_of_ne row hne hfree id
  owner id t' row' h := by
    by_cases hid : id = tx.request.orderId
    · subst hid
      right
      have hentry : (t, row) = (t', row') := by simpa [lock, setTx] using h
      exact ⟨(congrArg Prod.fst hentry).symm, rfl⟩
    · left
      simpa [lock, setTx, Function.update_of_ne hid] using h

/-- A rollback: the lock is free again, the events are dropped, and an error is the answer. -/
theorem localStep_rollback {error : HttpError} (hrequest : tx'.request = tx.request) :
    LocalStep w (w.rollback t tx' error) t tx
      { tx' with inserted := [], phase := .closed (.error error) } where
  history := by unfold rollback unlock; split <;> rfl
  outbox := by unfold rollback unlock; split <;> rfl
  committed id := committed_unlock w t tx'.request.orderId id
  txs := by unfold rollback unlock; split <;> rfl
  request := hrequest
  others t' hne id := ownTuple_unlock_of_ne hne id
  owner id t' row h := Or.inl (writer_unlock h)

/-- A statement that commits nothing: it touches nothing but its own transaction, and
keeps that on its way. -/
def Quiet [BEq V] (w w' : World V) (t : TxId) (tx : Transaction V) : Prop :=
  ∃ tx', LocalStep w w' t tx tx' ∧ w'.TxInv t tx'

/-- A rollback leaves the transaction idle, whatever it had done before. -/
theorem quiet_rollback [BEq V] {error : HttpError} (hrequest : tx'.request = tx.request) :
    Quiet w (w.rollback t tx' error) t tx :=
  ⟨_, localStep_rollback hrequest, ownTuple_unlock_self w t tx'.request.orderId, rfl⟩

/-- A statement that commits nothing keeps the invariant. -/
theorem Inv.quiet [BEq V] (h : w.Inv) (htx : w.txs[t]? = some tx)
    (hopen : ∀ response, tx.phase ≠ .closed response) (hquiet : Quiet w w' t tx) :
    w'.Inv := by
  obtain ⟨tx', hlocal, hinv⟩ := hquiet
  -- the list of transactions differs in the entry of `t` only
  have hlt : t < w.txs.length := (List.getElem?_eq_some_iff.mp htx).1
  have hsame : ∀ t', t' ≠ t → w'.txs[t']? = w.txs[t']? := by
    intro t' hne
    rw [hlocal.txs, List.getElem?_set_ne hne.symm]
  have hself : w'.txs[t]? = some tx' := by
    rw [hlocal.txs, List.getElem?_set_self hlt]
  refine ⟨?_, fun id => ?_, fun t' u hu => ?_, fun id t' row hw => ?_, fun write hwrite => ?_, ?_⟩
  · -- the ledger has not grown
    rw [hlocal.history, hlocal.outbox]
    exact h.ledger
  · rw [hlocal.committed, hlocal.history]
    exact h.table id
  · by_cases hne : t' = t
    · subst hne
      obtain rfl : tx' = u := Option.some.inj (hself.symm.trans hu)
      exact hinv
    · -- the others are framed by an empty suffix
      rw [hsame t' hne] at hu
      refine (h.txs t' u hu).frame [] ?_ (hlocal.others t' hne _) fun row _ => ?_
      · rw [hlocal.history, List.append_nil]
      · exact ⟨fun e he => absurd he (by simp), hlocal.committed _⟩
  · rcases hlocal.owner id t' row hw with hold | ⟨rfl, rfl⟩
    · obtain ⟨u, hu, hid⟩ := h.owner id t' row hold
      by_cases hne : t' = t
      · subst hne
        obtain rfl : tx = u := Option.some.inj (htx.symm.trans hu)
        exact ⟨tx', hself, hlocal.request ▸ hid⟩
      · exact ⟨u, (hsame t' hne).trans hu, hid⟩
    · exact ⟨tx', hself, congrArg Request.orderId hlocal.request⟩
  · rw [hlocal.history] at hwrite
    obtain ⟨u, response, hu, hrequest, hnow, hphase, hdescribes⟩ := h.answered write hwrite
    -- who has committed has been answered, so it is not the one that takes this step
    have hne : write.xid ≠ t := by
      rintro rfl
      obtain rfl : tx = u := Option.some.inj (htx.symm.trans hu)
      exact hopen _ hphase
    exact ⟨u, response, (hsame _ hne).trans hu, hrequest, hnow, hphase, hdescribes⟩
  · rw [hlocal.history]
    exact h.xids

end LocalStep

/-! ### One lemma for each statement

Each of these unfolds its statement and says that it is quiet.  They are used in `advance_cases`,
and nothing else looks into a statement for the sake of the invariant. -/

section Statements

variable [BEq V] {w w' : World V} {t : TxId} {tx : Transaction V}

/-- Loading the order commits nothing.  If it is found, the changes to it are assigned to the loaded
object at once, and the snapshot says how much of the ledger the transaction has seen. -/
theorem quiet_selectActive (h : w.Inv) (htx : w.txs[t]? = some tx)
    (hphase : tx.phase = .begun) : Quiet w (w.selectActive t tx) t tx := by
  have hidle : w.Idle t tx := by simpa [TxInv, hphase] using h.txs t tx htx
  unfold World.selectActive
  split
  · exact ⟨_, localStep_setTx rfl, hidle⟩
  · next loaded hselect =>
    obtain ⟨hcommitted, hactive⟩ := Option.filter_eq_some_iff.mp hselect
    rw [h.table] at hcommitted
    have hread : rowAt (w.history.take w.history.length) tx.request.orderId = some loaded := by
      rwa [List.take_length]
    have hnone : loaded.deletedAt = none := Option.isNone_iff_eq_none.mp hactive
    dsimp only
    split
    · next req hoperation =>
      split
      · -- 409: another version was asked for
        exact quiet_rollback rfl
      · next order changed hupdate =>
        split
        · -- nothing to change: the order is answered as it was loaded
          exact ⟨_, localStep_setTx rfl, hidle⟩
        · next hchanges =>
          refine ⟨_, localStep_setTx rfl, hidle, le_rfl, hread, hnone, ?_⟩
          show Assigns tx.request.operation loaded order changed
          rw [hoperation]
          exact .update hupdate hchanges
    · next at_ hoperation =>
      refine ⟨_, localStep_setTx rfl, hidle, le_rfl, hread, hnone, ?_⟩
      show Assigns tx.request.operation loaded (deleteOrder at_ loaded) []
      rw [hoperation]
      exact .delete
    · exact ⟨_, localStep_setTx rfl, hidle⟩

/-- Looking for a deleted row only chooses between two errors. -/
theorem quiet_selectDeleted : Quiet w (w.selectDeleted t tx) t tx := by
  unfold World.selectDeleted
  split
  · exact quiet_rollback rfl
  · exact quiet_rollback rfl

/-- The `INSERT` of a create takes the lock of a row that is not there, so the tuple it writes
completes an insertion; where it cannot be stored, the request has failed. -/
theorem quiet_flushInsert (h : w.Inv) (htx : w.txs[t]? = some tx) (hphase : tx.phase = .begun)
    {req : CreateOrderRequest V} (hoperation : tx.request.operation = .create req)
    (hstep : w.flushInsert t tx (createOrder tx.request.orderId req tx.now) = some w') :
    Quiet w w' t tx := by
  have hidle : w.Idle t tx := by simpa [TxInv, hphase] using h.txs t tx htx
  unfold World.flushInsert at hstep
  split at hstep
  · cases hstep
  · next hfree =>
    split at hstep
    · next row habsent hstored =>
      cases hstep
      refine ⟨_, localStep_lock hfree rfl, hidle.2, row, ?_⟩
      have hown := ownTuple_lock_self w t tx.request.orderId row
      refine ⟨hown, ?_, ?_⟩
      · show (recordedObject tx.request.operation _ row).store = some row
        rw [hoperation]
        exact hstored
      · refine ⟨recordOrderCreated (createOrder tx.request.orderId req tx.now)
          tx.request.trace tx.now, ?_, ?_⟩
        · show recordEvents tx.request (recordedObject tx.request.operation _ row) [] tx.now = _
          rw [recordEvents, hoperation]
          rfl
        · rw [writeOf_flushed, writeOf, habsent]
          rw [h.table] at habsent
          exact .insert hoperation habsent hstored rfl
    · cases hstep
      exact quiet_rollback rfl

/-- The `UPDATE` writes over the present row, which need not be the one that was loaded.  It waits
for the lock; having it, the row can no longer change before the commit, and so the entry is
complete. -/
theorem quiet_flushUpdate (h : w.Inv) (htx : w.txs[t]? = some tx) {loaded order : Order V}
    {changed : List OrderField} (hphase : tx.phase = .assigned loaded order changed)
    (hstep : w.flushUpdate t tx loaded order changed = some w') : Quiet w w' t tx := by
  have htxs := h.txs t tx htx
  rw [TxInv, hphase] at htxs
  obtain ⟨hidle, hsnapshot, hread, hactive, hassigns⟩ := htxs
  unfold World.flushUpdate at hstep
  split at hstep
  · cases hstep
  · next hfree =>
    split at hstep
    · next row hrow =>
      cases hstep
      obtain ⟨base, hbase, hwritten⟩ := Option.bind_eq_some_iff.mp hrow
      have hcurrent := hbase
      rw [h.table] at hcurrent
      have hstored : row.Stored :=
        Order.stored_of_updateRow (h.ledger.stored_rowAt hcurrent) hwritten
      obtain ⟨event, hevent⟩ := hassigns.recordEvents row tx.now
      -- the event will be recorded from the row as it was written, not from the assigned object
      refine ⟨_, localStep_lock hfree rfl, hidle.2, row, ?_⟩
      show Wrote _ t _ row (recordedObject tx.request.operation order row) changed
      rw [hassigns.recordedObject]
      refine ⟨ownTuple_lock_self w t tx.request.orderId row, hstored, event, hevent, ?_⟩
      rw [writeOf_flushed, writeOf, hbase]
      exact .overwrite hsnapshot hread hactive hassigns hcurrent hwritten hevent
    · cases hstep
      exact quiet_rollback rfl

/-- Refreshing reads the transaction's own tuple back. -/
theorem quiet_refresh (h : w.Inv) (htx : w.txs[t]? = some tx) {order : Order V}
    {changed : List OrderField} (hphase : tx.phase = .flushed order changed)
    (hoperation : ∀ req, tx.request.operation ≠ .create req) :
    Quiet w (w.refresh t tx changed) t tx := by
  have htxs := h.txs t tx htx
  rw [TxInv, hphase] at htxs
  obtain ⟨hinserted, row, hwrote⟩ := htxs
  have hobject : recordedObject tx.request.operation order row = row := by
    unfold recordedObject
    split
    · next req hcreate => exact absurd hcreate (hoperation req)
    · rfl
  rw [hobject] at hwrote
  have hvisible : w.visible t tx.request.orderId = some row := by
    rw [visible, hwrote.own, Option.some_or]
  unfold World.refresh
  rw [hvisible]
  exact ⟨_, localStep_setTx rfl, hinserted, hwrote.own, hwrote.stored, hwrote.entry⟩

/-- Recording the event completes what the transaction is to commit. -/
theorem quiet_record (hinserted : tx.inserted = []) {row object : Order V}
    {changed : List OrderField} (hwrote : w.Wrote t tx row object changed) :
    Quiet w (w.record t tx object changed) t tx := by
  obtain ⟨event, hevent, hcommits⟩ := hwrote.entry
  refine ⟨_, localStep_setTx rfl, row, event, hwrote.own, hwrote.stored, ?_, hcommits⟩
  show tx.inserted ++ recordEvents tx.request object changed tx.now = [event]
  rw [hinserted, hevent, List.nil_append]

omit [BEq V] in
/-- The commit of a transaction that has written nothing only closes it. -/
theorem commit_of_idle (hidle : w.Idle t tx) (order : Order V) :
    w.commit t tx order =
      w.setTx t { tx with inserted := [], phase := .closed (.ok (toResponse order)) } := by
  have hpending : w.pendingWrite t tx = none := by rw [pendingWrite, hidle.1]; rfl
  simp [World.commit, setTx, hpending, hidle.2]

/-- Committing a transaction that has recorded its event appends its entry to the ledger. -/
theorem Inv.commit (h : w.Inv) (htx : w.txs[t]? = some tx)
    (hopen : ∀ response, tx.phase ≠ .closed response) {order row : Order V}
    {event : OutboxEvent V} (hown : w.ownTuple t tx.request.orderId = some row)
    (hstored : order.store = some row) (hinserted : tx.inserted = [event])
    (hcommits : Commits w.history (w.writeOf t tx row) event) : (w.commit t tx order).Inv := by
  have hlt : t < w.txs.length := (List.getElem?_eq_some_iff.mp htx).1
  have hpending := pendingWrite_of_own hown
  have hhistory : (w.commit t tx order).history = w.history ++ [w.writeOf t tx row] := by
    rw [World.commit, hpending]
    rfl
  have horders : (w.commit t tx order).orders =
      Function.update w.orders tx.request.orderId ⟨some row, none⟩ := by
    rw [World.commit, hpending]
    rfl
  have hwriter := ownTuple_eq_some_iff.mp hown
  -- the transaction is closed, and the others stay as they are
  have hsame : ∀ t', t' ≠ t → (w.commit t tx order).txs[t']? = w.txs[t']? := fun t' hne =>
    List.getElem?_set_ne hne.symm
  have hself : (w.commit t tx order).txs[t]? =
      some { tx with inserted := [], phase := .closed (.ok (toResponse order)) } :=
    List.getElem?_set_self hlt
  -- a transaction that is open has committed nothing before
  have hfresh : ∀ write ∈ w.history, write.xid ≠ t := by
    rintro write hwrite rfl
    obtain ⟨u, response, hu, -, -, hphase, -⟩ := h.answered write hwrite
    obtain rfl : tx = u := Option.some.inj (htx.symm.trans hu)
    exact hopen _ hphase
  refine ⟨?_, fun id => ?_, fun t' u hu => ?_, fun id t' row' hw => ?_, fun write hwrite => ?_, ?_⟩
  · have houtbox : (w.commit t tx order).outbox = w.outbox ++ [event] := by
      rw [World.commit, hinserted]
    rw [hhistory, houtbox]
    exact .concat h.ledger hcommits
  · rw [hhistory, horders]
    by_cases hid : id = tx.request.orderId
    · -- the committed row is the one that the new entry left
      subst hid
      rw [Function.update_self]
      exact (rowAt_concat_self w.history (w.writeOf t tx row)).symm
    · rw [Function.update_of_ne hid, h.table,
        rowAt_concat_of_ne (show (w.writeOf t tx row).orderId ≠ id from Ne.symm hid)]
  · by_cases hne : t' = t
    · subst hne
      obtain rfl := Option.some.inj (hself.symm.trans hu)
      refine ⟨?_, rfl⟩
      show (w.commit t' tx order).ownTuple t' tx.request.orderId = none
      rw [ownTuple, horders, Function.update_self]
    · rw [hsame t' hne] at hu
      -- the lock is on this row, so no other transaction has written it
      refine (h.txs t' u hu).frame _ hhistory ?_ fun row' hrow' => ?_
      · unfold ownTuple
        rw [horders]
        by_cases hid : u.request.orderId = tx.request.orderId
        · rw [hid, Function.update_self, hwriter]
          simp [Ne.symm hne]
        · rw [Function.update_of_ne hid]
      · have hid : u.request.orderId ≠ tx.request.orderId := by
          intro hid
          have hwriter' := ownTuple_eq_some_iff.mp hrow'
          rw [hid, hwriter, Option.some.injEq, Prod.mk.injEq] at hwriter'
          exact hne hwriter'.1.symm
        refine ⟨fun e he => ?_, ?_⟩
        · obtain rfl : e = w.writeOf t tx row := by simpa using he
          exact Ne.symm hid
        · rw [horders, Function.update_of_ne hid]
  · rw [horders] at hw
    by_cases hid : id = tx.request.orderId
    · -- the lock on the row has been given up
      subst hid
      rw [Function.update_self] at hw
      cases hw
    · rw [Function.update_of_ne hid] at hw
      obtain ⟨u, hu, huid⟩ := h.owner id t' row' hw
      have hne : t' ≠ t := by
        rintro rfl
        obtain rfl : tx = u := Option.some.inj (htx.symm.trans hu)
        exact hid huid.symm
      exact ⟨u, (hsame t' hne).trans hu, huid⟩
  · rw [hhistory, List.mem_append, List.mem_singleton] at hwrite
    rcases hwrite with hwrite | rfl
    · obtain ⟨u, response, hu, hrequest, hnow, hphase, hdescribes⟩ := h.answered write hwrite
      exact ⟨u, response, (hsame _ (hfresh write hwrite)).trans hu, hrequest, hnow, hphase,
        hdescribes⟩
    · -- the new write is answered with the object that was stored as its row
      exact ⟨_, toResponse order, hself, rfl, rfl, rfl, describes_toResponse hstored⟩
  · -- no transaction commits twice
    rw [hhistory, List.map_append]
    refine List.nodup_append.mpr ⟨h.xids, by simp, fun x hx y hy => ?_⟩
    obtain ⟨write, hwrite, rfl⟩ := List.mem_map.mp hx
    obtain rfl : y = t := by simpa [writeOf] using hy
    exact hfresh write hwrite

/-- A new transaction has done nothing, and nobody notices it. -/
theorem Inv.begin (h : w.Inv) (elapsed : ℕ) (request : Request V) :
    ({ w with
        clock := w.clock + elapsed
        txs := w.txs ++ [⟨request, w.clock + elapsed, 0, [], .begun⟩] } : World V).Inv := by
  have hold : ∀ {t : TxId} {u : Transaction V}, w.txs[t]? = some u →
      (w.txs ++ [⟨request, w.clock + elapsed, 0, [], .begun⟩])[t]? = some u := by
    intro t u hu
    rw [List.getElem?_append_left (List.getElem?_eq_some_iff.mp hu).1, hu]
  refine ⟨h.ledger, h.table, fun t u hu => ?_, fun id t row hw => ?_, fun write hwrite => ?_,
    h.xids⟩
  · -- the transaction is an old one, or the new one, or not there
    rcases Nat.lt_trichotomy t w.txs.length with hlt | heq | hgt
    · have hu' : w.txs[t]? = some u := by
        rwa [List.getElem?_append_left hlt] at hu
      refine (h.txs t u hu').frame [] (List.append_nil _).symm rfl fun row _ => ?_
      exact ⟨fun e he => absurd he (by simp), rfl⟩
    · subst heq
      obtain rfl : _ = u := by
        simpa using hu
      refine ⟨?_, rfl⟩
      -- a row locked by the new transaction would have an owner among the old ones
      cases hown : w.ownTuple w.txs.length request.orderId with
      | none => exact hown
      | some row =>
          obtain ⟨u, hu, -⟩ := h.owner _ _ _ (ownTuple_eq_some_iff.mp hown)
          simp at hu
    · rw [List.getElem?_append_right hgt.le] at hu
      obtain ⟨k, hk⟩ := Nat.exists_eq_succ_of_ne_zero (Nat.sub_ne_zero_of_lt hgt)
      simp [hk] at hu
  · obtain ⟨u, hu, hid⟩ := h.owner id t row hw
    exact ⟨u, hold hu, hid⟩
  · obtain ⟨u, response, hu, hrest⟩ := h.answered write hwrite
    exact ⟨u, response, hold hu, hrest⟩

/-! ### One step, and every run

A step either is quiet or commits one entry.  What holds of every run follows from this alone, by
the rules of `Transition`: that there is a ledger (`inv_of_run`), and when a property of the
committed states is kept (`history_iff_atCommit`). -/

/-- **What the next statement of a transaction can do**: it commits nothing, or it is the
commit of a transaction that has recorded its event. -/
theorem advance_cases (h : w.Inv) (htx : w.txs[t]? = some tx)
    (hstep : w.advance t tx = some w') :
    (Quiet w w' t tx ∧ ∀ order, tx.phase ≠ .recorded order) ∨
      ∃ order row event, tx.phase = .recorded order ∧
        w.ownTuple t tx.request.orderId = some row ∧ order.store = some row ∧
        tx.inserted = [event] ∧ Commits w.history (w.writeOf t tx row) event ∧
        w' = w.commit t tx order := by
  have htxs := h.txs t tx htx
  unfold World.advance at hstep
  split at hstep
  · next hphase =>
    refine Or.inl ⟨?_, by simp [hphase]⟩
    split at hstep
    · next req hoperation => exact quiet_flushInsert h htx hphase hoperation hstep
    · cases hstep
      exact quiet_selectActive h htx hphase
  · next hphase =>
    cases hstep
    exact Or.inl ⟨quiet_selectDeleted, by simp [hphase]⟩
  · next loaded order changed hphase =>
    exact Or.inl ⟨quiet_flushUpdate h htx hphase hstep, by simp [hphase]⟩
  · next order changed hphase =>
    refine Or.inl ⟨?_, by simp [hphase]⟩
    split at hstep
    · next req hoperation =>
      cases hstep
      rw [TxInv, hphase] at htxs
      obtain ⟨hinserted, row, hwrote⟩ := htxs
      rw [hoperation] at hwrote
      exact quiet_record hinserted hwrote
    · next hoperation =>
      cases hstep
      exact quiet_refresh h htx hphase hoperation
  · next order changed hphase =>
    cases hstep
    rw [TxInv, hphase] at htxs
    exact Or.inl ⟨quiet_record htxs.1 htxs.2, by simp [hphase]⟩
  · next order hphase =>
    cases hstep
    rw [TxInv, hphase] at htxs
    obtain ⟨row, event, hown, hstored, hinserted, hcommits⟩ := htxs
    exact Or.inr ⟨order, row, event, hphase, hown, hstored, hinserted, hcommits, rfl⟩
  · next order hphase =>
    cases hstep
    rw [TxInv, hphase] at htxs
    rw [commit_of_idle htxs]
    exact Or.inl ⟨⟨_, localStep_setTx rfl, htxs.1, rfl⟩, by simp [hphase]⟩
  · cases hstep

/-- Only an open transaction has a next statement. -/
theorem open_of_advance (hstep : w.advance t tx = some w') :
    ∀ response, tx.phase ≠ .closed response := by
  intro response hphase
  simp [World.advance, hphase] at hstep

/-- **One step keeps the invariant.** -/
theorem Inv.step (h : w.Inv) {action : Action V} (hstep : w.step action = some w') :
    w'.Inv := by
  cases action with
  | begin elapsed request =>
      cases hstep
      exact h.begin elapsed request
  | advance t =>
      obtain ⟨tx, htx, hadvance⟩ := Option.bind_eq_some_iff.mp hstep
      have hopen := open_of_advance hadvance
      rcases advance_cases h htx hadvance with
        ⟨hquiet, -⟩ | ⟨order, row, event, -, hown, hstored, hinserted, hcommits, rfl⟩
      · exact h.quiet htx hopen hquiet
      · exact h.commit htx hopen hown hstored hinserted hcommits
  | raise t =>
      obtain ⟨tx, htx, hraise⟩ := Option.bind_eq_some_iff.mp hstep
      split at hraise
      · cases hraise
      · next hopen =>
        cases hraise
        exact h.quiet htx hopen (quiet_rollback rfl)

end Statements

/-- The write that a step commits, if it is the commit of a transaction that has
written one. -/
def committing (w : World V) : Action V → Option (Write V)
  | .advance t => w.txs[t]?.bind fun tx =>
      match tx.phase with
      | .recorded _ => w.pendingWrite t tx
      | _ => none
  | _ => none

/-- **A step leaves the ledger alone, or commits one entry to it.** -/
theorem step_effect [BEq V] {w w' : World V} (h : w.Inv) {action : Action V}
    (hstep : w.step action = some w') :
    (w.committing action = none ∧ w'.history = w.history ∧ w'.outbox = w.outbox) ∨
      ∃ write event, w.committing action = some write ∧ Commits w.history write event ∧
        w'.history = w.history ++ [write] ∧ w'.outbox = w.outbox ++ [event] := by
  cases action with
  | begin elapsed request =>
      cases hstep
      exact Or.inl ⟨rfl, rfl, rfl⟩
  | raise t =>
      obtain ⟨tx, htx, hraise⟩ := Option.bind_eq_some_iff.mp hstep
      split at hraise
      · cases hraise
      · cases hraise
        have hquiet : Quiet w (w.rollback t tx internalServerError) t tx := quiet_rollback rfl
        obtain ⟨tx', hlocal, -⟩ := hquiet
        exact Or.inl ⟨rfl, hlocal.history, hlocal.outbox⟩
  | advance t =>
      obtain ⟨tx, htx, hadvance⟩ := Option.bind_eq_some_iff.mp hstep
      rcases advance_cases h htx hadvance with
        ⟨⟨tx', hlocal, -⟩, hphase⟩ | ⟨order, row, event, hphase, hown, -, hinserted, hcommits, rfl⟩
      · refine Or.inl ⟨?_, hlocal.history, hlocal.outbox⟩
        show w.txs[t]?.bind _ = none
        rw [htx, Option.bind_some]
        split
        · next order heq => exact absurd heq (hphase order)
        · rfl
      · have hpending := pendingWrite_of_own hown
        refine Or.inr ⟨w.writeOf t tx row, event, ?_, hcommits, ?_, ?_⟩
        · show w.txs[t]?.bind _ = _
          simp only [htx, Option.bind_some, hphase, hpending]
        · rw [commit, hpending]
          rfl
        · rw [commit, hinserted]

/-- What a step commits comes after all that was committed before. -/
theorem Inv.outbox_append [BEq V] {w w' : World V} (h : w.Inv) {action : Action V}
    (hstep : w.step action = some w') : ∃ events, w'.outbox = w.outbox ++ events := by
  rcases step_effect h hstep with ⟨-, -, houtbox⟩ | ⟨-, event, -, -, -, houtbox⟩
  · exact ⟨[], houtbox.trans (List.append_nil _).symm⟩
  · exact ⟨[event], houtbox⟩

/-- A schedule, started on an empty database. -/
abbrev runFromInit [BEq V] (schedule : List (Action V)) : Option (World V) :=
  Transition.run step init schedule

/-- A run keeps the invariant, wherever it starts. -/
theorem Inv.run [BEq V] {w w' : World V} (h : w.Inv) {schedule : List (Action V)}
    (hrun : Transition.run World.step w schedule = some w') : w'.Inv :=
  Transition.run_invariant (fun _ _ _ hs hstep => hs.step hstep) h hrun

/-- **Every reachable world has a ledger.** -/
theorem inv_of_run [BEq V] {schedule : List (Action V)} {w : World V}
    (h : runFromInit schedule = some w) : w.Inv := Inv.init.run h

/-- What is committed stays committed. -/
theorem Inv.committed_append [BEq V] {w w' : World V} (h : w.Inv) {actions : List (Action V)}
    (hrun : Transition.run World.step w actions = some w') :
    ∃ ws es, w'.history = w.history ++ ws ∧ w'.outbox = w.outbox ++ es := by
  have hkeeps : ∀ (u : World V) (action : Action V) (u' : World V),
      (u.Inv ∧ ∃ ws es, u.history = w.history ++ ws ∧ u.outbox = w.outbox ++ es) →
      u.step action = some u' →
      u'.Inv ∧ ∃ ws es, u'.history = w.history ++ ws ∧ u'.outbox = w.outbox ++ es := by
    rintro u action u' ⟨hu, ws, es, hhistory, houtbox⟩ hstep
    refine ⟨hu.step hstep, ?_⟩
    rcases step_effect hu hstep with
      ⟨-, hhistory', houtbox'⟩ | ⟨write, event, -, -, hhistory', houtbox'⟩
    · exact ⟨ws, es, hhistory'.trans hhistory, houtbox'.trans houtbox⟩
    · refine ⟨ws ++ [write], es ++ [event], ?_, ?_⟩
      · rw [hhistory', hhistory, List.append_assoc]
      · rw [houtbox', houtbox, List.append_assoc]
  exact (Transition.run_invariant hkeeps ⟨h, [], [], by simp⟩ hrun).2

/-- The condition `P` on an entry, and the writes before it, holds of whatever entry the
step commits. -/
def AtCommit (P : List (Write V) → Write V → Prop) (w : World V) (action : Action V) : Prop :=
  ∀ write, w.committing action = some write → P w.history write

/-- One step, when an entry keeps the property `Q` of the ledger exactly if it meets `P`. -/
theorem history_step_iff [BEq V] {Q : List (Write V) → Prop}
    {P : List (Write V) → Write V → Prop} {w w' : World V} {action : Action V}
    (heffect : (w.committing action = none ∧ w'.history = w.history ∧ w'.outbox = w.outbox) ∨
      ∃ write event, w.committing action = some write ∧ Commits w.history write event ∧
        w'.history = w.history ++ [write] ∧ w'.outbox = w.outbox ++ [event])
    (hconcat : ∀ write event, w.committing action = some write → Commits w.history write event →
      (Q (w.history ++ [write]) ↔ Q w.history ∧ P w.history write)) :
    Q w'.history ↔ Q w.history ∧ AtCommit P w action := by
  rcases heffect with ⟨hnone, hhistory, -⟩ | ⟨write, event, hsome, hcommits, hhistory, -⟩
  · rw [hhistory]
    refine (and_iff_left ?_).symm
    intro write hwrite
    rw [hnone] at hwrite
    cases hwrite
  · rw [hhistory, hconcat write event hsome hcommits]
    refine and_congr_right fun _ => ⟨fun hP write' hwrite' => ?_, fun hP => hP write hsome⟩
    obtain rfl : write = write' := Option.some.inj (hsome.symm.trans hwrite')
    exact hP

/-- **The rule for guarantees about committed states.**  If an entry keeps the property `Q`
of the ledger exactly when it meets `P`, then `Q` holds at the end of a run exactly when
every entry that the run commits meets `P`. -/
theorem history_iff_atCommit [BEq V] {Q : List (Write V) → Prop}
    {P : List (Write V) → Write V → Prop} (hnil : Q [])
    (hconcat : ∀ ws es write event, Ledger ws es → Commits ws write event →
      (Q (ws ++ [write]) ↔ Q ws ∧ P ws write))
    {schedule : List (Action V)} {w : World V} (h : runFromInit schedule = some w) :
    Q w.history ↔ Transition.AllSteps step (AtCommit P) init schedule := by
  refine Transition.run_iff_allSteps (Q := fun w => Q w.history) Inv.init hnil
    (fun _ _ _ hs hstep => hs.step hstep) ?_ h
  intro s action s' hs hstep
  refine history_step_iff (step_effect hs hstep) fun write event _ hcommits => ?_
  exact hconcat _ _ _ _ hs.ledger hcommits

end World

end OutboxPattern
