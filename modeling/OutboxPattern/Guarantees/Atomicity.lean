import OutboxPattern.Orders.Refinement

/-!
# Atomicity: a change and its event are committed together

The outbox pattern replaces a dual write by one transaction that writes both tables.
`OutboxAtomic` is what that buys: the committed changes of `orders` and the committed
rows of `outbox_events` are the same list, entry by entry.

Two things make it more than a fact about one request.  A request can fail at every
statement, with either table already written.  And a request that has waited for a row
lock writes its columns over those of somebody else, so the object it had loaded is not
the row it leaves; what its event says is right because the session reads the row back
while it holds the lock.
-/

namespace OutboxPattern

variable {V : Type}

/-- The type of the event that an operation records. -/
def Operation.eventType : Operation V → Option OutboxEventType
  | .create _ => some .orderCreated
  | .update _ => some .orderUpdated
  | .delete _ => some .orderDeleted
  | .get => none

/-- **The event of a committed write**: about the same order, of the type of the operation
that wrote it, and with the row that the write left as its payload. -/
structure Corresponds (write : Write V) (event : OutboxEvent V) : Prop where
  aggregateType : event.aggregateType = aggregateTypeOrders
  aggregateId : event.aggregateId = write.orderId
  rowId : write.new.id = write.orderId
  eventType : write.request.operation.eventType = some event.eventType
  created : write.old = none ↔ event.eventType = .orderCreated
  payload : Describes event.payload write.new
  isDeleted : event.payload.isDeleted = true ↔ event.eventType = .orderDeleted
  trace : event.trace = write.request.trace
  createdAt : event.createdAt = write.began
  updatedAt : write.new.updatedAt = write.began

/-- The committed events of one order, in commit order. -/
abbrev eventsOf (es : List (OutboxEvent V)) (id : UUID) : List (OutboxEvent V) :=
  KeyedLog.entries OutboxEvent.aggregateId id es

theorem eventsOf_concat_self (es : List (OutboxEvent V)) (event : OutboxEvent V) :
    eventsOf (es ++ [event]) event.aggregateId = eventsOf es event.aggregateId ++ [event] :=
  KeyedLog.entries_concat_self OutboxEvent.aggregateId es event

theorem eventsOf_concat_of_ne {id : UUID} {event : OutboxEvent V} (hne : event.aggregateId ≠ id)
    (es : List (OutboxEvent V)) : eventsOf (es ++ [event]) id = eventsOf es id :=
  KeyedLog.entries_concat_of_ne OutboxEvent.aggregateId hne es

/-! ### Along the ledger -/

section Ledger

variable [BEq V] {ws : List (Write V)} {es : List (OutboxEvent V)}

/-- A row stands under its own primary key. -/
theorem Ledger.row_id (h : Ledger ws es) : ∀ write ∈ ws, write.new.id = write.orderId := by
  refine h.forall_write fun ws write event ih commits => ?_
  cases commits with
  | insert _ _ stored _ =>
      obtain ⟨-, currency, -, rfl⟩ := Order.store_eq_some_iff.mp stored
      rfl
  | overwrite _ _ _ _ current written _ =>
      obtain ⟨b, hmem, hid, rfl⟩ := exists_write_of_rowAt current
      exact (updateRow_keeps written).1.trans ((ih b hmem).trans hid)

theorem Ledger.row_id_of_rowAt (h : Ledger ws es) {id : UUID} {row : Order V}
    (hrow : rowAt ws id = some row) : row.id = id := by
  obtain ⟨write, hmem, hid, rfl⟩ := exists_write_of_rowAt hrow
  exact (h.row_id write hmem).trans hid

omit [BEq V] in
/-- What an overwrite records, from the row that it left. -/
theorem Assigns.corresponds {operation : Operation V} {loaded order row : Order V}
    {changed : List OrderField} {id : UUID} {trace : TraceContext} {now : Timestamp}
    {event : OutboxEvent V} (h : Assigns operation loaded order changed)
    (hstored : row.Stored) (hrowId : row.id = id) (hupdatedAt : row.updatedAt = now)
    (hrecorded : World.recordEvents ⟨id, operation, trace⟩ row changed now = [event])
    (t : TxId) (snapshot : ℕ) (base : Order V) :
    Corresponds ⟨t, ⟨id, operation, trace⟩, now, snapshot, some base, row⟩ event := by
  have hpayload := fun deleted changedFields =>
    describes_buildOrderPayload hstored deleted changedFields
  cases h with
  | update updated changes =>
      obtain rfl := List.singleton_inj.mp hrecorded
      exact
        { aggregateType := rfl
          aggregateId := hrowId
          rowId := hrowId
          eventType := rfl
          created := iff_of_false nofun nofun
          payload := hpayload false (some changed)
          isDeleted := iff_of_false nofun nofun
          trace := rfl
          createdAt := rfl
          updatedAt := hupdatedAt }
  | delete =>
      obtain rfl := List.singleton_inj.mp hrecorded
      exact
        { aggregateType := rfl
          aggregateId := hrowId
          rowId := hrowId
          eventType := rfl
          created := iff_of_false nofun nofun
          payload := hpayload true none
          isDeleted := ⟨fun _ => rfl, fun _ => rfl⟩
          trace := rfl
          createdAt := rfl
          updatedAt := hupdatedAt }

/-- The event of an entry is the event of its write. -/
theorem Commits.corresponds {write : Write V} {event : OutboxEvent V} (ledger : Ledger ws es)
    (h : Commits ws write event) : Corresponds write event := by
  cases h with
  | @insert t request req now snapshot row event operation absent stored recorded =>
      subst recorded
      have hpayload := describes_buildOrderPayload stored false none
      obtain ⟨-, currency, -, rfl⟩ := Order.store_eq_some_iff.mp stored
      exact
        { aggregateType := rfl
          aggregateId := rfl
          rowId := rfl
          eventType := by
            show request.operation.eventType = _
            rw [operation]
            rfl
          created := ⟨fun _ => rfl, fun _ => rfl⟩
          payload := hpayload
          isDeleted := iff_of_false nofun nofun
          trace := rfl
          createdAt := rfl
          updatedAt := rfl }
  | @overwrite t request now snapshot loaded order base row changed event _ _ _ assigns
      current written recorded =>
      obtain ⟨hid, -, -, -, hupdatedAt⟩ := updateRow_keeps written
      have hbase : base.id = request.orderId := ledger.row_id_of_rowAt current
      have hstored := Order.stored_of_updateRow (ledger.stored_rowAt current) written
      exact assigns.corresponds hstored (hid.trans hbase) hupdatedAt recorded t snapshot base

/-- **The writes and the events of a ledger correspond, entry by entry.** -/
theorem Ledger.corresponds (h : Ledger ws es) : List.Forall₂ Corresponds ws es :=
  h.forall₂ fun _ _ _ _ ledger commits => commits.corresponds ledger

theorem Ledger.exists_event (h : Ledger ws es) {write : Write V} (hwrite : write ∈ ws) :
    ∃ event ∈ es, Corresponds write event := by
  have hforall := h.corresponds
  clear h
  induction hforall with
  | nil => cases hwrite
  | @cons write' event writes events hhead _ ih =>
      rcases List.mem_cons.mp hwrite with rfl | hwrite
      · exact ⟨event, List.mem_cons_self, hhead⟩
      · obtain ⟨event', hevent', hcorresponds⟩ := ih hwrite
        exact ⟨event', List.mem_cons_of_mem _ hevent', hcorresponds⟩

theorem Ledger.exists_write (h : Ledger ws es) {event : OutboxEvent V} (hevent : event ∈ es) :
    ∃ write ∈ ws, Corresponds write event := by
  have hforall := h.corresponds
  clear h
  induction hforall with
  | nil => cases hevent
  | @cons write event' writes events hhead _ ih =>
      rcases List.mem_cons.mp hevent with rfl | hevent
      · exact ⟨write, List.mem_cons_self, hhead⟩
      · obtain ⟨write', hwrite', hcorresponds⟩ := ih hevent
        exact ⟨write', List.mem_cons_of_mem _ hwrite', hcorresponds⟩

/-- Order by order, too. -/
theorem Ledger.corresponds_of (h : Ledger ws es) (id : UUID) :
    List.Forall₂ Corresponds (writesOf ws id) (eventsOf es id) :=
  KeyedLog.entries_rel Write.orderId (fun _ _ hc => hc.aggregateId.symm) h.corresponds id

/-- The present row of an order is the row that its last event describes. -/
theorem Ledger.last_corresponds (h : Ledger ws es) (id : UUID) :
    Option.Rel Corresponds (KeyedLog.last Write.orderId id ws)
      (KeyedLog.last OutboxEvent.aggregateId id es) :=
  KeyedLog.last_rel Write.orderId (fun _ _ hc => hc.aggregateId.symm) h.corresponds id

/-- The events of an order carry what its writes carry. -/
theorem Ledger.map_eventsOf {α : Type} (h : Ledger ws es) (id : UUID) {f : Write V → α}
    {g : OutboxEvent V → α} (hfg : ∀ write event, Corresponds write event → f write = g event) :
    (eventsOf es id).map g = (writesOf ws id).map f := by
  have hforall := h.corresponds_of id
  generalize writesOf ws id = writes at hforall ⊢
  generalize eventsOf es id = events at hforall ⊢
  induction hforall with
  | nil => rfl
  | cons hhead _ ih => rw [List.map_cons, List.map_cons, ih, hfg _ _ hhead]

end Ledger

/-! ### The guarantee -/

/-- **Atomicity of the outbox**, of a world. -/
structure OutboxAtomic (w : World V) : Prop where
  /-- The committed changes of `orders` and the committed events correspond one to one, in
  commit order. -/
  correspond : List.Forall₂ Corresponds w.history w.outbox
  /-- Each change replaced the row that the changes before it had left. -/
  chained : ∀ i write, w.history[i]? = some write →
    write.old = rowAt (w.history.take i) write.orderId
  /-- The table holds what the changes left, and nothing else. -/
  table : ∀ id, (w.orders id).committed = rowAt w.history id
  /-- A change belongs to a request that was answered with success, and with the row. -/
  answered : ∀ write ∈ w.history, ∃ tx response, w.txs[write.xid]? = some tx ∧
    tx.request = write.request ∧ tx.phase = .closed (.ok response) ∧
    response.Describes write.new
  /-- A transaction that was rolled back, or is still open, has changed nothing. -/
  silent : ∀ t tx, w.txs[t]? = some tx → (∀ response, tx.phase ≠ .closed (.ok response)) →
    ∀ write ∈ w.history, write.xid ≠ t
  /-- No transaction makes two changes, or records two events. -/
  once : (w.history.map Write.xid).Nodup

/-- **The outbox is atomic.**  Whatever the interleaving of requests, and whichever of their
statements fail, a committed change of `orders` and its event are committed together, by the
same transaction, and the event describes the row. -/
theorem outbox_atomic [BEq V] {schedule : List (Action V)} {w : World V}
    (h : World.runFromInit schedule = some w) : OutboxAtomic w := by
  have hinv := World.inv_of_run h
  refine ⟨hinv.ledger.corresponds, fun i write hwrite => ?_, hinv.table, fun write hwrite => ?_,
    ?_, hinv.xids⟩
  · obtain ⟨event, -, hcommits⟩ := hinv.ledger.entry hwrite
    exact hcommits.old_eq
  · obtain ⟨tx, response, htx, hrequest, -, hphase, hdescribes⟩ := hinv.answered write hwrite
    exact ⟨tx, response, htx, hrequest, hphase, hdescribes⟩
  · rintro t tx htx hfailed write hwrite rfl
    obtain ⟨u, response, hu, -, -, hphase, -⟩ := hinv.answered write hwrite
    obtain rfl : tx = u := Option.some.inj (htx.symm.trans hu)
    exact hfailed response hphase

/-- Two updates that read version 1 race, the second one waiting for the row lock; a third
one fails after it has written both tables. -/
def Sample.race : List (Action ℕ) :=
  [.begin 1 create] ++ statements 3 0 ++
  [.begin 1 (update (some .confirmed) none),
    .begin 1 (update none (some [twoPieces])),
    .begin 1 (update (some .shipped) none),
    .advance 1, .advance 2, .advance 3] ++
  statements 4 1 ++ statements 3 3 ++ [.raise 3] ++ statements 4 2

theorem outbox_atomic_race :
    ∃ w, World.runFromInit Sample.race = some w ∧ w.outbox.length = 3 ∧ OutboxAtomic w := by
  have hrun : (World.runFromInit Sample.race).map (·.outbox.length) = some 3 := by decide
  obtain ⟨w, hw, hlength⟩ := Option.map_eq_some_iff.mp hrun
  exact ⟨w, hw, hlength, outbox_atomic hw⟩

end OutboxPattern
