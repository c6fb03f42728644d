import OutboxPattern.Lib.Transition
import OutboxPattern.Orders.Router

/-!
# Requests as READ COMMITTED transactions (`order_service.py` on the session of `get_db`)

A request runs as one transaction: `get_db` opens a session, the handler sends its
statements one after the other, and the session is committed when the handler returns
and rolled back when it raises.  Between two statements of one request any number of
statements of others may run, so the unit of interleaving is one statement.

* A `Slot` is a primary key of `orders`: its latest committed tuple, and the tuple
  that an open transaction has written over it, if any.  There is at most one such
  transaction, which is the row lock: a second writer has to wait.
* `World.step` runs the next statement of one transaction.  It is `none` where that
  statement waits for a lock, or where there is nothing left to run.
* `Action.raise` makes the next statement of a transaction fail instead, whatever the
  reason: a constraint, a lost connection, a cancelled request.

`World.history` records the writes of `orders` in the order they were committed.  No
statement reads it; it is what the results about runs speak of.
-/

namespace OutboxPattern

variable {V : Type}

/-- What a request asks for.  `delete` carries `datetime.now(timezone.utc)`, the clock of
the API host when the handler runs. -/
inductive Operation (V : Type)
  | create (req : CreateOrderRequest V)
  | update (req : UpdateOrderRequest V)
  | delete (at_ : Timestamp)
  | get

/-- A request on one order.  For `create`, `orderId` is the drawn `uuid4`. -/
structure Request (V : Type) where
  orderId : UUID
  operation : Operation V
  trace : TraceContext

/-- How far a transaction has got: which statement comes next, and the mapped object
that the session holds by then. -/
inductive Phase (V : Type)
  /-- `BEGIN` has run. -/
  | begun
  /-- The `SELECT` of active orders found nothing. -/
  | missed
  /-- Attributes were assigned to the loaded object; the `UPDATE` comes next. -/
  | assigned (loaded order : Order V) (changed : List OrderField)
  /-- The first flush has run. -/
  | flushed (order : Order V) (changed : List OrderField)
  /-- The object was read back. -/
  | refreshed (order : Order V) (changed : List OrderField)
  /-- The second flush has inserted the outbox event. -/
  | recorded (order : Order V)
  /-- Nothing is to be written: a read, or an update that changes no field. -/
  | unchanged (order : Order V)
  /-- Committed and answered with an order, or rolled back and answered with an error. -/
  | closed (response : Response V)

/-- A transaction is named by its position in the list of all transactions begun. -/
abbrev TxId := ℕ

/-- One request's transaction. -/
structure Transaction (V : Type) where
  request : Request V
  /-- `NOW()`, fixed by `BEGIN`. -/
  now : Timestamp
  /-- How many committed writes of `orders` its `SELECT` could see. -/
  snapshot : ℕ
  /-- Its uncommitted rows of `outbox_events`. -/
  inserted : List (OutboxEvent V)
  phase : Phase V

/-- A primary key of `orders`. -/
structure Slot (V : Type) where
  committed : Option (Order V)
  /-- The open transaction that wrote the row, with the tuple it wrote. -/
  writer : Option (TxId × Order V)

/-- A committed write of `orders`, by the transaction `xid`: the tuple it replaced and the
tuple it left, with the request it served and the facts about its session. -/
structure Write (V : Type) where
  xid : TxId
  request : Request V
  began : Timestamp
  snapshot : ℕ
  old : Option (Order V)
  new : Order V

/-- The database and everything running on it. -/
structure World (V : Type) where
  clock : Timestamp
  orders : UUID → Slot V
  /-- The committed rows of `outbox_events`, in commit order. -/
  outbox : List (OutboxEvent V)
  history : List (Write V)
  txs : List (Transaction V)

/-- What can happen next. -/
inductive Action (V : Type)
  /-- After some time, a request arrives and its transaction begins. -/
  | begin (elapsed : ℕ) (request : Request V)
  /-- The next statement of a transaction runs. -/
  | advance (t : TxId)
  /-- The next statement of a transaction raises, and `get_db` rolls back. -/
  | raise (t : TxId)

namespace World

/-- Empty tables and no transaction. -/
def init : World V where
  clock := 0
  orders _ := ⟨none, none⟩
  outbox := []
  history := []
  txs := []

/-- The uncommitted tuple of a row, to the transaction that wrote it. -/
def ownTuple (w : World V) (t : TxId) (id : UUID) : Option (Order V) :=
  match (w.orders id).writer with
  | some (x, row) => if x = t then some row else none
  | none => none

/-- What a `SELECT` by primary key sees: the transaction's own write, else the latest
committed tuple. -/
def visible (w : World V) (t : TxId) (id : UUID) : Option (Order V) :=
  (w.ownTuple t id).or (w.orders id).committed

def setTx (w : World V) (t : TxId) (tx : Transaction V) : World V :=
  { w with txs := w.txs.set t tx }

def setPhase (w : World V) (t : TxId) (tx : Transaction V) (phase : Phase V) : World V :=
  w.setTx t { tx with phase }

/-- Write an uncommitted tuple, which locks the row. -/
def lock (w : World V) (t : TxId) (id : UUID) (row : Order V) : World V :=
  { w with orders := Function.update w.orders id { w.orders id with writer := some (t, row) } }

/-- Drop the uncommitted tuple of a transaction. -/
def unlock (w : World V) (t : TxId) (id : UUID) : World V :=
  if (w.ownTuple t id).isSome then
    { w with orders := Function.update w.orders id { w.orders id with writer := none } }
  else w

/-- `get_db` after an exception: all the transaction wrote is gone. -/
def rollback (w : World V) (t : TxId) (tx : Transaction V) (error : HttpError) : World V :=
  (w.unlock t tx.request.orderId).setTx t
    { tx with inserted := [], phase := .closed (.error error) }

/-- The write of `orders` that committing the transaction would make visible. -/
def pendingWrite (w : World V) (t : TxId) (tx : Transaction V) : Option (Write V) :=
  (w.ownTuple t tx.request.orderId).map fun row =>
    { xid := t
      request := tx.request
      began := tx.now
      snapshot := tx.snapshot
      old := (w.orders tx.request.orderId).committed
      new := row }

/-- `get_db` after the handler has returned: all the transaction wrote, to either table,
becomes visible. -/
def commit (w : World V) (t : TxId) (tx : Transaction V) (order : Order V) : World V where
  clock := w.clock
  orders := match w.pendingWrite t tx with
    | some write => Function.update w.orders tx.request.orderId ⟨some write.new, none⟩
    | none => w.orders
  outbox := w.outbox ++ tx.inserted
  history := w.history ++ (w.pendingWrite t tx).toList
  txs := w.txs.set t
    { tx with inserted := [], phase := .closed (.ok (toResponse order)) }

/-! ### Statements -/

/-- The first `SELECT` of `_get_active_order` and the Python that follows it: the version
check and the assignments of `update_order`, the assignments of `delete_order`, nothing
for `get_order`. -/
def selectActive (w : World V) (t : TxId) (tx : Transaction V) : World V :=
  match (w.orders tx.request.orderId).committed.filter (·.deletedAt.isNone) with
  | none => w.setPhase t tx .missed
  | some loaded =>
      let tx := { tx with snapshot := w.history.length }
      match tx.request.operation with
      | .update req =>
          match updateOrder req loaded with
          | .error e => w.rollback t tx e.toHttp
          | .ok (order, changed) =>
              if changed = [] then w.setPhase t tx (.unchanged order)
              else w.setPhase t tx (.assigned loaded order changed)
      | .delete at_ => w.setPhase t tx (.assigned loaded (deleteOrder at_ loaded) [])
      | _ => w.setPhase t tx (.unchanged loaded)

/-- The second `SELECT` of `_get_active_order`, which only tells the two errors apart. -/
def selectDeleted (w : World V) (t : TxId) (tx : Transaction V) : World V :=
  match (w.orders tx.request.orderId).committed.filter (·.deletedAt.isSome) with
  | some _ => w.rollback t tx (ServiceError.orderAlreadyDeleted tx.request.orderId).toHttp
  | none => w.rollback t tx (ServiceError.orderNotFound tx.request.orderId).toHttp

/-- The first flush of `create_order`: the `INSERT` into `orders`.  It waits for an open
writer of the same key, and fails on a key that is taken. -/
def flushInsert (w : World V) (t : TxId) (tx : Transaction V) (order : Order V) :
    Option (World V) :=
  match (w.orders tx.request.orderId).writer with
  | some _ => none
  | none =>
      match (w.orders tx.request.orderId).committed, order.store with
      | none, some row =>
          some ((w.lock t tx.request.orderId row).setPhase t tx (.flushed order []))
      | _, _ => some (w.rollback t tx internalServerError)

/-- The first flush of `update_order` and `delete_order`: the `UPDATE ... WHERE id = ...`
of the columns that differ from the loaded ones.  It waits for an open writer of the row
and then applies to the latest committed tuple. -/
def flushUpdate [BEq V] (w : World V) (t : TxId) (tx : Transaction V) (loaded order : Order V)
    (changed : List OrderField) : Option (World V) :=
  match (w.orders tx.request.orderId).writer with
  | some _ => none
  | none =>
      match (w.orders tx.request.orderId).committed.bind
          fun base => Order.updateRow loaded order base tx.now with
      | some row =>
          some ((w.lock t tx.request.orderId row).setPhase t tx (.flushed order changed))
      | none => some (w.rollback t tx internalServerError)

/-- `session.refresh(order)`. -/
def refresh (w : World V) (t : TxId) (tx : Transaction V) (changed : List OrderField) :
    World V :=
  match w.visible t tx.request.orderId with
  | some row => w.setPhase t tx (.refreshed row changed)
  | none => w.rollback t tx internalServerError

/-- The rows that the `record_*` method of the request's operation adds to the session. -/
def recordEvents (request : Request V) (order : Order V) (changed : List OrderField)
    (now : Timestamp) : List (OutboxEvent V) :=
  match request.operation with
  | .create _ => [recordOrderCreated order request.trace now]
  | .update _ => [recordOrderUpdated order changed request.trace none now]
  | .delete _ => [recordOrderDeleted order request.trace now]
  | .get => []

/-- The second flush: the `INSERT` into `outbox_events`. -/
def record (w : World V) (t : TxId) (tx : Transaction V) (order : Order V)
    (changed : List OrderField) : World V :=
  w.setTx t
    { tx with
      inserted := tx.inserted ++ recordEvents tx.request order changed tx.now
      phase := .recorded order }

/-- The next statement of the transaction `t`. -/
def advance [BEq V] (w : World V) (t : TxId) (tx : Transaction V) : Option (World V) :=
  match tx.phase with
  | .begun =>
      match tx.request.operation with
      | .create req => w.flushInsert t tx (createOrder tx.request.orderId req tx.now)
      | _ => some (w.selectActive t tx)
  | .missed => some (w.selectDeleted t tx)
  | .assigned loaded order changed => w.flushUpdate t tx loaded order changed
  | .flushed order changed =>
      match tx.request.operation with
      | .create _ => some (w.record t tx order changed)
      | _ => some (w.refresh t tx changed)
  | .refreshed order changed => some (w.record t tx order changed)
  | .recorded order => some (w.commit t tx order)
  | .unchanged order => some (w.commit t tx order)
  | .closed _ => none

/-- One step of the system. -/
def step [BEq V] (w : World V) : Action V → Option (World V)
  | .begin elapsed request =>
      some { w with
        clock := w.clock + elapsed
        txs := w.txs ++ [⟨request, w.clock + elapsed, 0, [], .begun⟩] }
  | .advance t => w.txs[t]?.bind fun tx => w.advance t tx
  | .raise t => w.txs[t]?.bind fun tx =>
      match tx.phase with
      | .closed _ => none
      | _ => some (w.rollback t tx internalServerError)

end World

/-! ### Sample requests

One order and the requests on it that the concrete runs of this development are made of. -/

namespace Sample

def orderId : UUID := 1

def trace : TraceContext := ⟨none, none, none⟩

/-- One piece at 5 cents. -/
def onePiece : LineItemSchema := ⟨⟨7, 1, 5⟩, by decide, by decide⟩

/-- Two pieces at 5 cents. -/
def twoPieces : LineItemSchema := ⟨⟨7, 2, 5⟩, by decide, by decide⟩

/-- Five pieces at 1 cent, which cost as much as `onePiece`. -/
def fivePieces : LineItemSchema := ⟨⟨7, 5, 1⟩, by decide, by decide⟩

/-- Ten thousand pieces at 10 ^ 15 cents, which cost more than a `BIGINT` holds. -/
def costly : LineItemSchema := ⟨⟨7, 10000, 10 ^ 15⟩, by decide, by decide⟩

/-- One order of `onePiece`, in some currency. -/
def createRequest (rawCurrency : String) (hlength : rawCurrency.length = 3) :
    CreateOrderRequest ℕ where
  customerId := 2
  lineItems := [onePiece]
  rawCurrency := rawCurrency
  shippingAddress := none
  metadata := ∅
  rawCurrency_length := hlength
  lineItems_ne_nil := by decide
  total_le := by decide

/-- An update that expects version 1. -/
def updateRequest (status : Option OrderStatus) (lineItems : Option (List LineItemSchema)) :
    UpdateOrderRequest ℕ where
  status := status
  lineItems := lineItems
  shippingAddress := none
  metadata := none
  version := 1
  version_ge := le_rfl

/-- Creates the order in some currency. -/
def createIn (rawCurrency : String) (hlength : rawCurrency.length = 3) : Request ℕ :=
  ⟨orderId, .create (createRequest rawCurrency hlength), trace⟩

/-- Creates the order. -/
def create : Request ℕ := createIn "EUR" rfl

/-- The order after its creation. -/
def created : Order ℕ := createOrder orderId (createRequest "EUR" rfl) 1

theorem created_stored : created.Stored :=
  Order.store_eq_some_iff.mpr ⟨by decide, "EUR", by decide, rfl⟩

/-- Updates the order, expecting version 1. -/
def update (status : Option OrderStatus) (lineItems : Option (List LineItemSchema)) :
    Request ℕ :=
  ⟨orderId, .update (updateRequest status lineItems), trace⟩

/-- Deletes the order. -/
def delete : Request ℕ where
  orderId := orderId
  operation := .delete 9
  trace := trace

/-- Runs the next `n` statements of the transaction `t`. -/
def statements (n : ℕ) (t : TxId) : List (Action ℕ) := List.replicate n (.advance t)

end Sample

end OutboxPattern
