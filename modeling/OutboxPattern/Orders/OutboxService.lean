import OutboxPattern.Orders.Orm

/-!
# Event construction (`api/app/services/outbox_service.py`)

The three `record_*` methods build a payload from the mapped order and wrap it into a
row of `outbox_events`.  `created_at` is a server default, `NOW()` of the transaction,
and is passed in as `now`.
-/

namespace OutboxPattern

variable {V : Type}

/-- `AGGREGATE_TYPE_ORDERS`. -/
def aggregateTypeOrders : String := "orders"

/-- `SCHEMA_VERSION`. -/
def schemaVersion : ℕ := 1

/-- `OutboxService._build_order_payload`.  `line_items`, `metadata` and the two
timestamps are never `None` on an order that was flushed, so their fallbacks do not
appear. -/
def buildOrderPayload (order : Order V) (deleted : Bool) : Payload V where
  orderId := order.id
  customerId := order.customerId
  status := order.status
  lineItems := order.lineItems
  totalAmountCents := order.totalAmountCents
  currency := order.currency
  shippingAddress := order.shippingAddress
  metadata := order.metadata
  changedFields := none
  version := order.version
  isDeleted := deleted
  orderCreatedAt := some order.createdAt
  orderUpdatedAt := some order.updatedAt

/-- `OutboxService._insert_event`, with the server defaults of the inserted row. -/
def insertEvent (aggregateId : UUID) (eventType : OutboxEventType) (payload : Payload V)
    (trace : TraceContext) (causationId : Option UUID) (now : Timestamp) :
    OutboxEvent V where
  aggregateType := aggregateTypeOrders
  aggregateId := aggregateId
  eventType := eventType
  payload := payload
  schemaVersion := schemaVersion
  trace := trace
  causationId := causationId
  status := .pending
  createdAt := now

/-- `OutboxService.record_order_created`. -/
def recordOrderCreated (order : Order V) (trace : TraceContext) (now : Timestamp) :
    OutboxEvent V :=
  insertEvent order.id .orderCreated (buildOrderPayload order false) trace none now

/-- `OutboxService.record_order_updated`. -/
def recordOrderUpdated (order : Order V) (changedFields : List OrderField)
    (trace : TraceContext) (causationId : Option UUID) (now : Timestamp) : OutboxEvent V :=
  insertEvent order.id .orderUpdated
    { buildOrderPayload order false with changedFields := some changedFields }
    trace causationId now

/-- `OutboxService.record_order_deleted`. -/
def recordOrderDeleted (order : Order V) (trace : TraceContext) (now : Timestamp) :
    OutboxEvent V :=
  insertEvent order.id .orderDeleted (buildOrderPayload order true) trace none now

/-! ### What every event carries -/

/-- The payload `p` describes the row `row`: every field of the row is in it.  Currency
codes are compared as the values of a `CHAR(3)` column that they are. -/
structure Describes (p : Payload V) (row : Order V) : Prop where
  orderId : p.orderId = row.id
  customerId : p.customerId = row.customerId
  status : p.status = row.status
  lineItems : p.lineItems = row.lineItems
  totalAmountCents : p.totalAmountCents = row.totalAmountCents
  currency : storeChar 3 p.currency = some row.currency
  shippingAddress : p.shippingAddress = row.shippingAddress
  metadata : p.metadata = row.metadata
  version : p.version = row.version
  orderCreatedAt : p.orderCreatedAt = some row.createdAt
  orderUpdatedAt : p.orderUpdatedAt = some row.updatedAt

/-- The payload of an object describes the tuple that the object is stored as. -/
theorem describes_buildOrderPayload {order row : Order V} (h : order.store = some row)
    (deleted : Bool) (changedFields : Option (List OrderField)) :
    Describes { buildOrderPayload order deleted with changedFields := changedFields } row := by
  obtain ⟨-, currency, hc, rfl⟩ := Order.store_eq_some_iff.mp h
  exact ⟨rfl, rfl, rfl, rfl, rfl, hc, rfl, rfl, rfl, rfl, rfl⟩

end OutboxPattern
