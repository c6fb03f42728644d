import OutboxPattern.Orders.OrderService

/-!
# Responses (`api/app/routers/orders.py`, `api/app/main.py`)

What a handler answers: the order it was given back by the service, or the
`HTTPException` that it maps a service error to.  Everything else that a request
raises ends in the catch-all handler of `main.py`.
-/

namespace OutboxPattern

variable {V : Type}

/-- `OrderResponse`. -/
structure OrderResponse (V : Type) where
  id : UUID
  customerId : UUID
  status : OrderStatus
  lineItems : List LineItem
  totalAmountCents : ℕ
  currency : String
  shippingAddress : Option ShippingAddress
  metadata : JsonObject V
  version : ℕ
  createdAt : Timestamp
  updatedAt : Timestamp

/-- `_to_response`. -/
def toResponse (order : Order V) : OrderResponse V where
  id := order.id
  customerId := order.customerId
  status := order.status
  lineItems := order.lineItems
  totalAmountCents := order.totalAmountCents
  currency := order.currency
  shippingAddress := order.shippingAddress
  metadata := order.metadata
  version := order.version
  createdAt := order.createdAt
  updatedAt := order.updatedAt

/-- `HTTPException`: a status code and a detail text. -/
structure HttpError where
  statusCode : ℕ
  detail : String
  deriving DecidableEq, Repr

/-- `str(uuid)`: 32 hexadecimal digits in groups of 8, 4, 4, 4 and 12. -/
def uuidStr (u : UUID) : String :=
  let digits := (List.range 32).map fun i => Nat.digitChar (u.toNat / 16 ^ (31 - i) % 16)
  let group := fun (start count : ℕ) => String.ofList ((digits.drop start).take count)
  String.intercalate "-" [group 0 8, group 8 4, group 12 4, group 16 4, group 20 12]

/-- The `except` clauses of the handlers, with `str(e)` for the lock error. -/
def ServiceError.toHttp : ServiceError → HttpError
  | .orderNotFound orderId => ⟨404, s!"Order {uuidStr orderId} not found"⟩
  | .orderAlreadyDeleted orderId => ⟨410, s!"Order {uuidStr orderId} has been deleted"⟩
  | .optimisticLock expected found =>
      ⟨409, s!"Order version conflict: expected {expected}, found {found}. " ++
        "Fetch the latest order and retry."⟩

/-- `unhandled_exception_handler`: what a database error or any other exception that no
handler maps is answered with. -/
def internalServerError : HttpError := ⟨500, "Internal server error"⟩

/-- What a request is answered with. -/
abbrev Response (V : Type) := Except HttpError (OrderResponse V)

/-- The status code of the answer.  Creation answers 201, every other success 200. -/
def Response.statusCode (created : Bool) : Response V → ℕ
  | .ok _ => if created then 201 else 200
  | .error e => e.statusCode

/-- The answer `response` describes the row `row`, currency codes being compared as
`CHAR(3)` values. -/
structure OrderResponse.Describes (response : OrderResponse V) (row : Order V) : Prop where
  id : response.id = row.id
  customerId : response.customerId = row.customerId
  status : response.status = row.status
  lineItems : response.lineItems = row.lineItems
  totalAmountCents : response.totalAmountCents = row.totalAmountCents
  currency : storeChar 3 response.currency = some row.currency
  shippingAddress : response.shippingAddress = row.shippingAddress
  metadata : response.metadata = row.metadata
  version : response.version = row.version
  createdAt : response.createdAt = row.createdAt
  updatedAt : response.updatedAt = row.updatedAt

/-- The response built from an object describes the tuple the object is stored as. -/
theorem describes_toResponse {order row : Order V} (h : order.store = some row) :
    (toResponse order).Describes row := by
  obtain ⟨-, currency, hc, rfl⟩ := Order.store_eq_some_iff.mp h
  exact ⟨rfl, rfl, rfl, rfl, rfl, hc, rfl, rfl, rfl, rfl, rfl⟩

end OutboxPattern
