import OutboxPattern.Orders.Orm

/-!
# Listing orders (`list_orders` of `order_service.py` and of `routers/orders.py`)

Two statements: a `SELECT count(*)` of the rows that match, and a `SELECT` of one page of them,
newest first.  Rows of one `created_at` come in whatever order the database returns them, which
may be another one in every statement; the order of a statement is its argument `orderBy`.
-/

namespace OutboxPattern

variable {V : Type}

/-! ### The request -/

/-- The value of a member of the enumeration `OrderStatus`. -/
def OrderStatus.value : OrderStatus → String
  | .pending => "PENDING"
  | .confirmed => "CONFIRMED"
  | .processing => "PROCESSING"
  | .shipped => "SHIPPED"
  | .delivered => "DELIVERED"
  | .cancelled => "CANCELLED"
  | .refunded => "REFUNDED"

/-- `OrderStatus(value)`; `none` is a `ValueError`. -/
def OrderStatus.ofValue? (value : String) : Option OrderStatus :=
  [.pending, .confirmed, .processing, .shipped, .delivered, .cancelled, .refunded].find?
    fun status => status.value == value

theorem OrderStatus.ofValue?_value (status : OrderStatus) :
    OrderStatus.ofValue? status.value = some status := by
  cases status <;> decide

/-- The query parameters of `GET /orders`, as accepted. -/
structure ListOrdersQuery where
  customerId : Option UUID
  status : Option String
  page : ℕ
  pageSize : ℕ
  /-- `Query(default=1, ge=1)`. -/
  page_ge : 1 ≤ page
  /-- `Query(default=20, ge=1, le=100)`. -/
  pageSize_ge : 1 ≤ pageSize
  pageSize_le : pageSize ≤ 100

/-- The `OFFSET` of the second statement. -/
def ListOrdersQuery.offset (query : ListOrdersQuery) : ℕ := (query.page - 1) * query.pageSize

/-- What `list_orders` raises. -/
inductive ListOrdersError
  /-- `ValueError`: the value is not a valid `OrderStatus`. -/
  | invalidStatus (value : String)
  /-- The database rejects an argument. -/
  | database
  deriving DecidableEq, Repr

/-- The handler maps a `ValueError` only. -/
def ListOrdersError.statusCode : ListOrdersError → ℕ
  | .invalidStatus _ => 422
  | .database => 500

/-! ### The statements -/

/-- The rows of `orders`. -/
structure OrdersTable (V : Type) where
  rows : List (Order V)
  /-- `id` is the primary key. -/
  ids_nodup : (rows.map Order.id).Nodup

theorem OrdersTable.rows_nodup (table : OrdersTable V) : table.rows.Nodup :=
  table.ids_nodup.of_map

/-- The active rows of a customer, if one is given, in a status, if one is given. -/
def OrdersTable.matching (table : OrdersTable V) (customerId : Option UUID)
    (status : Option OrderStatus) : List (Order V) :=
  table.rows.filter fun order =>
    order.deletedAt.isNone && customerId.all (order.customerId == ·) &&
      status.all (order.status == ·)

/-- `if status: stmt.where(Order.status == OrderStatus(status))`: an empty text is no filter. -/
def statusFilter : Option String → Except ListOrdersError (Option OrderStatus)
  | none => .ok none
  | some value =>
      if value = "" then .ok none
      else
        match OrderStatus.ofValue? value with
        | some status => .ok (some status)
        | none => .error (.invalidStatus value)

theorem statusFilter_value (status : Option OrderStatus) :
    statusFilter (status.map OrderStatus.value) = .ok status := by
  cases status with
  | none => rfl
  | some status =>
      have hne : status.value ≠ "" := by cases status <;> decide
      simp only [Option.map_some, statusFilter, if_neg hne, OrderStatus.ofValue?_value]

/-- `OrderService.list_orders`: the orders on a page, and the total.  `OFFSET` is a `BIGINT`. -/
def listOrders (orderBy : List (Order V) → List (Order V)) (table : OrdersTable V)
    (query : ListOrdersQuery) : Except ListOrdersError (List (Order V) × ℕ) :=
  match statusFilter query.status with
  | .error e => .error e
  | .ok status =>
      let rows := table.matching query.customerId status
      let total := rows.length
      if query.offset ≤ maxBigint then
        .ok (((orderBy rows).drop query.offset).take query.pageSize, total)
      else .error .database

end OutboxPattern
