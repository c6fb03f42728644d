import OutboxPattern.Orders.Schemas

/-!
# Rows (`api/app/models/orm.py`, `infra/postgres/init/001_init_schema.sql`)

The rows of `orders` and `outbox_events`, and what PostgreSQL does with a row that a
flush sends it.

`Order V` is used twice, as in the source: for the tuple stored in the table and for
the mapped object a session holds.  The two differ where a column type changes a
value: `currency` is `CHAR(3)`, which pads short strings and cuts excess blanks, and
`version` and `total_amount_cents` are bounded integers.  `Order.store` is the tuple
an `INSERT` of an object stores, `Order.updateRow` the tuple an `UPDATE` leaves.
-/

namespace OutboxPattern

/-- A row of `orders`, and the mapped class `Order`. -/
structure Order (V : Type) where
  id : UUID
  customerId : UUID
  status : OrderStatus
  lineItems : List LineItem
  totalAmountCents : ℕ
  currency : String
  /-- `none` is no address, in either form: the `NULL` of SQL, or the JSON `null` that
  `create_order` leaves by sending an explicit `None` to a `JSONB` column.  Both are read back as
  `None`. -/
  shippingAddress : Option ShippingAddress
  metadata : JsonObject V
  deletedAt : Option Timestamp
  version : ℕ
  createdAt : Timestamp
  updatedAt : Timestamp

/-- `OutboxEventType`, and the SQL type `outbox_event_type`. -/
inductive OutboxEventType
  | orderCreated | orderUpdated | orderDeleted
  deriving DecidableEq, Repr

/-- `OutboxStatus`, and the SQL type `outbox_status`. -/
inductive OutboxStatus
  | pending | processed | failed
  deriving DecidableEq, Repr

/-- The names that `changed_fields` can hold. -/
inductive OrderField
  | status | lineItems | totalAmountCents | shippingAddress | metadata
  deriving DecidableEq, Repr

/-- The event payload.  A field that the source stores as JSON text (`json.dumps`) is
the value of that text here. -/
structure Payload (V : Type) where
  orderId : UUID
  customerId : UUID
  status : OrderStatus
  lineItems : List LineItem
  totalAmountCents : ℕ
  currency : String
  shippingAddress : Option ShippingAddress
  metadata : JsonObject V
  changedFields : Option (List OrderField)
  version : ℕ
  isDeleted : Bool
  orderCreatedAt : Option Timestamp
  orderUpdatedAt : Option Timestamp

/-- The trace context a request carries in its headers. -/
structure TraceContext where
  traceId : Option String
  spanId : Option String
  correlationId : Option UUID
  deriving DecidableEq, Repr

/-- A row of `outbox_events`. -/
structure OutboxEvent (V : Type) where
  aggregateType : String
  aggregateId : UUID
  eventType : OutboxEventType
  payload : Payload V
  schemaVersion : ℕ
  trace : TraceContext
  causationId : Option UUID
  status : OutboxStatus
  createdAt : Timestamp

/-! ### Column types -/

/-- Storing a string in a `CHAR(n)` column: a shorter one is padded with blanks, a
longer one is an error unless all that exceeds `n` characters is blank. -/
def storeChar (n : ℕ) (s : String) : Option String :=
  if (s.toList.drop n).all (· == ' ') then
    some (String.ofList (s.toList.take n ++ List.replicate (n - s.toList.length) ' '))
  else none

theorem storeChar_length {n : ℕ} {s s' : String} (h : storeChar n s = some s') :
    s'.toList.length = n := by
  unfold storeChar at h
  split at h
  · obtain rfl := Option.some.inj h
    simp only [String.toList_ofList, List.length_append, List.length_take,
      List.length_replicate]
    omega
  · cases h

/-- Only a string of `n` characters is stored as it is. -/
theorem storeChar_eq_self_iff {n : ℕ} {s : String} :
    storeChar n s = some s ↔ s.toList.length = n := by
  refine ⟨storeChar_length, fun hlen => ?_⟩
  unfold storeChar
  rw [List.drop_of_length_le hlen.le, List.take_of_length_le hlen.le, hlen]
  simp

/-- What a `CHAR(n)` column holds can be stored there again unchanged. -/
theorem storeChar_idem {n : ℕ} {s s' : String} (h : storeChar n s = some s') :
    storeChar n s' = some s' :=
  storeChar_eq_self_iff.mpr (storeChar_length h)

/-- The largest value of the column type `INTEGER`. -/
def maxInteger : ℕ := 2 ^ 31 - 1

/-- The largest value of the column type `BIGINT`. -/
def maxBigint : ℕ := 2 ^ 63 - 1

namespace Order

variable {V : Type}

/-- The version and the total of a tuple are within their column types. -/
def Fits (o : Order V) : Prop := o.version ≤ maxInteger ∧ o.totalAmountCents ≤ maxBigint

instance decidableFits (o : Order V) : Decidable o.Fits :=
  inferInstanceAs (Decidable (_ ∧ _))

/-- The tuple that an `INSERT` of the object `o` stores; `none` is a database error. -/
def store (o : Order V) : Option (Order V) :=
  if o.Fits then (storeChar 3 o.currency).map fun currency => { o with currency } else none

/-- The columns an `UPDATE` writes are those whose assigned value (in `order`) differs
from the value the session loaded (in `loaded`).  They are written over `base`, the
row's latest committed version; the trigger `set_updated_at` stamps the result. -/
def overwrite [BEq V] (loaded order base : Order V) (now : Timestamp) : Order V :=
  { base with
    status := if order.status = loaded.status then base.status else order.status
    lineItems :=
      if order.lineItems = loaded.lineItems then base.lineItems else order.lineItems
    totalAmountCents :=
      if order.totalAmountCents = loaded.totalAmountCents then base.totalAmountCents
      else order.totalAmountCents
    shippingAddress :=
      if order.shippingAddress = loaded.shippingAddress then base.shippingAddress
      else order.shippingAddress
    metadata :=
      if order.metadata.pyEq loaded.metadata then base.metadata else order.metadata
    deletedAt := if order.deletedAt = loaded.deletedAt then base.deletedAt else order.deletedAt
    version := if order.version = loaded.version then base.version else order.version
    updatedAt := now }

/-- Over the very row it had loaded, an `UPDATE` leaves what was assigned, but for a `metadata`
that Python takes for the loaded one. -/
theorem overwrite_self [BEq V] (row order : Order V) (now : Timestamp) :
    overwrite row order row now =
      { row with
        status := order.status
        lineItems := order.lineItems
        totalAmountCents := order.totalAmountCents
        shippingAddress := order.shippingAddress
        metadata := if order.metadata.pyEq row.metadata then row.metadata else order.metadata
        deletedAt := order.deletedAt
        version := order.version
        updatedAt := now } := by
  have hself : ∀ {α : Type} [DecidableEq α] (new old : α),
      (if new = old then old else new) = new := by
    intro α _ new old
    split
    · next heq => exact heq.symm
    · rfl
  simp only [overwrite, hself]

/-- The tuple that the flushed `UPDATE` leaves; `none` is a database error. -/
def updateRow [BEq V] (loaded order base : Order V) (now : Timestamp) : Option (Order V) :=
  if (overwrite loaded order base now).Fits then some (overwrite loaded order base now) else none

/-- **A stored tuple**: storing it again changes nothing. -/
def Stored (o : Order V) : Prop := o.store = some o

theorem store_eq_some_iff {o row : Order V} :
    o.store = some row ↔
      o.Fits ∧ ∃ currency, storeChar 3 o.currency = some currency ∧
        { o with currency := currency } = row := by
  unfold store
  split <;> simp_all [Option.map_eq_some_iff]

theorem Stored.fits {o : Order V} (h : o.Stored) : o.Fits := (store_eq_some_iff.mp h).1

theorem Stored.storeChar_currency {o : Order V} (h : o.Stored) :
    storeChar 3 o.currency = some o.currency := by
  obtain ⟨-, currency, hc, heq⟩ := store_eq_some_iff.mp h
  rw [hc, ← heq]

/-- Whatever an `INSERT` stores is a stored tuple. -/
theorem stored_of_store {o row : Order V} (h : o.store = some row) : row.Stored := by
  obtain ⟨hfits, currency, hc, rfl⟩ := store_eq_some_iff.mp h
  exact store_eq_some_iff.mpr ⟨hfits, currency, storeChar_idem hc, rfl⟩

theorem updateRow_eq_some_iff [BEq V] {loaded order base row : Order V} {now : Timestamp} :
    updateRow loaded order base now = some row ↔
      (overwrite loaded order base now).Fits ∧ overwrite loaded order base now = row := by
  unfold updateRow
  split <;> simp_all

/-- An `UPDATE` of a stored tuple leaves a stored tuple: it never writes `currency`. -/
theorem stored_of_updateRow [BEq V] {loaded order base row : Order V} {now : Timestamp}
    (hbase : base.Stored) (h : updateRow loaded order base now = some row) : row.Stored := by
  obtain ⟨hfits, rfl⟩ := updateRow_eq_some_iff.mp h
  exact store_eq_some_iff.mpr ⟨hfits, base.currency, hbase.storeChar_currency, rfl⟩

end Order

end OutboxPattern
