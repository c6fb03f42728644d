import OutboxPattern.Orders.OutboxService

/-!
# The Python side of a request (`api/app/services/order_service.py`)

What `create_order`, `update_order` and `delete_order` compute on the mapped object
between two statements they send to the database.  The statements themselves, and the
order they come in, are in `OutboxPattern.Orders.Session`.
-/

namespace OutboxPattern

variable {V : Type}

/-- The exceptions the service raises on purpose. -/
inductive ServiceError
  /-- `OptimisticLockError`: the request expects one version, the row has another. -/
  | optimisticLock (expected found : ℕ)
  /-- `OrderNotFoundError`. -/
  | orderNotFound (orderId : UUID)
  /-- `OrderAlreadyDeletedError`. -/
  | orderAlreadyDeleted (orderId : UUID)
  deriving DecidableEq, Repr

/-! ### `create_order` -/

/-- The object `create_order` builds, with the server defaults `created_at` and
`updated_at` that its first flush fetches.  `id` is the drawn `uuid4`. -/
def createOrder (id : UUID) (req : CreateOrderRequest V) (now : Timestamp) : Order V where
  id := id
  customerId := req.customerId
  status := .pending
  lineItems := dumpLineItems req.lineItems
  totalAmountCents := totalCents (dumpLineItems req.lineItems)
  currency := req.currency
  shippingAddress := req.shippingAddress.map ShippingAddressSchema.toShippingAddress
  metadata := req.metadata
  deletedAt := none
  version := 1
  createdAt := now
  updatedAt := now

/-! ### `update_order` -/

namespace UpdateOrder

/-- The object being updated, with the fields reported as changed so far. -/
abbrev Draft (V : Type) := Order V × List OrderField

/-- `if req.status is not None and req.status != order.status`. -/
def setStatus (req : UpdateOrderRequest V) : Draft V → Draft V
  | (order, changed) =>
    match req.status with
    | some status =>
        if status ≠ order.status then ({ order with status }, changed ++ [.status])
        else (order, changed)
    | none => (order, changed)

/-- `if req.line_items is not None`: the items and the total derived from them. -/
def setLineItems (req : UpdateOrderRequest V) : Draft V → Draft V
  | (order, changed) =>
    match req.lineItems with
    | some items =>
        ({ order with
            lineItems := dumpLineItems items
            totalAmountCents := totalCents (dumpLineItems items) },
          changed ++ [.lineItems, .totalAmountCents])
    | none => (order, changed)

/-- `if req.shipping_address is not None`. -/
def setShippingAddress (req : UpdateOrderRequest V) : Draft V → Draft V
  | (order, changed) =>
    match req.shippingAddress with
    | some address =>
        ({ order with shippingAddress := some address.toShippingAddress },
          changed ++ [.shippingAddress])
    | none => (order, changed)

/-- `if req.metadata is not None`: merge rather than replace. -/
def mergeMetadata (req : UpdateOrderRequest V) : Draft V → Draft V
  | (order, changed) =>
    match req.metadata with
    | some metadata =>
        ({ order with metadata := order.metadata.merge metadata }, changed ++ [.metadata])
    | none => (order, changed)

/-- The four assignments of `update_order`, in source order. -/
def assign (req : UpdateOrderRequest V) (order : Order V) : Draft V :=
  mergeMetadata req <| setShippingAddress req <| setLineItems req <| setStatus req (order, [])

/-- The values the four assignments leave in the object. -/
theorem assign_fst (req : UpdateOrderRequest V) (order : Order V) :
    (assign req order).1 =
      { order with
        status := req.status.getD order.status
        lineItems := (req.lineItems.map dumpLineItems).getD order.lineItems
        totalAmountCents :=
          (req.lineItems.map fun items => totalCents (dumpLineItems items)).getD
            order.totalAmountCents
        shippingAddress :=
          (req.shippingAddress.map ShippingAddressSchema.toShippingAddress).or
            order.shippingAddress
        metadata := (req.metadata.map order.metadata.merge).getD order.metadata } := by
  have hstatus : ∀ draft : Draft V,
      (setStatus req draft).1 = { draft.1 with status := req.status.getD draft.1.status } := by
    intro draft
    unfold setStatus
    cases hs : req.status with
    | none => rfl
    | some status =>
        by_cases hne : status ≠ draft.1.status
        · simp [hne]
        · simp [not_not.mp hne]
  have hitems : ∀ draft : Draft V,
      (setLineItems req draft).1 =
        { draft.1 with
          lineItems := (req.lineItems.map dumpLineItems).getD draft.1.lineItems
          totalAmountCents :=
            (req.lineItems.map fun items => totalCents (dumpLineItems items)).getD
              draft.1.totalAmountCents } := by
    intro draft
    unfold setLineItems
    cases hi : req.lineItems <;> rfl
  have haddress : ∀ draft : Draft V,
      (setShippingAddress req draft).1 =
        { draft.1 with
          shippingAddress :=
            (req.shippingAddress.map ShippingAddressSchema.toShippingAddress).or
              draft.1.shippingAddress } := by
    intro draft
    unfold setShippingAddress
    cases ha : req.shippingAddress <;> simp
  have hmetadata : ∀ draft : Draft V,
      (mergeMetadata req draft).1 =
        { draft.1 with
          metadata := (req.metadata.map draft.1.metadata.merge).getD draft.1.metadata } := by
    intro draft
    unfold mergeMetadata
    cases hm : req.metadata <;> rfl
  simp only [assign, hmetadata, haddress, hitems, hstatus]

/-- What the four assignments report: `status` if its value is another one, and the other fields
if the request brings them. -/
theorem assign_snd (req : UpdateOrderRequest V) (order : Order V) :
    (assign req order).2 =
      (if req.status.getD order.status ≠ order.status then [.status] else []) ++
        (if req.lineItems.isSome then [.lineItems, .totalAmountCents] else []) ++
        (if req.shippingAddress.isSome then [.shippingAddress] else []) ++
        (if req.metadata.isSome then [.metadata] else []) := by
  have hstatus : (setStatus req (order, [])).2 =
      if req.status.getD order.status ≠ order.status then [.status] else [] := by
    unfold setStatus
    cases req.status with
    | none => simp
    | some status => by_cases hne : status ≠ order.status <;> simp [hne]
  have hitems : ∀ draft : Draft V, (setLineItems req draft).2 =
      draft.2 ++ if req.lineItems.isSome then [.lineItems, .totalAmountCents] else [] := by
    intro draft
    unfold setLineItems
    cases req.lineItems <;> simp
  have haddress : ∀ draft : Draft V, (setShippingAddress req draft).2 =
      draft.2 ++ if req.shippingAddress.isSome then [.shippingAddress] else [] := by
    intro draft
    unfold setShippingAddress
    cases req.shippingAddress <;> simp
  have hmetadata : ∀ draft : Draft V, (mergeMetadata req draft).2 =
      draft.2 ++ if req.metadata.isSome then [.metadata] else [] := by
    intro draft
    unfold mergeMetadata
    cases req.metadata <;> simp
  rw [assign, hmetadata, haddress, hitems, hstatus]

theorem mem_assign_snd {req : UpdateOrderRequest V} {order : Order V} {field : OrderField} :
    field ∈ (assign req order).2 ↔
      match field with
      | .status => req.status.getD order.status ≠ order.status
      | .lineItems | .totalAmountCents => req.lineItems.isSome
      | .shippingAddress => req.shippingAddress.isSome
      | .metadata => req.metadata.isSome := by
  rw [assign_snd]
  cases field <;> simp

/-- No field is reported twice. -/
theorem nodup_assign_snd (req : UpdateOrderRequest V) (order : Order V) :
    (assign req order).2.Nodup := by
  rw [assign_snd]
  split <;> split <;> split <;> split <;> decide

end UpdateOrder

/-- `update_order` between the `SELECT` and the first flush: the version check, the
assignments and the increment.  An empty list of changed fields is the early return,
which leaves the object as it was loaded. -/
def updateOrder (req : UpdateOrderRequest V) (order : Order V) :
    Except ServiceError (Order V × List OrderField) :=
  if order.version ≠ req.version then .error (.optimisticLock req.version order.version)
  else
    let draft := UpdateOrder.assign req order
    if draft.2 = [] then .ok draft
    else .ok ({ draft.1 with version := draft.1.version + 1 }, draft.2)

/-- What `update_order` makes of an order of the expected version. -/
theorem updateOrder_of_version {req : UpdateOrderRequest V} {order : Order V}
    (hversion : order.version = req.version) :
    ∃ order' changed, updateOrder req order = .ok (order', changed) ∧
      order'.currency = order.currency ∧
      order'.totalAmountCents =
        (req.lineItems.map fun items => totalCents (dumpLineItems items)).getD
          order.totalAmountCents := by
  have hcurrency : (UpdateOrder.assign req order).1.currency = order.currency := by
    rw [UpdateOrder.assign_fst]
  have htotal : (UpdateOrder.assign req order).1.totalAmountCents =
      (req.lineItems.map fun items => totalCents (dumpLineItems items)).getD
        order.totalAmountCents := by
    rw [UpdateOrder.assign_fst]
  simp only [updateOrder, hversion, ne_eq, not_true_eq_false, if_false]
  split
  · exact ⟨_, _, rfl, hcurrency, htotal⟩
  · exact ⟨_, _, rfl, hcurrency, htotal⟩

/-- The early return of `update_order` is that of a request that assigns nothing. -/
theorem assign_nil_of_updateOrder {req : UpdateOrderRequest V} {row order : Order V}
    (hok : updateOrder req row = .ok (order, [])) :
    (UpdateOrder.assign req row).2 = [] := by
  unfold updateOrder at hok
  dsimp only at hok
  split at hok
  · cases hok
  · split at hok
    · next hnil => exact hnil
    · next hne => exact absurd (congrArg Prod.snd (Except.ok.inj hok)) hne

/-! ### `delete_order` -/

/-- The object `delete_order` flushes; `at_` is `datetime.now(timezone.utc)`. -/
def deleteOrder (at_ : Timestamp) (order : Order V) : Order V :=
  { order with
    deletedAt := some at_
    status := .cancelled
    version := order.version + 1 }

end OutboxPattern
