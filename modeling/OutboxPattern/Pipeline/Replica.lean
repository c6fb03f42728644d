import OutboxPattern.Guarantees.Atomicity

/-!
# The replica (`infra/postgres-analytics/init/001-orders-cdc.sql`, `03-jdbc-sink.json`)

The event router expands a payload into the fields of a record, and the JDBC sink writes
each record to `orders_cdc` by an upsert on `order_id` that names the columns of the
record's fields.  It compares nothing with the row that is already there.

Two choices of the pipeline are left open.  `NullHandling` is what becomes of a field that
is null; and the sink may apply records in any order, any number of times: `deliver` is the
table after any list of them.
-/

namespace OutboxPattern

variable {V : Type}

/-- Whether a null field of a record is written as `NULL` or left out of the upsert. -/
inductive NullHandling
  | written | omitted
  deriving DecidableEq, Repr

/-- The value that an upsert leaves in a nullable column. -/
def NullHandling.column {α : Type} (nulls : NullHandling) (new old : Option α) : Option α :=
  match nulls with
  | .written => new
  | .omitted => new.or old

/-- A row of `orders_cdc`, but for its primary key.  No record has a field for
`last_event_type` or `event_created_at`. -/
structure ReplicaRow (V : Type) where
  customerId : UUID
  status : OrderStatus
  totalAmountCents : ℕ
  currency : String
  lineItems : List LineItem
  shippingAddress : Option ShippingAddress
  metadata : JsonObject V
  changedFields : Option (List OrderField)
  isDeleted : Bool
  version : ℕ
  lastEventType : Option OutboxEventType
  eventCreatedAt : Option Timestamp
  orderCreatedAt : Option Timestamp
  orderUpdatedAt : Option Timestamp
  ingestedAt : Timestamp

/-- The table `orders_cdc`, by primary key. -/
abbrev OrdersCdc (V : Type) := UUID → Option (ReplicaRow V)

/-- The row that `INSERT ... ON CONFLICT (order_id) DO UPDATE` of a payload leaves over the
present one; `none` is a database error.  Columns that the record does not name keep their
value, or get their default in a new row. -/
def upsert (nulls : NullHandling) (now : Timestamp) (p : Payload V)
    (current : Option (ReplicaRow V)) : Option (ReplicaRow V) :=
  if p.version ≤ maxInteger ∧ p.totalAmountCents ≤ maxBigint then
    (storeChar 3 p.currency).map fun currency =>
      { customerId := p.customerId
        status := p.status
        totalAmountCents := p.totalAmountCents
        currency := currency
        lineItems := p.lineItems
        shippingAddress :=
          nulls.column p.shippingAddress (current.bind ReplicaRow.shippingAddress)
        metadata := p.metadata
        changedFields := nulls.column p.changedFields (current.bind ReplicaRow.changedFields)
        isDeleted := p.isDeleted
        version := p.version
        lastEventType := current.bind ReplicaRow.lastEventType
        eventCreatedAt := current.bind ReplicaRow.eventCreatedAt
        orderCreatedAt := nulls.column p.orderCreatedAt (current.bind ReplicaRow.orderCreatedAt)
        orderUpdatedAt := nulls.column p.orderUpdatedAt (current.bind ReplicaRow.orderUpdatedAt)
        ingestedAt := (current.map ReplicaRow.ingestedAt).getD now }
  else none

/-- A record reaches the sink at some time. -/
abbrev Delivery (V : Type) := Timestamp × OutboxEvent V

/-- The primary key that the sink takes from a record. -/
def Delivery.orderId (delivery : Delivery V) : UUID := delivery.2.payload.orderId

/-- The sink applies one record.  A record that the table rejects goes to the dead letter
queue. -/
def applyRecord (nulls : NullHandling) (table : OrdersCdc V) (delivery : Delivery V) :
    OrdersCdc V :=
  match upsert nulls delivery.1 delivery.2.payload (table delivery.orderId) with
  | some row => Function.update table delivery.orderId (some row)
  | none => table

/-- The table after a list of records. -/
def deliver (nulls : NullHandling) (deliveries : List (Delivery V)) : OrdersCdc V :=
  deliveries.foldl (applyRecord nulls) fun _ => none

/-! ### One upsert -/

/-- The columns of the table accept the payload. -/
structure Acceptable (p : Payload V) : Prop where
  currency : (storeChar 3 p.currency).isSome
  version : p.version ≤ maxInteger
  totalAmountCents : p.totalAmountCents ≤ maxBigint

/-- The replica row shows what the payload says. -/
structure ReplicaRow.Carries (row : ReplicaRow V) (p : Payload V) : Prop where
  customerId : row.customerId = p.customerId
  status : row.status = p.status
  totalAmountCents : row.totalAmountCents = p.totalAmountCents
  currency : storeChar 3 p.currency = some row.currency
  lineItems : row.lineItems = p.lineItems
  metadata : row.metadata = p.metadata
  version : row.version = p.version
  isDeleted : row.isDeleted = p.isDeleted
  /-- The only one of these fields that may be null. -/
  shippingAddress : p.shippingAddress.isSome → row.shippingAddress = p.shippingAddress

/-- Whatever describes a stored tuple is accepted by the replica. -/
theorem Describes.acceptable {p : Payload V} {row : Order V} (h : Describes p row)
    (hstored : row.Stored) : Acceptable p where
  currency := by rw [h.currency]; rfl
  version := h.version ▸ hstored.fits.1
  totalAmountCents := h.totalAmountCents ▸ hstored.fits.2

/-- An upsert leaves a row that carries its payload, whatever was there. -/
theorem carries_of_upsert {nulls : NullHandling} {now : Timestamp} {p : Payload V}
    {current : Option (ReplicaRow V)} {row : ReplicaRow V}
    (h : upsert nulls now p current = some row) : row.Carries p := by
  unfold upsert at h
  split at h
  · obtain ⟨currency, hcurrency, rfl⟩ := Option.map_eq_some_iff.mp h
    refine ⟨rfl, rfl, rfl, hcurrency, rfl, rfl, rfl, rfl, fun hsome => ?_⟩
    obtain ⟨address, haddress⟩ := Option.isSome_iff_exists.mp hsome
    cases nulls with
    | written => rfl
    | omitted =>
        show p.shippingAddress.or _ = p.shippingAddress
        rw [haddress, Option.some_or]
  · cases h

/-- A shipping address in the replica is from the payload, or was there before. -/
theorem shippingAddress_of_upsert {nulls : NullHandling} {now : Timestamp} {p : Payload V}
    {current : Option (ReplicaRow V)} {row : ReplicaRow V}
    (h : upsert nulls now p current = some row) (hsome : row.shippingAddress.isSome) :
    p.shippingAddress.isSome ∨ (current.bind ReplicaRow.shippingAddress).isSome := by
  unfold upsert at h
  split at h
  · obtain ⟨currency, -, rfl⟩ := Option.map_eq_some_iff.mp h
    cases nulls with
    | written => exact Or.inl hsome
    | omitted =>
        replace hsome : (p.shippingAddress.or (current.bind ReplicaRow.shippingAddress)).isSome :=
          hsome
        rwa [Option.isSome_or, Bool.or_eq_true] at hsome
  · cases h

theorem exists_upsert {p : Payload V} (h : Acceptable p) (nulls : NullHandling)
    (now : Timestamp) (current : Option (ReplicaRow V)) :
    ∃ row, upsert nulls now p current = some row := by
  obtain ⟨currency, hcurrency⟩ := Option.isSome_iff_exists.mp h.currency
  rw [upsert, if_pos ⟨h.version, h.totalAmountCents⟩, hcurrency]
  exact ⟨_, rfl⟩

/-! ### Any list of records -/

section Deliver

variable (nulls : NullHandling)

theorem deliver_concat (deliveries : List (Delivery V)) (delivery : Delivery V) :
    deliver nulls (deliveries ++ [delivery]) =
      applyRecord nulls (deliver nulls deliveries) delivery := by
  rw [deliver, List.foldl_concat]
  rfl

theorem applyRecord_of_some {table : OrdersCdc V} {delivery : Delivery V} {row : ReplicaRow V}
    (h : upsert nulls delivery.1 delivery.2.payload (table delivery.orderId) = some row) :
    applyRecord nulls table delivery = Function.update table delivery.orderId (some row) := by
  simp only [applyRecord, h]

theorem applyRecord_of_none {table : OrdersCdc V} {delivery : Delivery V}
    (h : upsert nulls delivery.1 delivery.2.payload (table delivery.orderId) = none) :
    applyRecord nulls table delivery = table := by
  simp only [applyRecord, h]

/-- The record of another order leaves a row alone. -/
theorem applyRecord_of_ne {id : UUID} {delivery : Delivery V} (hne : delivery.orderId ≠ id)
    (table : OrdersCdc V) : applyRecord nulls table delivery id = table id := by
  cases hrow : upsert nulls delivery.1 delivery.2.payload (table delivery.orderId) with
  | none => rw [applyRecord_of_none nulls hrow]
  | some row => rw [applyRecord_of_some nulls hrow, Function.update_of_ne hne.symm]

/-- **Last writer wins.**  If the table accepts all records, then a row carries the payload
that was delivered last for its order, and there is no row for an order that no record was
delivered for. -/
theorem deliver_eq {deliveries : List (Delivery V)}
    (h : ∀ delivery ∈ deliveries, Acceptable delivery.2.payload) (id : UUID) :
    Option.Rel (fun row delivery => row.Carries delivery.2.payload) (deliver nulls deliveries id)
      (KeyedLog.last Delivery.orderId id deliveries) := by
  induction deliveries using List.reverseRecOn with
  | nil => exact .none
  | append_singleton deliveries delivery ih =>
      have hbefore := ih fun d hd => h d (List.mem_append_left _ hd)
      rw [deliver_concat]
      by_cases hid : delivery.orderId = id
      · subst hid
        obtain ⟨row, hrow⟩ := exists_upsert (h delivery (by simp)) nulls delivery.1
          (deliver nulls deliveries delivery.orderId)
        rw [KeyedLog.last_concat_self, applyRecord_of_some nulls hrow, Function.update_self]
        exact .some (carries_of_upsert hrow)
      · rw [KeyedLog.last_concat_of_ne Delivery.orderId hid, applyRecord_of_ne nulls hid]
        exact hbefore

/-- A shipping address in the replica was delivered for its order. -/
theorem exists_of_shippingAddress {deliveries : List (Delivery V)} {id : UUID}
    {row : ReplicaRow V} (hrow : deliver nulls deliveries id = some row)
    (hsome : row.shippingAddress.isSome) :
    ∃ delivery ∈ deliveries, delivery.orderId = id ∧
      delivery.2.payload.shippingAddress.isSome := by
  induction deliveries using List.reverseRecOn generalizing row with
  | nil => cases hrow
  | append_singleton deliveries delivery ih =>
      have hearlier : ∀ {row}, deliver nulls deliveries id = some row →
          row.shippingAddress.isSome → ∃ d ∈ deliveries ++ [delivery], d.orderId = id ∧
            d.2.payload.shippingAddress.isSome := by
        intro row hrow hsome
        obtain ⟨d, hd, hfacts⟩ := ih hrow hsome
        exact ⟨d, List.mem_append_left _ hd, hfacts⟩
      rw [deliver_concat] at hrow
      by_cases hid : delivery.orderId = id
      · subst hid
        cases hnew : upsert nulls delivery.1 delivery.2.payload
          (deliver nulls deliveries delivery.orderId) with
        | none =>
            rw [applyRecord_of_none nulls hnew] at hrow
            exact hearlier hrow hsome
        | some new =>
            rw [applyRecord_of_some nulls hnew, Function.update_self, Option.some.injEq] at hrow
            subst hrow
            rcases shippingAddress_of_upsert hnew hsome with hpayload | hbefore
            · exact ⟨delivery, by simp, rfl, hpayload⟩
            · obtain ⟨address, haddress⟩ := Option.isSome_iff_exists.mp hbefore
              obtain ⟨before, hbefore, haddress⟩ := Option.bind_eq_some_iff.mp haddress
              exact hearlier hbefore (Option.isSome_iff_exists.mpr ⟨address, haddress⟩)
      · rw [applyRecord_of_ne nulls hid] at hrow
        exact hearlier hrow hsome

/-- **The replica of a ledger.**  If only events of a ledger are delivered, then a replica
row shows the event of its order that was delivered last. -/
theorem Ledger.deliver_eq [BEq V] {ws : List (Write V)} {es : List (OutboxEvent V)}
    (h : Ledger ws es) {deliveries : List (Delivery V)}
    (hevents : ∀ delivery ∈ deliveries, delivery.2 ∈ es) (id : UUID) :
    Option.Rel (fun row event => row.Carries event.payload) (deliver nulls deliveries id)
      (KeyedLog.last OutboxEvent.aggregateId id (deliveries.map Prod.snd)) := by
  have hacceptable : ∀ delivery ∈ deliveries, Acceptable delivery.2.payload := by
    intro delivery hdelivery
    obtain ⟨write, hwrite, hcorresponds⟩ := h.exists_write (hevents delivery hdelivery)
    exact hcorresponds.payload.acceptable (h.stored write hwrite)
  -- the primary key that the sink uses is the key of the record
  have hkey : ∀ delivery ∈ deliveries, delivery.orderId = delivery.2.aggregateId := by
    intro delivery hdelivery
    obtain ⟨write, -, hcorresponds⟩ := h.exists_write (hevents delivery hdelivery)
    rw [Delivery.orderId, hcorresponds.payload.orderId, hcorresponds.rowId,
      hcorresponds.aggregateId]
  have hlast : KeyedLog.last Delivery.orderId id deliveries =
      KeyedLog.last (fun delivery => delivery.2.aggregateId) id deliveries :=
    congrArg List.getLast? (KeyedLog.entries_congr hkey id)
  have hrow := OutboxPattern.deliver_eq nulls hacceptable id
  rw [hlast] at hrow
  rw [KeyedLog.last_map]
  generalize KeyedLog.last (fun delivery : Delivery V => delivery.2.aggregateId) id deliveries =
    delivery at hrow ⊢
  generalize deliver nulls deliveries id = row at hrow ⊢
  cases hrow with
  | none => exact .none
  | some hcarries => exact .some hcarries

end Deliver

end OutboxPattern
