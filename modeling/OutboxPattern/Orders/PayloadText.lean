import OutboxPattern.Lib.JsonCodec
import OutboxPattern.Orders.ListOrders
import OutboxPattern.Orders.OutboxService

/-!
# The text of a payload (`_build_order_payload` of `api/app/services/outbox_service.py`)

A payload leaves the service as a JSON text, and four of its members are strings that hold JSON
texts themselves: `json.dumps` of the line items, the shipping address, the metadata and the names
of the changed fields.  Identifiers, the status and the two timestamps are strings of a format.

The text is not determined by the payload.  The keys of a dict come in the order of insertion or,
once `JSONB` has stored the dict, in another one, and what renders the outer text may write
characters beyond ASCII as they are.
-/

namespace OutboxPattern

open JsonText (Arrangement Codec Format)

/-! ### Formats -/

/-- `str(id)`: 32 hexadecimal digits in five groups. -/
def UUID.str (id : UUID) : String :=
  let hex := Hexadecimal.encode 32 id.toNat
  String.ofList (hex.take 8 ++ '-' :: ((hex.drop 8).take 4 ++ '-' :: ((hex.drop 12).take 4 ++
    '-' :: ((hex.drop 16).take 4 ++ '-' :: hex.drop 20))))

/-- The identifier that a text stands for, wherever it has its hyphens. -/
def UUID.parse? (text : String) : Option UUID :=
  let hex := text.toList.filter (· != '-')
  if hex.length = 32 then (Hexadecimal.decode hex).map (BitVec.ofNat 128) else none

/-- Without the hyphens, the groups are the digits again. -/
theorem filter_groups {hex : List Char} (h : ∀ c ∈ hex, c ≠ '-') :
    (hex.take 8 ++ '-' :: ((hex.drop 8).take 4 ++ '-' :: ((hex.drop 12).take 4 ++
      '-' :: ((hex.drop 16).take 4 ++ '-' :: hex.drop 20)))).filter (· != '-') = hex := by
  have hself : ∀ part : List Char, (∀ c ∈ part, c ∈ hex) →
      part.filter (· != '-') = part := by
    intro part hpart
    rw [List.filter_eq_self]
    exact fun c hc => bne_iff_ne.mpr (h c (hpart c hc))
  have htake : ∀ m n : ℕ, ((hex.drop m).take n).filter (· != '-') = (hex.drop m).take n :=
    fun m n => hself _ fun c hc => List.mem_of_mem_drop (List.mem_of_mem_take hc)
  have hdrop : ∀ m n : ℕ, (hex.drop m).take n ++ hex.drop (m + n) = hex.drop m := by
    intro m n
    rw [← List.drop_drop, List.take_append_drop]
  have hhyphen : ∀ part : List Char, ('-' :: part).filter (· != '-') = part.filter (· != '-') :=
    fun part => List.filter_cons_of_neg (by decide)
  simp only [List.filter_append, hhyphen, htake]
  rw [hself (hex.take 8) fun c => List.mem_of_mem_take,
    hself (hex.drop 20) fun c => List.mem_of_mem_drop, hdrop 16 4, hdrop 12 4, hdrop 8 4,
    List.take_append_drop]

theorem UUID.parse?_str (id : UUID) : UUID.parse? id.str = some id := by
  have hex : ∀ c ∈ Hexadecimal.encode 32 id.toNat, c ≠ '-' := by
    rintro c hc rfl
    exact absurd (Hexadecimal.digitValue_isSome_of_mem hc) (by decide)
  have hfits : id.toNat < 16 ^ 32 := lt_of_lt_of_eq id.isLt (by norm_num)
  simp only [parse?, str, String.toList_ofList, filter_groups hex, Hexadecimal.length_encode,
    if_pos, Hexadecimal.decode_encode hfits, Option.map_some, BitVec.ofNat_toNat,
    BitVec.setWidth_eq]

def UUID.format : Format UUID := ⟨UUID.str, UUID.parse?, UUID.parse?_str⟩

def OrderStatus.format : Format OrderStatus :=
  ⟨OrderStatus.value, OrderStatus.ofValue?, OrderStatus.ofValue?_value⟩

/-- The names that `update_order` collects in `changed_fields`. -/
def OrderField.name : OrderField → String
  | .status => "status"
  | .lineItems => "line_items"
  | .totalAmountCents => "total_amount_cents"
  | .shippingAddress => "shipping_address"
  | .metadata => "metadata"

/-- The name of a field, read back. -/
def OrderField.ofName? (name : String) : Option OrderField :=
  [.status, .lineItems, .totalAmountCents, .shippingAddress, .metadata].find?
    fun field => field.name == name

theorem OrderField.ofName?_name (field : OrderField) :
    OrderField.ofName? field.name = some field := by
  cases field <;> decide

def OrderField.format : Format OrderField :=
  ⟨OrderField.name, OrderField.ofName?, OrderField.ofName?_name⟩

/-! ### Codecs -/

/-- How the parts of a payload that the code does not write itself are written. -/
structure PayloadFormats (V : Type) where
  /-- The values of a `metadata` dict, which the code never looks into. -/
  value : Codec V
  /-- `datetime.isoformat`, and its inverse. -/
  isoformat : Format Timestamp

/-- An order of the keys of every dict. -/
structure KeyOrder (V : Type) where
  arrangement : Arrangement
  /-- The entries of a `metadata` dict. -/
  entries : JsonObject V → List (Σ _ : String, V)
  coe_entries : ∀ metadata, (entries metadata : Multiset (Σ _ : String, V)) = metadata.entries

namespace KeyOrder

variable {V : Type} (order : KeyOrder V)

/-- `LineItemSchema.model_dump(mode="json")`. -/
def lineItem : Codec LineItem :=
  .record order.arrangement
    (fun item =>
      [("product_id", UUID.format.codec.encode item.productId),
        ("quantity", Codec.nat.encode item.quantity),
        ("unit_price_cents", Codec.nat.encode item.unitPriceCents)])
    (fun lookup => do
      return {
        productId := ← Codec.field lookup "product_id" UUID.format.codec
        quantity := ← Codec.field lookup "quantity" .nat
        unitPriceCents := ← Codec.field lookup "unit_price_cents" .nat })
    (fun item => by simp)
    (fun item => by simp [Codec.field, List.lookup_cons])

/-- `ShippingAddressSchema.model_dump(mode="json")`. -/
def shippingAddress : Codec ShippingAddress :=
  .record order.arrangement
    (fun address =>
      [("street", Codec.string.encode address.street),
        ("city", Codec.string.encode address.city),
        ("state", Codec.string.encode address.state),
        ("zip_code", Codec.string.encode address.zipCode),
        ("country", Codec.string.encode address.country)])
    (fun lookup => do
      return {
        street := ← Codec.field lookup "street" .string
        city := ← Codec.field lookup "city" .string
        state := ← Codec.field lookup "state" .string
        zipCode := ← Codec.field lookup "zip_code" .string
        country := ← Codec.field lookup "country" .string })
    (fun address => by simp)
    (fun address => by simp [Codec.field, List.lookup_cons])

end KeyOrder

namespace PayloadFormats

variable {V : Type} (formats : PayloadFormats V) (order : KeyOrder V)

def metadata : Codec (JsonObject V) :=
  .dict formats.value order.entries order.coe_entries

/-- The dict of `_build_order_payload`, with `changed_fields` as `record_order_updated` sets it. -/
def payload : Codec (Payload V) :=
  .record order.arrangement
    (fun p =>
      [("order_id", UUID.format.codec.encode p.orderId),
        ("customer_id", UUID.format.codec.encode p.customerId),
        ("status", OrderStatus.format.codec.encode p.status),
        ("line_items", order.lineItem.list.nested.codec.encode p.lineItems),
        ("total_amount_cents", Codec.nat.encode p.totalAmountCents),
        ("currency", Codec.string.encode p.currency),
        ("shipping_address", order.shippingAddress.nested.orNull.encode p.shippingAddress),
        ("metadata", (formats.metadata order).nested.codec.encode p.metadata),
        ("changed_fields", OrderField.format.codec.list.nested.orNull.encode p.changedFields),
        ("version", Codec.nat.encode p.version),
        ("is_deleted", Codec.bool.encode p.isDeleted),
        ("order_created_at", formats.isoformat.orNull.encode p.orderCreatedAt),
        ("order_updated_at", formats.isoformat.orNull.encode p.orderUpdatedAt)])
    (fun lookup => do
      return {
        orderId := ← Codec.field lookup "order_id" UUID.format.codec
        customerId := ← Codec.field lookup "customer_id" UUID.format.codec
        status := ← Codec.field lookup "status" OrderStatus.format.codec
        lineItems := ← Codec.field lookup "line_items" order.lineItem.list.nested.codec
        totalAmountCents := ← Codec.field lookup "total_amount_cents" .nat
        currency := ← Codec.field lookup "currency" .string
        shippingAddress :=
          ← Codec.field lookup "shipping_address" order.shippingAddress.nested.orNull
        metadata := ← Codec.field lookup "metadata" (formats.metadata order).nested.codec
        changedFields :=
          ← Codec.field lookup "changed_fields" OrderField.format.codec.list.nested.orNull
        version := ← Codec.field lookup "version" .nat
        isDeleted := ← Codec.field lookup "is_deleted" .bool
        orderCreatedAt := ← Codec.field lookup "order_created_at" formats.isoformat.orNull
        orderUpdatedAt := ← Codec.field lookup "order_updated_at" formats.isoformat.orNull })
    (fun p => by simp)
    (fun p => by simp [Codec.field, List.lookup_cons])

/-- The text of a payload. -/
def dumps (ascii : Bool) (p : Payload V) : String :=
  JsonText.dumps ascii ((formats.payload order).encode p)

/-- The payload of a text. -/
def loads? (text : String) : Option (Payload V) :=
  (JsonText.loads text).bind (formats.payload order).decode

/-- No reading depends on an order of keys. -/
theorem decode_payload (reader writer : KeyOrder V) :
    (formats.payload reader).decode = (formats.payload writer).decode :=
  rfl

/-- **A payload is read back from its text**, whatever the order of the keys in it. -/
theorem loads?_dumps (reader writer : KeyOrder V) (ascii : Bool) (p : Payload V) :
    formats.loads? reader (formats.dumps writer ascii p) = some p := by
  rw [loads?, dumps, JsonText.loads_dumps, Option.bind_some, formats.decode_payload reader writer,
    Codec.decode_encode]

end PayloadFormats

end OutboxPattern
