import Mathlib.Algebra.Order.Ring.Nat
import Mathlib.Data.Finmap
import Mathlib.Data.List.Induction
import OutboxPattern.Lib.CaseMapping

/-!
# Request schemas (`api/app/models/schemas.py`)

What a request body is once pydantic has accepted it.  A request that the schema
rejects never reaches the service, so each schema is a structure that carries the
bounds its validators enforce.

JSON values that the code never looks into (`dict[str, Any]`) are values of an
arbitrary type `V` with the equality test `==` of Python, which need not be
equality: `1 == True` there.  A `dict` is a finite map, since neither Python's `==`
nor `JSONB` see the order of its keys.
-/

namespace OutboxPattern

/-- A 128-bit identifier: `uuid.UUID`, and the column type `UUID`. -/
abbrev UUID := BitVec 128

/-- An instant, in microseconds: `datetime`, and the column type `TIMESTAMPTZ`. -/
abbrev Timestamp := ℕ

/-- A JSON object with keys of type `str` and values in `V`. -/
abbrev JsonObject (V : Type) := Finmap fun _ : String => V

namespace JsonObject

variable {V : Type}

/-- Python's `==` on two dicts: the same keys, with `==` values. -/
def pyEq [BEq V] (a b : JsonObject V) : Bool :=
  decide (a.keys = b.keys) &&
    a.all fun k v => match b.lookup k with
      | some w => v == w
      | none => false

/-- Python's `{**a, **b}`: the entries of both, those of `b` winning. -/
def merge (a b : JsonObject V) : JsonObject V := b ∪ a

theorem all_of_lookup {f : String → V → Bool} (a : JsonObject V)
    (h : ∀ k v, a.lookup k = some v → f k v = true) : a.all f = true := by
  induction a using Finmap.induction_on with
  | H a =>
      have hentries : ∀ entries : List (Σ _ : String, V), (∀ e ∈ entries, e ∈ a.entries) →
          entries.foldl (fun (all : Bool) e => all && f e.1 e.2) true = true := by
        intro entries hmem
        induction entries with
        | nil => rfl
        | cons e entries ih =>
            rw [List.foldl_cons, Bool.true_and,
              h e.1 e.2 (AList.mem_lookup_iff.mpr (hmem e List.mem_cons_self))]
            exact ih fun e' he' => hmem e' (List.mem_cons_of_mem e he')
      exact hentries a.entries fun _ he => he

/-- A dict is `==` to itself, if its values are. -/
theorem pyEq_self [BEq V] [ReflBEq V] (a : JsonObject V) : a.pyEq a = true := by
  rw [pyEq, decide_eq_true rfl, Bool.true_and]
  refine all_of_lookup a fun k v hv => ?_
  rw [hv]
  exact BEq.rfl

end JsonObject

/-- `OrderStatus`, and the SQL type `order_status`. -/
inductive OrderStatus
  | pending | confirmed | processing | shipped | delivered | cancelled | refunded
  deriving DecidableEq, Repr

/-- A line item as it is stored: one JSON object of the column `line_items`. -/
structure LineItem where
  productId : UUID
  quantity : ℕ
  unitPriceCents : ℕ
  deriving DecidableEq, Repr

/-- `LineItemSchema.subtotal_cents`. -/
def LineItem.subtotalCents (item : LineItem) : ℕ := item.quantity * item.unitPriceCents

/-- The sum over line items that `validate_total`, `create_order` and `update_order`
each compute. -/
def totalCents (items : List LineItem) : ℕ := (items.map LineItem.subtotalCents).sum

/-- `LineItemSchema`: a line item within its bounds.  `model_dump(mode="json")` is the
projection `toLineItem`. -/
structure LineItemSchema extends LineItem where
  quantity_ge : 1 ≤ quantity
  quantity_le : quantity ≤ 10000

/-- A shipping address as it is stored: the JSON object of `shipping_address`. -/
structure ShippingAddress where
  street : String
  city : String
  state : String
  zipCode : String
  country : String
  deriving DecidableEq, Repr

/-- `ShippingAddressSchema`: a shipping address within its bounds. -/
structure ShippingAddressSchema extends ShippingAddress where
  street_length : 1 ≤ street.length ∧ street.length ≤ 255
  city_length : 1 ≤ city.length ∧ city.length ≤ 100
  state_length : 2 ≤ state.length ∧ state.length ≤ 100
  zipCode_length : 3 ≤ zipCode.length ∧ zipCode.length ≤ 20
  country_length : 2 ≤ country.length ∧ country.length ≤ 3

/-- `[item.model_dump(mode="json") for item in line_items]`. -/
def dumpLineItems (items : List LineItemSchema) : List LineItem :=
  items.map LineItemSchema.toLineItem

/-- The limit of `CreateOrderRequest.validate_total`, in cents. -/
def maxTotalCents : ℕ := 100000000

/-- `CreateOrderRequest`, as accepted.  `rawCurrency` is the value of `currency` in the body,
whose length is checked before `currency_uppercase` runs. -/
structure CreateOrderRequest (V : Type) where
  customerId : UUID
  lineItems : List LineItemSchema
  rawCurrency : String
  shippingAddress : Option ShippingAddressSchema
  metadata : JsonObject V
  /-- `Field(default="USD", min_length=3, max_length=3)`. -/
  rawCurrency_length : rawCurrency.length = 3
  /-- `Field(..., min_length=1)`. -/
  lineItems_ne_nil : lineItems ≠ []
  /-- `validate_total`. -/
  total_le : totalCents (dumpLineItems lineItems) ≤ maxTotalCents

/-- The field `currency` after `currency_uppercase`. -/
def CreateOrderRequest.currency {V : Type} (req : CreateOrderRequest V) : String :=
  CaseMapping.upper req.rawCurrency

/-- `UpdateOrderRequest`, as accepted.  `status` is what `validate_status` returned:
one of the seven names of `OrderStatus`.  Unlike creation, an update has no lower
bound on the number of line items and no limit on their total. -/
structure UpdateOrderRequest (V : Type) where
  status : Option OrderStatus
  lineItems : Option (List LineItemSchema)
  shippingAddress : Option ShippingAddressSchema
  metadata : Option (JsonObject V)
  version : ℕ
  /-- `Field(..., ge=1)`. -/
  version_ge : 1 ≤ version

end OutboxPattern
