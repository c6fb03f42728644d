import OutboxPattern.Orders.ListOrders
import OutboxPattern.Orders.Refinement

/-!
# What the database can hold

The request layer bounds what it accepts, and three of the values computed from it end in a
bounded type: the currency in a `CHAR(3)`, the total in a `BIGINT`, and the offset of a page in
another.  A value beyond these is a database error, which no handler maps, so the request is
answered with 500.

`capacity_iff` says which accepted requests stay within these types.  A creation checks the
length of the currency before it is put into upper case, which may lengthen it; an update has
no limit on its total, unlike a creation; and the number of a page has no upper limit.
-/

namespace OutboxPattern

variable {V : Type}

/-- What an object sends to `currency` and `total_amount_cents` fits. -/
structure Order.WithinColumns (order : Order V) : Prop where
  currency : order.currency.length = 3
  totalAmountCents : order.totalAmountCents ≤ maxBigint

/-- Whatever key and instant it gets, the object that `create_order` builds fits. -/
def CreateOrderRequest.FitsDatabase (req : CreateOrderRequest V) : Prop :=
  ∀ id now, (createOrder id req now).WithinColumns

/-- `update_order` accepts the request on an order, and what it assigns fits. -/
def UpdateOrderRequest.FitsDatabase (req : UpdateOrderRequest V) (order : Order V) : Prop :=
  ∃ order' changed, updateOrder req order = .ok (order', changed) ∧ order'.WithinColumns

def ListOrdersQuery.FitsDatabase (query : ListOrdersQuery) : Prop := query.offset ≤ maxBigint

/-- An object that fits is stored, if its version is in range. -/
theorem Order.WithinColumns.exists_store {order : Order V} (h : order.WithinColumns)
    (hversion : order.version ≤ maxInteger) : ∃ row, order.store = some row := by
  have hlength : order.currency.toList.length = 3 := by rw [String.length_toList, h.currency]
  have hchar : ∃ currency, storeChar 3 order.currency = some currency := by
    rw [storeChar, List.drop_of_length_le hlength.le]
    exact ⟨_, if_pos rfl⟩
  obtain ⟨currency, hchar⟩ := hchar
  exact ⟨_, Order.store_eq_some_iff.mpr ⟨⟨hversion, h.totalAmountCents⟩, currency, hchar, rfl⟩⟩

/-- A creation fits if each character of its currency has one character as its upper case. -/
theorem createOrderRequest_fits_iff (req : CreateOrderRequest V) :
    req.FitsDatabase ↔ ∀ c ∈ req.rawCurrency.toList, CaseMapping.KeepsLength c := by
  rw [← CaseMapping.length_upper_eq_iff, req.rawCurrency_length]
  refine ⟨fun h => (h 0 0).currency, fun h id now => ⟨h, ?_⟩⟩
  exact req.total_le.trans (by decide)

/-- An update fits if its line items, if it has any, do. -/
theorem updateOrderRequest_fits_iff {req : UpdateOrderRequest V} {order : Order V}
    (hstored : order.Stored) (hversion : order.version = req.version) :
    req.FitsDatabase order ↔
      ∀ items, req.lineItems = some items → totalCents (dumpLineItems items) ≤ maxBigint := by
  obtain ⟨order', changed, hok, hcurrency, htotal⟩ := updateOrder_of_version hversion
  have hlength : order'.currency.length = 3 := by
    rw [hcurrency, ← String.length_toList]
    exact storeChar_length hstored.storeChar_currency
  have hfits : req.FitsDatabase order ↔ order'.totalAmountCents ≤ maxBigint := by
    constructor
    · rintro ⟨order'', changed', hok', hwithin⟩
      rw [hok, Except.ok.injEq, Prod.mk.injEq] at hok'
      exact hok'.1 ▸ hwithin.totalAmountCents
    · exact fun hle => ⟨order', changed, hok, hlength, hle⟩
  rw [hfits, htotal]
  cases req.lineItems with
  | none => exact iff_of_true hstored.fits.2 nofun
  | some items => simp

/-- A page fits if it is not too far behind. -/
theorem listOrdersQuery_fits_iff (query : ListOrdersQuery) :
    query.FitsDatabase ↔ query.page ≤ maxBigint / query.pageSize + 1 := by
  rw [ListOrdersQuery.FitsDatabase, ListOrdersQuery.offset,
    ← Nat.le_div_iff_mul_le query.pageSize_ge, Nat.sub_le_iff_le_add]

/-- A page is answered with a database error if and only if it does not fit. -/
theorem listOrders_database_iff (orderBy : List (Order V) → List (Order V))
    (table : OrdersTable V) {query : ListOrdersQuery} {status : Option OrderStatus}
    (hstatus : statusFilter query.status = .ok status) :
    listOrders orderBy table query = .error .database ↔ ¬ query.FitsDatabase := by
  simp only [listOrders, hstatus, ListOrdersQuery.FitsDatabase]
  split
  · next hfits => exact iff_of_false (by simp) (not_not.mpr hfits)
  · next hlarge => exact iff_of_true rfl hlarge

/-- **When an accepted request fits the database**: a creation, exactly when each character of
its currency has one character as its upper case; an update of an active order of the version
that it expects, exactly when it brings no line items, or such as cost at most `2 ^ 63 - 1`; and
a page, exactly when it is at most `(2 ^ 63 - 1) / page_size + 1`.  What fits is stored, unless its
version is out of range, and a page is a database error exactly when it does not fit. -/
theorem capacity_iff :
    (∀ req : CreateOrderRequest V,
      req.FitsDatabase ↔ ∀ c ∈ req.rawCurrency.toList, CaseMapping.KeepsLength c) ∧
    (∀ (req : UpdateOrderRequest V) (order : Order V), order.Stored → order.deletedAt = none →
      order.version = req.version →
      (req.FitsDatabase order ↔
        ∀ items, req.lineItems = some items → totalCents (dumpLineItems items) ≤ maxBigint)) ∧
    (∀ query : ListOrdersQuery,
      query.FitsDatabase ↔ query.page ≤ maxBigint / query.pageSize + 1) ∧
    (∀ order : Order V, order.WithinColumns → order.version ≤ maxInteger →
      ∃ row, order.store = some row) ∧
    ∀ (orderBy : List (Order V) → List (Order V)) (table : OrdersTable V)
      (query : ListOrdersQuery) (status : Option OrderStatus),
      statusFilter query.status = .ok status →
      (listOrders orderBy table query = .error .database ↔ ¬ query.FitsDatabase) :=
  ⟨createOrderRequest_fits_iff,
    fun _ _ hstored _ hversion => updateOrderRequest_fits_iff hstored hversion,
    listOrdersQuery_fits_iff,
    fun _ hwithin hversion => hwithin.exists_store hversion,
    fun orderBy table _ _ hstatus => listOrders_database_iff orderBy table hstatus⟩

/-! ### Requests that do not fit -/

namespace Sample

/-- The status codes of the answers so far. -/
def statusCodes (w : World ℕ) : List ℕ :=
  w.txs.filterMap fun tx =>
    match tx.phase with
    | .closed response => some (Response.statusCode false response)
    | _ => none

/-- A page with one order, too far behind. -/
def farPage : ListOrdersQuery := ⟨none, none, 2 ^ 63 + 1, 1, by decide, by decide, by decide⟩

end Sample

open Sample in
/-- A creation in ASCII, an update without line items and a first page fit. -/
theorem capacity_iff_sample :
    (createRequest "eur" rfl).FitsDatabase ∧
      (updateRequest (some .confirmed) none).FitsDatabase created ∧
      ListOrdersQuery.FitsDatabase ⟨none, none, 1, 100, by decide, by decide, by decide⟩ := by
  obtain ⟨hcreate, hupdate, hlist, -⟩ := @capacity_iff ℕ
  have hlength : (CaseMapping.upper "eur").length = "eur".length := by decide
  refine ⟨(hcreate _).mpr ((CaseMapping.length_upper_eq_iff _).mp hlength), ?_,
    (hlist _).mpr (by decide)⟩
  exact (hupdate _ created created_stored rfl rfl).mpr nofun

open Sample in
/-- A currency with a sharp s, an update that is too expensive and a page too far behind are
accepted, and do not fit; the first two requests are answered with 500. -/
theorem capacity_exceeded :
    ¬ (createRequest "ßUR" rfl).FitsDatabase ∧
      (created.Stored ∧ created.deletedAt = none ∧ created.version = 1 ∧
        ¬ (updateRequest none (some [costly])).FitsDatabase created) ∧
      ¬ farPage.FitsDatabase ∧
      (World.runFromInit ([.begin 1 (createIn "ßUR" rfl)] ++ statements 1 0)).map statusCodes =
        some [500] ∧
      (World.runFromInit ([.begin 1 create] ++ statements 3 0 ++
        [.begin 1 (update none (some [costly]))] ++ statements 2 1)).map statusCodes =
        some [200, 500] := by
  refine ⟨fun h => ?_, ⟨created_stored, rfl, rfl, ?_⟩, fun h => ?_, by decide, by decide⟩
  · exact absurd (h 0 0).currency (by decide)
  · rintro ⟨order, changed, hok, hwithin⟩
    obtain ⟨order', changed', hok', -, htotal⟩ :=
      @updateOrder_of_version ℕ (updateRequest none (some [costly])) created rfl
    obtain rfl : order' = order := (Prod.mk.inj (Except.ok.inj (hok'.symm.trans hok))).1
    have hle := hwithin.totalAmountCents
    rw [htotal] at hle
    exact absurd hle (by decide)
  · replace h : farPage.offset ≤ maxBigint := h
    exact absurd h (by decide)

end OutboxPattern
