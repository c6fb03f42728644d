import OutboxPattern.Guarantees.Atomicity
import OutboxPattern.Lib.Pagination
import OutboxPattern.Orders.ListOrders

/-!
# Paging through the orders

A client lists the orders of a filter page by page, and nothing is written meanwhile.  The total
is right on every page, every page is as long as it should be, and the pages are in descending
order of `created_at`.  Whether they contain every order once is another matter, since
`created_at` is all that the orders are sorted by: `pagination_iff` says that they do, however
the database breaks ties, exactly when no page ends between two orders of one instant.

The second condition of `pagination_iff` is on how far the client goes: the offset of a page far
behind the last one does not fit its type.
-/

namespace OutboxPattern

variable {V : Type}

/-- What a client asks for on every page. -/
structure ListFilter where
  customerId : Option UUID
  status : Option OrderStatus
  pageSize : ℕ
  pageSize_ge : 1 ≤ pageSize
  pageSize_le : pageSize ≤ 100

namespace ListFilter

/-- The request for a page. -/
def query (filter : ListFilter) (page : ℕ) (hpage : 1 ≤ page) : ListOrdersQuery where
  customerId := filter.customerId
  status := filter.status.map OrderStatus.value
  page := page
  pageSize := filter.pageSize
  page_ge := hpage
  pageSize_ge := filter.pageSize_ge
  pageSize_le := filter.pageSize_le

variable (filter : ListFilter) (table : OrdersTable V)

/-- The active orders that match. -/
def orders : List (Order V) := table.matching filter.customerId filter.status

/-- `ceil(total / page_size)`. -/
def pageCount : ℕ := ((filter.orders table).length + filter.pageSize - 1) / filter.pageSize

/-- The pages up to `last` contain every matching order once, newest first, the ones behind the
end are empty, and all report the same total. -/
def Partitions (last : ℕ) (orderBy : ℕ → List (Order V) → List (Order V)) : Prop :=
  ∃ items : ℕ → List (Order V),
    (∀ page (hpage : 1 ≤ page), page ≤ last →
      listOrders (orderBy page) table (filter.query page hpage) =
        .ok (items page, (filter.orders table).length)) ∧
    ((List.range' 1 (filter.pageCount table)).flatMap items).Perm (filter.orders table) ∧
    (((List.range' 1 (filter.pageCount table)).flatMap items).Pairwise
      fun a b => b.createdAt ≤ a.createdAt) ∧
    ∀ page, filter.pageCount table < page → page ≤ last → items page = []

/-- **Pagination partitions the result**, however the database breaks ties in each query. -/
def PaginationHolds (last : ℕ) : Prop :=
  ∀ orderBy : ℕ → List (Order V) → List (Order V),
    (∀ page, Pagination.Sorts Order.createdAt (orderBy page (filter.orders table))
      (filter.orders table)) →
    filter.Partitions table last orderBy

section Pages

variable {filter table} {orderBy : List (Order V) → List (Order V)}

theorem listOrders_query {page : ℕ} (hpage : 1 ≤ page) :
    listOrders orderBy table (filter.query page hpage) =
      if (page - 1) * filter.pageSize ≤ maxBigint then
        .ok (Pagination.page (orderBy (filter.orders table)) filter.pageSize page,
          (filter.orders table).length)
      else .error .database := by
  simp only [listOrders, query, statusFilter_value]
  rfl

/-- A page that is answered is a page of the sorted list, and its offset fits. -/
theorem listOrders_eq_ok_iff {page : ℕ} {hpage : 1 ≤ page} {items : List (Order V)} {total : ℕ} :
    listOrders orderBy table (filter.query page hpage) = .ok (items, total) ↔
      (page - 1) * filter.pageSize ≤ maxBigint ∧
        Pagination.page (orderBy (filter.orders table)) filter.pageSize page = items ∧
        (filter.orders table).length = total := by
  rw [listOrders_query]
  split
  · next hoffset =>
    rw [Except.ok.injEq, Prod.mk.injEq]
    exact (and_iff_right hoffset).symm
  · next hoffset => exact iff_of_false (by simp) fun h => hoffset h.1

theorem length_le_pageCount (filter : ListFilter) (table : OrdersTable V) :
    (filter.orders table).length ≤ filter.pageCount table * filter.pageSize := by
  have hdiv := Nat.div_add_mod ((filter.orders table).length + filter.pageSize - 1) filter.pageSize
  have hmod := Nat.mod_lt ((filter.orders table).length + filter.pageSize - 1) filter.pageSize_ge
  rw [pageCount, Nat.mul_comm]
  omega

theorem orders_nodup (filter : ListFilter) (table : OrdersTable V) :
    (filter.orders table).Nodup := table.rows_nodup.filter _

/-- The pages of `Partitions`, where the offsets fit. -/
theorem flatMap_items {last : ℕ} {sorted items : ℕ → List (Order V)}
    (hlast : filter.pageCount table ≤ last)
    (hitems : ∀ page, 1 ≤ page → page ≤ last →
      items page = Pagination.page (sorted page) filter.pageSize page) :
    (List.range' 1 (filter.pageCount table)).flatMap items =
      Pagination.pages sorted filter.pageSize (filter.pageCount table) := by
  refine List.flatMap_congr fun page hpage => ?_
  rw [List.mem_range'_1] at hpage
  exact hitems page hpage.1 (by omega)

end Pages

/-- **When pagination partitions the result.**  A client that goes as far as page `last` is sure
to see every order once if and only if every page boundary within the result is one between
two instants, so that exactly the orders before it were created at some instant or later, and
the offset of the last page fits a `BIGINT`. -/
theorem pagination_iff {last : ℕ} (hlast : filter.pageCount table ≤ last) :
    filter.PaginationHolds table last ↔
      (∀ n, 0 < n → n * filter.pageSize < (filter.orders table).length →
        ∃ instant, (filter.orders table).countP (fun order => instant ≤ order.createdAt) =
          n * filter.pageSize) ∧
      (last - 1) * filter.pageSize ≤ maxBigint := by
  have hpages := Pagination.pages_perm_iff Order.createdAt (filter.orders_nodup table)
    filter.pageSize_ge (filter.length_le_pageCount table)
  constructor
  · intro h
    refine ⟨hpages.mp fun sorted hsorted => ?_, ?_⟩
    · obtain ⟨items, hok, hperm, -⟩ := h (fun page _ => sorted page) hsorted
      rwa [flatMap_items hlast fun page hpage hle =>
        (listOrders_eq_ok_iff.mp (hok page hpage hle)).2.1.symm] at hperm
    · obtain ⟨sorted, hsorted⟩ := Pagination.exists_sorts Order.createdAt (filter.orders table)
      obtain ⟨items, hok, -⟩ := h (fun _ _ => sorted) fun _ => hsorted
      rcases Nat.eq_zero_or_pos last with rfl | hpos
      · rw [Nat.zero_sub, Nat.zero_mul]
        exact Nat.zero_le _
      · exact (listOrders_eq_ok_iff.mp (hok last hpos le_rfl)).1
  · rintro ⟨hcuts, hoffset⟩ orderBy horderBy
    have hfits : ∀ page, page ≤ last → (page - 1) * filter.pageSize ≤ maxBigint := fun page hle =>
      (Nat.mul_le_mul_right _ (Nat.sub_le_sub_right hle 1)).trans hoffset
    refine ⟨fun page =>
      Pagination.page (orderBy page (filter.orders table)) filter.pageSize page,
      fun page hpage hle => listOrders_eq_ok_iff.mpr ⟨hfits page hle, rfl, rfl⟩, ?_, ?_,
      fun page hlt _ => ?_⟩
    · exact hpages.mpr hcuts _ horderBy
    · exact Pagination.Sorts.pairwise_pages horderBy _
    · refine Pagination.page_eq_nil ((horderBy page).perm.length_eq ▸ ?_)
      exact (filter.length_le_pageCount table).trans
        (Nat.mul_le_mul_right _ (Nat.le_sub_one_of_lt hlt))

end ListFilter

/-! ### The table of a reachable world -/

section Table

variable [BEq V] {w : World V}

/-- The row of an order stands under its own key. -/
theorem World.Inv.id_of_committed (h : w.Inv) {id : UUID} {row : Order V}
    (hrow : (w.orders id).committed = some row) : row.id = id :=
  h.ledger.row_id_of_rowAt ((h.table id).symm.trans hrow)

/-- The committed rows of a reachable world. -/
def World.ordersTable (w : World V) (h : w.Inv) : OrdersTable V where
  rows := (w.history.map Write.orderId).dedup.filterMap fun id => (w.orders id).committed
  ids_nodup := by
    rw [List.Nodup, List.pairwise_map, List.pairwise_filterMap]
    refine (List.nodup_dedup _).imp fun hne row hrow row' hrow' heq => hne ?_
    rw [← h.id_of_committed hrow, ← h.id_of_committed hrow', heq]

/-- They are the rows of all orders, so `pagination_iff` is about any reachable world. -/
theorem World.mem_ordersTable_iff (h : w.Inv) {row : Order V} :
    row ∈ (w.ordersTable h).rows ↔ (w.orders row.id).committed = some row := by
  refine List.mem_filterMap.trans ⟨?_, fun hrow => ⟨row.id, ?_, hrow⟩⟩
  · rintro ⟨id, -, hrow⟩
    rwa [h.id_of_committed hrow]
  · rw [h.table] at hrow
    obtain ⟨write, hmem, hkey, -⟩ := exists_write_of_rowAt hrow
    exact List.mem_dedup.mpr (List.mem_map.mpr ⟨write, hmem, hkey⟩)

end Table

namespace Sample

/-- An order as it was created at some instant. -/
def listed (id : UUID) (createdAt : Timestamp) : Order ℕ where
  id := id
  customerId := 2
  status := .pending
  lineItems := []
  totalAmountCents := 0
  currency := "EUR"
  shippingAddress := none
  metadata := ∅
  deletedAt := none
  version := 1
  createdAt := createdAt
  updatedAt := createdAt

/-- All orders, with so many on a page. -/
def everyOrder (pageSize : ℕ) (hge : 1 ≤ pageSize) (hle : pageSize ≤ 100) : ListFilter :=
  ⟨none, none, pageSize, hge, hle⟩

/-- Two orders of one instant and two of the next one. -/
def tied : OrdersTable ℕ where
  rows := [listed 1 4, listed 2 4, listed 3 5, listed 4 5]
  ids_nodup := by decide

/-- Page 2 is answered by a query that breaks both ties the other way. -/
def orderBy (page : ℕ) (_ : List (Order ℕ)) : List (Order ℕ) :=
  if page = 2 then [listed 4 5, listed 3 5, listed 2 4, listed 1 4]
  else [listed 3 5, listed 4 5, listed 1 4, listed 2 4]

end Sample

open Sample in
/-- Ties within a page do no harm. -/
theorem pagination_iff_tied :
    (everyOrder 2 (by decide) (by decide)).PaginationHolds tied 2 := by
  refine (ListFilter.pagination_iff _ tied (by decide)).mpr ⟨fun n hn hlt => ?_, by decide⟩
  have hlt' : n * 2 < 4 := hlt
  obtain rfl : n = 1 := by omega
  exact ⟨5, by decide⟩

open Sample in
/-- On pages of one order, an order is on the first page and again on the second. -/
theorem pagination_repeats :
    (∀ page, Pagination.Sorts Order.createdAt (orderBy page tied.rows) tied.rows) ∧
      ¬ (everyOrder 1 (by decide) (by decide)).PaginationHolds tied 4 := by
  have hsorts : ∀ page, Pagination.Sorts Order.createdAt (orderBy page tied.rows) tied.rows := by
    intro page
    unfold orderBy
    split
    · exact ⟨List.reverse_perm tied.rows, by decide⟩
    · exact ⟨@List.perm_append_comm _ (tied.rows.drop 2) (tied.rows.take 2), by decide⟩
  refine ⟨hsorts, fun h => ?_⟩
  obtain ⟨items, hok, hperm, -⟩ := h orderBy hsorts
  have hpages : ∀ page, 1 ≤ page → page ≤ 4 →
      items page = Pagination.page (orderBy page tied.rows) 1 page := fun page hpage hle =>
    (ListFilter.listOrders_eq_ok_iff.mp (hok page hpage hle)).2.1.symm
  have hids := hperm.map Order.id
  rw [ListFilter.flatMap_items (by decide) hpages] at hids
  exact absurd hids (by decide)

end OutboxPattern
