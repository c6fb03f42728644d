import OutboxPattern.Guarantees.Totals

/-!
# What two overlapping updates leave

The flush of an update sends only the columns whose assigned value differs from the loaded one.
Two updates that overlap are therefore merged column by column, and neither request's object is
what the table holds in the end: one update may lose its `status` and keep its `line_items`.

`lastAssignmentWins` says what a row holds after any run, in every `Column`: all but the key, which
nothing assigns, and `updated_at`, which every write stamps.  A column has the value that some
committed write of the order had assigned to it, and no later write of the order has assigned the
column at all.  "Assigned" is SQLAlchemy's comparison with the row that the request had *loaded*
(`Write.Sets`), not with the row that it overwrote: a write that assigns the value it has loaded
leaves the column to whoever wrote it meanwhile.
-/

namespace OutboxPattern

variable {V : Type}

/-- No update or delete assigns the customer, the currency or the time of creation. -/
theorem Assigns.keeps {operation : Operation V} {loaded order : Order V}
    {changed : List OrderField} (h : Assigns operation loaded order changed) :
    order.customerId = loaded.customerId ∧ order.currency = loaded.currency ∧
      order.createdAt = loaded.createdAt := by
  cases h with
  | update updated changes =>
      rw [((updateOrder_eq_ok_iff changes).mp updated).2.2, UpdateOrder.assign_fst]
      exact ⟨rfl, rfl, rfl⟩
  | delete => exact ⟨rfl, rfl, rfl⟩

/-- The columns of `orders` but for two: `id`, the key, and `updated_at`, which every write stamps
whether the request assigns anything or not. -/
inductive Column
  | customerId | status | lineItems | totalAmountCents | currency | shippingAddress | metadata
  | deletedAt | version | createdAt
  deriving DecidableEq, Repr

namespace Column

/-- The values of a column. -/
abbrev Value (V : Type) : Column → Type
  | customerId => UUID
  | status => OrderStatus
  | lineItems => List LineItem
  | totalAmountCents => ℕ
  | currency => String
  | shippingAddress => Option ShippingAddress
  | metadata => JsonObject V
  | deletedAt => Option Timestamp
  | version => ℕ
  | createdAt => Timestamp

/-- The value a row or a mapped object has in a column. -/
def value : (column : Column) → Order V → column.Value V
  | customerId => Order.customerId
  | status => Order.status
  | lineItems => Order.lineItems
  | totalAmountCents => Order.totalAmountCents
  | currency => Order.currency
  | shippingAddress => Order.shippingAddress
  | metadata => Order.metadata
  | deletedAt => Order.deletedAt
  | version => Order.version
  | createdAt => Order.createdAt

/-- The comparison by which a flush decides whether to send a column. -/
def Same [BEq V] : (column : Column) → Order V → Order V → Prop
  | metadata, order, loaded => order.metadata.pyEq loaded.metadata = true
  | column, order, loaded => column.value order = column.value loaded

/-- The row holds what the object had assigned to the column: the value itself, but for the
padding of `CHAR(3)`. -/
def StoredIn : (column : Column) → Order V → Order V → Prop
  | currency, object, row => storeChar 3 object.currency = some row.currency
  | column, object, row => column.value row = column.value object

theorem StoredIn.congr {column : Column} {object row row' : Order V}
    (h : column.StoredIn object row) (heq : column.value row = column.value row') :
    column.StoredIn object row' := by
  cases column with
  | currency => exact h.trans (congrArg some heq)
  | _ => exact heq.symm.trans h

/-- **An overwrite, column by column.** -/
theorem value_overwrite [BEq V] (column : Column) {operation : Operation V}
    {loaded order : Order V} {changed : List OrderField}
    (h : Assigns operation loaded order changed) (base : Order V) (now : Timestamp) :
    (column.Same order loaded →
      column.value (Order.overwrite loaded order base now) = column.value base) ∧
    (¬ column.Same order loaded →
      column.value (Order.overwrite loaded order base now) = column.value order) := by
  obtain ⟨hcustomer, hcurrency, hcreated⟩ := h.keeps
  cases column with
  | customerId => exact ⟨fun _ => rfl, fun hne => absurd hcustomer hne⟩
  | currency => exact ⟨fun _ => rfl, fun hne => absurd hcurrency hne⟩
  | createdAt => exact ⟨fun _ => rfl, fun hne => absurd hcreated hne⟩
  | _ => exact ⟨fun heq => if_pos heq, fun hne => if_neg hne⟩

end Column

/-! ### The object of a write -/

/-- The mapped object that the request of a write had flushed, computed from the request and from
the row it had loaded. -/
def Write.object (ws : List (Write V)) (write : Write V) : Option (Order V) :=
  match write.request.operation with
  | .create req => some (createOrder write.orderId req write.began)
  | .update req => (write.loaded ws).map fun loaded =>
      { (UpdateOrder.assign req loaded).1 with version := loaded.version + 1 }
  | .delete at_ => (write.loaded ws).map (deleteOrder at_)
  | .get => none

/-- A write sets a column if its object differs there from the row that was loaded.  An `INSERT`,
for which none was loaded, sets all. -/
def Write.Sets [BEq V] (ws : List (Write V)) (column : Column) (write : Write V) : Prop :=
  ∀ loaded object, write.loaded ws = some loaded → write.object ws = some object →
    ¬ column.Same object loaded

/-- An update or a delete assigns the object of its write. -/
theorem Write.object_of_assigns {ws : List (Write V)} {write : Write V} {loaded order : Order V}
    {changed : List OrderField} (hread : write.loaded ws = some loaded)
    (h : Assigns write.request.operation loaded order changed) :
    write.object ws = some order := by
  unfold Write.object
  generalize hoperation : write.request.operation = operation at h
  cases h with
  | update updated changes =>
      rw [hread, ((updateOrder_eq_ok_iff changes).mp updated).2.2]
      rfl
  | delete =>
      rw [hread]
      rfl

/-- **What one write does to one column**: it stores its object's value, or repeats the value that
was there. -/
theorem Commits.column [BEq V] {ws : List (Write V)} {write : Write V} {event : OutboxEvent V}
    (h : Commits ws write event) (column : Column) :
    (¬ write.Sets ws column →
      (rowAt ws write.orderId).map column.value = some (column.value write.new)) ∧
    (write.Sets ws column →
      ∃ object, write.object ws = some object ∧ column.StoredIn object write.new) := by
  cases h with
  | @insert t request req now snapshot row event operation absent stored recorded =>
      have hloaded : ∀ row',
          Write.loaded ws ⟨t, request, now, snapshot, none, row⟩ ≠ some row' := by
        intro row' hread
        obtain ⟨first, hmem, hid, -⟩ := exists_write_of_rowAt hread
        exact rowAt_eq_none_iff.mp absent first (List.mem_of_mem_take hmem) hid
      obtain ⟨-, currency, hcurrency, rfl⟩ := Order.store_eq_some_iff.mp stored
      refine ⟨fun hnot => absurd (fun loaded _ hread => absurd hread (hloaded loaded)) hnot,
        fun _ => ⟨createOrder request.orderId req now, by rw [Write.object, operation]; rfl, ?_⟩⟩
      cases column with
      | currency => exact hcurrency
      | _ => rfl
  | @overwrite t request now snapshot loaded order base row changed event _ read _ assigns current
      written _ =>
      obtain ⟨-, rfl⟩ := Order.updateRow_eq_some_iff.mp written
      have hobject : Write.object ws ⟨t, request, now, snapshot, some base,
          Order.overwrite loaded order base now⟩ = some order :=
        Write.object_of_assigns read assigns
      obtain ⟨hsame, hdiffers⟩ := column.value_overwrite assigns base now
      constructor
      · intro hnot
        have hcompare : column.Same order loaded := by
          by_contra hne
          refine hnot fun loaded' object hread hobject' => ?_
          obtain rfl := Option.some.inj (read.symm.trans hread)
          obtain rfl := Option.some.inj (hobject.symm.trans hobject')
          exact hne
        show (rowAt ws request.orderId).map column.value = _
        rw [current, Option.map_some, hsame hcompare]
      · intro hsets
        have hne := hsets loaded order read hobject
        refine ⟨order, hobject, ?_⟩
        have hvalue := hdiffers hne
        cases column with
        | currency => exact absurd assigns.keeps.2.1 hne
        | _ => exact hvalue

/-- The write at the position `i` is the last of the order's writes to set the column. -/
structure LastSetter [BEq V] (ws : List (Write V)) (id : UUID) (column : Column) (i : ℕ)
    (write : Write V) : Prop where
  position : ws[i]? = some write
  orderId : write.orderId = id
  sets : write.Sets (ws.take i) column
  last : ∀ (j : ℕ) (later : Write V), i < j → ws[j]? = some later → later.orderId = id →
    ¬ later.Sets (ws.take j) column

/-- **The last assignment wins, column by column.**  After any run, each column of a row (other
than `id` and `updated_at`) holds what some committed write of the order had assigned to it, and no
write of the order that was committed later has set that column. -/
theorem lastAssignmentWins [BEq V] {schedule : List (Action V)} {w : World V}
    (h : World.runFromInit schedule = some w) {id : UUID} {row : Order V}
    (hrow : (w.orders id).committed = some row) (column : Column) :
    ∃ i write object, LastSetter w.history id column i write ∧
      write.object (w.history.take i) = some object ∧ column.StoredIn object row := by
  have hinv := World.inv_of_run h
  have hrepeats : KeyedLog.AllEntries (fun ws write => ¬ write.Sets ws column →
      (KeyedLog.last Write.orderId write.orderId ws).map (fun write => column.value write.new) =
        some (column.value write.new)) w.history := by
    intro i write hwrite hnot
    obtain ⟨event, -, hcommits⟩ := hinv.ledger.entry hwrite
    have hkept := (hcommits.column column).1 hnot
    rwa [rowAt, Option.map_map] at hkept
  rw [hinv.table] at hrow
  obtain ⟨last, hlast, rfl⟩ := Option.map_eq_some_iff.mp hrow
  obtain ⟨i, write, hi, hid, hsets, hvalue, hlater⟩ :=
    KeyedLog.exists_lastSetter Write.orderId (fun write => column.value write.new) hrepeats hlast
  obtain ⟨event, -, hcommits⟩ := hinv.ledger.entry hi
  obtain ⟨object, hobject, hstored⟩ := (hcommits.column column).2 hsets
  exact ⟨i, write, object, ⟨hi, hid, hsets, hlater⟩, hobject, hstored.congr hvalue⟩

/-- The items were set last by an update that had lost its total to the other one. -/
theorem lastAssignmentWins_mixed :
    ∃ w row, World.runFromInit Sample.mixed = some w ∧
      (w.orders Sample.orderId).committed = some row ∧
      ∃ i write object, LastSetter w.history Sample.orderId .lineItems i write ∧
        write.object (w.history.take i) = some object ∧
        Column.StoredIn .lineItems object row := by
  have hrun : ((World.runFromInit Sample.mixed).bind
      fun w => (w.orders Sample.orderId).committed).isSome := by decide
  obtain ⟨row, hrow⟩ := Option.isSome_iff_exists.mp hrun
  obtain ⟨w, hw, hrow⟩ := Option.bind_eq_some_iff.mp hrow
  exact ⟨w, row, hw, hrow, lastAssignmentWins hw hrow .lineItems⟩

end OutboxPattern
