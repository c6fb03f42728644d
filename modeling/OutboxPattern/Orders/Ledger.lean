import OutboxPattern.Lib.KeyedLog
import OutboxPattern.Orders.Session

/-!
# The ledger of committed writes

Seen from its committed states, the service is a ledger: a list of writes of `orders`
and, entry by entry, a list of outbox events.  This file says what one entry of it can
be, in terms of the entries before it only: no session, no lock, no statement.

`Commits ws write event` is one entry.  An `INSERT` needs the key to be absent.  An
overwrite starts from the row it loaded, which is the order's row after the first
`snapshot` writes, and lands on the row after *all* writes so far.  The distance between
the two is where the concurrent behaviour of the service lies, and `Write.FirstCommitter`
is the case in which there is none.

`OutboxPattern.Orders.Refinement` shows that every reachable `World` has such a ledger.
-/

namespace OutboxPattern

variable {V : Type}

/-- The order a write belongs to. -/
def Write.orderId (write : Write V) : UUID := write.request.orderId

/-- The row of an order after the writes `ws`. -/
def rowAt (ws : List (Write V)) (id : UUID) : Option (Order V) :=
  (KeyedLog.last Write.orderId id ws).map Write.new

/-- The writes of one order. -/
abbrev writesOf (ws : List (Write V)) (id : UUID) : List (Write V) :=
  KeyedLog.entries Write.orderId id ws

/-- The row that the request of a write had loaded. -/
def Write.loaded (ws : List (Write V)) (write : Write V) : Option (Order V) :=
  rowAt (ws.take write.snapshot) write.orderId

/-- **First committer wins**: between the `SELECT` of the write's request and its commit,
no other transaction committed a write of the order. -/
def Write.FirstCommitter (ws : List (Write V)) (write : Write V) : Prop :=
  KeyedLog.Fresh Write.orderId Write.snapshot ws write

/-- There is no row of an order that was never written. -/
theorem rowAt_eq_none_iff {ws : List (Write V)} {id : UUID} :
    rowAt ws id = none ↔ KeyedLog.Untouched Write.orderId id ws := by
  rw [rowAt, Option.map_eq_none_iff, KeyedLog.last_eq_none_iff]

/-- The row of an order was left by one of its writes. -/
theorem exists_write_of_rowAt {ws : List (Write V)} {id : UUID} {row : Order V}
    (h : rowAt ws id = some row) : ∃ write ∈ ws, write.orderId = id ∧ write.new = row := by
  obtain ⟨write, hwrite, hnew⟩ := Option.map_eq_some_iff.mp h
  obtain ⟨hmem, hid⟩ := KeyedLog.mem_of_last Write.orderId hwrite
  exact ⟨write, hmem, hid, hnew⟩

/-- What holds of the row that each write left holds of the row of an order, now and at any time
before. -/
theorem of_rowAt_take {P : Order V → Prop} {ws : List (Write V)}
    (hall : ∀ write ∈ ws, P write.new) {n : ℕ} {id : UUID} {row : Order V}
    (h : rowAt (ws.take n) id = some row) : P row := by
  obtain ⟨write, hmem, -, rfl⟩ := exists_write_of_rowAt h
  exact hall write (List.mem_of_mem_take hmem)

/-- What holds of every row that was written holds of the present ones. -/
theorem of_rowAt {P : Order V → Prop} {ws : List (Write V)} (hall : ∀ write ∈ ws, P write.new)
    {id : UUID} {row : Order V} (h : rowAt ws id = some row) : P row := by
  obtain ⟨write, hmem, -, rfl⟩ := exists_write_of_rowAt h
  exact hall write hmem

/-- The present row of an order is what its last write left. -/
theorem rowAt_concat_self (ws : List (Write V)) (write : Write V) :
    rowAt (ws ++ [write]) write.orderId = some write.new := by
  simp [rowAt]

theorem rowAt_concat_of_ne {id : UUID} {write : Write V} (hne : write.orderId ≠ id)
    (ws : List (Write V)) : rowAt (ws ++ [write]) id = rowAt ws id := by
  simp [rowAt, KeyedLog.last_concat_of_ne Write.orderId hne]

/-- Writes of other orders leave it alone. -/
theorem rowAt_append_of_untouched {ws ws' : List (Write V)} {id : UUID}
    (h : KeyedLog.Untouched Write.orderId id ws') : rowAt (ws ++ ws') id = rowAt ws id := by
  rw [rowAt, rowAt, KeyedLog.last_append_of_untouched Write.orderId h]

/-- What an update or a delete assigns to the row it loaded, and the fields an update
reports as changed. -/
inductive Assigns : Operation V → Order V → Order V → List OrderField → Prop
  | update {req : UpdateOrderRequest V} {loaded order : Order V} {changed : List OrderField}
      (updated : updateOrder req loaded = .ok (order, changed)) (changes : changed ≠ []) :
      Assigns (.update req) loaded order changed
  | delete {at_ : Timestamp} {loaded : Order V} :
      Assigns (.delete at_) loaded (deleteOrder at_ loaded) []

/-- What `update_order` flushes is its assignments with the version incremented. -/
theorem updateOrder_eq_ok_iff {req : UpdateOrderRequest V} {loaded order : Order V}
    {changed : List OrderField} (hchanges : changed ≠ []) :
    updateOrder req loaded = .ok (order, changed) ↔
      loaded.version = req.version ∧ changed = (UpdateOrder.assign req loaded).2 ∧
        order = { (UpdateOrder.assign req loaded).1 with version := loaded.version + 1 } := by
  have hversion : (UpdateOrder.assign req loaded).1.version = loaded.version := by
    rw [UpdateOrder.assign_fst]
  unfold updateOrder
  by_cases hv : loaded.version = req.version
  · by_cases hnil : (UpdateOrder.assign req loaded).2 = []
    · have hne : changed ≠ (UpdateOrder.assign req loaded).2 := by rwa [hnil]
      simp only [hv, ne_eq, not_true_eq_false, if_false, hnil, if_true, Except.ok.injEq,
        Prod.ext_iff, true_and]
      constructor
      · rintro ⟨-, h⟩
        exact absurd h.symm hchanges
      · rintro ⟨h, -⟩
        exact absurd (h.trans hnil.symm) hne
    · simp only [hv, ne_eq, not_true_eq_false, if_false, hnil, Except.ok.injEq,
        Prod.mk.injEq, true_and]
      rw [hversion, hv, eq_comm, and_comm, eq_comm]
  · simp [hv]

namespace Assigns

variable {operation : Operation V} {loaded order : Order V} {changed : List OrderField}

/-- Updates and deletes count the version up from the one they have loaded. -/
theorem version_eq (h : Assigns operation loaded order changed) :
    order.version = loaded.version + 1 := by
  cases h with
  | update updated changes => rw [((updateOrder_eq_ok_iff changes).mp updated).2.2]
  | delete => rfl

/-- Once an order has a shipping address, no request takes it away. -/
theorem shippingAddress_isSome (h : Assigns operation loaded order changed)
    (hsome : loaded.shippingAddress.isSome) : order.shippingAddress.isSome := by
  cases h with
  | update updated changes =>
      rw [((updateOrder_eq_ok_iff changes).mp updated).2.2, UpdateOrder.assign_fst]
      simp [hsome]
  | delete => exact hsome

/-- An update leaves `deleted_at` as loaded; a delete sets it. -/
theorem deletedAt_eq (h : Assigns operation loaded order changed) :
    order.deletedAt = loaded.deletedAt ∨ ∃ at_, operation = .delete at_ ∧
      order.deletedAt = some at_ := by
  cases h with
  | update updated changes =>
      left
      rw [((updateOrder_eq_ok_iff changes).mp updated).2.2, UpdateOrder.assign_fst]
  | @delete at_ loaded => exact Or.inr ⟨at_, rfl, rfl⟩

end Assigns

/-- **One entry of the ledger**, on top of the writes `ws`: a committed write of `orders`
and the outbox event committed with it. -/
inductive Commits [BEq V] (ws : List (Write V)) : Write V → OutboxEvent V → Prop
  /-- `create_order` on a key that is not taken. -/
  | insert {t : TxId} {request : Request V} {req : CreateOrderRequest V} {now : Timestamp}
      {snapshot : ℕ} {row : Order V} {event : OutboxEvent V}
      (operation : request.operation = .create req)
      (absent : rowAt ws request.orderId = none)
      (stored : (createOrder request.orderId req now).store = some row)
      (recorded : event =
        recordOrderCreated (createOrder request.orderId req now) request.trace now) :
      Commits ws ⟨t, request, now, snapshot, none, row⟩ event
  /-- `update_order` or `delete_order`: loaded after `snapshot` writes, when the order was
  active, and written over its present row. -/
  | overwrite {t : TxId} {request : Request V} {now : Timestamp} {snapshot : ℕ}
      {loaded order base row : Order V} {changed : List OrderField} {event : OutboxEvent V}
      (snapshot_le : snapshot ≤ ws.length)
      (read : rowAt (ws.take snapshot) request.orderId = some loaded)
      (active : loaded.deletedAt = none)
      (assigns : Assigns request.operation loaded order changed)
      (current : rowAt ws request.orderId = some base)
      (written : Order.updateRow loaded order base now = some row)
      (recorded : World.recordEvents request row changed now = [event]) :
      Commits ws ⟨t, request, now, snapshot, some base, row⟩ event

/-- **A ledger**: committed writes, and the events committed with them, in commit order. -/
inductive Ledger [BEq V] : List (Write V) → List (OutboxEvent V) → Prop
  | nil : Ledger [] []
  | concat {ws : List (Write V)} {es : List (OutboxEvent V)} {write : Write V}
      {event : OutboxEvent V} (ledger : Ledger ws es) (commits : Commits ws write event) :
      Ledger (ws ++ [write]) (es ++ [event])

/-- The columns an overwrite keeps from the present row, and the version it leaves. -/
theorem updateRow_keeps [BEq V] {loaded order base row : Order V} {now : Timestamp}
    (h : Order.updateRow loaded order base now = some row) :
    row.id = base.id ∧ row.customerId = base.customerId ∧ row.currency = base.currency ∧
      row.createdAt = base.createdAt ∧ row.updatedAt = now := by
  obtain ⟨-, rfl⟩ := Order.updateRow_eq_some_iff.mp h
  exact ⟨rfl, rfl, rfl, rfl, rfl⟩

/-- The version column of an overwrite is always written: it always differs from the
loaded one. -/
theorem updateRow_version [BEq V] {loaded order base row : Order V} {now : Timestamp}
    (h : Order.updateRow loaded order base now = some row)
    (hversion : order.version = loaded.version + 1) : row.version = loaded.version + 1 := by
  obtain ⟨-, rfl⟩ := Order.updateRow_eq_some_iff.mp h
  simp [Order.overwrite, hversion]

namespace Commits

variable [BEq V] {ws : List (Write V)} {write : Write V} {event : OutboxEvent V}

/-- The row an entry replaces is the order's present row. -/
theorem old_eq (h : Commits ws write event) : write.old = rowAt ws write.orderId := by
  cases h with
  | insert _ absent _ _ => exact absent.symm
  | overwrite _ _ _ _ current _ _ => exact current.symm

/-- Entries about other orders do not disturb an entry. -/
theorem append (h : Commits ws write event) {ws' : List (Write V)}
    (huntouched : KeyedLog.Untouched Write.orderId write.orderId ws') :
    Commits (ws ++ ws') write event := by
  cases h with
  | insert operation absent stored recorded =>
      refine .insert operation ?_ stored recorded
      exact (rowAt_append_of_untouched huntouched).trans absent
  | overwrite snapshot_le read active assigns current written recorded =>
      refine .overwrite ?_ ?_ active assigns ?_ written recorded
      · exact snapshot_le.trans (by simp)
      · rw [List.take_append_of_le_length snapshot_le, read]
      · exact (rowAt_append_of_untouched huntouched).trans current

/-- The version a write leaves is one past the version its request had loaded. -/
theorem derived (h : Commits ws write event) :
    KeyedLog.Derived Write.orderId (fun w => w.new.version) Write.snapshot ws write := by
  unfold KeyedLog.Derived
  cases h with
  | @insert t request req now snapshot row event operation absent stored recorded =>
      have hnone : KeyedLog.last Write.orderId request.orderId (ws.take snapshot) = none := by
        refine (KeyedLog.last_eq_none_iff Write.orderId).mpr fun w hw => ?_
        exact rowAt_eq_none_iff.mp absent w (List.mem_of_mem_take hw)
      obtain ⟨-, currency, -, rfl⟩ := Order.store_eq_some_iff.mp stored
      simp only [Write.orderId, hnone]
      rfl
  | @overwrite t request now snapshot loaded order base row changed event _ read _ assigns
      _ written _ =>
      have hloaded := Option.map_eq_some_iff.mp read
      obtain ⟨w, hw, rfl⟩ := hloaded
      simp only [Write.orderId] at hw ⊢
      rw [updateRow_version written assigns.version_eq, hw]
      rfl

end Commits

/-! ### Columns that are never reset to `NULL` -/

/-- A nullable column of `orders` that requests may set, but never to `NULL` again. -/
structure Kept [BEq V] {α : Type} [DecidableEq α] (column : Order V → Option α) : Prop where
  assigned : ∀ {operation : Operation V} {loaded order : Order V} {changed : List OrderField},
    Assigns operation loaded order changed → (column loaded).isSome → (column order).isSome
  written : ∀ (loaded order base : Order V) (now : Timestamp),
    column (Order.overwrite loaded order base now) =
      if column order = column loaded then column base else column order

/-- A shipping address is never taken back. -/
theorem kept_shippingAddress [BEq V] : Kept (Order.shippingAddress (V := V)) where
  assigned := Assigns.shippingAddress_isSome
  written _ _ _ _ := rfl

/-- Nor is a deletion. -/
theorem kept_deletedAt [BEq V] : Kept (Order.deletedAt (V := V)) where
  assigned h hsome := by
    rcases h.deletedAt_eq with heq | ⟨at_, -, heq⟩
    · rwa [heq]
    · rw [heq]
      rfl
  written _ _ _ _ := rfl

/-- An overwrite keeps such a column even if the request had loaded it as `NULL`. -/
theorem Kept.isSome_overwrite [BEq V] {α : Type} [DecidableEq α] {column : Order V → Option α}
    (h : Kept column) {operation : Operation V} {loaded order base : Order V}
    {changed : List OrderField} (hassigns : Assigns operation loaded order changed)
    (hbase : (column base).isSome) (now : Timestamp) :
    (column (Order.overwrite loaded order base now)).isSome := by
  rw [h.written]
  split
  · exact hbase
  · next hne =>
    have hassigned := h.assigned hassigns
    cases horder : column order with
    | some _ => rfl
    | none =>
        -- then the column was `NULL` when loaded as well, and is not written
        cases hloaded : column loaded with
        | some _ => simp [horder, hloaded] at hassigned
        | none => exact absurd (horder.trans hloaded.symm) hne

namespace Ledger

variable [BEq V] {ws : List (Write V)} {es : List (OutboxEvent V)}

/-- There are as many events as writes. -/
theorem length_eq (h : Ledger ws es) : ws.length = es.length := by
  induction h with
  | nil => rfl
  | concat ledger commits ih => simp [ih]

/-- What a ledger was before is a ledger. -/
theorem take (h : Ledger ws es) (n : ℕ) : Ledger (ws.take n) (es.take n) := by
  induction h with
  | nil => simpa using .nil
  | @concat ws es write event ledger commits ih =>
      have hlength := ledger.length_eq
      rcases Nat.le_total n ws.length with hle | hle
      · rw [List.take_append_of_le_length hle, List.take_append_of_le_length (hlength ▸ hle)]
        exact ih
      · rcases hle.eq_or_lt with rfl | hlt
        · rw [List.take_left' rfl, List.take_left' hlength.symm]
          exact ledger
        · have hbound : (ws ++ [write]).length ≤ n := by
            rw [List.length_append, List.length_singleton]
            exact hlt
          have hbound' : (es ++ [event]).length ≤ n := by
            rw [List.length_append, ← hlength, List.length_singleton]
            exact hlt
          rw [List.take_of_length_le hbound, List.take_of_length_le hbound']
          exact .concat ledger commits

/-- Any write of a ledger is an entry on top of the writes before it. -/
theorem entry (h : Ledger ws es) {i : ℕ} {write : Write V} (hwrite : ws[i]? = some write) :
    ∃ event, es[i]? = some event ∧ Commits (ws.take i) write event := by
  induction h with
  | nil => simp at hwrite
  | @concat ws es last event ledger commits ih =>
      have hlength := ledger.length_eq
      rcases Nat.lt_trichotomy i ws.length with hlt | rfl | hgt
      · rw [List.getElem?_append_left hlt] at hwrite
        rw [List.getElem?_append_left (hlength ▸ hlt), List.take_append_of_le_length hlt.le]
        exact ih hwrite
      · obtain rfl : last = write := by simpa using hwrite
        refine ⟨event, by simp [hlength], ?_⟩
        rwa [List.take_left']
        rfl
      · rw [List.getElem?_eq_none (by simp; omega)] at hwrite
        cases hwrite

/-- **Rule for writes.**  What an entry adds to writes that all have it holds of every write. -/
theorem forall_write {P : Write V → Prop} (h : Ledger ws es)
    (hstep : ∀ ws write event, (∀ w ∈ ws, P w) → Commits ws write event → P write) :
    ∀ write ∈ ws, P write := by
  induction h with
  | nil => exact List.forall_mem_nil _
  | @concat ws es write event _ commits ih =>
      intro w hw
      rcases List.mem_append.mp hw with hw | hw
      · exact ih w hw
      · obtain rfl := List.mem_singleton.mp hw
        exact hstep ws w event ih commits

/-- **Rule for writes and their events.** -/
theorem forall₂ {R : Write V → OutboxEvent V → Prop} (h : Ledger ws es)
    (hstep : ∀ ws es write event, Ledger ws es → Commits ws write event → R write event) :
    List.Forall₂ R ws es := by
  induction h with
  | nil => exact .nil
  | @concat ws es write event ledger commits ih =>
      exact List.rel_append ih (.cons (hstep ws es write event ledger commits) .nil)

/-- Once a write of an order has set such a column, the order's row has it set. -/
theorem isSome_of_kept {α : Type} [DecidableEq α] {column : Order V → Option α}
    (hkept : Kept column) (h : Ledger ws es) :
    ∀ write ∈ ws, (column write.new).isSome → ∀ row, rowAt ws write.orderId = some row →
      (column row).isSome := by
  induction h with
  | nil => simp
  | @concat ws es last event ledger commits ih =>
      intro write hwrite hsome row hrow
      rcases List.mem_append.mp hwrite with hmem | hmem
      · by_cases hid : last.orderId = write.orderId
        · rw [← hid, rowAt_concat_self, Option.some.injEq] at hrow
          subst hrow
          cases commits with
          | insert _ absent _ _ =>
              exact absurd hid.symm (rowAt_eq_none_iff.mp absent write hmem)
          | @overwrite t request now snapshot loaded order base row changed event _ _ _
              assigns current written _ =>
              obtain ⟨-, rfl⟩ := Order.updateRow_eq_some_iff.mp written
              have hbase := ih write hmem hsome base (by rw [← hid]; exact current)
              exact hkept.isSome_overwrite assigns hbase now
        · rw [rowAt_concat_of_ne hid] at hrow
          exact ih write hmem hsome row hrow
      · obtain rfl : write = last := by simpa using hmem
        rw [rowAt_concat_self, Option.some.injEq] at hrow
        rwa [← hrow]

end Ledger

end OutboxPattern
