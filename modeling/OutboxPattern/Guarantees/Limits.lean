import OutboxPattern.Guarantees.OptimisticLocking
import OutboxPattern.Orders.Serial

/-!
# The limits of creation

`CreateOrderRequest` asks for at least one line item and for a total of at most
100 000 000 cents.  `UpdateOrderRequest` asks for neither, and the service checks nothing
either, so an order keeps within the limits it was created in exactly as long as nobody
updates its line items beyond them.
-/

namespace OutboxPattern

variable {V : Type}

/-- The limits that `CreateOrderRequest` sets to line items. -/
def WithinLimits (items : List LineItem) : Prop :=
  items ≠ [] ∧ totalCents items ≤ maxTotalCents

/-- The same limits, of a row. -/
def Order.WithinLimits (order : Order V) : Prop :=
  order.lineItems ≠ [] ∧ order.totalAmountCents ≤ maxTotalCents

/-- **The limits of creation hold for the life of an order**: in every committed state up to
the present one. -/
def CreationLimits (w : World V) : Prop :=
  ∀ n id row, rowAt (w.history.take n) id = some row → row.WithinLimits

/-- The condition on a commit: an update that carries line items keeps the limits of
creation. -/
def KeepsLimits (_ : List (Write V)) (write : Write V) : Prop :=
  ∀ req items, write.request.operation = .update req → req.lineItems = some items →
    WithinLimits (dumpLineItems items)

/-! ### Along a serial ledger -/

/-- What an update or a delete assigns is within the limits, unless it is an update that
carries other line items. -/
theorem Assigns.withinLimits_iff {operation : Operation V} {loaded order : Order V}
    {changed : List OrderField} (h : Assigns operation loaded order changed)
    (hloaded : loaded.WithinLimits) :
    order.WithinLimits ↔ ∀ req items, operation = .update req → req.lineItems = some items →
      OutboxPattern.WithinLimits (dumpLineItems items) := by
  cases h with
  | @update req loaded order changed updated changes =>
      obtain ⟨-, -, rfl⟩ := (updateOrder_eq_ok_iff changes).mp updated
      rw [UpdateOrder.assign_fst]
      cases hitems : req.lineItems with
      | none =>
          refine iff_of_true hloaded fun req' items hreq' hitems' => ?_
          obtain rfl := Operation.update.inj hreq'
          rw [hitems] at hitems'
          cases hitems'
      | some items =>
          show OutboxPattern.WithinLimits (dumpLineItems items) ↔ _
          constructor
          · rintro hwithin req' items' hreq' hitems'
            obtain rfl := Operation.update.inj hreq'
            obtain rfl := Option.some.inj (hitems.symm.trans hitems')
            exact hwithin
          · intro hwithin
            exact hwithin req items rfl hitems
  | delete =>
      refine iff_of_true hloaded fun req items hoperation => ?_
      cases hoperation

/-- A fresh entry on top of rows within the limits is within them exactly when it keeps
them. -/
theorem Commits.withinLimits_iff [BEq V] {ws : List (Write V)} {write : Write V}
    {event : OutboxEvent V} (h : Commits ws write event) (hfresh : write.FirstCommitter ws)
    (hlimits : ∀ w ∈ ws, w.new.WithinLimits) : write.new.WithinLimits ↔ KeepsLimits ws write := by
  have hloaded := hfresh.loaded_eq
  cases h with
  | @insert t request req now snapshot row event operation _ stored _ =>
      obtain ⟨-, currency, -, rfl⟩ := Order.store_eq_some_iff.mp stored
      refine iff_of_true ⟨?_, req.total_le⟩ fun req' items hoperation => ?_
      · show dumpLineItems req.lineItems ≠ []
        rw [dumpLineItems, Ne, List.map_eq_nil_iff]
        exact req.lineItems_ne_nil
      · replace hoperation := operation.symm.trans hoperation
        cases hoperation
  | @overwrite t request now snapshot loaded order base row changed event _ read _ assigns
      current written _ =>
      obtain ⟨-, rfl⟩ := Order.updateRow_eq_some_iff.mp written
      obtain rfl : loaded = base :=
        Option.some.inj (read.symm.trans (hloaded.trans current))
      have hwithin : loaded.WithinLimits := of_rowAt hlimits current
      show (Order.overwrite loaded order loaded now).WithinLimits ↔ _
      rw [Order.overwrite_self]
      exact assigns.withinLimits_iff hwithin

theorem creationLimits_iff_forall {w : World V} :
    CreationLimits w ↔ ∀ write ∈ w.history, write.new.WithinLimits := by
  constructor
  · intro hlaw write hwrite
    obtain ⟨i, hi⟩ := List.mem_iff_getElem?.mp hwrite
    refine hlaw (i + 1) write.orderId write.new ?_
    rw [List.take_add_one, hi, Option.toList_some, rowAt_concat_self]
  · exact fun hall n id row hrow => of_rowAt_take hall hrow

/-- **When the limits of creation last.**  In a serial run, every order is within the limits
of creation in every committed state exactly when each committed update that carries line
items keeps them. -/
theorem creationLimits_iff [BEq V] {schedule : List (Action V)} {w : World V}
    (h : World.runSerial schedule = some w) :
    CreationLimits w ↔
      Transition.AllSteps World.serialStep (World.AtCommit KeepsLimits) World.init schedule := by
  rw [creationLimits_iff_forall]
  refine World.serial_iff_atCommit (Q := fun ws => ∀ write ∈ ws, write.new.WithinLimits)
    (by simp) ?_ h
  intro ws es write event _ hcommits hfresh
  simp only [List.mem_append, List.mem_singleton, or_imp, forall_and, forall_eq]
  exact and_congr_right fun hlimits => hcommits.withinLimits_iff hfresh hlimits

/-- An update with an empty list of line items. -/
def Sample.emptied : List (Action ℕ) :=
  [.begin 1 create] ++ statements 3 0 ++
  [.begin 1 (update none (some []))] ++ statements 5 1

theorem creationLimits_iff_emptied :
    ∃ w, World.runSerial Sample.emptied = some w ∧ (CreationLimits w ↔
      Transition.AllSteps World.serialStep (World.AtCommit KeepsLimits) World.init
        Sample.emptied) := by
  have hrun : (World.runSerial Sample.emptied).isSome := by decide
  obtain ⟨w, hw⟩ := Option.isSome_iff_exists.mp hrun
  exact ⟨w, hw, creationLimits_iff hw⟩

theorem creationLimits_emptied :
    ∃ w, World.runSerial Sample.emptied = some w ∧ ¬ CreationLimits w := by
  have hrun : (World.runSerial Sample.emptied).map
      (fun w => (rowAt (w.history.take 2) Sample.orderId).map Order.lineItems) =
      some (some []) := by decide
  obtain ⟨w, hw, hrow⟩ := Option.map_eq_some_iff.mp hrun
  obtain ⟨row, hrow, hitems⟩ := Option.map_eq_some_iff.mp hrow
  exact ⟨w, hw, fun hlaw => (hlaw 2 Sample.orderId row hrow).1 hitems⟩

end OutboxPattern
