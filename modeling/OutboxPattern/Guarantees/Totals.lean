import OutboxPattern.Guarantees.Atomicity

/-!
# Totals under concurrency

`total_amount_cents` is the sum over the line items, as the comment on the column says, and
the service assigns the two together.  They are *written* one by one, though: a
flushed `UPDATE` names a column only if its new value differs from the one that the session
had loaded.  A row can thus take its items from one request and keep the total of another.

`overwrite_balanced_iff` is the case analysis on the three rows involved, the loaded one,
the assigned one and the one overwritten; `totalsConsistent_iff` is its consequence for
runs, and `totals_mixed` a run that mixes two requests up.
-/

namespace OutboxPattern

variable {V : Type}

/-- The total of a row is the total of its line items. -/
def Order.Balanced (order : Order V) : Prop :=
  order.totalAmountCents = totalCents order.lineItems

/-- **Totals are consistent**, in a world: in every row, and in every event. -/
structure TotalsConsistent (w : World V) : Prop where
  rows : ∀ id row, (w.orders id).committed = some row → row.Balanced
  payloads : ∀ event ∈ w.outbox,
    event.payload.totalAmountCents = totalCents event.payload.lineItems

/-! ### One overwrite -/

/-- Three balanced rows make a balanced overwrite, except when the items are written and
the total is not, over a row whose total is another one. -/
theorem overwrite_balanced_iff [BEq V] {loaded order base : Order V} {now : Timestamp}
    (hloaded : loaded.Balanced) (horder : order.Balanced) (hbase : base.Balanced) :
    (Order.overwrite loaded order base now).Balanced ↔
      (order.lineItems ≠ loaded.lineItems →
        order.totalAmountCents = loaded.totalAmountCents →
        base.totalAmountCents = loaded.totalAmountCents) := by
  unfold Order.Balanced at *
  by_cases hitems : order.lineItems = loaded.lineItems
  · -- equal items have equal totals, so neither column is written
    have htotal : order.totalAmountCents = loaded.totalAmountCents := by
      rw [horder, hloaded, hitems]
    refine iff_of_true ?_ fun hne => absurd hitems hne
    simp only [Order.overwrite, if_pos hitems, if_pos htotal]
    exact hbase
  · by_cases htotal : order.totalAmountCents = loaded.totalAmountCents
    · simp only [Order.overwrite, if_neg hitems, if_pos htotal]
      rw [← horder, htotal]
      exact ⟨fun h _ _ => h, fun h => h hitems rfl⟩
    · refine iff_of_true ?_ fun _ heq => absurd heq htotal
      simp only [Order.overwrite, if_neg hitems, if_neg htotal]
      exact horder

/-- What the service assigns is balanced: a total is assigned whenever items are. -/
theorem Assigns.balanced {operation : Operation V} {loaded order : Order V}
    {changed : List OrderField} (h : Assigns operation loaded order changed)
    (hloaded : loaded.Balanced) : order.Balanced := by
  cases h with
  | @update req loaded order changed updated changes =>
      obtain ⟨-, -, rfl⟩ := (updateOrder_eq_ok_iff changes).mp updated
      rw [UpdateOrder.assign_fst]
      unfold Order.Balanced at *
      cases req.lineItems with
      | none => exact hloaded
      | some items => rfl
  | delete => exact hloaded

/-- An overwrite assigns new line items only in an update that carries them. -/
theorem Assigns.lineItems_eq {operation : Operation V} {loaded order : Order V}
    {changed : List OrderField} (h : Assigns operation loaded order changed)
    (hne : order.lineItems ≠ loaded.lineItems) :
    ∃ req items, operation = .update req ∧ req.lineItems = some items ∧
      order.lineItems = dumpLineItems items ∧
      order.totalAmountCents = totalCents (dumpLineItems items) := by
  cases h with
  | @update req loaded order changed updated changes =>
      obtain ⟨-, -, rfl⟩ := (updateOrder_eq_ok_iff changes).mp updated
      rw [UpdateOrder.assign_fst] at hne ⊢
      cases hitems : req.lineItems with
      | none => simp [hitems] at hne
      | some items => exact ⟨req, items, rfl, hitems, rfl, rfl⟩
  | delete => exact absurd rfl hne

/-! ### Along the ledger -/

/-- The condition on a commit.  An update that carries line items other than the ones it
had loaded, but of the same total, finds that total still in the row. -/
def KeepsTotal (ws : List (Write V)) (write : Write V) : Prop :=
  ∀ req items loaded base, write.request.operation = .update req →
    req.lineItems = some items → write.loaded ws = some loaded →
    rowAt ws write.orderId = some base → dumpLineItems items ≠ loaded.lineItems →
    totalCents (dumpLineItems items) = loaded.totalAmountCents →
    base.totalAmountCents = loaded.totalAmountCents

/-- On top of balanced rows, an entry is balanced exactly when it keeps the total. -/
theorem Commits.balanced_iff [BEq V] {ws : List (Write V)} {write : Write V}
    {event : OutboxEvent V} (h : Commits ws write event)
    (hbalanced : ∀ w ∈ ws, w.new.Balanced) : write.new.Balanced ↔ KeepsTotal ws write := by
  cases h with
  | insert operation _ stored _ =>
      obtain ⟨-, currency, -, rfl⟩ := Order.store_eq_some_iff.mp stored
      refine iff_of_true rfl fun req items loaded base hoperation => ?_
      replace hoperation := operation.symm.trans hoperation
      cases hoperation
  | @overwrite t request now snapshot loaded order base row changed event _ read _ assigns
      current written _ =>
      obtain ⟨-, rfl⟩ := Order.updateRow_eq_some_iff.mp written
      have hloaded : loaded.Balanced := of_rowAt_take hbalanced read
      have hbase : base.Balanced := of_rowAt hbalanced current
      show (Order.overwrite loaded order base now).Balanced ↔ _
      rw [overwrite_balanced_iff hloaded (assigns.balanced hloaded) hbase]
      constructor
      · intro hkeeps req items loaded' base' hoperation hitems hloaded' hbase' hne htotal
        obtain rfl : loaded = loaded' := Option.some.inj (read.symm.trans hloaded')
        obtain rfl : base = base' := Option.some.inj (current.symm.trans hbase')
        replace hoperation : request.operation = .update req := hoperation
        rw [hoperation] at assigns
        cases assigns with
        | update updated changes =>
            obtain ⟨-, -, rfl⟩ := (updateOrder_eq_ok_iff changes).mp updated
            simp only [UpdateOrder.assign_fst, hitems, Option.map_some, Option.getD_some]
              at hkeeps
            exact hkeeps hne htotal
      · intro hkeeps hne htotal
        obtain ⟨req, items, hoperation, hitems, horder, hordertotal⟩ := assigns.lineItems_eq hne
        rw [horder] at hne
        rw [hordertotal] at htotal
        exact hkeeps req items loaded base hoperation hitems read current hne htotal

/-- **The law, along the ledger.**  Every row that ever was is in an event. -/
theorem World.Inv.totalsConsistent_iff_balanced [BEq V] {w : World V} (h : w.Inv) :
    TotalsConsistent w ↔ ∀ write ∈ w.history, write.new.Balanced := by
  constructor
  · intro hlaw write hwrite
    obtain ⟨event, hevent, hcorresponds⟩ := h.ledger.exists_event hwrite
    show write.new.totalAmountCents = totalCents write.new.lineItems
    rw [← hcorresponds.payload.totalAmountCents, ← hcorresponds.payload.lineItems]
    exact hlaw.payloads event hevent
  · intro hbalanced
    refine ⟨fun id row hrow => ?_, fun event hevent => ?_⟩
    · rw [h.table] at hrow
      exact of_rowAt hbalanced hrow
    · obtain ⟨write, hwrite, hcorresponds⟩ := h.ledger.exists_write hevent
      rw [hcorresponds.payload.totalAmountCents, hcorresponds.payload.lineItems]
      exact hbalanced write hwrite

/-- **When totals are consistent.**  A run ends with consistent totals exactly when every
update it commits keeps the total of the row where it does not write it. -/
theorem totalsConsistent_iff [BEq V] {schedule : List (Action V)} {w : World V}
    (h : World.runFromInit schedule = some w) :
    TotalsConsistent w ↔
      Transition.AllSteps World.step (World.AtCommit KeepsTotal) World.init schedule := by
  rw [(World.inv_of_run h).totalsConsistent_iff_balanced]
  refine World.history_iff_atCommit (Q := fun ws => ∀ write ∈ ws, write.new.Balanced)
    (by simp) ?_ h
  intro ws es write event _ hcommits
  simp only [List.mem_append, List.mem_singleton, or_imp, forall_and, forall_eq]
  exact and_congr_right fun hbalanced => hcommits.balanced_iff hbalanced

/-- Five pieces at one cent replace one at five cents, while another update doubles the
order: the row ends with the items of the one and the total of the other. -/
def Sample.mixed : List (Action ℕ) :=
  [.begin 1 create] ++ statements 3 0 ++
  [.begin 1 (update none (some [fivePieces])),
    .begin 1 (update none (some [twoPieces])),
    .advance 1] ++
  statements 5 2 ++ statements 4 1

theorem totalsConsistent_iff_mixed :
    ∃ w, World.runFromInit Sample.mixed = some w ∧ (TotalsConsistent w ↔
      Transition.AllSteps World.step (World.AtCommit KeepsTotal) World.init Sample.mixed) := by
  have hrun : (World.runFromInit Sample.mixed).isSome := by decide
  obtain ⟨w, hw⟩ := Option.isSome_iff_exists.mp hrun
  exact ⟨w, hw, totalsConsistent_iff hw⟩

theorem totals_mixed :
    ∃ w, World.runFromInit Sample.mixed = some w ∧ ¬ TotalsConsistent w := by
  have hrun : (World.runFromInit Sample.mixed).map
      (fun w => (w.orders Sample.orderId).committed.map
        fun row => (row.totalAmountCents, totalCents row.lineItems)) = some (some (10, 5)) := by
    decide
  obtain ⟨w, hw, hrow⟩ := Option.map_eq_some_iff.mp hrun
  obtain ⟨row, hrow, htotals⟩ := Option.map_eq_some_iff.mp hrow
  rw [Prod.mk.injEq] at htotals
  refine ⟨w, hw, fun hlaw => ?_⟩
  have hbalanced := hlaw.rows Sample.orderId row hrow
  rw [Order.Balanced, htotals.1, htotals.2] at hbalanced
  exact absurd hbalanced (by decide)

end OutboxPattern
