import OutboxPattern.Guarantees.Totals
import OutboxPattern.Orders.Serial

/-!
# What an update reports, and what it changes

An update that meets no other request either changes nothing and leaves no trace, or increments
the version and records an event whose `changed_fields` are to be the fields that it changed.

The service compares only `status` with the stored value.  Of the other fields it reports all
that the request brings, whether or not they are what is stored already.  `exactChanges_iff`
says that the report is exact if and only if everything that the request brings is news, or the
database rejects the update.
-/

namespace OutboxPattern

variable {V : Type}

/-- The stored value of the field is the same in two rows. -/
def OrderField.Same (field : OrderField) (row row' : Order V) : Prop :=
  match field with
  | .status => row.status = row'.status
  | .lineItems => row.lineItems = row'.lineItems
  | .totalAmountCents => row.totalAmountCents = row'.totalAmountCents
  | .shippingAddress => row.shippingAddress = row'.shippingAddress
  | .metadata => row.metadata = row'.metadata

/-- **No-op detection and `changed_fields` are exact** for a request that has left `row'` where
`row` was, and `events` in the outbox. -/
structure ExactChanges (row row' : Order V) (events : List (OutboxEvent V)) : Prop where
  /-- The version is incremented and an event is recorded if and only if a field changed. -/
  applied : (row'.version = row.version + 1 ∧
      ∃ event, events = [event] ∧ event.eventType = .orderUpdated ∧ event.aggregateId = row.id) ↔
    ∃ field : OrderField, ¬ field.Same row row'
  /-- The event names the fields that changed, each once. -/
  named : ∀ event ∈ events, ∃ changed, event.payload.changedFields = some changed ∧
    changed.Nodup ∧ ∀ field : OrderField, field ∈ changed ↔ ¬ field.Same row row'
  /-- If no field changed, then nothing did. -/
  untouched : (∀ field : OrderField, field.Same row row') → row' = row ∧ events = []

/-- All that the request brings, but for the status, is news: another total, another address, and
metadata that make a difference, both to Python and to the database. -/
structure UpdateOrderRequest.BringsNews [BEq V] (req : UpdateOrderRequest V) (row : Order V) :
    Prop where
  lineItems : ∀ items, req.lineItems = some items →
    totalCents (dumpLineItems items) ≠ row.totalAmountCents
  shippingAddress : ∀ address, req.shippingAddress = some address →
    row.shippingAddress ≠ some address.toShippingAddress
  metadata : ∀ metadata, req.metadata = some metadata →
    (row.metadata.merge metadata).pyEq row.metadata = false ∧
      row.metadata.merge metadata ≠ row.metadata

/-- The version or the total that the request leads to does not fit its column. -/
def UpdateOrderRequest.Overflows (req : UpdateOrderRequest V) (row : Order V) : Prop :=
  row.version = maxInteger ∨
    ∃ items, req.lineItems = some items ∧ maxBigint < totalCents (dumpLineItems items)

/-! ### The row that an update leaves -/

section Row

variable [BEq V] {req : UpdateOrderRequest V} {row order : Order V} {changed : List OrderField}
  {now : Timestamp}

/-- The row that the request leaves, if the database accepts it. -/
def UpdateOrderRequest.result (req : UpdateOrderRequest V) (row : Order V) (now : Timestamp) :
    Order V :=
  { row with
    status := req.status.getD row.status
    lineItems := (req.lineItems.map dumpLineItems).getD row.lineItems
    totalAmountCents :=
      (req.lineItems.map fun items => totalCents (dumpLineItems items)).getD row.totalAmountCents
    shippingAddress :=
      (req.shippingAddress.map ShippingAddressSchema.toShippingAddress).or row.shippingAddress
    metadata :=
      let metadata := (req.metadata.map row.metadata.merge).getD row.metadata
      if metadata.pyEq row.metadata then row.metadata else metadata
    version := row.version + 1
    updatedAt := now }

/-- Served alone, an update overwrites the row that it has loaded, so it leaves what it asks for. -/
theorem overwrite_eq_result (hchanges : changed ≠ [])
    (hok : updateOrder req row = .ok (order, changed)) :
    Order.overwrite row order row now = req.result row now := by
  obtain ⟨-, -, rfl⟩ := (updateOrder_eq_ok_iff hchanges).mp hok
  rw [Order.overwrite_self, UpdateOrder.assign_fst]
  rfl

/-- The database rejects the result exactly when the request overflows. -/
theorem result_fits_iff (hstored : row.Stored) :
    (req.result row now).Fits ↔ ¬ req.Overflows row := by
  have hversion := hstored.fits.1
  have htotal := hstored.fits.2
  rw [UpdateOrderRequest.Overflows, not_or]
  refine and_congr ?_ ?_
  · show row.version + 1 ≤ maxInteger ↔ _
    omega
  · show (req.lineItems.map fun items => totalCents (dumpLineItems items)).getD
      row.totalAmountCents ≤ maxBigint ↔ _
    cases req.lineItems with
    | none => exact iff_of_true htotal (by simp)
    | some items => simp

/-- What is reported is what changed, exactly when the request brings news. -/
theorem reported_iff (hbalanced : row.Balanced) :
    (∀ field : OrderField, field ∈ (UpdateOrder.assign req row).2 ↔
      ¬ field.Same row (req.result row now)) ↔ req.BringsNews row := by
  constructor
  · intro h
    refine ⟨fun items hitems heq => ?_, fun address haddress heq => ?_,
      fun metadata hmetadata => ?_⟩
    · refine (h .totalAmountCents).mp (UpdateOrder.mem_assign_snd.mpr ?_) ?_
      · rw [hitems]
        rfl
      · simp only [OrderField.Same, UpdateOrderRequest.result, hitems]
        exact heq.symm
    · refine (h .shippingAddress).mp (UpdateOrder.mem_assign_snd.mpr ?_) ?_
      · rw [haddress]
        rfl
      · simp only [OrderField.Same, UpdateOrderRequest.result, haddress]
        exact heq
    · have hchanged := (h .metadata).mp (UpdateOrder.mem_assign_snd.mpr (by rw [hmetadata]; rfl))
      simp only [OrderField.Same, UpdateOrderRequest.result, hmetadata, Option.map_some,
        Option.getD_some] at hchanged
      cases heq : (row.metadata.merge metadata).pyEq row.metadata with
      | true => exact absurd (if_pos heq).symm hchanged
      | false =>
          rw [heq] at hchanged
          exact ⟨rfl, fun hsame => hchanged hsame.symm⟩
  · intro hnews field
    rw [UpdateOrder.mem_assign_snd]
    cases field with
    | status => exact not_congr eq_comm
    | lineItems =>
        simp only [OrderField.Same, UpdateOrderRequest.result]
        cases hitems : req.lineItems with
        | none => simp
        | some items =>
            refine iff_of_true rfl fun hsame => hnews.lineItems items hitems ?_
            rw [hbalanced, hsame]
            rfl
    | totalAmountCents =>
        simp only [OrderField.Same, UpdateOrderRequest.result]
        cases hitems : req.lineItems with
        | none => simp
        | some items =>
            exact iff_of_true rfl fun hsame => hnews.lineItems items hitems hsame.symm
    | shippingAddress =>
        simp only [OrderField.Same, UpdateOrderRequest.result]
        cases haddress : req.shippingAddress with
        | none => simp
        | some address => exact iff_of_true rfl (hnews.shippingAddress address haddress)
    | metadata =>
        simp only [OrderField.Same, UpdateOrderRequest.result]
        cases hmetadata : req.metadata with
        | none => simp
        | some metadata =>
            obtain ⟨hpy, hne⟩ := hnews.metadata metadata hmetadata
            simp only [Option.map_some, Option.getD_some, hpy]
            exact iff_of_true rfl fun hsame => hne hsame.symm

end Row

/-! ### One update, statement by statement -/

namespace World

/-- The transaction `t` of the request has got as far as `phase`, with `inserted` to be committed;
its order's slot is `slot`, and the outbox is `outbox`. -/
structure At (w : World V) (t : TxId) (request : Request V) (now : Timestamp) (slot : Slot V)
    (outbox inserted : List (OutboxEvent V)) (phase : Phase V) : Prop where
  tx : ∃ snapshot, w.txs[t]? = some ⟨request, now, snapshot, inserted, phase⟩
  slot : w.orders request.orderId = slot
  outbox : w.outbox = outbox

section Statements

variable [BEq V] {w : World V} {t : TxId} {request : Request V} {req : UpdateOrderRequest V}
  {now : Timestamp} {slot : Slot V} {outbox inserted : List (OutboxEvent V)}
  {row row' order : Order V} {changed : List OrderField}

/-- A new request finds the row and the outbox as they are. -/
theorem at_begin (w : World V) (elapsed : ℕ) (request : Request V) :
    ∃ w', w.step (.begin elapsed request) = some w' ∧
      w'.At w.txs.length request (w.clock + elapsed) (w.orders request.orderId) w.outbox []
        .begun :=
  ⟨_, rfl, ⟨0, List.getElem?_concat_length⟩, rfl, rfl⟩

/-- The statement of a transaction that stands at a phase. -/
theorem At.step {phase : Phase V} (h : w.At t request now slot outbox inserted phase) :
    ∃ snapshot, w.step (.advance t) =
        w.advance t ⟨request, now, snapshot, inserted, phase⟩ ∧
      ∀ tx : Transaction V, (w.setTx t tx).txs[t]? = some tx := by
  obtain ⟨snapshot, htx⟩ := h.tx
  exact ⟨snapshot, step_advance htx, fun tx =>
    List.getElem?_set_self (List.getElem?_eq_some_iff.mp htx).1⟩

/-- The `SELECT`, and the assignments of `update_order`. -/
theorem At.select (h : w.At t request now ⟨some row, none⟩ outbox [] .begun)
    (hoperation : request.operation = .update req) (hactive : row.deletedAt = none)
    (hok : updateOrder req row = .ok (order, changed)) :
    ∃ w', w.step (.advance t) = some w' ∧
      w'.At t request now ⟨some row, none⟩ outbox []
        (if changed = [] then .unchanged order else .assigned row order changed) := by
  obtain ⟨snapshot, hstep, hset⟩ := h.step
  have hselect : w.advance t ⟨request, now, snapshot, [], .begun⟩ =
      some (w.setPhase t ⟨request, now, w.history.length, [], .begun⟩
        (if changed = [] then .unchanged order else .assigned row order changed)) := by
    rw [advance_begun rfl (by simp [hoperation]), World.selectActive]
    simp only [h.slot, Option.filter_some, hactive, Option.isNone_none, if_true, hoperation, hok]
    split <;> rfl
  exact ⟨_, hstep.trans hselect, ⟨_, hset _⟩, h.slot, h.outbox⟩

/-- The `UPDATE`, if the database accepts it. -/
theorem At.flush (h : w.At t request now ⟨some row, none⟩ outbox []
      (.assigned row order changed))
    (hupdate : Order.updateRow row order row now = some row') :
    ∃ w', w.step (.advance t) = some w' ∧
      w'.At t request now ⟨some row, some (t, row')⟩ outbox [] (.flushed order changed) := by
  obtain ⟨snapshot, hstep, hset⟩ := h.step
  refine ⟨(w.lock t request.orderId row').setPhase t
    ⟨request, now, snapshot, [], .assigned row order changed⟩ (.flushed order changed),
    ?_, ⟨snapshot, hset _⟩, ?_, h.outbox⟩
  · rw [hstep]
    simp only [World.advance, World.flushUpdate, h.slot, Option.bind_some, hupdate]
  · show (w.lock t request.orderId row').orders request.orderId = _
    simp only [World.lock, Function.update_self, h.slot]

/-- The `UPDATE`, if the database rejects it. -/
theorem At.flush_none (h : w.At t request now ⟨some row, none⟩ outbox []
      (.assigned row order changed))
    (hupdate : Order.updateRow row order row now = none) :
    ∃ w', w.step (.advance t) = some w' ∧
      w'.At t request now ⟨some row, none⟩ outbox [] (.closed (.error internalServerError)) := by
  obtain ⟨snapshot, hstep, hset⟩ := h.step
  have hown : w.ownTuple t request.orderId = none := by
    rw [World.ownTuple, h.slot]
  refine ⟨w.setTx t ⟨request, now, snapshot, [], .closed (.error internalServerError)⟩,
    ?_, ⟨snapshot, hset _⟩, h.slot, h.outbox⟩
  rw [hstep]
  simp only [World.advance, World.flushUpdate, h.slot, Option.bind_some, hupdate, World.rollback,
    World.unlock, hown]
  rfl

/-- `session.refresh`. -/
theorem At.refresh (h : w.At t request now ⟨some row, some (t, row')⟩ outbox []
      (.flushed order changed))
    (hoperation : request.operation = .update req) :
    ∃ w', w.step (.advance t) = some w' ∧
      w'.At t request now ⟨some row, some (t, row')⟩ outbox [] (.refreshed row' changed) := by
  obtain ⟨snapshot, hstep, hset⟩ := h.step
  have hvisible : w.visible t request.orderId = some row' := by
    rw [World.visible, ownTuple_eq_some_iff.mpr (by rw [h.slot]), Option.some_or]
  refine ⟨w.setPhase t ⟨request, now, snapshot, [], .flushed order changed⟩
    (.refreshed row' changed), ?_, ⟨snapshot, hset _⟩, h.slot, h.outbox⟩
  rw [hstep]
  simp only [World.advance, hoperation, World.refresh, hvisible]

/-- The `INSERT` of the event. -/
theorem At.record (h : w.At t request now ⟨some row, some (t, row')⟩ outbox []
      (.refreshed row' changed))
    (hoperation : request.operation = .update req) :
    ∃ w', w.step (.advance t) = some w' ∧
      w'.At t request now ⟨some row, some (t, row')⟩ outbox
        [recordOrderUpdated row' changed request.trace none now] (.recorded row') := by
  obtain ⟨snapshot, hstep, hset⟩ := h.step
  refine ⟨w.record t ⟨request, now, snapshot, [], .refreshed row' changed⟩ row' changed,
    hstep, ⟨snapshot, ?_⟩, h.slot, h.outbox⟩
  rw [World.record, hset]
  simp only [World.recordEvents, hoperation, List.nil_append]

/-- The commit of a written row and of its event. -/
theorem At.commit {event : OutboxEvent V}
    (h : w.At t request now ⟨some row, some (t, row')⟩ outbox [event] (.recorded row')) :
    ∃ w', w.step (.advance t) = some w' ∧
      w'.At t request now ⟨some row', none⟩ (outbox ++ [event]) []
        (.closed (.ok (toResponse row'))) := by
  obtain ⟨snapshot, hstep, hset⟩ := h.step
  refine ⟨w.commit t ⟨request, now, snapshot, [event], .recorded row'⟩ row', hstep,
    ⟨snapshot, hset _⟩, ?_, by rw [World.commit, h.outbox]⟩
  have hown : w.ownTuple t request.orderId = some row' :=
    ownTuple_eq_some_iff.mpr (by rw [h.slot])
  simp only [World.commit, World.pendingWrite, hown, Option.map_some, Function.update_self]

/-- The commit of a transaction that has written nothing. -/
theorem At.commit_unchanged (h : w.At t request now ⟨some row, none⟩ outbox []
      (.unchanged order)) :
    ∃ w', w.step (.advance t) = some w' ∧
      w'.At t request now ⟨some row, none⟩ outbox [] (.closed (.ok (toResponse order))) := by
  obtain ⟨snapshot, hstep, hset⟩ := h.step
  refine ⟨w.commit t ⟨request, now, snapshot, [], .unchanged order⟩ order, hstep,
    ⟨snapshot, hset _⟩, ?_, by rw [World.commit, h.outbox, List.append_nil]⟩
  have hown : w.ownTuple t request.orderId = none := by
    rw [World.ownTuple, h.slot]
  simp only [World.commit, World.pendingWrite, hown, Option.map_none]
  exact h.slot

/-- An update of an active order of the version it expects, on its own: it writes nothing, or it
leaves the row and the event of what it assigned. -/
theorem exists_serves (w : World V) (elapsed : ℕ) (hoperation : request.operation = .update req)
    (hslot : w.orders request.orderId = ⟨some row, none⟩) (hactive : row.deletedAt = none)
    (hok : updateOrder req row = .ok (order, changed)) :
    ∃ w' row' events, w.Serves elapsed request w' ∧
      (w'.orders request.orderId).committed = some row' ∧ w'.outbox = w.outbox ++ events ∧
      ((changed = [] ∨ Order.updateRow row order row (w.clock + elapsed) = none) ∧
          row' = row ∧ events = [] ∨
        changed ≠ [] ∧ Order.updateRow row order row (w.clock + elapsed) = some row' ∧
          events = [recordOrderUpdated row' changed request.trace none (w.clock + elapsed)]) := by
  obtain ⟨w₁, hbegin, h₁⟩ := at_begin w elapsed request
  rw [hslot] at h₁
  obtain ⟨w₂, hselect, h₂⟩ := h₁.select hoperation hactive hok
  by_cases hnil : changed = []
  · rw [if_pos hnil] at h₂
    obtain ⟨w₃, hcommit, h₃⟩ := h₂.commit_unchanged
    obtain ⟨snapshot, htx⟩ := h₃.tx
    refine ⟨w₃, row, [], ⟨2, _, _, ?_, htx, rfl⟩, by rw [h₃.slot],
      by rw [h₃.outbox, List.append_nil], Or.inl ⟨Or.inl hnil, rfl, rfl⟩⟩
    rw [Transition.run_cons_of_step _ hbegin, List.replicate, List.replicate,
      Transition.run_cons_of_step _ hselect, Transition.run_cons_of_step _ hcommit]
    rfl
  · rw [if_neg hnil] at h₂
    cases hupdate : Order.updateRow row order row (w.clock + elapsed) with
    | none =>
        obtain ⟨w₃, hflush, h₃⟩ := h₂.flush_none hupdate
        obtain ⟨snapshot, htx⟩ := h₃.tx
        refine ⟨w₃, row, [], ⟨2, _, _, ?_, htx, rfl⟩, by rw [h₃.slot],
          by rw [h₃.outbox, List.append_nil], Or.inl ⟨Or.inr rfl, rfl, rfl⟩⟩
        rw [Transition.run_cons_of_step _ hbegin, List.replicate, List.replicate,
          Transition.run_cons_of_step _ hselect, Transition.run_cons_of_step _ hflush]
        rfl
    | some row' =>
        obtain ⟨w₃, hflush, h₃⟩ := h₂.flush hupdate
        obtain ⟨w₄, hrefresh, h₄⟩ := h₃.refresh hoperation
        obtain ⟨w₅, hrecord, h₅⟩ := h₄.record hoperation
        obtain ⟨w₆, hcommit, h₆⟩ := h₅.commit
        obtain ⟨snapshot, htx⟩ := h₆.tx
        refine ⟨w₆, row', _, ⟨5, _, _, ?_, htx, rfl⟩, by rw [h₆.slot], h₆.outbox,
          Or.inr ⟨hnil, rfl, rfl⟩⟩
        rw [Transition.run_cons_of_step _ hbegin]
        simp only [List.replicate, Transition.run_cons_of_step _ hselect,
          Transition.run_cons_of_step _ hflush, Transition.run_cons_of_step _ hrefresh,
          Transition.run_cons_of_step _ hrecord, Transition.run_cons_of_step _ hcommit,
          Transition.run_nil]

end Statements

end World

/-! ### When the report is exact -/

section Exact

variable [BEq V] {w : World V} {request : Request V} {req : UpdateOrderRequest V} {row : Order V}

omit [BEq V] in
/-- Nothing was written, and nothing reported. -/
theorem exactChanges_self (row : Order V) : ExactChanges row row [] where
  applied := by
    refine iff_of_false (fun h => Nat.lt_irrefl _ h.1.ge) ?_
    rintro ⟨field, hchanged⟩
    exact hchanged (by cases field <;> rfl)
  named event hevent := by cases hevent
  untouched _ := ⟨rfl, rfl⟩

/-- An update was written, and reported. -/
theorem exactChanges_result_iff (hbalanced : row.Balanced) {changed : List OrderField}
    (hchanges : changed ≠ []) (hchanged : changed = (UpdateOrder.assign req row).2)
    (trace : TraceContext) (now : Timestamp) :
    ExactChanges row (req.result row now)
        [recordOrderUpdated (req.result row now) changed trace none now] ↔
      req.BringsNews row := by
  have hversion : (req.result row now).version = row.version + 1 := rfl
  have hid : (req.result row now).id = row.id := rfl
  have hreported := @reported_iff V _ req row now hbalanced
  rw [← hchanged] at hreported
  rw [← hreported]
  generalize req.result row now = row' at hversion hid ⊢
  constructor
  · intro h
    obtain ⟨named, hnamed, -, hexact⟩ := h.named _ List.mem_cons_self
    obtain rfl : changed = named := Option.some.inj hnamed
    exact hexact
  · intro hexact
    obtain ⟨field, hfield⟩ := List.exists_mem_of_ne_nil changed hchanges
    refine ⟨iff_of_true ⟨hversion, _, rfl, rfl, hid⟩ ⟨field, (hexact field).mp hfield⟩, ?_, ?_⟩
    · intro event hevent
      obtain rfl := List.mem_singleton.mp hevent
      exact ⟨changed, rfl, hchanged ▸ UpdateOrder.nodup_assign_snd req row, hexact⟩
    · exact fun hsame => absurd (hsame field) ((hexact field).mp hfield)

/-- A request that assigns nothing brings no news, for it brings nothing but perhaps a status. -/
theorem bringsNews_of_assign_nil (hnil : (UpdateOrder.assign req row).2 = []) :
    req.BringsNews row := by
  have hmem : ∀ field : OrderField, field ∉ (UpdateOrder.assign req row).2 := by simp [hnil]
  refine ⟨fun items hitems => ?_, fun address haddress => ?_, fun metadata hmetadata => ?_⟩
  · exact absurd (UpdateOrder.mem_assign_snd.mpr (by rw [hitems]; rfl)) (hmem .lineItems)
  · exact absurd (UpdateOrder.mem_assign_snd.mpr (by rw [haddress]; rfl)) (hmem .shippingAddress)
  · exact absurd (UpdateOrder.mem_assign_snd.mpr (by rw [hmetadata]; rfl)) (hmem .metadata)

/-- **When no-op detection and `changed_fields` are exact.**  An update of an active order whose
total is that of its line items and whose version is the expected one, served on its own, comes
to an end, and what it reports is exact if and only if it overflows a column, so that nothing is
written, or everything it brings but for the status is news. -/
theorem exactChanges_iff {elapsed : ℕ} (hoperation : request.operation = .update req)
    (hslot : w.orders request.orderId = ⟨some row, none⟩) (hstored : row.Stored)
    (hactive : row.deletedAt = none) (hbalanced : row.Balanced)
    (hversion : row.version = req.version) :
    (∃ w', w.Serves elapsed request w') ∧ ∀ w', w.Serves elapsed request w' →
      ∃ row' events, (w'.orders request.orderId).committed = some row' ∧
        w'.outbox = w.outbox ++ events ∧
        (ExactChanges row row' events ↔ req.Overflows row ∨ req.BringsNews row) := by
  obtain ⟨order, changed, hok, -⟩ := updateOrder_of_version hversion
  obtain ⟨w', row', events, hserves, hrow', hevents, hcases⟩ :=
    World.exists_serves w elapsed hoperation hslot hactive hok
  refine ⟨⟨w', hserves⟩, fun w'' hserves' => ?_⟩
  obtain rfl := hserves.unique hserves'
  refine ⟨row', events, hrow', hevents, ?_⟩
  rcases hcases with ⟨hnothing, rfl, rfl⟩ | ⟨hchanges, hupdate, rfl⟩
  · refine iff_of_true (exactChanges_self _) ?_
    by_cases hnil : changed = []
    · exact Or.inr (bringsNews_of_assign_nil (assign_nil_of_updateOrder (hnil ▸ hok)))
    · refine Or.inl (not_not.mp fun hfits => ?_)
      rw [← result_fits_iff hstored, ← overwrite_eq_result hnil hok] at hfits
      exact Option.some_ne_none _ ((if_pos hfits).symm.trans (hnothing.resolve_left hnil))
  · obtain ⟨hfits, hrow⟩ := Order.updateRow_eq_some_iff.mp hupdate
    rw [overwrite_eq_result hchanges hok] at hfits hrow
    subst hrow
    have hchanged := ((updateOrder_eq_ok_iff hchanges).mp hok).2.1
    rw [exactChanges_result_iff hbalanced hchanges hchanged]
    exact (or_iff_right ((result_fits_iff hstored).mp hfits)).symm

end Exact

/-! ### Sending the line items again -/

namespace Sample

/-- The order is created, and nothing else happens. -/
def creation : List (Action ℕ) := [.begin 1 create] ++ statements 3 0

theorem creation_slot :
    (World.runFromInit creation).map (fun w => w.orders orderId) = some ⟨some created, none⟩ :=
  rfl

theorem created_balanced : created.Balanced := rfl

end Sample

open Sample in
/-- A confirmation is reported as it should be. -/
theorem exactChanges_iff_confirmed :
    ∃ w w' row' events, World.runFromInit creation = some w ∧
      w.Serves 1 (update (some .confirmed) none) w' ∧
      (w'.orders orderId).committed = some row' ∧ w'.outbox = w.outbox ++ events ∧
      ExactChanges created row' events := by
  obtain ⟨w, hw, hslot⟩ := Option.map_eq_some_iff.mp creation_slot
  have hoperation : (update (some .confirmed) none).operation =
      .update (updateRequest (some .confirmed) none) := rfl
  obtain ⟨⟨w', hserves⟩, hexact⟩ := @exactChanges_iff ℕ _ w _ _ created 1 hoperation hslot
    created_stored rfl created_balanced rfl
  obtain ⟨row', events, hrow', hevents, hiff⟩ := hexact w' hserves
  have hnews : (updateRequest (some .confirmed) none).BringsNews created :=
    ⟨nofun, nofun, nofun⟩
  exact ⟨w, w', row', events, hw, hserves, hrow', hevents, hiff.mpr (Or.inr hnews)⟩

open Sample in
/-- The line items that are stored already change none of the five fields; still the version is
incremented, and an event names two of them. -/
theorem exactChanges_resent :
    ∃ w, World.runFromInit creation = some w ∧ w.orders orderId = ⟨some created, none⟩ ∧
      created.Stored ∧ created.deletedAt = none ∧ created.Balanced ∧ created.version = 1 ∧
      ∃ w' row' event, w.Serves 1 (update none (some [onePiece])) w' ∧
        (w'.orders orderId).committed = some row' ∧ w'.outbox = w.outbox ++ [event] ∧
        (∀ field : OrderField, field.Same created row') ∧ row'.version = 2 ∧
        event.payload.changedFields = some [.lineItems, .totalAmountCents] ∧
        ¬ ExactChanges created row' [event] := by
  obtain ⟨w, hw, hslot⟩ := Option.map_eq_some_iff.mp creation_slot
  have hok : updateOrder (updateRequest none (some [onePiece])) created =
      .ok ({ created with version := 2 }, [.lineItems, .totalAmountCents]) := rfl
  have hoperation : (update none (some [onePiece])).operation =
      .update (updateRequest none (some [onePiece])) := rfl
  obtain ⟨w', row', events, hserves, hrow', hevents, hcases⟩ :=
    w.exists_serves 1 hoperation hslot rfl hok
  obtain ⟨hnothing, -, -⟩ | ⟨-, hupdate, rfl⟩ := hcases
  · exact absurd (hnothing.resolve_left nofun) (Option.some_ne_none _)
  · obtain ⟨-, rfl⟩ := Order.updateRow_eq_some_iff.mp hupdate
    have hsame : ∀ field : OrderField, field.Same created
        (Order.overwrite created { created with version := 2 } created (w.clock + 1)) := by
      intro field
      cases field <;> rfl
    refine ⟨w, hw, hslot, created_stored, rfl, created_balanced, rfl, w', _, _, hserves, hrow',
      hevents, hsame, rfl, rfl, fun hexact => ?_⟩
    exact List.cons_ne_nil _ _ (hexact.untouched hsame).2

end OutboxPattern
