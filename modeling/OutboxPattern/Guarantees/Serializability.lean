import OutboxPattern.Guarantees.ExactChanges
import OutboxPattern.Guarantees.OptimisticLocking
import Mathlib.Data.List.TFAE

/-!
# When a run is serializable

Requests run interleaved, and the optimistic lock is there to make that invisible: what the
service leaves should be what some execution of the same requests, one after the other, would have
left.  This file settles for which runs that is so.

What is compared are the tables, up to the instants in them: `created_at` and `updated_at` are
`NOW()`, the begin of a transaction, and in another order of the same requests they are others.
`Order.untimed` and `OutboxEvent.untimed` leave them out.

* A fresh entry of the ledger finds the row that its request had loaded.  So the request, served
  again on its own and on a row that differs in its instants only, commits the same entry again
  (`World.exists_serve`), and a ledger of fresh entries can be replayed (`SerialLedger.replay`).
* In a serial run the versions of an order count `1, 2, 3, …`.  A run that looks like one to a
  reader of the outbox has such versions as well, and then its entries were fresh.
-/

namespace OutboxPattern

variable {V : Type}

/-! ### Rows and events up to their instants -/

/-- The row but for the instants that PostgreSQL stamps it with. -/
def Order.untimed (o : Order V) : Order V := { o with createdAt := 0, updatedAt := 0 }

/-- The event but for the instants in it. -/
def OutboxEvent.untimed (e : OutboxEvent V) : OutboxEvent V :=
  { e with
    createdAt := 0
    payload := { e.payload with orderCreatedAt := none, orderUpdatedAt := none } }

/-- The same row, stamped with other instants. -/
def Order.retimed (o : Order V) (createdAt updatedAt : Timestamp) : Order V :=
  { o with createdAt, updatedAt }

/-- Rows that differ in their instants only are each other, with other instants. -/
theorem Order.eq_retimed {o o' : Order V} (h : o'.untimed = o.untimed) :
    o' = o.retimed o'.createdAt o'.updatedAt := by
  have hall : o'.untimed.retimed o'.createdAt o'.updatedAt =
      o.untimed.retimed o'.createdAt o'.updatedAt := by rw [h]
  exact hall

/-- The order of an event is no instant. -/
theorem OutboxEvent.aggregateId_eq {e e' : OutboxEvent V} (h : e'.untimed = e.untimed) :
    e'.aggregateId = e.aggregateId := by
  have hid : e'.untimed.aggregateId = e.untimed.aggregateId := by rw [h]
  exact hid

/-- What a request assigns does not depend on the instants of the row it loaded. -/
theorem Assigns.retimed {operation : Operation V} {loaded order : Order V}
    {changed : List OrderField} (h : Assigns operation loaded order changed)
    (createdAt updatedAt : Timestamp) :
    Assigns operation (loaded.retimed createdAt updatedAt) (order.retimed createdAt updatedAt)
      changed := by
  cases h with
  | @update req _ _ _ updated changes =>
      obtain ⟨hversion, hchanged, rfl⟩ := (updateOrder_eq_ok_iff changes).mp updated
      refine .update ((updateOrder_eq_ok_iff changes).mpr ⟨hversion, ?_, ?_⟩) changes
      · rw [hchanged, UpdateOrder.assign_snd, UpdateOrder.assign_snd]
        rfl
      · rw [UpdateOrder.assign_fst, UpdateOrder.assign_fst]
        rfl
  | delete => exact .delete

/-- Instants do not matter to an `INSERT`. -/
theorem Order.store_retimed {o row : Order V} (h : o.store = some row)
    (createdAt updatedAt : Timestamp) :
    (o.retimed createdAt updatedAt).store = some (row.retimed createdAt updatedAt) := by
  obtain ⟨hfits, currency, hcurrency, rfl⟩ := Order.store_eq_some_iff.mp h
  exact Order.store_eq_some_iff.mpr ⟨hfits, currency, hcurrency, rfl⟩

/-- Nor to an `UPDATE`: which columns it sends depends on the loaded row and the object, and their
instants are the same in both. -/
theorem Order.updateRow_retimed [BEq V] {loaded order base row : Order V} {now : Timestamp}
    (h : Order.updateRow loaded order base now = some row)
    (createdAt updatedAt now' : Timestamp) :
    Order.updateRow (loaded.retimed createdAt updatedAt) (order.retimed createdAt updatedAt)
      (base.retimed createdAt updatedAt) now' = some (row.retimed createdAt now') := by
  obtain ⟨hfits, rfl⟩ := Order.updateRow_eq_some_iff.mp h
  exact Order.updateRow_eq_some_iff.mpr ⟨hfits, rfl⟩

/-- What is recorded of a row depends on its instants in the instants only. -/
theorem World.recordEvents_retimed {request : Request V} {row : Order V}
    {changed : List OrderField} {now : Timestamp} {event : OutboxEvent V}
    (h : World.recordEvents request row changed now = [event])
    (createdAt updatedAt now' : Timestamp) :
    ∃ event', World.recordEvents request (row.retimed createdAt updatedAt) changed now' =
      [event'] ∧ event'.untimed = event.untimed := by
  unfold World.recordEvents at h ⊢
  generalize request.operation = operation at h ⊢
  cases operation with
  | create req => cases h; exact ⟨_, rfl, rfl⟩
  | update req => cases h; exact ⟨_, rfl, rfl⟩
  | delete at_ => cases h; exact ⟨_, rfl, rfl⟩
  | get => cases h

/-! ### Serving the request of an entry again -/

namespace World

section Statements

variable [BEq V] {w : World V} {t : TxId} {request : Request V} {now : Timestamp}
  {outbox : List (OutboxEvent V)} {old : Option (Order V)} {row order : Order V}
  {changed : List OrderField} {event : OutboxEvent V}

/-- The `SELECT` of an active order, and the assignments of an update or a delete. -/
theorem At.assign {loaded : Order V} (h : w.At t request now ⟨some loaded, none⟩ outbox [] .begun)
    (hactive : loaded.deletedAt = none)
    (hassigns : Assigns request.operation loaded order changed) :
    ∃ w', w.step (.advance t) = some w' ∧
      w'.At t request now ⟨some loaded, none⟩ outbox [] (.assigned loaded order changed) := by
  obtain ⟨snapshot, hstep, hset⟩ := h.step
  suffices hselect : w.advance t ⟨request, now, snapshot, [], .begun⟩ =
      some (w.setPhase t ⟨request, now, w.history.length, [], .begun⟩
        (.assigned loaded order changed)) by
    exact ⟨_, hstep.trans hselect, ⟨_, hset _⟩, h.slot, h.outbox⟩
  generalize hoperation : request.operation = operation at hassigns
  cases hassigns with
  | update updated changes =>
      rw [advance_begun rfl (by simp [hoperation]), World.selectActive]
      simp only [h.slot, Option.filter_some, hactive, Option.isNone_none, if_true, hoperation,
        updated, if_neg changes]
  | delete =>
      rw [advance_begun rfl (by simp [hoperation]), World.selectActive]
      simp only [h.slot, Option.filter_some, hactive, Option.isNone_none, if_true, hoperation]

/-- `session.refresh`, of an update or a delete. -/
theorem At.readBack (h : w.At t request now ⟨old, some (t, row)⟩ outbox [] (.flushed order changed))
    (hoperation : ∀ req, request.operation ≠ .create req) :
    ∃ w', w.step (.advance t) = some w' ∧
      w'.At t request now ⟨old, some (t, row)⟩ outbox [] (.refreshed row changed) := by
  obtain ⟨snapshot, hstep, hset⟩ := h.step
  have hvisible : w.visible t request.orderId = some row := by
    rw [World.visible, ownTuple_eq_some_iff.mpr (by rw [h.slot]), Option.some_or]
  refine ⟨w.setPhase t ⟨request, now, snapshot, [], .flushed order changed⟩
    (.refreshed row changed), ?_, ⟨snapshot, hset _⟩, h.slot, h.outbox⟩
  rw [hstep]
  simp only [World.advance, World.refresh, hvisible]

/-- The `INSERT` of the event. -/
theorem At.recordFrom {phase : Phase V}
    (h : w.At t request now ⟨old, some (t, row)⟩ outbox [] phase)
    (hphase : ∀ snapshot, w.advance t ⟨request, now, snapshot, [], phase⟩ =
      some (w.record t ⟨request, now, snapshot, [], phase⟩ order changed))
    (hevent : recordEvents request order changed now = [event]) :
    ∃ w', w.step (.advance t) = some w' ∧
      w'.At t request now ⟨old, some (t, row)⟩ outbox [event] (.recorded order) := by
  obtain ⟨snapshot, hstep, hset⟩ := h.step
  refine ⟨_, hstep.trans (hphase snapshot), ⟨snapshot, ?_⟩, h.slot, h.outbox⟩
  rw [World.record, hset]
  simp only [hevent, List.nil_append]

/-- The commit. -/
theorem At.commitBoth
    (h : w.At t request now ⟨old, some (t, row)⟩ outbox [event] (.recorded order)) :
    ∃ w', w.step (.advance t) = some w' ∧
      w'.At t request now ⟨some row, none⟩ (outbox ++ [event]) []
        (.closed (.ok (toResponse order))) := by
  obtain ⟨snapshot, hstep, hset⟩ := h.step
  refine ⟨w.commit t ⟨request, now, snapshot, [event], .recorded order⟩ order, hstep,
    ⟨snapshot, hset _⟩, ?_, by rw [World.commit, h.outbox]⟩
  have hown : w.ownTuple t request.orderId = some row :=
    ownTuple_eq_some_iff.mpr (by rw [h.slot])
  simp only [World.commit, World.pendingWrite, hown, Option.map_some, Function.update_self]

/-- The `INSERT` of a new order. -/
theorem At.insert {req : CreateOrderRequest V}
    (h : w.At t request now ⟨none, none⟩ outbox [] .begun)
    (hoperation : request.operation = .create req)
    (hstored : (createOrder request.orderId req now).store = some row) :
    ∃ w', w.step (.advance t) = some w' ∧
      w'.At t request now ⟨none, some (t, row)⟩ outbox []
        (.flushed (createOrder request.orderId req now) []) := by
  obtain ⟨snapshot, hstep, hset⟩ := h.step
  refine ⟨(w.lock t request.orderId row).setPhase t ⟨request, now, snapshot, [], .begun⟩
    (.flushed (createOrder request.orderId req now) []), ?_, ⟨snapshot, hset _⟩, ?_, h.outbox⟩
  · rw [hstep]
    simp only [World.advance, hoperation, World.flushInsert, h.slot, hstored]
  · show (w.lock t request.orderId row).orders request.orderId = _
    simp only [World.lock, Function.update_self, h.slot]

end Statements

/-! ### A request that runs on its own -/

section Serve

variable [BEq V] {w w' : World V} {request : Request V} {elapsed n : ℕ}

/-- A request, and then its statements, none of which fails. -/
def serve (w : World V) (elapsed : ℕ) (request : Request V) (n : ℕ) : List (Action V) :=
  .begin elapsed request :: List.replicate n (.advance w.txs.length)

/-- The request adds its transaction, and leaves the others alone. -/
theorem txs_of_serve (h : Transition.run step w (w.serve elapsed request n) = some w') :
    ∃ tx, w'.txs = w.txs ++ [tx] ∧ tx.request = request := by
  rw [serve, Transition.run_cons_of_step step rfl] at h
  have hkeeps : ∀ (u : World V) (action : Action V) (u' : World V),
      action = .advance w.txs.length → (∃ tx, u.txs = w.txs ++ [tx] ∧ tx.request = request) →
      u.step action = some u' → ∃ tx, u'.txs = w.txs ++ [tx] ∧ tx.request = request := by
    rintro u _ u' rfl ⟨tx, htxs, hrequest⟩ hstep
    have htx : u.txs[w.txs.length]? = some tx := by
      rw [htxs, List.getElem?_concat_length]
    rw [step_advance htx] at hstep
    obtain ⟨tx', htxs', hstatement⟩ := statement_of_advance hstep
    refine ⟨tx', ?_, hstatement.request.trans hrequest⟩
    rw [htxs', htxs, List.set_append_right _ _ le_rfl, Nat.sub_self, List.set_cons_zero]
  exact Transition.run_invariant_on hkeeps
    (fun action haction => List.eq_of_mem_replicate haction) ⟨_, rfl, rfl⟩ h

/-- In a quiescent world, it is a serial run. -/
theorem serialRun_of_serve (hquiescent : w.quiescent = true)
    (h : Transition.run step w (w.serve elapsed request n) = some w') :
    Transition.run serialStep w (w.serve elapsed request n) = some w' := by
  have hadvances : ∀ (m : ℕ) (u : World V),
      Transition.run serialStep u (List.replicate m (.advance w.txs.length)) =
        Transition.run step u (List.replicate m (.advance w.txs.length)) := by
    intro m
    induction m with
    | zero => exact fun _ => rfl
    | succ m ih =>
        intro u
        rw [List.replicate_succ, Transition.run_cons, Transition.run_cons]
        exact congrArg _ (funext ih)
  have hbegin : w.serialStep (.begin elapsed request) = w.step (.begin elapsed request) :=
    if_pos hquiescent
  rw [serve, Transition.run_cons] at h
  rw [serve, Transition.run_cons, hbegin, ← h]
  exact congrArg _ (funext (hadvances n))

/-- No row of a quiescent world is locked. -/
theorem writer_of_quiescent (hinv : w.Inv) (hquiescent : w.quiescent = true) (id : UUID) :
    (w.orders id).writer = none := by
  cases hwriter : (w.orders id).writer with
  | none => rfl
  | some entry =>
      obtain ⟨tx, htx, rfl⟩ := hinv.owner id entry.1 entry.2 hwriter
      have hinvTx := hinv.txs _ tx htx
      have hclosed := quiescent_iff.mp hquiescent _ tx htx
      cases hphase : tx.phase with
      | closed response =>
          rw [TxInv, hphase] at hinvTx
          have hown := ownTuple_eq_some_iff.mpr hwriter
          rw [hinvTx.1] at hown
          cases hown
      | _ => rw [hphase] at hclosed; cases hclosed

/-- A creation, on its own: three statements. -/
theorem exists_run_create {req : CreateOrderRequest V} {row : Order V} {event : OutboxEvent V}
    (hslot : w.orders request.orderId = ⟨none, none⟩)
    (hoperation : request.operation = .create req)
    (hstored : (createOrder request.orderId req w.clock).store = some row)
    (hevent : recordEvents request (createOrder request.orderId req w.clock) [] w.clock =
      [event]) :
    ∃ w' response, Transition.run step w (w.serve 0 request 3) = some w' ∧
      w'.At w.txs.length request w.clock ⟨some row, none⟩ (w.outbox ++ [event]) []
        (.closed (.ok response)) := by
  obtain ⟨w₁, hbegin, h₁⟩ := at_begin w 0 request
  rw [hslot] at h₁
  obtain ⟨w₂, hinsert, h₂⟩ := h₁.insert hoperation hstored
  obtain ⟨w₃, hrecord, h₃⟩ := h₂.recordFrom (fun snapshot => by
    simp only [World.advance, hoperation]; rfl) hevent
  obtain ⟨w₄, hcommit, h₄⟩ := h₃.commitBoth
  refine ⟨w₄, _, ?_, h₄⟩
  rw [serve, Transition.run_cons_of_step _ hbegin]
  simp only [List.replicate, Transition.run_cons_of_step _ hinsert,
    Transition.run_cons_of_step _ hrecord, Transition.run_cons_of_step _ hcommit,
    Transition.run_nil]

/-- An update or a delete, on its own: five statements. -/
theorem exists_run_overwrite {loaded order row : Order V} {changed : List OrderField}
    {event : OutboxEvent V} (hslot : w.orders request.orderId = ⟨some loaded, none⟩)
    (hactive : loaded.deletedAt = none)
    (hassigns : Assigns request.operation loaded order changed)
    (hwritten : Order.updateRow loaded order loaded w.clock = some row)
    (hevent : recordEvents request row changed w.clock = [event]) :
    ∃ w' response, Transition.run step w (w.serve 0 request 5) = some w' ∧
      w'.At w.txs.length request w.clock ⟨some row, none⟩ (w.outbox ++ [event]) []
        (.closed (.ok response)) := by
  have hoperation : ∀ req, request.operation ≠ .create req := by
    intro req hcreate
    rw [hcreate] at hassigns
    cases hassigns
  obtain ⟨w₁, hbegin, h₁⟩ := at_begin w 0 request
  rw [hslot] at h₁
  obtain ⟨w₂, hassign, h₂⟩ := h₁.assign hactive hassigns
  obtain ⟨w₃, hflush, h₃⟩ := h₂.flush hwritten
  obtain ⟨w₄, hrefresh, h₄⟩ := h₃.readBack hoperation
  obtain ⟨w₅, hrecord, h₅⟩ := h₄.recordFrom (fun snapshot => rfl) hevent
  obtain ⟨w₆, hcommit, h₆⟩ := h₅.commitBoth
  refine ⟨w₆, _, ?_, h₆⟩
  rw [serve, Transition.run_cons_of_step _ hbegin]
  simp only [List.replicate, Transition.run_cons_of_step _ hassign,
    Transition.run_cons_of_step _ hflush, Transition.run_cons_of_step _ hrefresh,
    Transition.run_cons_of_step _ hrecord, Transition.run_cons_of_step _ hcommit,
    Transition.run_nil]

/-- The request of an entry, served again on a row that differs from the one that it had loaded
in the instants only, commits the entry again, up to the instants. -/
theorem exists_serve {ws : List (Write V)} {write : Write V} {event : OutboxEvent V}
    (hinv : w.Inv) (hquiescent : w.quiescent = true) (hcommits : Commits ws write event)
    (hfresh : write.FirstCommitter ws)
    (hrow : (w.orders write.orderId).committed.map Order.untimed =
      (rowAt ws write.orderId).map Order.untimed) :
    ∃ n w' row event' response, Transition.run step w (w.serve 0 write.request n) = some w' ∧
      w'.At w.txs.length write.request w.clock ⟨some row, none⟩ (w.outbox ++ [event']) []
        (.closed (.ok response)) ∧
      row.untimed = write.new.untimed ∧ event'.untimed = event.untimed := by
  have hslot : w.orders write.orderId = ⟨(w.orders write.orderId).committed, none⟩ := by
    rw [← writer_of_quiescent hinv hquiescent write.orderId]
  have hloaded := hfresh.loaded_eq
  cases hcommits with
  | @insert t request req now snapshot row event operation absent stored recorded =>
      replace hrow : (w.orders request.orderId).committed = none := by
        have hnone : rowAt ws request.orderId = none := absent
        simpa [Write.orderId, hnone] using hrow
      replace hslot : w.orders request.orderId = ⟨none, none⟩ := hrow ▸ hslot
      have hrecorded : recordEvents request (createOrder request.orderId req now) [] now =
          [event] := by
        rw [recorded, recordEvents, operation]
      obtain ⟨event', hevent', huntimed⟩ := recordEvents_retimed hrecorded w.clock w.clock w.clock
      obtain ⟨w', response, hrun, hat⟩ :=
        exists_run_create hslot operation (Order.store_retimed stored w.clock w.clock) hevent'
      exact ⟨3, w', _, event', response, hrun, hat, rfl, huntimed⟩
  | @overwrite t request now snapshot loaded order base row changed event snapshot_le read active
      assigns current written recorded =>
      -- the entry is fresh, so its request had loaded the row that it wrote over
      obtain rfl : loaded = base :=
        Option.some.inj (read.symm.trans (hloaded.trans current))
      obtain ⟨loaded', hcommitted, huntimed⟩ : ∃ loaded',
          (w.orders request.orderId).committed = some loaded' ∧
            loaded'.untimed = loaded.untimed := by
        have hsome : rowAt ws request.orderId = some loaded := current
        simpa [Write.orderId, hsome] using hrow
      replace hslot : w.orders request.orderId = ⟨some loaded', none⟩ := hcommitted ▸ hslot
      rw [Order.eq_retimed huntimed] at hslot
      generalize loaded'.createdAt = createdAt at hslot
      generalize loaded'.updatedAt = updatedAt at hslot
      have hwritten := Order.updateRow_retimed written createdAt updatedAt w.clock
      obtain ⟨event', hevent', huntimed'⟩ :=
        recordEvents_retimed recorded createdAt w.clock w.clock
      obtain ⟨w', response, hrun, hat⟩ := exists_run_overwrite hslot active
        (assigns.retimed createdAt updatedAt) hwritten hevent'
      exact ⟨5, w', _, event', response, hrun, hat, rfl, huntimed'⟩

/-- What a request commits on top of a ledger does not show under other orders. -/
theorem committed_of_ne {event : OutboxEvent V} {actions : List (Action V)} (hinv : w.Inv)
    (hrun : Transition.run step w actions = some w') (houtbox : w'.outbox = w.outbox ++ [event])
    {id : UUID} (hne : event.aggregateId ≠ id) :
    (w'.orders id).committed = (w.orders id).committed := by
  have hinv' := hinv.run hrun
  obtain ⟨ws, es, hhistory, houtbox'⟩ := hinv.committed_append hrun
  obtain rfl : es = [event] := List.append_cancel_left (houtbox'.symm.trans houtbox)
  have hlength := hinv'.ledger.length_eq
  rw [hhistory, houtbox, List.length_append, List.length_append, hinv.ledger.length_eq] at hlength
  obtain ⟨write, rfl⟩ := List.length_eq_one_iff.mp (Nat.add_left_cancel hlength)
  have hwrite : w'.history[w.history.length]? = some write := by
    rw [hhistory, List.getElem?_concat_length]
  obtain ⟨event', hevent', hcommits⟩ := hinv'.ledger.entry hwrite
  rw [houtbox, hinv.ledger.length_eq, List.getElem?_concat_length] at hevent'
  obtain rfl := Option.some.inj hevent'
  have hid := (hcommits.corresponds (hinv'.ledger.take _)).aggregateId
  rw [hinv'.table, hinv.table, hhistory, rowAt_concat_of_ne (hid ▸ hne)]

end Serve

/-! ### Replaying a ledger -/

/-- The world has served the requests of the writes `ws`, in this order and each with success, and
has left what these have left, with the events `es`, up to the instants. -/
structure Replays (v : World V) (ws : List (Write V)) (es : List (OutboxEvent V)) : Prop where
  requests : v.txs.map (·.request) = ws.map (·.request)
  answered : ∀ tx ∈ v.txs, ∃ response, tx.phase = .closed (.ok response)
  outbox : v.outbox.map OutboxEvent.untimed = es.map OutboxEvent.untimed
  rows : ∀ id, (v.orders id).committed.map Order.untimed = (rowAt ws id).map Order.untimed

theorem Replays.quiescent {v : World V} {ws : List (Write V)} {es : List (OutboxEvent V)}
    (h : v.Replays ws es) : v.quiescent = true := by
  refine List.all_eq_true.mpr fun tx htx => ?_
  obtain ⟨response, hphase⟩ := h.answered tx htx
  rw [hphase]
  rfl

end World

/-- **A ledger of fresh entries can be replayed**, one request after the other. -/
theorem SerialLedger.replay [BEq V] {ws : List (Write V)} {es : List (OutboxEvent V)}
    (h : SerialLedger ws es) :
    ∃ serial v, World.runSerial serial = some v ∧ v.Replays ws es := by
  induction h with
  | nil => exact ⟨[], World.init, rfl, rfl, List.forall_mem_nil _, rfl, fun _ => rfl⟩
  | @concat ws es write event hledger hcommits hfresh ih =>
      obtain ⟨serial, v, hv, hreplays⟩ := ih
      have hinv := (World.serialReachable_of_run hv).inv
      obtain ⟨n, v', row, event', response, hrun, hat, hrow, hevent⟩ :=
        World.exists_serve hinv hreplays.quiescent hcommits hfresh (hreplays.rows _)
      obtain ⟨tx, htxs, hrequest⟩ := World.txs_of_serve hrun
      obtain ⟨snapshot, htx⟩ := hat.tx
      rw [htxs, List.getElem?_concat_length, Option.some.injEq] at htx
      have hserial := World.serialRun_of_serve hreplays.quiescent hrun
      refine ⟨serial ++ v.serve 0 write.request n, v', ?_, ?_, fun tx' htx' => ?_, ?_, fun id => ?_⟩
      · rw [World.runSerial, Transition.run_append]
        exact Option.bind_eq_some_iff.mpr ⟨v, hv, hserial⟩
      · rw [htxs, List.map_append, List.map_append, hreplays.requests, List.map_singleton,
          List.map_singleton, hrequest]
      · rw [htxs, List.mem_append, List.mem_singleton] at htx'
        rcases htx' with hold | rfl
        · exact hreplays.answered tx' hold
        · exact ⟨response, by rw [htx]⟩
      · rw [hat.outbox, List.map_append, List.map_append, hreplays.outbox, List.map_singleton,
          List.map_singleton, hevent]
      · by_cases hid : write.orderId = id
        · subst hid
          have hslot : v'.orders write.orderId = ⟨some row, none⟩ := hat.slot
          rw [hslot, rowAt_concat_self, Option.map_some, Option.map_some, hrow]
        · have hid' : event'.aggregateId = write.orderId := by
            have hsame : event'.aggregateId = event.aggregateId := OutboxEvent.aggregateId_eq hevent
            exact hsame.trans (hcommits.corresponds hledger.ledger).aggregateId
          rw [World.committed_of_ne hinv hrun hat.outbox (by rwa [hid']), hreplays.rows,
            rowAt_concat_of_ne hid]

/-! ### The equivalence -/

section Equivalence

variable {ws : List (Write V)} {es : List (OutboxEvent V)}

/-- The order of an event and the version in it are seen without its instants. -/
theorem eventsOf_untimed (es : List (OutboxEvent V)) (id : UUID) :
    eventsOf (es.map OutboxEvent.untimed) id = (eventsOf es id).map OutboxEvent.untimed := by
  have hkey : ∀ e : OutboxEvent V, e.untimed.aggregateId = e.aggregateId := fun _ => rfl
  exact KeyedLog.entries_map OutboxEvent.aggregateId hkey es id

/-- Events that differ in their instants only have the same versions. -/
theorem versions_of_untimed {es es' : List (OutboxEvent V)} {id : UUID}
    (h : (eventsOf es' id).map OutboxEvent.untimed = (eventsOf es id).map OutboxEvent.untimed) :
    (eventsOf es' id).map (·.payload.version) = (eventsOf es id).map (·.payload.version) := by
  have hmap := congrArg (List.map (·.payload.version)) h
  rwa [List.map_map, List.map_map] at hmap

/-- A numbered ledger is a serial one. -/
theorem Ledger.serial_iff_numbered [BEq V] (h : Ledger ws es) :
    SerialLedger ws es ↔ Numbered ws := by
  constructor
  · intro hserial
    clear h
    induction hserial with
    | nil => exact KeyedLog.numbered_nil Write.orderId _
    | concat _ commits fresh ih =>
        exact (KeyedLog.numbered_concat Write.orderId _ Write.snapshot commits.derived).mpr
          ⟨ih, fresh⟩
  · intro hnumbered
    induction h with
    | nil => exact .nil
    | concat ledger commits ih =>
        obtain ⟨hws, hfresh⟩ :=
          (KeyedLog.numbered_concat Write.orderId _ Write.snapshot commits.derived).mp hnumbered
        exact .concat (ih hws) commits hfresh

end Equivalence

/-- **When a run is serializable.**  For any run, these are the same: the first committer wins at
every commit; the requests that have committed a write, served one after the other in the order of
their commits, are all answered with success and leave the same rows and the same outbox, up to
the instants; and there is a serial run, of whatever requests, that leaves under every order the
same events. -/
theorem serializable_tfae [BEq V] {schedule : List (Action V)} {w : World V}
    (h : World.runFromInit schedule = some w) :
    List.TFAE [
      Transition.AllSteps World.step FirstCommitterWins World.init schedule,
      ∃ serial v, World.runSerial serial = some v ∧ v.Replays w.history w.outbox,
      ∃ serial v, World.runSerial serial = some v ∧
        ∀ id, (eventsOf v.outbox id).map OutboxEvent.untimed =
          (eventsOf w.outbox id).map OutboxEvent.untimed] := by
  have hledger := (World.inv_of_run h).ledger
  have hwins : Numbered w.history ↔
      Transition.AllSteps World.step FirstCommitterWins World.init schedule := by
    refine World.history_iff_atCommit (KeyedLog.numbered_nil Write.orderId _) ?_ h
    intro ws es write event _ hcommits
    exact KeyedLog.numbered_concat Write.orderId _ Write.snapshot hcommits.derived
  tfae_have 1 → 2 := fun hall => (hledger.serial_iff_numbered.mpr (hwins.mpr hall)).replay
  tfae_have 2 → 3 := by
    rintro ⟨serial, v, hv, hreplays⟩
    refine ⟨serial, v, hv, fun id => ?_⟩
    rw [← eventsOf_untimed, hreplays.outbox, eventsOf_untimed]
  tfae_have 3 → 1 := by
    rintro ⟨serial, v, hv, hevents⟩
    have hserial := (World.serialReachable_of_run hv).ledger
    have hnumbered := hserial.ledger.numbered_iff.mp (hserial.ledger.serial_iff_numbered.mp hserial)
    refine hwins.mp (hledger.numbered_iff.mpr fun id => ?_)
    have hversions := versions_of_untimed (hevents id)
    have hlength := congrArg List.length hversions
    rw [List.length_map, List.length_map] at hlength
    rw [← hversions, ← hlength]
    exact hnumbered id
  tfae_finish

/-- Two updates that read the same version. -/
theorem serializable_tfae_race :
    ∃ w, World.runFromInit Sample.race = some w ∧
      List.TFAE [
        Transition.AllSteps World.step FirstCommitterWins World.init Sample.race,
        ∃ serial v, World.runSerial serial = some v ∧ v.Replays w.history w.outbox,
        ∃ serial v, World.runSerial serial = some v ∧
          ∀ id, (eventsOf v.outbox id).map OutboxEvent.untimed =
            (eventsOf w.outbox id).map OutboxEvent.untimed] := by
  have hrun : (World.runFromInit Sample.race).isSome := by decide
  obtain ⟨w, hw⟩ := Option.isSome_iff_exists.mp hrun
  exact ⟨w, hw, serializable_tfae hw⟩

end OutboxPattern
