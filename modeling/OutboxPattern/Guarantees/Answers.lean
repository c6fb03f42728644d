import OutboxPattern.Guarantees.Atomicity
import OutboxPattern.Orders.Serial

/-!
# What an answer says, and when it was so

A request that runs among others reads one committed state and is answered when there is another.
So its answer cannot be held against either of the two; but it can be held against some state in
between.

`Justifies` is that law.  Whatever a request is answered with, other than that it has failed, is
what it would have been answered with on its own, on the committed rows of *one* moment between
its `BEGIN` and its answer.  Moments are counted in committed writes.

The two `SELECT`s of `_get_active_order` may see different states, and the answer 404 or 410 is
made up of both.  It is still true of one of them, because a deleted order stays deleted
(`Ledger.deleted_of_later`).
-/

namespace OutboxPattern

variable {V : Type}

/-- The request has nothing to write to the row: it is a read, or an update that changes no
field. -/
inductive Unwritten : Operation V → Order V → Prop
  | get {row : Order V} : Unwritten .get row
  | update {req : UpdateOrderRequest V} {row : Order V}
      (unchanged : updateOrder req row = .ok (row, [])) : Unwritten (.update req) row

/-- **An answer that was true.**  The request of the transaction `t` began after `begun` of the
committed writes `ws`, and is answered before any further one. -/
inductive Justifies (ws : List (Write V)) (begun : ℕ) (t : TxId) (request : Request V) :
    Response V → Prop
  /-- Something has failed, and the request has had no effect. -/
  | failed (silent : ∀ write ∈ ws, write.xid ≠ t) :
      Justifies ws begun t request (.error internalServerError)
  /-- After `n` writes, the row was one that the service rejects the request for. -/
  | rejected {n : ℕ} {e : ServiceError} (since : begun ≤ n) (until_ : n ≤ ws.length)
      (operation : ∀ req, request.operation ≠ .create req)
      (rejects : World.rejection (rowAt (ws.take n) request.orderId) request = some e)
      (silent : ∀ write ∈ ws, write.xid ≠ t) :
      Justifies ws begun t request (.error e.toHttp)
  /-- After `n` writes, the row was the one that the answer shows, and it was active. -/
  | read {n : ℕ} {row : Order V} (since : begun ≤ n) (until_ : n ≤ ws.length)
      (shows : rowAt (ws.take n) request.orderId = some row)
      (accepts : World.rejection (some row) request = none)
      (unwritten : Unwritten request.operation row)
      (silent : ∀ write ∈ ws, write.xid ≠ t) :
      Justifies ws begun t request (.ok (toResponse row))
  /-- The request has written the row that the answer shows.  An update or a delete has read the
  order after `write.snapshot` writes, when the service accepted it. -/
  | wrote {i : ℕ} {write : Write V} {response : OrderResponse V} (since : begun ≤ i)
      (written : ws[i]? = some write) (xid : write.xid = t) (same : write.request = request)
      (accepts : (∃ req, request.operation = .create req) ∨
        begun ≤ write.snapshot ∧ write.snapshot ≤ i ∧
          World.rejection (rowAt (ws.take write.snapshot) request.orderId) request = none)
      (shows : response.Describes write.new) :
      Justifies ws begun t request (.ok response)

/-! ### Rows at a moment of the ledger -/

section Moments

variable [BEq V] {ws : List (Write V)} {es : List (OutboxEvent V)}

omit [BEq V] in
/-- An order that has a row keeps having one. -/
theorem isSome_rowAt_of_take {n : ℕ} {id : UUID} (h : (rowAt (ws.take n) id).isSome) :
    (rowAt ws id).isSome := by
  rw [Option.isSome_iff_ne_none] at h ⊢
  intro hnone
  refine h (rowAt_eq_none_iff.mpr fun write hwrite => ?_)
  exact rowAt_eq_none_iff.mp hnone write (List.mem_of_mem_take hwrite)

/-- Once deleted, an order stays deleted. -/
theorem Ledger.deleted_of_later (h : Ledger ws es) {n : ℕ} {id : UUID} {row : Order V}
    (hrow : rowAt (ws.take n) id = some row) (hdeleted : row.deletedAt.isSome) :
    ∃ row', rowAt ws id = some row' ∧ row'.deletedAt.isSome := by
  obtain ⟨row', hrow'⟩ := Option.isSome_iff_exists.mp
    (isSome_rowAt_of_take (Option.isSome_iff_exists.mpr ⟨row, hrow⟩))
  obtain ⟨write, hwrite, rfl, rfl⟩ := exists_write_of_rowAt hrow
  exact ⟨row', hrow', h.isSome_of_kept kept_deletedAt write (List.mem_of_mem_take hwrite)
    hdeleted row' hrow'⟩

omit [BEq V] in
/-- What was committed at a moment does not change later. -/
theorem rowAt_take_append {n : ℕ} (hle : n ≤ ws.length) (suffix : List (Write V)) (id : UUID) :
    rowAt ((ws ++ suffix).take n) id = rowAt (ws.take n) id := by
  rw [List.take_append_of_le_length hle]

end Moments

/-- An update that changes no field leaves the object as it was loaded. -/
theorem eq_of_updateOrder_nil {req : UpdateOrderRequest V} {row order : Order V}
    (hok : updateOrder req row = .ok (order, [])) : order = row := by
  have hnil := assign_nil_of_updateOrder hok
  have hmem : ∀ field : OrderField, field ∉ (UpdateOrder.assign req row).2 := by simp [hnil]
  have horder : order = (UpdateOrder.assign req row).1 := by
    unfold updateOrder at hok
    split at hok
    · cases hok
    · simp only [hnil, if_true, Except.ok.injEq] at hok
      rw [hok]
  have hstatus : req.status.getD row.status = row.status := by
    by_contra hne
    exact hmem .status (UpdateOrder.mem_assign_snd.mpr hne)
  have hitems : req.lineItems = none := by
    by_contra hne
    exact hmem .lineItems (UpdateOrder.mem_assign_snd.mpr (Option.isSome_iff_ne_none.mpr hne))
  have haddress : req.shippingAddress = none := by
    by_contra hne
    exact hmem .shippingAddress (UpdateOrder.mem_assign_snd.mpr (Option.isSome_iff_ne_none.mpr hne))
  have hmetadata : req.metadata = none := by
    by_contra hne
    exact hmem .metadata (UpdateOrder.mem_assign_snd.mpr (Option.isSome_iff_ne_none.mpr hne))
  rw [horder, UpdateOrder.assign_fst, hstatus, hitems, haddress, hmetadata]
  rfl

section Rejection

variable {row order : Order V} {request : Request V} {req : UpdateOrderRequest V}

/-- An active order is refused to an update by the version check only. -/
theorem rejection_of_error {e : ServiceError} (hactive : row.deletedAt = none)
    (hoperation : request.operation = .update req) (herror : updateOrder req row = .error e) :
    World.rejection (some row) request = some e := by
  have hversion : row.version ≠ req.version ∧ e = .optimisticLock req.version row.version := by
    unfold updateOrder at herror
    split at herror
    · next hne => exact ⟨hne, (Except.error.inj herror).symm⟩
    · dsimp only at herror
      split at herror
      · cases herror
      · cases herror
  simp only [World.rejection, hactive, Option.isSome_none, Bool.false_eq_true, if_false,
    hoperation, if_pos hversion.1, hversion.2]

/-- An update of an active order that `updateOrder` accepts is not rejected. -/
theorem rejection_of_ok {changed : List OrderField} (hactive : row.deletedAt = none)
    (hoperation : request.operation = .update req)
    (hok : updateOrder req row = .ok (order, changed)) :
    World.rejection (some row) request = none := by
  have hversion : ¬ row.version ≠ req.version := by
    intro hne
    rw [updateOrder, if_pos hne] at hok
    cases hok
  simp only [World.rejection, hactive, Option.isSome_none, Bool.false_eq_true, if_false,
    hoperation, if_neg hversion]

/-- To a read or a delete it is not refused. -/
theorem rejection_of_active (hactive : row.deletedAt = none)
    (hoperation : ∀ req, request.operation ≠ .update req) :
    World.rejection (some row) request = none := by
  simp only [World.rejection, hactive, Option.isSome_none, Bool.false_eq_true, if_false]

end Rejection

/-! ### On the way to an answer -/

/-- The transaction creates an order, or read an active one that the service accepted it for. -/
def Transaction.AcceptedSince (ws : List (Write V)) (begun : ℕ) (tx : Transaction V) : Prop :=
  (∃ req, tx.request.operation = .create req) ∨
    begun ≤ tx.snapshot ∧ tx.snapshot ≤ ws.length ∧
      World.rejection (rowAt (ws.take tx.snapshot) tx.request.orderId) tx.request = none

/-- What is known of a transaction that began after `begun` writes, about the states that it has
read. -/
def Transaction.Justified (ws : List (Write V)) (begun : ℕ) (t : TxId) (tx : Transaction V) :
    Prop :=
  match tx.phase with
  | .begun => True
  | .missed => (∀ req, tx.request.operation ≠ .create req) ∧
      ∃ n, begun ≤ n ∧ n ≤ ws.length ∧
        (rowAt (ws.take n) tx.request.orderId).filter (·.deletedAt.isNone) = none
  | .unchanged order => Unwritten tx.request.operation order ∧
      World.rejection (some order) tx.request = none ∧
      ∃ n, begun ≤ n ∧ n ≤ ws.length ∧ rowAt (ws.take n) tx.request.orderId = some order
  | .closed response => Justifies ws begun t tx.request response
  | _ => tx.AcceptedSince ws begun

section Justified

variable {ws : List (Write V)} {begun : ℕ} {t : TxId} {tx : Transaction V}

/-- An answer that was true at a moment stays true of that moment, whatever is committed later by
others. -/
theorem Justifies.append {request : Request V} {response : Response V}
    (h : Justifies ws begun t request response) {suffix : List (Write V)}
    (hothers : ∀ write ∈ suffix, write.xid ≠ t) :
    Justifies (ws ++ suffix) begun t request response := by
  have hsilent : (∀ write ∈ ws, write.xid ≠ t) → ∀ write ∈ ws ++ suffix, write.xid ≠ t :=
    fun hws write hwrite => (List.mem_append.mp hwrite).elim (hws write) (hothers write)
  have hle : ∀ {n}, n ≤ ws.length → n ≤ (ws ++ suffix).length := by
    intro n hn
    rw [List.length_append]
    omega
  cases h with
  | failed silent => exact .failed (hsilent silent)
  | rejected since until_ operation rejects silent =>
      exact .rejected since (hle until_) operation (by rwa [rowAt_take_append until_])
        (hsilent silent)
  | read since until_ shows accepts unwritten silent =>
      exact .read since (hle until_) (by rwa [rowAt_take_append until_]) accepts unwritten
        (hsilent silent)
  | wrote since written xid same accepts shows =>
      have hlt := (List.getElem?_eq_some_iff.mp written).1
      refine .wrote since (by rw [List.getElem?_append_left hlt, written]) xid same ?_ shows
      rcases accepts with hcreate | ⟨hbegun, hsnapshot, haccepts⟩
      · exact Or.inl hcreate
      · exact Or.inr ⟨hbegun, hsnapshot, by rwa [rowAt_take_append (hsnapshot.trans hlt.le)]⟩

/-- What others commit does not make an answer untrue. -/
theorem Transaction.Justified.append (h : tx.Justified ws begun t) {suffix : List (Write V)}
    (hothers : ∀ write ∈ suffix, write.xid ≠ t) :
    tx.Justified (ws ++ suffix) begun t := by
  have hle : ∀ {n}, n ≤ ws.length → n ≤ (ws ++ suffix).length := by
    intro n hn
    rw [List.length_append]
    omega
  unfold Transaction.Justified at h ⊢
  cases hphase : tx.phase with
  | begun => trivial
  | missed =>
      rw [hphase] at h
      obtain ⟨hoperation, n, hbegun, hn, hmissed⟩ := h
      exact ⟨hoperation, n, hbegun, hle hn, by rwa [rowAt_take_append hn]⟩
  | unchanged order =>
      rw [hphase] at h
      obtain ⟨hunwritten, haccepts, n, hbegun, hn, hrow⟩ := h
      exact ⟨hunwritten, haccepts, n, hbegun, hle hn, by rwa [rowAt_take_append hn]⟩
  | closed response =>
      rw [hphase] at h
      exact Justifies.append h hothers
  | _ =>
      rw [hphase] at h
      rcases h with hcreate | ⟨hbegun, hsnapshot, haccepts⟩
      · exact Or.inl hcreate
      · exact Or.inr ⟨hbegun, hle hsnapshot, by rwa [rowAt_take_append hsnapshot]⟩

end Justified

namespace World

section Advance

variable [BEq V] {w w' : World V} {begun : ℕ} {t : TxId} {tx : Transaction V}

/-- An open transaction has committed nothing. -/
theorem Inv.silent (hinv : w.Inv) (htx : w.txs[t]? = some tx)
    (hopen : ∀ response, tx.phase ≠ .closed response) : ∀ write ∈ w.history, write.xid ≠ t := by
  rintro write hwrite rfl
  obtain ⟨u, response, hu, -, -, hphase, -⟩ := hinv.answered write hwrite
  obtain rfl : tx = u := Option.some.inj (htx.symm.trans hu)
  exact hopen _ hphase

/-- The first `SELECT` reads the latest committed row. -/
theorem justified_selectActive (hinv : w.Inv) (htx : w.txs[t]? = some tx)
    (hphase : tx.phase = .begun) (hbegun : begun ≤ w.history.length)
    (hoperation : ∀ req, tx.request.operation ≠ .create req) :
    ∃ tx', (w.selectActive t tx).txs = w.txs.set t tx' ∧ tx'.request = tx.request ∧
      tx'.Justified w.history begun t := by
  have hsilent := hinv.silent htx (by simp [hphase])
  have hnow : rowAt (w.history.take w.history.length) tx.request.orderId =
      (w.orders tx.request.orderId).committed := by
    rw [List.take_length, hinv.table]
  unfold World.selectActive
  split
  · next hnone => exact ⟨_, rfl, rfl, hoperation, _, hbegun, le_rfl, hnow ▸ hnone⟩
  · next loaded hsome =>
    obtain ⟨hcommitted, hactive⟩ := Option.filter_eq_some_iff.mp hsome
    rw [hcommitted] at hnow
    replace hactive := Option.isNone_iff_eq_none.mp hactive
    -- the transaction holds the order that it has just loaded
    have hholds : ∀ {order changed}, rejection (some loaded) tx.request = none →
        Transaction.Justified w.history begun t
          { tx with snapshot := w.history.length, phase := .assigned loaded order changed } :=
      fun haccepts => Or.inr ⟨hbegun, le_rfl, by rw [hnow, haccepts]⟩
    dsimp only
    split
    · next req hupdate =>
      split
      · next e herror =>
        exact ⟨_, txs_rollback w t _ _, rfl, Justifies.rejected hbegun le_rfl hoperation
          (by rw [hnow, rejection_of_error hactive hupdate herror]) hsilent⟩
      · next order changed hok =>
        have haccepts := rejection_of_ok hactive hupdate hok
        split
        · next hnil =>
          subst hnil
          obtain rfl := eq_of_updateOrder_nil hok
          refine ⟨_, rfl, rfl, ?_, haccepts, _, hbegun, le_rfl, hnow⟩
          show Unwritten tx.request.operation order
          rw [hupdate]
          exact .update hok
        · exact ⟨_, rfl, rfl, hholds haccepts⟩
    · next at_ hdelete =>
      exact ⟨_, rfl, rfl, hholds (rejection_of_active hactive (by simp [hdelete]))⟩
    · next hupdate hdelete =>
      refine ⟨_, rfl, rfl, ?_, rejection_of_active hactive hupdate, _, hbegun, le_rfl, hnow⟩
      show Unwritten tx.request.operation loaded
      cases hop : tx.request.operation with
      | create req => exact absurd hop (hoperation req)
      | update req => exact absurd hop (hupdate req)
      | delete at_ => exact absurd hop (hdelete at_)
      | get => exact .get

/-- The second `SELECT` tells the two errors apart, from what both of them saw. -/
theorem justified_selectDeleted (hinv : w.Inv) (htx : w.txs[t]? = some tx)
    (hphase : tx.phase = .missed) (hbegun : begun ≤ w.history.length)
    (hjust : tx.Justified w.history begun t) :
    ∃ tx', (w.selectDeleted t tx).txs = w.txs.set t tx' ∧ tx'.request = tx.request ∧
      tx'.Justified w.history begun t := by
  have hsilent := hinv.silent htx (by simp [hphase])
  rw [Transaction.Justified, hphase] at hjust
  obtain ⟨hoperation, n, hsince, hn, hmissed⟩ := hjust
  rw [selectDeleted_eq]
  refine ⟨_, txs_rollback w t tx _, rfl, ?_⟩
  show Justifies _ _ _ _ _
  unfold missingError
  split
  · next row hdeleted =>
    obtain ⟨hcommitted, hisSome⟩ := Option.filter_eq_some_iff.mp hdeleted
    refine .rejected hbegun le_rfl hoperation ?_ hsilent
    rw [List.take_length, ← hinv.table, hcommitted, rejection]
    simp only [hisSome, if_true]
  · next hnone =>
    refine .rejected hsince hn hoperation ?_ hsilent
    cases hrow : rowAt (w.history.take n) tx.request.orderId with
    | none => rfl
    | some row =>
        -- the first `SELECT` saw the order deleted, and so must the second one
        rw [hrow] at hmissed
        have hdeleted : row.deletedAt.isSome := by
          simpa [Option.filter_some, Option.isSome_iff_ne_none] using hmissed
        obtain ⟨row', hrow', hdeleted'⟩ := hinv.ledger.deleted_of_later hrow hdeleted
        rw [hinv.table, hrow', Option.filter_some, if_pos hdeleted'] at hnone
        cases hnone

/-- **The next statement of a transaction keeps it justified.** -/
theorem justified_advance (hinv : w.Inv) (htx : w.txs[t]? = some tx)
    (hbegun : begun ≤ w.history.length) (hjust : tx.Justified w.history begun t)
    (hstep : w.advance t tx = some w') :
    ∃ tx', w'.txs = w.txs.set t tx' ∧ tx'.request = tx.request ∧
      tx'.Justified w'.history begun t := by
  have hsilent := hinv.silent htx (open_of_advance hstep)
  have hinvTx := hinv.txs t tx htx
  have hfails : ∃ tx', (w.rollback t tx internalServerError).txs = w.txs.set t tx' ∧
      tx'.request = tx.request ∧ tx'.Justified w.history begun t :=
    ⟨_, txs_rollback w t tx _, rfl, Justifies.failed hsilent⟩
  have hquiet : (∀ order, tx.phase ≠ .recorded order) → w'.history = w.history := by
    intro hne
    rcases advance_cases hinv htx hstep with ⟨⟨_, hlocal, -⟩, -⟩ | ⟨order, _, _, hphase, -⟩
    · exact hlocal.history
    · exact absurd hphase (hne order)
  unfold World.advance at hstep
  split at hstep
  · next hphase =>
    split at hstep
    · next req hoperation =>
      unfold World.flushInsert at hstep
      split at hstep
      · cases hstep
      · split at hstep
        · cases hstep
          exact ⟨_, rfl, rfl, Or.inl ⟨req, hoperation⟩⟩
        · cases hstep
          rw [hquiet (by simp [hphase])]
          exact hfails
    · next hoperation =>
      cases hstep
      rw [hquiet (by simp [hphase])]
      exact justified_selectActive hinv htx hphase hbegun hoperation
  · next hphase =>
    cases hstep
    rw [hquiet (by simp [hphase])]
    exact justified_selectDeleted hinv htx hphase hbegun hjust
  · next loaded order changed hphase =>
    rw [Transaction.Justified, hphase] at hjust
    unfold World.flushUpdate at hstep
    split at hstep
    · cases hstep
    · split at hstep
      · cases hstep
        exact ⟨_, rfl, rfl, hjust⟩
      · cases hstep
        rw [hquiet (by simp [hphase])]
        exact hfails
  · next order changed hphase =>
    rw [Transaction.Justified, hphase] at hjust
    split at hstep
    · cases hstep
      exact ⟨_, rfl, rfl, hjust⟩
    · cases hstep
      rw [hquiet (by simp [hphase])]
      unfold World.refresh
      split
      · exact ⟨_, rfl, rfl, hjust⟩
      · exact hfails
  · next order changed hphase =>
    rw [Transaction.Justified, hphase] at hjust
    cases hstep
    exact ⟨_, rfl, rfl, hjust⟩
  · next order hphase =>
    rw [Transaction.Justified, hphase] at hjust
    rw [TxInv, hphase] at hinvTx
    obtain ⟨row, event, hown, hstored, -⟩ := hinvTx
    cases hstep
    have hhistory : (w.commit t tx order).history = w.history ++ [w.writeOf t tx row] := by
      rw [World.commit, pendingWrite_of_own hown]
      rfl
    refine ⟨_, rfl, rfl, ?_⟩
    rw [hhistory]
    have hwritten : (w.history ++ [w.writeOf t tx row])[w.history.length]? =
        some (w.writeOf t tx row) := List.getElem?_concat_length
    refine Justifies.wrote hbegun hwritten rfl rfl ?_ (describes_toResponse hstored)
    rcases hjust with hcreate | ⟨hsince, hsnapshot, haccepts⟩
    · exact Or.inl hcreate
    · refine Or.inr ⟨hsince, hsnapshot, ?_⟩
      show rejection (rowAt ((w.history ++ _).take tx.snapshot) _) _ = none
      rw [rowAt_take_append hsnapshot, haccepts]
  · next order hphase =>
    rw [Transaction.Justified, hphase] at hjust
    rw [TxInv, hphase] at hinvTx
    obtain ⟨hunwritten, haccepts, n, hsince, hn, hrow⟩ := hjust
    cases hstep
    rw [commit_of_idle hinvTx]
    exact ⟨_, rfl, rfl, Justifies.read hsince hn hrow haccepts hunwritten hsilent⟩
  · cases hstep

end Advance

/-- The transaction `t`, which serves `request` and began after `begun` writes, is justified. -/
def JustifiedAt (w : World V) (begun : ℕ) (t : TxId) (request : Request V) : Prop :=
  begun ≤ w.history.length ∧ ∃ tx, w.txs[t]? = some tx ∧ tx.request = request ∧
    tx.Justified w.history begun t

/-- One step of the system keeps a transaction justified, whether it is its own or not. -/
theorem JustifiedAt.step [BEq V] {w w' : World V} {begun : ℕ} {t : TxId} {request : Request V}
    (hinv : w.Inv) (h : w.JustifiedAt begun t request) {action : Action V}
    (hstep : w.step action = some w') : w'.JustifiedAt begun t request := by
  obtain ⟨hbegun, tx, htx, hrequest, hjust⟩ := h
  have hlt : t < w.txs.length := (List.getElem?_eq_some_iff.mp htx).1
  cases action with
  | begin elapsed request' =>
      cases hstep
      exact ⟨hbegun, tx, (List.getElem?_append_left hlt).trans htx, hrequest, hjust⟩
  | raise t' =>
      obtain ⟨u, hu, hraise⟩ := Option.bind_eq_some_iff.mp hstep
      split at hraise
      · cases hraise
      · next hopen =>
        cases hraise
        have hlocal : LocalStep w (w.rollback t' u internalServerError) t' u _ :=
          localStep_rollback rfl
        refine ⟨by rwa [hlocal.history], ?_⟩
        rw [hlocal.history, hlocal.txs]
        by_cases hne : t' = t
        · subst hne
          obtain rfl := Option.some.inj (htx.symm.trans hu)
          exact ⟨_, List.getElem?_set_self hlt, hrequest,
            Justifies.failed (hinv.silent htx hopen)⟩
        · exact ⟨tx, (List.getElem?_set_ne hne).trans htx, hrequest, hjust⟩
  | advance t' =>
      obtain ⟨u, hu, hadvance⟩ := Option.bind_eq_some_iff.mp hstep
      obtain ⟨ws, es, hhistory, -⟩ := hinv.committed_append
        ((Transition.run_cons_of_step World.step hstep []).trans rfl)
      refine ⟨by rw [hhistory, List.length_append]; omega, ?_⟩
      by_cases hne : t' = t
      · subst hne
        obtain rfl := Option.some.inj (htx.symm.trans hu)
        obtain ⟨tx', htxs, hrequest', hjust'⟩ := justified_advance hinv htx hbegun hjust hadvance
        exact ⟨tx', by rw [htxs, List.getElem?_set_self hlt], hrequest'.trans hrequest, hjust'⟩
      · obtain ⟨u', htxs, -⟩ := statement_of_advance hadvance
        refine ⟨tx, by rw [htxs, List.getElem?_set_ne hne, htx], hrequest, ?_⟩
        rw [hhistory]
        refine hjust.append fun write hwrite => ?_
        -- whatever the step has committed is a write of `t'`
        rcases step_effect hinv hstep with ⟨-, hsame, -⟩ | ⟨write', event, hcommitting, -, hsame, -⟩
        · rw [hhistory] at hsame
          rw [List.append_right_eq_self.mp hsame] at hwrite
          cases hwrite
        · rw [hhistory] at hsame
          rw [List.append_cancel_left hsame, List.mem_singleton] at hwrite
          subst hwrite
          obtain ⟨v, -, hpending⟩ := Option.bind_eq_some_iff.mp hcommitting
          split at hpending
          · obtain ⟨row, -, rfl⟩ := Option.map_eq_some_iff.mp hpending
            exact hne
          · cases hpending

end World

/-- A read finds no order, then the order is created, and then the read is answered. -/
def Sample.missed : List (Action ℕ) :=
  [.begin 1 ⟨orderId, .get, trace⟩, .advance 0] ++ [.begin 1 create] ++ statements 3 1 ++
    [.advance 0]

end OutboxPattern
