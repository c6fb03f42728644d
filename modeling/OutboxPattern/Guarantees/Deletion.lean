import OutboxPattern.Pipeline.Replica

/-!
# Deletion is final

`delete_order` is a soft delete: it sets `deleted_at` and the status, and every later
request filters on `deleted_at IS NULL`.  The filter is part of an unlocked `SELECT`, so it
says nothing about the row that the request will overwrite in the end.

* A request that loaded the order before it was deleted can still write it, and record an
  event, afterwards: `ORDER_UPDATED` with `is_deleted = false`, or a second
  `ORDER_DELETED`.
* A delete that had loaded the status `CANCELLED` does not write the column, and leaves
  whatever status an update has put there meanwhile.

`deletionFinal_iff` says that these two are all that can go wrong.
-/

namespace OutboxPattern

variable {V : Type}

/-- The operation is a delete. -/
abbrev Operation.IsDelete (operation : Operation V) : Prop :=
  operation.eventType = some .orderDeleted

theorem Operation.isDelete_iff {operation : Operation V} :
    operation.IsDelete ↔ ∃ at_, operation = .delete at_ := by
  cases operation <;> simp [Operation.IsDelete, Operation.eventType]

/-- **Deletion is final**, in a world. -/
structure DeletionFinal (w : World V) : Prop where
  /-- From the commit of a delete on, the row stays as the delete has left it. -/
  final : ∀ i n write at_, w.history[i]? = some write → write.request.operation = .delete at_ →
    i < n → ∃ row, rowAt (w.history.take n) write.orderId = some row ∧
      row.deletedAt = some at_ ∧ row.status = .cancelled ∧ row.version = write.new.version
  /-- From the commit of a delete on, no event of the order is committed. -/
  silent : ∀ (i j : ℕ) (write : Write V) (event : OutboxEvent V), w.history[i]? = some write →
    write.request.operation.IsDelete → i < j → w.outbox[j]? = some event →
    event.aggregateId ≠ write.orderId
  /-- An `ORDER_DELETED` event is the last one of its order. -/
  last : ∀ id i event, (eventsOf w.outbox id)[i]? = some event →
    event.eventType = .orderDeleted → i + 1 = (eventsOf w.outbox id).length
  /-- Once all events are applied, the replica shows which orders are deleted. -/
  replica : ∀ nulls deliveries id cdc row, deliveries.map Prod.snd = w.outbox →
    deliver nulls deliveries id = some cdc → (w.orders id).committed = some row →
    (cdc.isDeleted = true ↔ row.deletedAt.isSome = true)

/-! ### Along the ledger -/

/-- What it takes of the ledger: no write of an order follows its delete, and a delete
leaves the status `CANCELLED`. -/
def DeletesLast (ws : List (Write V)) : Prop :=
  (ws.Pairwise fun a b => a.request.operation.IsDelete → b.orderId ≠ a.orderId) ∧
    ∀ write ∈ ws, write.request.operation.IsDelete → write.new.status = .cancelled

/-- The condition on a commit.  No delete of the order was committed since the request
loaded it; and a delete that had loaded the status `CANCELLED` finds it still in the row. -/
def RespectsDeletion (ws : List (Write V)) (write : Write V) : Prop :=
  (∀ earlier ∈ ws.drop write.snapshot, earlier.request.operation.IsDelete →
    write.orderId ≠ earlier.orderId) ∧
  ∀ loaded base, write.request.operation.IsDelete → write.loaded ws = some loaded →
    rowAt ws write.orderId = some base → loaded.status = .cancelled → base.status = .cancelled

section Ledger

variable [BEq V] {ws : List (Write V)} {es : List (OutboxEvent V)}

/-- A delete sets `deleted_at`, and the status unless it had loaded it as `CANCELLED`. -/
theorem Commits.of_delete {write : Write V} {event : OutboxEvent V}
    (h : Commits ws write event) {at_ : Timestamp}
    (hoperation : write.request.operation = .delete at_) :
    write.new.deletedAt = some at_ ∧ ∃ loaded base, write.loaded ws = some loaded ∧
      rowAt ws write.orderId = some base ∧
      write.new.status = if loaded.status = .cancelled then base.status else .cancelled := by
  cases h with
  | insert operation _ _ _ =>
      replace hoperation := operation.symm.trans hoperation
      cases hoperation
  | @overwrite t request now snapshot loaded order base row changed event _ read active assigns
      current written _ =>
      obtain ⟨-, rfl⟩ := Order.updateRow_eq_some_iff.mp written
      replace hoperation : request.operation = .delete at_ := hoperation
      rw [hoperation] at assigns
      cases assigns with
      | delete =>
          refine ⟨?_, loaded, base, read, current, ?_⟩
          · simp [Order.overwrite, deleteOrder, active]
          · by_cases hstatus : loaded.status = .cancelled
            · simp [Order.overwrite, deleteOrder, hstatus]
            · simp [Order.overwrite, deleteOrder, hstatus, Ne.symm hstatus]

/-- An order that some write has deleted is deleted. -/
theorem Ledger.deletedAt_isSome (h : Ledger ws es) {write : Write V} (hwrite : write ∈ ws)
    (hdelete : write.request.operation.IsDelete) {row : Order V}
    (hrow : rowAt ws write.orderId = some row) : row.deletedAt.isSome := by
  refine h.isSome_of_kept kept_deletedAt write hwrite ?_ row hrow
  obtain ⟨at_, hoperation⟩ := Operation.isDelete_iff.mp hdelete
  obtain ⟨i, hi⟩ := List.mem_iff_getElem?.mp hwrite
  obtain ⟨event, -, hcommits⟩ := h.entry hi
  rw [(hcommits.of_delete hoperation).1]
  rfl

/-- An order that is deleted was deleted by some write. -/
theorem Ledger.exists_delete (h : Ledger ws es) {id : UUID} {row : Order V}
    (hrow : rowAt ws id = some row) (hsome : row.deletedAt.isSome) :
    ∃ write ∈ ws, write.orderId = id ∧ write.request.operation.IsDelete := by
  induction h generalizing row with
  | nil => cases hrow
  | @concat ws es last event ledger commits ih =>
      have hearlier : ∀ {base}, rowAt ws id = some base → base.deletedAt.isSome →
          ∃ write ∈ ws ++ [last], write.orderId = id ∧ write.request.operation.IsDelete := by
        intro base hbase hbaseSome
        obtain ⟨write, hwrite, hfacts⟩ := ih hbase hbaseSome
        exact ⟨write, List.mem_append_left _ hwrite, hfacts⟩
      by_cases hid : last.orderId = id
      · subst hid
        by_cases hdelete : last.request.operation.IsDelete
        · exact ⟨last, by simp, rfl, hdelete⟩
        · rw [rowAt_concat_self, Option.some.injEq] at hrow
          subst hrow
          cases commits with
          | insert operation _ stored _ =>
              obtain ⟨-, currency, -, rfl⟩ := Order.store_eq_some_iff.mp stored
              cases hsome
          | @overwrite t request now snapshot loaded order base row changed event _ _ _
              assigns current written _ =>
              obtain ⟨-, rfl⟩ := Order.updateRow_eq_some_iff.mp written
              refine hearlier current ?_
              rcases assigns.deletedAt_eq with heq | ⟨at_, hoperation, -⟩
              · simpa [Order.overwrite, heq] using hsome
              · exact absurd (Operation.isDelete_iff.mpr ⟨at_, hoperation⟩) hdelete
      · rw [rowAt_concat_of_ne hid] at hrow
        exact hearlier hrow hsome

/-- The writes that a request had loaded its order from do not delete it. -/
theorem Commits.not_isDelete {write : Write V} {event : OutboxEvent V} (ledger : Ledger ws es)
    (h : Commits ws write event) {earlier : Write V} (hearlier : earlier ∈ ws.take write.snapshot)
    (hdelete : earlier.request.operation.IsDelete) : write.orderId ≠ earlier.orderId := by
  intro hid
  cases h with
  | insert _ absent _ _ =>
      exact rowAt_eq_none_iff.mp absent earlier (List.mem_of_mem_take hearlier) hid.symm
  | @overwrite t request now snapshot loaded order base row changed event _ read active _ _ _ _ =>
      have hread : rowAt (ws.take snapshot) earlier.orderId = some loaded := by
        rw [← hid]
        exact read
      have hloaded := (ledger.take snapshot).deletedAt_isSome hearlier hdelete hread
      rw [active] at hloaded
      cases hloaded

/-- **A ledger keeps its deletes last exactly when the appended entry respects them.** -/
theorem Commits.deletesLast_iff {write : Write V} {event : OutboxEvent V}
    (ledger : Ledger ws es) (h : Commits ws write event) :
    DeletesLast (ws ++ [write]) ↔ DeletesLast ws ∧ RespectsDeletion ws write := by
  have hpairwise : (∀ earlier ∈ ws, earlier.request.operation.IsDelete →
        write.orderId ≠ earlier.orderId) ↔
      ∀ earlier ∈ ws.drop write.snapshot, earlier.request.operation.IsDelete →
        write.orderId ≠ earlier.orderId := by
    refine ⟨fun hall earlier hearlier => hall earlier (List.mem_of_mem_drop hearlier),
      fun hdrop earlier hearlier => ?_⟩
    rw [← List.take_append_drop write.snapshot ws, List.mem_append] at hearlier
    rcases hearlier with hearlier | hearlier
    · exact h.not_isDelete ledger hearlier
    · exact hdrop earlier hearlier
  have hstatus : (write.request.operation.IsDelete → write.new.status = .cancelled) ↔
      ∀ loaded base, write.request.operation.IsDelete → write.loaded ws = some loaded →
        rowAt ws write.orderId = some base → loaded.status = .cancelled →
        base.status = .cancelled := by
    constructor
    · intro hcancelled loaded base hdelete hloaded hbase hwas
      obtain ⟨at_, hoperation⟩ := Operation.isDelete_iff.mp hdelete
      obtain ⟨-, loaded', base', hloaded', hbase', hnew⟩ := h.of_delete hoperation
      obtain rfl : loaded = loaded' := Option.some.inj (hloaded.symm.trans hloaded')
      obtain rfl : base = base' := Option.some.inj (hbase.symm.trans hbase')
      rw [if_pos hwas] at hnew
      exact hnew.symm.trans (hcancelled hdelete)
    · intro hkeeps hdelete
      obtain ⟨at_, hoperation⟩ := Operation.isDelete_iff.mp hdelete
      obtain ⟨-, loaded, base, hloaded, hbase, hnew⟩ := h.of_delete hoperation
      rw [hnew]
      split
      · next hwas => exact hkeeps loaded base hdelete hloaded hbase hwas
      · rfl
  unfold DeletesLast RespectsDeletion
  rw [List.pairwise_append, ← hpairwise, ← hstatus]
  simp only [List.pairwise_singleton, List.mem_singleton, forall_eq, true_and, List.mem_append,
    or_imp, forall_and]
  exact and_and_and_comm

omit [BEq V] in
/-- A delete is the last write of its order. -/
theorem DeletesLast.last_eq (h : DeletesLast ws) {write : Write V} (hwrite : write ∈ ws)
    (hdelete : write.request.operation.IsDelete) :
    KeyedLog.last Write.orderId write.orderId ws = some write := by
  obtain ⟨before, after, rfl⟩ := List.append_of_mem hwrite
  have hafter := (List.pairwise_cons.mp (List.pairwise_append.mp h.1).2.1).1
  rw [List.append_cons, KeyedLog.last_append_of_untouched, KeyedLog.last_concat_self]
  exact fun later hlater => hafter later hlater hdelete

/-- The present row of an order is deleted if and only if its last write is a delete. -/
theorem DeletesLast.deletedAt_iff (h : DeletesLast ws) (ledger : Ledger ws es) {id : UUID}
    {write : Write V} (hwrite : KeyedLog.last Write.orderId id ws = some write) :
    write.new.deletedAt.isSome = true ↔ write.request.operation.IsDelete := by
  obtain ⟨hmem, rfl⟩ := KeyedLog.mem_of_last Write.orderId hwrite
  have hrow : rowAt ws write.orderId = some write.new := by
    rw [rowAt, hwrite]
    rfl
  constructor
  · intro hsome
    obtain ⟨delete, hdelete, hid, hisDelete⟩ := ledger.exists_delete hrow hsome
    have hlast := h.last_eq hdelete hisDelete
    rw [hid, hwrite, Option.some.injEq] at hlast
    rwa [hlast]
  · intro hdelete
    exact ledger.deletedAt_isSome hmem hdelete hrow

omit [BEq V] in
theorem DeletesLast.take (h : DeletesLast ws) (n : ℕ) : DeletesLast (ws.take n) :=
  ⟨h.1.sublist (List.take_sublist n ws),
    fun write hwrite => h.2 write (List.mem_of_mem_take hwrite)⟩

/-- The events of an order, all but the last, are no deletes. -/
theorem DeletesLast.pairwise_eventsOf (h : DeletesLast ws) (ledger : Ledger ws es) (id : UUID) :
    (eventsOf es id).Pairwise fun e _ => e.eventType ≠ .orderDeleted := by
  have hwrites : (writesOf ws id).Pairwise fun a _ => ¬ a.request.operation.IsDelete := by
    refine (h.1.sublist List.filter_sublist).imp_of_mem ?_
    intro a b ha hb hab hdelete
    refine hab hdelete ?_
    rw [((KeyedLog.mem_entries Write.orderId).mp ha).2,
      ((KeyedLog.mem_entries Write.orderId).mp hb).2]
  have hmap := ledger.map_eventsOf id fun write event hcorresponds => hcorresponds.eventType
  have hpairwise : ((eventsOf es id).map fun e => some e.eventType).Pairwise
      fun x _ => x ≠ some .orderDeleted := by
    rw [hmap, List.pairwise_map]
    exact hwrites
  exact (List.pairwise_map.mp hpairwise).imp fun hne heq => hne (congrArg some heq)

end Ledger

/-! ### The law, and when it holds -/

/-- **The law, along the ledger.** -/
theorem World.Inv.deletionFinal_iff_deletesLast [BEq V] {w : World V} (h : w.Inv) :
    DeletionFinal w ↔ DeletesLast w.history := by
  constructor
  · intro hlaw
    refine ⟨List.pairwise_iff_getElem.mpr fun i j hi hj hij hdelete => ?_,
      fun write hwrite hdelete => ?_⟩
    · obtain ⟨event, hevent, hcommits⟩ := h.ledger.entry (List.getElem?_eq_getElem hj)
      have hcorresponds := hcommits.corresponds (h.ledger.take j)
      rw [← hcorresponds.aggregateId]
      exact hlaw.silent i j _ event (List.getElem?_eq_getElem hi) hdelete hij hevent
    · obtain ⟨i, hi⟩ := List.mem_iff_getElem?.mp hwrite
      obtain ⟨at_, hoperation⟩ := Operation.isDelete_iff.mp hdelete
      obtain ⟨row, hrow, -, hstatus, -⟩ :=
        hlaw.final i (i + 1) write at_ hi hoperation (Nat.lt_succ_self i)
      rw [List.take_add_one, hi, Option.toList_some, rowAt_concat_self, Option.some.injEq] at hrow
      rwa [hrow]
  · intro hlast
    refine ⟨fun i n write at_ hi hoperation hin => ?_,
      fun i j write event hi hdelete hij hevent => ?_, fun id i event hi hdeleted => ?_,
      fun nulls deliveries id cdc row hdeliveries hcdc hrow => ?_⟩
    · have hdelete := Operation.isDelete_iff.mpr ⟨at_, hoperation⟩
      have hmem : write ∈ w.history.take n := by
        refine List.mem_of_getElem? (i := i) ?_
        rwa [List.getElem?_take_of_lt hin]
      obtain ⟨event, -, hcommits⟩ := h.ledger.entry hi
      refine ⟨write.new, ?_, (hcommits.of_delete hoperation).1,
        hlast.2 write (List.mem_of_mem_take hmem) hdelete, rfl⟩
      rw [rowAt, (hlast.take n).last_eq hmem hdelete]
      rfl
    · have hlength := h.ledger.length_eq
      have hj : j < w.history.length := hlength ▸ (List.getElem?_eq_some_iff.mp hevent).1
      obtain ⟨event', hevent', hcommits⟩ := h.ledger.entry (List.getElem?_eq_getElem hj)
      obtain rfl : event = event' := Option.some.inj (hevent.symm.trans hevent')
      rw [(hcommits.corresponds (h.ledger.take j)).aggregateId]
      obtain ⟨hlt, rfl⟩ := List.getElem?_eq_some_iff.mp hi
      exact List.pairwise_iff_getElem.mp hlast.1 i j hlt hj hij hdelete
    · obtain ⟨hlt, rfl⟩ := List.getElem?_eq_some_iff.mp hi
      by_contra hne
      have hnext : i + 1 < (eventsOf w.outbox id).length := by omega
      exact List.pairwise_iff_getElem.mp (hlast.pairwise_eventsOf h.ledger id) i (i + 1) hlt hnext
        (Nat.lt_succ_self i) hdeleted
    · have hreplica := h.ledger.deliver_eq nulls
        (fun d hd => hdeliveries ▸ List.mem_map_of_mem hd) id
      rw [hdeliveries, hcdc] at hreplica
      rw [h.table] at hrow
      obtain ⟨write, hwrite, rfl⟩ := Option.map_eq_some_iff.mp hrow
      have hsource := h.ledger.last_corresponds id
      rw [hwrite] at hsource
      generalize KeyedLog.last OutboxEvent.aggregateId id w.outbox = event at hreplica hsource
      cases hreplica with
      | some hcarries =>
          cases hsource with
          | some hcorresponds =>
              rw [hcarries.isDeleted, hcorresponds.isDeleted, ← Option.some.injEq,
                ← hcorresponds.eventType]
              exact (hlast.deletedAt_iff h.ledger hwrite).symm

/-- **When deletion is final.**  A run ends with all deletions final exactly when every
write it commits respects the deletions before it. -/
theorem deletionFinal_iff [BEq V] {schedule : List (Action V)} {w : World V}
    (h : World.runFromInit schedule = some w) :
    DeletionFinal w ↔
      Transition.AllSteps World.step (World.AtCommit RespectsDeletion) World.init schedule := by
  rw [(World.inv_of_run h).deletionFinal_iff_deletesLast]
  refine World.history_iff_atCommit ⟨List.Pairwise.nil, by simp⟩ ?_ h
  intro ws es write event ledger hcommits
  exact hcommits.deletesLast_iff ledger

/-- An update reads the order, a delete commits, and the update commits after it. -/
def Sample.resurrection : List (Action ℕ) :=
  [.begin 1 create] ++ statements 3 0 ++
  [.begin 1 (update (some .shipped) none), .advance 1, .begin 1 delete] ++
  statements 5 2 ++ statements 4 1

theorem deletionFinal_iff_resurrection :
    ∃ w, World.runFromInit Sample.resurrection = some w ∧ (DeletionFinal w ↔
      Transition.AllSteps World.step (World.AtCommit RespectsDeletion) World.init
        Sample.resurrection) := by
  have hrun : (World.runFromInit Sample.resurrection).isSome := by decide
  obtain ⟨w, hw⟩ := Option.isSome_iff_exists.mp hrun
  exact ⟨w, hw, deletionFinal_iff hw⟩

/-- The last event of the order is an `ORDER_UPDATED`, after its `ORDER_DELETED`. -/
theorem deletion_resurrection :
    ∃ w, World.runFromInit Sample.resurrection = some w ∧ ¬ DeletionFinal w := by
  have hrun : (World.runFromInit Sample.resurrection).map
      (fun w => (eventsOf w.outbox Sample.orderId).map (·.eventType)) =
      some [.orderCreated, .orderDeleted, .orderUpdated] := by decide
  obtain ⟨w, hw, htypes⟩ := Option.map_eq_some_iff.mp hrun
  refine ⟨w, hw, fun hlaw => ?_⟩
  have hdeleted : ((eventsOf w.outbox Sample.orderId).map (·.eventType))[1]? =
      some .orderDeleted := by
    rw [htypes]
    rfl
  rw [List.getElem?_map, Option.map_eq_some_iff] at hdeleted
  obtain ⟨event, hevent, htype⟩ := hdeleted
  have hlast := hlaw.last Sample.orderId 1 event hevent htype
  have hlength := congrArg List.length htypes
  rw [List.length_map, ← hlast] at hlength
  exact absurd hlength (by decide)

end OutboxPattern
