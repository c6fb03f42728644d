import OutboxPattern.Guarantees.Lifecycle
import OutboxPattern.Pipeline.Replica

/-!
# The audit columns of the replica

Four columns of `orders_cdc` are to tell of the event that was applied last: its type, when it
was written, which fields it changed, and when it was applied.  The view `cdc_lag_monitor`
subtracts the second from the fourth.

`auditColumns_never` says that they never do, after any events of a serial run, applied in
order.  The type of an event goes to a header and its `created_at` nowhere, so no record has a
field for the first two columns, and no row ever gets a value there.  The other two go stale:
a row keeps the time of its first record, for no record has a field for that either, and a
record without changed fields leaves those of an earlier one behind.
-/

namespace OutboxPattern

variable {V : Type}

/-- `ingested_at - event_created_at`, as in `cdc_lag_monitor`. -/
def ReplicaRow.cdcLag (row : ReplicaRow V) : Option ℤ :=
  row.eventCreatedAt.map fun (createdAt : Timestamp) => (row.ingestedAt : ℤ) - (createdAt : ℤ)

/-- `max_cdc_lag_seconds`, in microseconds: rows without a lag do not count. -/
def maxCdcLag (rows : List (ReplicaRow V)) : Option ℤ := (rows.filterMap ReplicaRow.cdcLag).max?

/-- **The audit columns describe a record**: the event and the time it was applied. -/
structure ReplicaRow.Audits (row : ReplicaRow V) (delivery : Delivery V) : Prop where
  lastEventType : row.lastEventType = some delivery.2.eventType
  eventCreatedAt : row.eventCreatedAt = some delivery.2.createdAt
  changedFields : row.changedFields = delivery.2.payload.changedFields
  ingestedAt : row.ingestedAt = delivery.1
  cdcLag : row.cdcLag = some ((delivery.1 : ℤ) - delivery.2.createdAt)

/-- What the audit columns hold after the records of an order. -/
structure ReplicaRow.AuditHistory (row : ReplicaRow V) (deliveries : List (Delivery V)) :
    Prop where
  lastEventType : row.lastEventType = none
  eventCreatedAt : row.eventCreatedAt = none
  /-- The changed fields are those of the last record that had any. -/
  changedFields : row.changedFields =
    (deliveries.filterMap fun delivery => delivery.2.payload.changedFields).getLast?
  /-- The time is that of the first record. -/
  ingestedAt : deliveries.head?.map Prod.fst = some row.ingestedAt

/-! ### One upsert -/

/-- The audit columns of the row that an upsert leaves. -/
theorem auditColumns_of_upsert {nulls : NullHandling} {now : Timestamp} {p : Payload V}
    {current : Option (ReplicaRow V)} {row : ReplicaRow V}
    (h : upsert nulls now p current = some row) :
    row.lastEventType = current.bind ReplicaRow.lastEventType ∧
      row.eventCreatedAt = current.bind ReplicaRow.eventCreatedAt ∧
      row.changedFields =
        nulls.column p.changedFields (current.bind ReplicaRow.changedFields) ∧
      row.ingestedAt = (current.map ReplicaRow.ingestedAt).getD now := by
  unfold upsert at h
  split at h
  · obtain ⟨currency, -, rfl⟩ := Option.map_eq_some_iff.mp h
    exact ⟨rfl, rfl, rfl, rfl⟩
  · cases h

/-- The first record of an order. -/
theorem auditHistory_of_insert {delivery : Delivery V} {row : ReplicaRow V}
    (h : upsert .omitted delivery.1 delivery.2.payload none = some row) :
    row.AuditHistory [delivery] := by
  obtain ⟨htype, hcreatedAt, hchanged, hingestedAt⟩ := auditColumns_of_upsert h
  refine ⟨htype, hcreatedAt, ?_, congrArg some hingestedAt.symm⟩
  rw [hchanged, List.filterMap_cons]
  cases delivery.2.payload.changedFields <;> rfl

/-- One more record of the order. -/
theorem ReplicaRow.AuditHistory.concat {current row : ReplicaRow V}
    {deliveries : List (Delivery V)} (hcurrent : current.AuditHistory deliveries)
    {delivery : Delivery V}
    (h : upsert .omitted delivery.1 delivery.2.payload (some current) = some row) :
    row.AuditHistory (deliveries ++ [delivery]) := by
  obtain ⟨htype, hcreatedAt, hchanged, hingestedAt⟩ := auditColumns_of_upsert h
  refine ⟨htype.trans hcurrent.lastEventType, hcreatedAt.trans hcurrent.eventCreatedAt, ?_, ?_⟩
  · rw [hchanged, List.filterMap_append, List.filterMap_cons, List.filterMap_nil]
    show delivery.2.payload.changedFields.or current.changedFields = _
    cases delivery.2.payload.changedFields with
    | none => rw [Option.none_or, List.append_nil, hcurrent.changedFields]
    | some changed => rw [Option.some_or, List.getLast?_concat]
  · obtain ⟨first, hfirst, htime⟩ := Option.map_eq_some_iff.mp hcurrent.ingestedAt
    rw [List.head?_append, hfirst, Option.some_or, Option.map_some, htime, hingestedAt]
    rfl

/-! ### Any records -/

/-- Records of one order that the table accepts, applied in order. -/
theorem exists_auditHistory {id : UUID} {deliveries : List (Delivery V)}
    (h : ∀ delivery ∈ deliveries, delivery.orderId = id ∧ Acceptable delivery.2.payload)
    (hne : deliveries ≠ []) :
    ∃ row, deliver .omitted deliveries id = some row ∧ row.AuditHistory deliveries := by
  induction deliveries using List.reverseRecOn with
  | nil => exact absurd rfl hne
  | append_singleton deliveries delivery ih =>
      obtain ⟨rfl, hacceptable⟩ := h delivery (by simp)
      obtain ⟨row, hrow⟩ := exists_upsert hacceptable .omitted delivery.1
        (deliver .omitted deliveries delivery.orderId)
      refine ⟨row, ?_, ?_⟩
      · rw [deliver_concat, applyRecord_of_some _ hrow, Function.update_self]
      · by_cases hnil : deliveries = []
        · subst hnil
          exact auditHistory_of_insert hrow
        · obtain ⟨current, hcurrent, haudit⟩ :=
            ih (fun d hd => h d (List.mem_append_left _ hd)) hnil
          rw [hcurrent] at hrow
          exact haudit.concat hrow

/-- Two columns are never filled, whatever is delivered. -/
theorem eventColumns_eq_none {nulls : NullHandling} {deliveries : List (Delivery V)} {id : UUID}
    {row : ReplicaRow V} (h : deliver nulls deliveries id = some row) :
    row.lastEventType = none ∧ row.eventCreatedAt = none := by
  induction deliveries using List.reverseRecOn generalizing row with
  | nil => cases h
  | append_singleton deliveries delivery ih =>
      rw [deliver_concat] at h
      by_cases hid : delivery.orderId = id
      · subst hid
        cases hnew : upsert nulls delivery.1 delivery.2.payload
          (deliver nulls deliveries delivery.orderId) with
        | none =>
            rw [applyRecord_of_none nulls hnew] at h
            exact ih h
        | some new =>
            rw [applyRecord_of_some nulls hnew, Function.update_self, Option.some.injEq] at h
            subst h
            obtain ⟨htype, hcreatedAt, -, -⟩ := auditColumns_of_upsert hnew
            rw [htype, hcreatedAt]
            cases hcurrent : deliver nulls deliveries delivery.orderId with
            | none => exact ⟨rfl, rfl⟩
            | some current => exact ih hcurrent
      · rw [applyRecord_of_ne nulls hid] at h
        exact ih h

/-- **`cdc_lag_monitor` measures nothing**, whatever is delivered. -/
theorem maxCdcLag_eq_none (nulls : NullHandling) (deliveries : List (Delivery V))
    (ids : List UUID) : maxCdcLag (ids.filterMap (deliver nulls deliveries)) = none := by
  have hnone : ∀ row ∈ ids.filterMap (deliver nulls deliveries), row.cdcLag = none := by
    intro row hrow
    obtain ⟨id, -, hid⟩ := List.mem_filterMap.mp hrow
    rw [ReplicaRow.cdcLag, (eventColumns_eq_none hid).2, Option.map_none]
  rw [maxCdcLag, List.filterMap_eq_nil_iff.mpr hnone]
  rfl

/-- **The audit columns never describe the last event.**  Apply the events of an order in order,
as far as one likes: its row has neither a type nor a creation time of an event, the changed
fields of the last event that had any, and the time of the first one.  Nor does `cdc_lag_monitor`
ever measure a lag, whatever else is delivered. -/
theorem auditColumns_never [BEq V] {schedule : List (Action V)} {w : World V}
    (h : World.runSerial schedule = some w) (id : UUID) {deliveries : List (Delivery V)}
    (hevents : deliveries.map Prod.snd <+: eventsOf w.outbox id) {last : Delivery V}
    (hlast : deliveries.getLast? = some last) :
    ∃ row, deliver .omitted deliveries id = some row ∧ row.AuditHistory deliveries ∧
      ¬ row.Audits last ∧
      ∀ (others : List (Delivery V)) (ids : List UUID),
        maxCdcLag (ids.filterMap (deliver .omitted (deliveries ++ others))) = none := by
  have hledger := (World.serialReachable_of_run h).ledger.ledger
  have haccepted : ∀ delivery ∈ deliveries,
      delivery.orderId = id ∧ Acceptable delivery.2.payload := by
    intro delivery hdelivery
    have hevent := hevents.subset (List.mem_map_of_mem hdelivery)
    obtain ⟨hmem, hid⟩ := (KeyedLog.mem_entries _).mp hevent
    obtain ⟨write, hwrite, hcorresponds⟩ := hledger.exists_write hmem
    refine ⟨?_, hcorresponds.payload.acceptable (hledger.stored write hwrite)⟩
    rw [Delivery.orderId, hcorresponds.payload.orderId, hcorresponds.rowId, ← hid,
      hcorresponds.aggregateId]
  obtain ⟨row, hrow, haudit⟩ := exists_auditHistory haccepted (by rintro rfl; cases hlast)
  refine ⟨row, hrow, haudit, fun hdescribes => ?_, fun others => maxCdcLag_eq_none .omitted _⟩
  have htype := hdescribes.lastEventType
  rw [haudit.lastEventType] at htype
  cases htype

/-- The events of the sample order, applied one second apart. -/
def Sample.applied (w : World ℕ) : List (Delivery ℕ) :=
  (eventsOf w.outbox orderId).zipIdx.map fun (event, i) => (20 + i, event)

theorem Sample.map_applied (w : World ℕ) :
    (applied w).map Prod.snd = eventsOf w.outbox orderId := by
  rw [applied, List.map_map]
  exact List.zipIdx_map_fst 0 _

theorem auditColumns_never_life :
    ∃ w, World.runSerial Sample.life = some w ∧ ∃ last row,
      (Sample.applied w).getLast? = some last ∧
      deliver .omitted (Sample.applied w) Sample.orderId = some row ∧
      row.AuditHistory (Sample.applied w) ∧ ¬ row.Audits last := by
  have hrun : (World.runSerial Sample.life).map (fun w => (Sample.applied w).getLast?.isSome) =
      some true := by decide
  obtain ⟨w, hw, hsome⟩ := Option.map_eq_some_iff.mp hrun
  obtain ⟨last, hlast⟩ := Option.isSome_iff_exists.mp hsome
  obtain ⟨row, hrow, haudit, hnever, -⟩ := auditColumns_never hw Sample.orderId
    (Sample.map_applied w ▸ List.prefix_rfl) hlast
  exact ⟨w, hw, last, row, hlast, hrow, haudit, hnever⟩

/-- After a creation, an update of the status and a delete, the row still has the fields that the
update changed and the time of the creation, and nothing in the other two columns. -/
theorem auditColumns_stale :
    ∃ w, World.runSerial Sample.life = some w ∧ ∃ last row,
      (Sample.applied w).getLast? = some last ∧ last.1 = 22 ∧
      last.2.payload.changedFields = none ∧
      deliver .omitted (Sample.applied w) Sample.orderId = some row ∧
      row.lastEventType = none ∧ row.eventCreatedAt = none ∧
      row.changedFields = some [.status] ∧ row.ingestedAt = 20 ∧ ¬ row.Audits last := by
  have hevent : (World.runSerial Sample.life).map (fun w =>
      (Sample.applied w).getLast?.map fun last => (last.1, last.2.payload.changedFields)) =
      some (some (22, none)) := by decide
  have hcolumns : (World.runSerial Sample.life).map (fun w =>
      (deliver .omitted (Sample.applied w) Sample.orderId).map fun row =>
        (row.ingestedAt, row.changedFields)) = some (some (20, some [.status])) := by decide
  obtain ⟨w, hw, hevent⟩ := Option.map_eq_some_iff.mp hevent
  rw [hw, Option.map_some, Option.some.injEq] at hcolumns
  obtain ⟨last, hlast, hevent⟩ := Option.map_eq_some_iff.mp hevent
  obtain ⟨row, hrow, hcolumns⟩ := Option.map_eq_some_iff.mp hcolumns
  obtain ⟨htime, hnone⟩ := Prod.mk.inj hevent
  obtain ⟨hingestedAt, hchanged⟩ := Prod.mk.inj hcolumns
  obtain ⟨htype, hcreatedAt⟩ := eventColumns_eq_none hrow
  refine ⟨w, hw, last, row, hlast, htime, hnone, hrow, htype, hcreatedAt, hchanged, hingestedAt,
    fun haudits => ?_⟩
  have hstated := haudits.lastEventType
  rw [htype] at hstated
  cases hstated

end OutboxPattern
