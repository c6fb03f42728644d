import OutboxPattern.Lib.Delivery
import OutboxPattern.Pipeline.Replica

/-!
# The sink of a topic

Debezium publishes the events to a topic, which is partitioned by the record key, the order, and
keeps commit order within a partition; `partition` is whatever Kafka makes of a key.  The sink
consumes every partition at least once: it applies the next record of one, or it is set back.

Which events the topic has is left open here; it depends on when the connectors were registered.
`Sink.Inv.shows` says what a sink shows that has caught up with a topic, whatever part of the outbox
the topic is.  Three facts meet in it.

* The event that a replica row shows is the last one of its order
  (`Delivery.Delivered.last_eq`).
* The last event of an order describes the row that its last change left (`KeyedLog.last_rel`).
* A shipping address is never taken back, so an upsert that leaves a null field out cannot
  leave an old address behind (`kept_shippingAddress`).
-/

namespace OutboxPattern

variable {V : Type}

/-- The sink. -/
structure Sink (V : Type) where
  /-- Its offset in each partition of the topic. -/
  offset : ℕ → ℕ
  /-- The records that it has applied so far. -/
  received : List (Delivery V)
  table : OrdersCdc V

/-- The partition of the topic that the key of a record selects. -/
abbrev recordPartition (partition : UUID → ℕ) (event : OutboxEvent V) : ℕ :=
  partition event.aggregateId

/-- The replica row shows the row of `orders`. -/
structure ReplicaRow.Agrees (cdc : ReplicaRow V) (row : Order V) : Prop where
  customerId : cdc.customerId = row.customerId
  status : cdc.status = row.status
  lineItems : cdc.lineItems = row.lineItems
  totalAmountCents : cdc.totalAmountCents = row.totalAmountCents
  currency : cdc.currency = row.currency
  shippingAddress : cdc.shippingAddress = row.shippingAddress
  metadata : cdc.metadata = row.metadata
  version : cdc.version = row.version

/-- A replica row that shows the event which describes a row shows the row, provided that
the row has an address whenever the replica has one. -/
theorem ReplicaRow.Carries.agrees {cdc : ReplicaRow V} {p : Payload V} {row : Order V}
    (hcarries : cdc.Carries p) (hdescribes : Describes p row)
    (haddress : cdc.shippingAddress.isSome → row.shippingAddress.isSome) : cdc.Agrees row where
  customerId := hcarries.customerId.trans hdescribes.customerId
  status := hcarries.status.trans hdescribes.status
  lineItems := hcarries.lineItems.trans hdescribes.lineItems
  totalAmountCents := hcarries.totalAmountCents.trans hdescribes.totalAmountCents
  currency := Option.some.inj (hcarries.currency.symm.trans hdescribes.currency)
  shippingAddress := by
    cases hrow : row.shippingAddress with
    | some address =>
        have hpayload := hdescribes.shippingAddress.trans hrow
        rw [hcarries.shippingAddress (by rw [hpayload]; rfl), hpayload]
    | none =>
        cases hcdc : cdc.shippingAddress with
        | none => rfl
        | some address =>
            rw [hrow, hcdc] at haddress
            cases haddress rfl
  metadata := hcarries.metadata.trans hdescribes.metadata
  version := hcarries.version.trans hdescribes.version

/-- **The replica of a ledger shows its rows.**  If only events of a ledger were delivered, then a
replica row that carries the event of the last write of its order shows the row which that write
left. -/
theorem Ledger.agrees [BEq V] {ws : List (Write V)} {es : List (OutboxEvent V)}
    (h : Ledger ws es) {nulls : NullHandling} {deliveries : List (Delivery V)}
    (hevents : ∀ delivery ∈ deliveries, delivery.2 ∈ es) {id : UUID} {cdc : ReplicaRow V}
    (hcdc : deliver nulls deliveries id = some cdc) {write : Write V} {event : OutboxEvent V}
    (hcarries : cdc.Carries event.payload) (hcorresponds : Corresponds write event)
    (hlast : KeyedLog.last Write.orderId id ws = some write) : cdc.Agrees write.new := by
  refine hcarries.agrees hcorresponds.payload fun hsome => ?_
  -- an address in the replica came with an event, so with a write, of the order
  obtain ⟨delivery, hdelivery, hid, hpayload⟩ := exists_of_shippingAddress nulls hcdc hsome
  obtain ⟨earlier, hearlier, hwrote⟩ := h.exists_write (hevents delivery hdelivery)
  have horder : earlier.orderId = id :=
    hwrote.rowId.symm.trans (hwrote.payload.orderId.symm.trans hid)
  have hsome' : earlier.new.shippingAddress.isSome := by
    rwa [← hwrote.payload.shippingAddress]
  refine h.isSome_of_kept kept_shippingAddress earlier hearlier hsome' write.new ?_
  rw [horder, rowAt, hlast]
  rfl

namespace Sink

variable (partition : UUID → ℕ) (nulls : NullHandling)

/-- A sink that has not started, over an empty table. -/
def init : Sink V where
  offset _ := 0
  received := []
  table _ := none

/-- The records of one partition, in the order they were published. -/
def records (topic : List (OutboxEvent V)) (p : ℕ) : List (OutboxEvent V) :=
  KeyedLog.entries (recordPartition partition) p topic

/-- The sink applies the next record of a partition. -/
def receive (sink : Sink V) (topic : List (OutboxEvent V)) (p : ℕ) (now : Timestamp) :
    Option (Sink V) :=
  ((records partition topic p)[sink.offset p]?).map fun event =>
    { offset := Function.update sink.offset p (sink.offset p + 1)
      received := sink.received ++ [(now, event)]
      table := applyRecord nulls sink.table (now, event) }

/-- The sink is set back to an earlier offset of a partition. -/
def rewind (sink : Sink V) (p offset : ℕ) : Option (Sink V) :=
  if offset ≤ sink.offset p then
    some { sink with offset := Function.update sink.offset p offset }
  else none

/-- The sink has applied all there is to apply. -/
def CaughtUp (sink : Sink V) (topic : List (OutboxEvent V)) : Prop :=
  ∀ id, sink.offset (partition id) = (records partition topic (partition id)).length

/-- The sink's state is accounted for by the topic. -/
structure Inv (sink : Sink V) (topic : List (OutboxEvent V)) : Prop where
  table : sink.table = deliver nulls sink.received
  delivered : ∀ p, Delivery.Delivered (records partition topic p) (sink.offset p)
    (KeyedLog.entries (recordPartition partition) p (sink.received.map Prod.snd))

section Steps

variable {partition nulls} {sink sink' : Sink V} {topic : List (OutboxEvent V)} {p : ℕ}

/-- A record is received if the sink is behind. -/
theorem receive_eq_some_iff {now : Timestamp} :
    sink.receive partition nulls topic p now = some sink' ↔
      ∃ event, (records partition topic p)[sink.offset p]? = some event ∧
        Sink.mk (Function.update sink.offset p (sink.offset p + 1))
          (sink.received ++ [(now, event)])
          (applyRecord nulls sink.table (now, event)) = sink' :=
  Option.map_eq_some_iff

/-- The sink is set back, never forth. -/
theorem rewind_eq_some_iff {offset : ℕ} :
    sink.rewind p offset = some sink' ↔
      offset ≤ sink.offset p ∧
        Sink.mk (Function.update sink.offset p offset) sink.received sink.table = sink' := by
  rw [rewind, Option.ite_none_right_eq_some, Option.some.injEq]

/-- A sink that has not started is accounted for by any topic. -/
theorem Inv.init (topic : List (OutboxEvent V)) : Inv partition nulls init topic where
  table := rfl
  delivered _ := .start

/-- Events are published while the sink is where it is. -/
theorem Inv.append (h : sink.Inv partition nulls topic) (events : List (OutboxEvent V)) :
    sink.Inv partition nulls (topic ++ events) := by
  refine ⟨h.table, fun p => ?_⟩
  rw [records, KeyedLog.entries_append]
  exact (h.delivered p).append _

/-- A record that is applied was the next one of its partition. -/
theorem Inv.receive (h : sink.Inv partition nulls topic) {now : Timestamp}
    (hreceive : sink.receive partition nulls topic p now = some sink') :
    sink'.Inv partition nulls topic := by
  obtain ⟨event, hevent, rfl⟩ := receive_eq_some_iff.mp hreceive
  refine ⟨?_, fun q => ?_⟩
  · rw [deliver_concat, h.table]
  · rw [List.map_append]
    exact Delivery.delivered_next h.delivered hevent q

/-- Being set back changes neither the table nor what has been received. -/
theorem Inv.rewind (h : sink.Inv partition nulls topic) {offset : ℕ}
    (hrewind : sink.rewind p offset = some sink') : sink'.Inv partition nulls topic := by
  obtain ⟨hle, rfl⟩ := rewind_eq_some_iff.mp hrewind
  exact ⟨h.table, Delivery.delivered_rewind h.delivered hle⟩

/-! ### Catching up -/

/-- Every record that the sink has applied is in the topic. -/
theorem Inv.mem_topic (h : sink.Inv partition nulls topic) {delivery : Delivery V}
    (hdelivery : delivery ∈ sink.received) : delivery.2 ∈ topic := by
  have hreceived : delivery.2 ∈ KeyedLog.entries (recordPartition partition)
      (partition delivery.2.aggregateId) (sink.received.map Prod.snd) :=
    (KeyedLog.mem_entries _).mpr ⟨List.mem_map_of_mem hdelivery, rfl⟩
  exact ((KeyedLog.mem_entries _).mp ((h.delivered _).subset hreceived)).1

/-- A sink that has caught up has applied the last record of every order last. -/
theorem Inv.last_received (h : sink.Inv partition nulls topic)
    (hcaughtUp : sink.CaughtUp partition topic) (id : UUID) :
    KeyedLog.last OutboxEvent.aggregateId id (sink.received.map Prod.snd) =
      KeyedLog.last OutboxEvent.aggregateId id topic := by
  have hpartition := h.delivered (partition id)
  rw [hcaughtUp id] at hpartition
  have hlast := hpartition.last_eq OutboxEvent.aggregateId id
  rwa [KeyedLog.last_entries OutboxEvent.aggregateId partition, records,
    KeyedLog.last_entries OutboxEvent.aggregateId partition] at hlast

/-- **What a sink shows that has caught up.**  Let the topic be the events of the changes `ws'`, a
part of the ledger in which the last change of every order is its last one at all.  Then the replica
has exactly one row for every order that one of these changes is of, and the row shows the order. -/
theorem Inv.shows [BEq V] (h : sink.Inv partition nulls topic)
    (hcaughtUp : sink.CaughtUp partition topic) {ws ws' : List (Write V)}
    {es : List (OutboxEvent V)} (hledger : Ledger ws es) (htopic : topic ⊆ es)
    (hcorresponds : List.Forall₂ Corresponds ws' topic) {id : UUID}
    (hlast : ∀ write, KeyedLog.last Write.orderId id ws' = some write →
      KeyedLog.last Write.orderId id ws = some write) :
    Option.Rel ReplicaRow.Agrees (sink.table id)
      ((KeyedLog.last Write.orderId id ws').map Write.new) := by
  have hevents : ∀ delivery ∈ sink.received, delivery.2 ∈ es :=
    fun _ hdelivery => htopic (h.mem_topic hdelivery)
  have hreplica := hledger.deliver_eq nulls hevents id
  have hsource := KeyedLog.last_rel Write.orderId (fun _ _ hc => hc.aggregateId.symm)
    hcorresponds id
  rw [h.last_received hcaughtUp id] at hreplica
  rw [h.table]
  generalize hcdc : deliver nulls sink.received id = cdc at hreplica ⊢
  generalize KeyedLog.last OutboxEvent.aggregateId id topic = event at hreplica hsource
  generalize KeyedLog.last Write.orderId id ws' = write at hsource hlast ⊢
  cases hsource with
  | none =>
      cases hreplica
      exact .none
  | some hcorresponds =>
      cases hreplica with
      | some hcarries =>
          exact .some (hledger.agrees hevents hcdc hcarries hcorresponds (hlast _ rfl))

end Steps

end Sink

end OutboxPattern
