import OutboxPattern.Guarantees.Lifecycle

/-!
# Stale events

`orders_cdc.version` is there to recognise an event that arrives after a newer one of its
order, and its comment says what to do with it: skip it.  Nothing does.  The sink is
configured for a plain upsert, which is last writer wins, so the replica keeps the newest
version of an order exactly as long as none arrives out of order; a redelivery is enough to
take it back.
-/

namespace OutboxPattern

variable {V : Type}

/-- The replica row shows the version, the status, the total, the items and the deletion of
a payload. -/
structure ReplicaRow.Shows (cdc : ReplicaRow V) (p : Payload V) : Prop where
  version : cdc.version = p.version
  status : cdc.status = p.status
  totalAmountCents : cdc.totalAmountCents = p.totalAmountCents
  lineItems : cdc.lineItems = p.lineItems
  isDeleted : cdc.isDeleted = p.isDeleted

/-- **Stale events do not overwrite newer ones**, in a list of deliveries. -/
structure NeverStale (nulls : NullHandling) (deliveries : List (Delivery V)) : Prop where
  /-- After every prefix, a row shows the event of the highest version received so far. -/
  newest : ∀ n id cdc, deliver nulls (deliveries.take n) id = some cdc →
    ∀ event ∈ (deliveries.take n).map Prod.snd, event.aggregateId = id →
    (∀ other ∈ (deliveries.take n).map Prod.snd, other.aggregateId = id →
      other.payload.version ≤ event.payload.version) → cdc.Shows event.payload
  /-- The version of a row never decreases. -/
  version_le : ∀ n m id a b, n ≤ m → deliver nulls (deliveries.take n) id = some a →
    deliver nulls (deliveries.take m) id = some b → a.version ≤ b.version
  /-- A deleted row stays deleted. -/
  deleted : ∀ n m id a b, n ≤ m → deliver nulls (deliveries.take n) id = some a →
    deliver nulls (deliveries.take m) id = some b → a.isDeleted = true → b.isDeleted = true

/-- The condition on the deliveries: no event arrives after a newer one of its order. -/
def InOrder (received : List (OutboxEvent V)) : Prop :=
  received.Pairwise fun earlier later =>
    earlier.aggregateId = later.aggregateId → earlier.payload.version ≤ later.payload.version

/-! ### Versions of a serial ledger -/

section SerialLedger

variable [BEq V] {ws : List (Write V)} {es : List (OutboxEvent V)}

theorem SerialLedger.numbered_events (h : SerialLedger ws es) :
    KeyedLog.Numbered OutboxEvent.aggregateId (fun event => event.payload.version) es :=
  h.ledger.numbered_iff.mp h.numbered

/-- An event is determined by its order and its version. -/
theorem SerialLedger.event_ext (h : SerialLedger ws es) {e e' : OutboxEvent V} (he : e ∈ es)
    (he' : e' ∈ es) (horder : e.aggregateId = e'.aggregateId)
    (hversion : e.payload.version = e'.payload.version) : e = e' := by
  have hnodup := h.numbered_events.nodup_versions OutboxEvent.aggregateId _ e'.aggregateId
  refine List.inj_on_of_nodup_map hnodup ?_ ?_ hversion
  · exact (KeyedLog.mem_entries OutboxEvent.aggregateId).mpr ⟨he, horder⟩
  · exact (KeyedLog.mem_entries OutboxEvent.aggregateId).mpr ⟨he', rfl⟩

/-- A deletion has the highest version of its order. -/
theorem SerialLedger.version_le_of_deleted (h : SerialLedger ws es) {e e' : OutboxEvent V}
    (he : e ∈ es) (he' : e' ∈ es) (horder : e'.aggregateId = e.aggregateId)
    (hdeleted : e.eventType = .orderDeleted) : e'.payload.version ≤ e.payload.version := by
  have hmem : e ∈ eventsOf es e.aggregateId :=
    (KeyedLog.mem_entries OutboxEvent.aggregateId).mpr ⟨he, rfl⟩
  have hmem' : e' ∈ eventsOf es e.aggregateId :=
    (KeyedLog.mem_entries OutboxEvent.aggregateId).mpr ⟨he', horder⟩
  have hlast := h.deletesLast.pairwise_eventsOf h.ledger e.aggregateId
  have hincreasing : (eventsOf es e.aggregateId).Pairwise
      fun a b => a.payload.version < b.payload.version :=
    List.pairwise_map.mp (h.numbered_events.pairwise_lt OutboxEvent.aggregateId _ _)
  generalize eventsOf es e.aggregateId = events at hmem hmem' hlast hincreasing
  obtain ⟨i, hi, rfl⟩ := List.mem_iff_getElem.mp hmem
  obtain ⟨j, hj, rfl⟩ := List.mem_iff_getElem.mp hmem'
  rcases Nat.lt_trichotomy i j with hij | rfl | hji
  · exact absurd hdeleted (List.pairwise_iff_getElem.mp hlast i j hi hj hij)
  · exact Nat.le_refl _
  · exact Nat.le_of_lt (List.pairwise_iff_getElem.mp hincreasing j i hj hi hji)

/-! ### Deliveries of its events -/

variable {deliveries : List (Delivery V)} {nulls : NullHandling}

/-- A replica row carries the event of its order that was received last. -/
theorem Ledger.exists_carries (h : Ledger ws es)
    (hevents : ∀ delivery ∈ deliveries, delivery.2 ∈ es) {n : ℕ} {id : UUID}
    {cdc : ReplicaRow V} (hcdc : deliver nulls (deliveries.take n) id = some cdc) :
    ∃ event, KeyedLog.last OutboxEvent.aggregateId id ((deliveries.take n).map Prod.snd) =
      some event ∧ event ∈ es ∧ event.aggregateId = id ∧ cdc.Carries event.payload := by
  have hprefix : ∀ delivery ∈ deliveries.take n, delivery.2 ∈ es := fun delivery hdelivery =>
    hevents delivery (List.mem_of_mem_take hdelivery)
  have hrow := h.deliver_eq nulls hprefix id
  rw [hcdc] at hrow
  generalize hlast : KeyedLog.last OutboxEvent.aggregateId id
    ((deliveries.take n).map Prod.snd) = event at hrow
  cases hrow with
  | @some _ event hcarries =>
      obtain ⟨hmem, hid⟩ := KeyedLog.mem_of_last OutboxEvent.aggregateId hlast
      obtain ⟨delivery, hdelivery, rfl⟩ := List.mem_map.mp hmem
      exact ⟨_, rfl, hprefix delivery hdelivery, hid, hcarries⟩

omit [BEq V] in
/-- In order, the event received last is of the highest version received. -/
theorem InOrder.le_last {received : List (OutboxEvent V)} (h : InOrder received) {id : UUID}
    {last event : OutboxEvent V}
    (hlast : KeyedLog.last OutboxEvent.aggregateId id received = some last)
    (hevent : event ∈ received) (hid : event.aggregateId = id) :
    event.payload.version ≤ last.payload.version := by
  obtain ⟨before, after, rfl, huntouched⟩ := KeyedLog.exists_of_last OutboxEvent.aggregateId hlast
  have hlastId := (KeyedLog.mem_of_last OutboxEvent.aggregateId hlast).2
  rcases List.mem_append.mp hevent with hbefore | hafter
  · exact (List.pairwise_append.mp h).2.2 event hbefore last List.mem_cons_self
      (hid.trans hlastId.symm)
  · rcases List.mem_cons.mp hafter with rfl | hafter
    · exact Nat.le_refl _
    · exact absurd hid (huntouched event hafter)

omit [BEq V] in
/-- A prefix of the deliveries is in order as well. -/
theorem InOrder.take (h : InOrder (deliveries.map Prod.snd)) (n : ℕ) :
    InOrder ((deliveries.take n).map Prod.snd) := by
  rw [List.map_take]
  exact h.sublist (List.take_sublist n _)

/-- If the deliveries are in order, then stale events do not overwrite newer ones. -/
theorem SerialLedger.neverStale (h : SerialLedger ws es)
    (hevents : ∀ delivery ∈ deliveries, delivery.2 ∈ es)
    (horder : InOrder (deliveries.map Prod.snd)) : NeverStale nulls deliveries := by
  have hmemEs : ∀ {n event}, event ∈ (deliveries.take n).map Prod.snd → event ∈ es := by
    intro n event hevent
    obtain ⟨delivery, hdelivery, rfl⟩ := List.mem_map.mp hevent
    exact hevents delivery (List.mem_of_mem_take hdelivery)
  -- the event shown by a longer prefix is at least as new
  have hgrows : ∀ {n m id a b}, n ≤ m →
      KeyedLog.last OutboxEvent.aggregateId id ((deliveries.take n).map Prod.snd) = some a →
      KeyedLog.last OutboxEvent.aggregateId id ((deliveries.take m).map Prod.snd) = some b →
      a.payload.version ≤ b.payload.version := by
    intro n m id a b hle ha hb
    obtain ⟨hmem, hid⟩ := KeyedLog.mem_of_last OutboxEvent.aggregateId ha
    refine (horder.take m).le_last hb ?_ hid
    obtain ⟨delivery, hdelivery, rfl⟩ := List.mem_map.mp hmem
    exact List.mem_map_of_mem ((List.take_subset_take_left _ hle) hdelivery)
  refine ⟨fun n id cdc hcdc event hevent hid hmax => ?_, fun n m id a b hle ha hb => ?_,
    fun n m id a b hle ha hb hdeleted => ?_⟩
  · obtain ⟨last, hlast, hlastEs, hlastId, hcarries⟩ := h.ledger.exists_carries hevents hcdc
    have hle := (horder.take n).le_last hlast hevent hid
    have hge := hmax last (KeyedLog.mem_of_last OutboxEvent.aggregateId hlast).1 hlastId
    obtain rfl : last = event := h.event_ext hlastEs (hmemEs hevent) (hlastId.trans hid.symm)
      (Nat.le_antisymm hge hle)
    exact ⟨hcarries.version, hcarries.status, hcarries.totalAmountCents, hcarries.lineItems,
      hcarries.isDeleted⟩
  · obtain ⟨e, he, -, -, hcarries⟩ := h.ledger.exists_carries hevents ha
    obtain ⟨e', he', -, -, hcarries'⟩ := h.ledger.exists_carries hevents hb
    rw [hcarries.version, hcarries'.version]
    exact hgrows hle he he'
  · obtain ⟨e, he, heEs, heId, hcarries⟩ := h.ledger.exists_carries hevents ha
    obtain ⟨e', he', he'Es, he'Id, hcarries'⟩ := h.ledger.exists_carries hevents hb
    obtain ⟨write, -, hcorresponds⟩ := h.ledger.exists_write heEs
    have htype : e.eventType = .orderDeleted := by
      rw [← hcorresponds.isDeleted, ← hcarries.isDeleted]
      exact hdeleted
    have hge := h.version_le_of_deleted heEs he'Es (he'Id.trans heId.symm) htype
    obtain rfl : e = e' := h.event_ext heEs he'Es (heId.trans he'Id.symm)
      (Nat.le_antisymm (hgrows hle he he') hge)
    rw [hcarries'.isDeleted, ← hcarries.isDeleted]
    exact hdeleted

/-- If stale events do not overwrite newer ones, then the deliveries are in order: a row
shows every event at the moment it arrives. -/
theorem NeverStale.inOrder (h : NeverStale nulls deliveries) (ledger : Ledger ws es)
    (hevents : ∀ delivery ∈ deliveries, delivery.2 ∈ es) : InOrder (deliveries.map Prod.snd) := by
  have hshown : ∀ i (hi : i < deliveries.length), ∃ cdc,
      deliver nulls (deliveries.take (i + 1)) deliveries[i].2.aggregateId = some cdc ∧
        cdc.version = deliveries[i].2.payload.version := by
    intro i hi
    have hprefix : ∀ delivery ∈ deliveries.take (i + 1), delivery.2 ∈ es :=
      fun delivery hdelivery => hevents delivery (List.mem_of_mem_take hdelivery)
    have hlast : KeyedLog.last OutboxEvent.aggregateId deliveries[i].2.aggregateId
        ((deliveries.take (i + 1)).map Prod.snd) = some deliveries[i].2 := by
      rw [List.take_add_one, List.getElem?_eq_getElem hi, Option.toList_some, List.map_append]
      exact KeyedLog.last_concat_self OutboxEvent.aggregateId _ _
    have hrow := ledger.deliver_eq nulls hprefix deliveries[i].2.aggregateId
    rw [hlast] at hrow
    generalize deliver nulls (deliveries.take (i + 1)) deliveries[i].2.aggregateId = row at hrow
    cases hrow with
    | some hcarries => exact ⟨_, rfl, hcarries.version⟩
  refine List.pairwise_iff_getElem.mpr fun i j hi hj hij hid => ?_
  rw [List.length_map] at hi hj
  rw [List.getElem_map, List.getElem_map] at hid ⊢
  obtain ⟨a, ha, hversion⟩ := hshown i hi
  obtain ⟨b, hb, hversion'⟩ := hshown j hj
  rw [← hversion, ← hversion']
  rw [hid] at ha
  exact h.version_le (i + 1) (j + 1) _ a b (Nat.succ_le_succ hij.le) ha hb

end SerialLedger

/-- **When stale events are harmless.**  Deliver events of a serial run, any number of times
and in any order: the replica keeps the newest version of every order, after every prefix,
exactly when no event arrives after a newer one of its order. -/
theorem neverStale_iff [BEq V] {schedule : List (Action V)} {w : World V}
    (h : World.runSerial schedule = some w) (nulls : NullHandling)
    {deliveries : List (Delivery V)} (hevents : ∀ delivery ∈ deliveries, delivery.2 ∈ w.outbox) :
    NeverStale nulls deliveries ↔ InOrder (deliveries.map Prod.snd) := by
  have hledger := (World.serialReachable_of_run h).ledger
  constructor
  · intro hlaw
    exact hlaw.inOrder hledger.ledger hevents
  · intro horder
    exact hledger.neverStale hevents horder

/-- The events at some positions of the outbox, as deliveries. -/
def Sample.pick (w : World ℕ) (positions : List ℕ) : List (Delivery ℕ) :=
  positions.filterMap fun i => (w.outbox[i]?).map fun event => (i, event)

theorem Sample.mem_outbox_of_pick {w : World ℕ} {positions : List ℕ} {delivery : Delivery ℕ}
    (h : delivery ∈ pick w positions) : delivery.2 ∈ w.outbox := by
  obtain ⟨i, -, hi⟩ := List.mem_filterMap.mp h
  obtain ⟨event, hevent, rfl⟩ := Option.map_eq_some_iff.mp hi
  exact List.mem_of_getElem? hevent

theorem neverStale_iff_redelivery :
    ∃ w, World.runSerial Sample.life = some w ∧
      (NeverStale .written (Sample.pick w [0, 1, 1, 2]) ↔
        InOrder ((Sample.pick w [0, 1, 1, 2]).map Prod.snd)) := by
  have hrun : (World.runSerial Sample.life).isSome := by decide
  obtain ⟨w, hw⟩ := Option.isSome_iff_exists.mp hrun
  exact ⟨w, hw, neverStale_iff hw .written fun _ => Sample.mem_outbox_of_pick⟩

/-- The update arrives once more after the delete, and the order is back. -/
theorem neverStale_redelivery :
    ∃ w, World.runSerial Sample.life = some w ∧
      (∀ delivery ∈ Sample.pick w [0, 1, 2, 1], delivery.2 ∈ w.outbox) ∧
      ¬ NeverStale .written (Sample.pick w [0, 1, 2, 1]) := by
  have hrun : (World.runSerial Sample.life).map (fun w =>
      ((deliver .written ((Sample.pick w [0, 1, 2, 1]).take 3) Sample.orderId).map
        ReplicaRow.isDeleted,
      (deliver .written ((Sample.pick w [0, 1, 2, 1]).take 4) Sample.orderId).map
        ReplicaRow.isDeleted)) = some (some true, some false) := by decide
  obtain ⟨w, hw, hfacts⟩ := Option.map_eq_some_iff.mp hrun
  rw [Prod.mk.injEq] at hfacts
  obtain ⟨a, ha, hdeleted⟩ := Option.map_eq_some_iff.mp hfacts.1
  obtain ⟨b, hb, hactive⟩ := Option.map_eq_some_iff.mp hfacts.2
  refine ⟨w, hw, fun _ => Sample.mem_outbox_of_pick, fun hlaw => ?_⟩
  have hstays := hlaw.deleted 3 4 Sample.orderId a b (by decide) ha hb hdeleted
  rw [hactive] at hstays
  cases hstays

end OutboxPattern
