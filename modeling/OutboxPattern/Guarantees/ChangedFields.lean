import OutboxPattern.Guarantees.ExactChanges

/-!
# `changed_fields`, for consumers that filter

An event names the fields that changed, "so consumers can filter irrelevant updates".  For this
to be sound, a field of the payload that is not named must be as it was in the event before.

Requests run concurrently, and what an update names is found by comparing with the row that it
had loaded, while the payload is the row that it left.  Still the five fields that an update can
name are sound under every interleaving: a column that is not named is not written.  The customer
is never written.  The currency is not written either, but the event of a creation carries the
currency that was sent to the database, and every later event the one that `CHAR(3)` has made of
it.  `changedFieldsSound_iff` says that this is all that can go wrong.
-/

namespace OutboxPattern

variable {V : Type}

/-- The payload fields that say what the order is. -/
inductive PayloadField
  | customerId | currency | status | lineItems | totalAmountCents | shippingAddress | metadata
  deriving DecidableEq, Repr

/-- The type of a payload field. -/
def PayloadField.Value (V : Type) : PayloadField → Type
  | .customerId => UUID
  | .currency => String
  | .status => OrderStatus
  | .lineItems => List LineItem
  | .totalAmountCents => ℕ
  | .shippingAddress => Option ShippingAddress
  | .metadata => JsonObject V

/-- The value of a payload field. -/
def PayloadField.value : (field : PayloadField) → Payload V → field.Value V
  | .customerId, payload => payload.customerId
  | .currency, payload => payload.currency
  | .status, payload => payload.status
  | .lineItems, payload => payload.lineItems
  | .totalAmountCents, payload => payload.totalAmountCents
  | .shippingAddress, payload => payload.shippingAddress
  | .metadata, payload => payload.metadata

/-- The payload field that a name in `changed_fields` stands for. -/
def OrderField.payloadField : OrderField → PayloadField
  | .status => .status
  | .lineItems => .lineItems
  | .totalAmountCents => .totalAmountCents
  | .shippingAddress => .shippingAddress
  | .metadata => .metadata

/-- The event names the field in its `changed_fields`. -/
def OutboxEvent.names (event : OutboxEvent V) (field : PayloadField) : Bool :=
  (event.payload.changedFields.getD []).any fun named => named.payloadField = field

/-- The filter of a consumer that keeps one field. -/
def PayloadField.ignores (field : PayloadField) (event : OutboxEvent V) : Bool :=
  event.eventType = .orderUpdated && !event.names field

/-- An `ORDER_UPDATED` event, after the events `es`, names whatever payload field is another one
than in the event of the order before it. -/
def NamesChanges (es : List (OutboxEvent V)) (event : OutboxEvent V) : Prop :=
  event.eventType = .orderUpdated → ∀ last,
    KeyedLog.last OutboxEvent.aggregateId event.aggregateId es = some last →
    ∀ field : PayloadField, field.value last.payload ≠ field.value event.payload →
      event.names field = true

/-- **`changed_fields` is sound for filtering consumers**, in a world. -/
structure ChangedFieldsSound (w : World V) : Prop where
  /-- Every event names what it changes. -/
  named : KeyedLog.AllEntries NamesChanges w.outbox
  /-- A consumer that keeps one field of an order, and ignores the updates that do not name it,
  has at any time the field as it is in the latest event of the order. -/
  kept : ∀ (field : PayloadField) (id : UUID) (n : ℕ),
    (eventsOf (w.outbox.take n) id).foldl
        (KeyedLog.follow field.ignores fun event => field.value event.payload) none =
      (KeyedLog.last OutboxEvent.aggregateId id (w.outbox.take n)).map
        fun event => field.value event.payload

/-- **The condition on a commit.**  If the order was created by the write before, then every
character of the currency in the request had a single character as its upper case. -/
def KeepsCurrency (ws : List (Write V)) (write : Write V) : Prop :=
  ∀ req, write.request.operation = .update req → ∀ last,
    KeyedLog.last Write.orderId write.orderId ws = some last →
    ∀ created, last.request.operation = .create created →
      ∀ c ∈ created.rawCurrency.toList, CaseMapping.KeepsLength c

/-! ### What is not named is not written -/

section Written

variable [BEq V] [ReflBEq V]

/-- Whatever row an update lands on, it leaves the fields that it does not name. -/
theorem same_overwrite {req : UpdateOrderRequest V} {loaded order base : Order V}
    {changed : List OrderField} (hchanges : changed ≠ [])
    (hok : updateOrder req loaded = .ok (order, changed)) {field : OrderField}
    (hfield : field ∉ changed) (now : Timestamp) :
    field.Same base (Order.overwrite loaded order base now) := by
  obtain ⟨-, rfl, rfl⟩ := (updateOrder_eq_ok_iff hchanges).mp hok
  rw [UpdateOrder.mem_assign_snd] at hfield
  rw [UpdateOrder.assign_fst]
  cases field with
  | status => exact (if_pos (not_not.mp hfield)).symm
  | lineItems =>
      obtain hnone : req.lineItems = none := by simpa using hfield
      exact (if_pos (by rw [hnone]; rfl)).symm
  | totalAmountCents =>
      obtain hnone : req.lineItems = none := by simpa using hfield
      exact (if_pos (by rw [hnone]; rfl)).symm
  | shippingAddress =>
      obtain hnone : req.shippingAddress = none := by simpa using hfield
      exact (if_pos (by rw [hnone]; rfl)).symm
  | metadata =>
      obtain hnone : req.metadata = none := by simpa using hfield
      exact (if_pos (by rw [hnone]; exact loaded.metadata.pyEq_self)).symm

end Written

/-! ### The currency of an event -/

/-- The currency in the event of a write, which is that of the row unless the write was a
creation. -/
def Write.sentCurrency (write : Write V) : String :=
  match write.request.operation with
  | .create req => req.currency
  | _ => write.new.currency

/-- The event of a write carries the currency that was sent. -/
structure Recorded (write : Write V) (event : OutboxEvent V) : Prop
    extends Corresponds write event where
  currency : event.payload.currency = write.sentCurrency

theorem Commits.recorded [BEq V] {ws : List (Write V)} {es : List (OutboxEvent V)}
    {write : Write V} {event : OutboxEvent V} (ledger : Ledger ws es)
    (h : Commits ws write event) : Recorded write event := by
  refine ⟨h.corresponds ledger, ?_⟩
  cases h with
  | insert operation _ _ recorded =>
      subst recorded
      simp only [Write.sentCurrency, operation]
      rfl
  | @overwrite t request now snapshot loaded order base row changed event _ _ _ assigns _ _
      recorded =>
      obtain ⟨id, operation, trace⟩ := request
      cases assigns with
      | update _ _ =>
          obtain rfl := List.singleton_inj.mp recorded
          rfl
      | delete =>
          obtain rfl := List.singleton_inj.mp recorded
          rfl

theorem Ledger.recorded [BEq V] {ws : List (Write V)} {es : List (OutboxEvent V)}
    (h : Ledger ws es) : List.Forall₂ Recorded ws es :=
  h.forall₂ fun _ _ _ _ ledger commits => commits.recorded ledger

/-- The event of a creation carries the currency of the row exactly when putting it into upper
case has not made it longer. -/
theorem Recorded.currency_eq_iff {write : Write V} {event : OutboxEvent V}
    (h : Recorded write event) :
    event.payload.currency = write.new.currency ↔
      ∀ created, write.request.operation = .create created →
        ∀ c ∈ created.rawCurrency.toList, CaseMapping.KeepsLength c := by
  have hstored := h.payload.currency
  have hcurrency := h.currency
  unfold Write.sentCurrency at hcurrency
  cases hoperation : write.request.operation with
  | create created =>
      simp only [hoperation] at hcurrency
      simp only [Operation.create.injEq, forall_eq']
      rw [← CaseMapping.length_upper_eq_iff, created.rawCurrency_length,
        ← String.length_toList, ← storeChar_eq_self_iff]
      show _ ↔ storeChar 3 created.currency = some created.currency
      rw [← hcurrency, hstored, Option.some.injEq, eq_comm]
  | update req =>
      simp only [hoperation] at hcurrency
      exact iff_of_true hcurrency nofun
  | delete at_ =>
      simp only [hoperation] at hcurrency
      exact iff_of_true hcurrency nofun
  | get =>
      simp only [hoperation] at hcurrency
      exact iff_of_true hcurrency nofun

/-! ### One entry -/

/-- Two rows agree in a field that an update can name exactly when their payloads do. -/
theorem OrderField.same_iff {row row' : Order V} {payload payload' : Payload V}
    (h : Describes payload row) (h' : Describes payload' row') (field : OrderField) :
    field.Same row row' ↔
      field.payloadField.value payload = field.payloadField.value payload' := by
  cases field with
  | status =>
      show row.status = row'.status ↔ payload.status = payload'.status
      rw [h.status, h'.status]
  | lineItems =>
      show row.lineItems = row'.lineItems ↔ payload.lineItems = payload'.lineItems
      rw [h.lineItems, h'.lineItems]
  | totalAmountCents =>
      show row.totalAmountCents = row'.totalAmountCents ↔
        payload.totalAmountCents = payload'.totalAmountCents
      rw [h.totalAmountCents, h'.totalAmountCents]
  | shippingAddress =>
      show row.shippingAddress = row'.shippingAddress ↔
        payload.shippingAddress = payload'.shippingAddress
      rw [h.shippingAddress, h'.shippingAddress]
  | metadata =>
      show row.metadata = row'.metadata ↔ payload.metadata = payload'.metadata
      rw [h.metadata, h'.metadata]

theorem names_of_mem {event : OutboxEvent V} {changed : List OrderField}
    (hchanged : event.payload.changedFields = some changed) {field : OrderField}
    (hfield : field ∈ changed) : event.names field.payloadField = true := by
  rw [OutboxEvent.names, hchanged]
  exact List.any_eq_true.mpr ⟨field, hfield, decide_eq_true rfl⟩

/-- No update names the currency. -/
theorem names_currency (event : OutboxEvent V) : event.names .currency = false := by
  refine List.any_eq_false.mpr fun named _ => ?_
  cases named <;> decide

section Entry

variable [BEq V] [ReflBEq V] {ws : List (Write V)} {es : List (OutboxEvent V)}

/-- An update names what it changes, after the event `before` of the row `base`, unless the
currency in that event is not that of the row. -/
theorem namesChanges_update_iff {req : UpdateOrderRequest V} {loaded order base row : Order V}
    {changed : List OrderField} {now : Timestamp} {before event : OutboxEvent V}
    (hchanges : changed ≠ []) (hok : updateOrder req loaded = .ok (order, changed))
    (hwritten : Order.updateRow loaded order base now = some row)
    (hbefore : Describes before.payload base) (hevent : Describes event.payload row)
    (hcurrency : event.payload.currency = row.currency)
    (hchanged : event.payload.changedFields = some changed) :
    (∀ field : PayloadField, field.value before.payload ≠ field.value event.payload →
        event.names field = true) ↔
      before.payload.currency = base.currency := by
  obtain ⟨-, hcustomer, hkept, -, -⟩ := updateRow_keeps hwritten
  constructor
  · intro hnames
    by_contra hne
    have hnamed := hnames .currency fun heq => hne (heq.trans (hcurrency.trans hkept))
    rw [names_currency] at hnamed
    cases hnamed
  · intro heq field hne
    have hnamed : ∀ named : OrderField,
        named.payloadField.value before.payload ≠ named.payloadField.value event.payload →
        event.names named.payloadField = true := by
      intro named hne
      by_cases hmem : named ∈ changed
      · exact names_of_mem hchanged hmem
      · obtain ⟨-, rfl⟩ := Order.updateRow_eq_some_iff.mp hwritten
        have hsame : named.Same base (Order.overwrite loaded order base now) :=
          same_overwrite hchanges hok hmem now
        exact absurd ((named.same_iff hbefore hevent).mp hsame) hne
    cases field with
    | customerId =>
        exact absurd (hbefore.customerId.trans (hcustomer.symm.trans hevent.customerId.symm)) hne
    | currency => exact absurd (heq.trans (hkept.symm.trans hcurrency.symm)) hne
    | status => exact hnamed .status hne
    | lineItems => exact hnamed .lineItems hne
    | totalAmountCents => exact hnamed .totalAmountCents hne
    | shippingAddress => exact hnamed .shippingAddress hne
    | metadata => exact hnamed .metadata hne

omit [ReflBEq V] in
/-- The present row of an order was left by its last write, and the event of that write is the
last one of the order. -/
theorem Ledger.exists_before (h : Ledger ws es) {id : UUID} {base : Order V}
    (hbase : rowAt ws id = some base) :
    ∃ last before, KeyedLog.last Write.orderId id ws = some last ∧
      KeyedLog.last OutboxEvent.aggregateId id es = some before ∧ Recorded last before ∧
      last.new = base := by
  obtain ⟨last, hlast, hnew⟩ := Option.map_eq_some_iff.mp hbase
  have hrel := KeyedLog.last_rel Write.orderId (fun _ _ hr => hr.aggregateId.symm) h.recorded id
  rw [hlast] at hrel
  cases hbefore : KeyedLog.last OutboxEvent.aggregateId id es with
  | none =>
      rw [hbefore] at hrel
      cases hrel
  | some before =>
      rw [hbefore] at hrel
      cases hrel with
      | some hrecorded => exact ⟨last, before, hlast, rfl, hrecorded, hnew⟩

/-- The event of an entry names what it changes exactly when the entry keeps the currency. -/
theorem Commits.namesChanges_iff {write : Write V} {event : OutboxEvent V}
    (ledger : Ledger ws es) (h : Commits ws write event) :
    NamesChanges es event ↔ KeepsCurrency ws write := by
  have hcorresponds := h.corresponds ledger
  cases h with
  | insert operation _ _ recorded =>
      subst recorded
      refine iff_of_true (fun htype => ?_) fun req hoperation => ?_
      · cases htype
      · cases operation.symm.trans hoperation
  | @overwrite t request now snapshot loaded order base row changed event _ _ _ assigns current
      written recorded =>
      obtain ⟨id, operation, trace⟩ := request
      cases assigns with
      | delete =>
          obtain rfl := List.singleton_inj.mp recorded
          refine iff_of_true (fun htype => ?_) fun req hoperation => ?_
          · cases htype
          · cases hoperation
      | @update req loaded order changed updated changes =>
          obtain rfl := List.singleton_inj.mp recorded
          obtain ⟨last, before, hlast, hbefore, hrecorded, rfl⟩ := ledger.exists_before current
          have hnames := namesChanges_update_iff changes updated written hrecorded.payload
            hcorresponds.payload rfl rfl
          have hid : row.id = id := hcorresponds.rowId
          rw [hrecorded.currency_eq_iff] at hnames
          constructor
          · intro h req' hreq' last' hlast'
            obtain rfl : last = last' := Option.some.inj (hlast.symm.trans hlast')
            exact hnames.mp (h rfl before (hid ▸ hbefore))
          · intro h _ before' hbefore'
            replace hbefore' : KeyedLog.last OutboxEvent.aggregateId row.id es = some before' :=
              hbefore'
            rw [hid] at hbefore'
            obtain rfl : before = before' := Option.some.inj (hbefore.symm.trans hbefore')
            exact hnames.mpr (h req rfl last hlast)

end Entry

/-! ### Every run -/

section Run

variable [BEq V]

/-- What holds of each write of a ledger exactly when it holds of its event holds of all of them
together. -/
theorem Ledger.allEntries_iff {P : List (Write V) → Write V → Prop}
    {R : List (OutboxEvent V) → OutboxEvent V → Prop}
    (hiff : ∀ ws es write event, Ledger ws es → Commits ws write event →
      (R es event ↔ P ws write)) {ws : List (Write V)} {es : List (OutboxEvent V)}
    (h : Ledger ws es) : KeyedLog.AllEntries R es ↔ KeyedLog.AllEntries P ws := by
  induction h with
  | nil => exact iff_of_true KeyedLog.allEntries_nil KeyedLog.allEntries_nil
  | @concat ws es write event ledger commits ih =>
      rw [KeyedLog.allEntries_concat, KeyedLog.allEntries_concat, ih,
        hiff ws es write event ledger commits]

/-- The event of an update is not the first one of its order. -/
theorem Ledger.exists_before_update {ws : List (Write V)} {es : List (OutboxEvent V)}
    (h : Ledger ws es) :
    KeyedLog.AllEntries (fun before event => event.eventType = .orderUpdated →
      (KeyedLog.last OutboxEvent.aggregateId event.aggregateId before).isSome) es := by
  refine (Ledger.allEntries_iff (P := fun _ _ => True) (fun ws es write event ledger commits => ?_)
    h).mpr fun _ _ _ => trivial
  have hid := (commits.corresponds ledger).aggregateId
  refine iff_true_intro fun htype => ?_
  cases commits with
  | insert _ _ _ recorded =>
      subst recorded
      cases htype
  | overwrite _ _ _ _ current _ _ =>
      obtain ⟨last, before, -, hbefore, -⟩ := ledger.exists_before current
      rw [hid]
      exact Option.isSome_iff_exists.mpr ⟨before, hbefore⟩

/-- If every event names what it changes, then a consumer of one field that ignores the updates
which do not name it misses nothing. -/
theorem Ledger.foldl_follow {ws : List (Write V)} {es : List (OutboxEvent V)} (h : Ledger ws es)
    (hnamed : KeyedLog.AllEntries NamesChanges es) (field : PayloadField) (id : UUID) :
    (eventsOf es id).foldl
        (KeyedLog.follow field.ignores fun event => field.value event.payload) none =
      (KeyedLog.last OutboxEvent.aggregateId id es).map
        fun event => field.value event.payload := by
  refine KeyedLog.foldl_follow OutboxEvent.aggregateId _ _ (fun i event hevent hignores => ?_) id
  rw [PayloadField.ignores, Bool.and_eq_true, decide_eq_true_eq, Bool.not_eq_true'] at hignores
  obtain ⟨htype, hnot⟩ := hignores
  obtain ⟨last, hlast⟩ := Option.isSome_iff_exists.mp
    (h.exists_before_update i event hevent htype)
  rw [hlast, Option.map_some, Option.some.injEq]
  by_contra hne
  have hnames := hnamed i event hevent htype last hlast field hne
  rw [hnot] at hnames
  cases hnames

/-- **The law, along the ledger.** -/
theorem World.Inv.changedFieldsSound_iff_keepsCurrency [ReflBEq V] {w : World V} (h : w.Inv) :
    ChangedFieldsSound w ↔ KeyedLog.AllEntries KeepsCurrency w.history := by
  rw [← h.ledger.allEntries_iff fun _ _ _ _ ledger commits => commits.namesChanges_iff ledger]
  refine ⟨ChangedFieldsSound.named, fun hnamed => ⟨hnamed, fun field id n => ?_⟩⟩
  exact (h.ledger.take n).foldl_follow (hnamed.take n) field id

/-- **When `changed_fields` is sound.**  If Python takes every value as equal to itself, then a
run ends with sound `changed_fields` exactly when every update it commits on top of a creation
finds the currency kept. -/
theorem changedFieldsSound_iff [ReflBEq V] {schedule : List (Action V)} {w : World V}
    (h : World.runFromInit schedule = some w) :
    ChangedFieldsSound w ↔
      Transition.AllSteps World.step (World.AtCommit KeepsCurrency) World.init schedule := by
  rw [(World.inv_of_run h).changedFieldsSound_iff_keepsCurrency]
  exact World.history_iff_atCommit KeyedLog.allEntries_nil
    (fun _ _ _ _ _ _ => KeyedLog.allEntries_concat) h

end Run

theorem changedFieldsSound_iff_race :
    ∃ w, World.runFromInit Sample.race = some w ∧ (ChangedFieldsSound w ↔
      Transition.AllSteps World.step (World.AtCommit KeepsCurrency) World.init Sample.race) := by
  have hrun : (World.runFromInit Sample.race).isSome := by decide
  obtain ⟨w, hw⟩ := Option.isSome_iff_exists.mp hrun
  exact ⟨w, hw, changedFieldsSound_iff hw⟩

/-- An order is created with a sharp s and two blanks for a currency, then confirmed. -/
def Sample.trimmed : List (Action ℕ) :=
  [.begin 1 (createIn "ß  " rfl)] ++ statements 3 0 ++
  [.begin 1 (update (some .confirmed) none)] ++ statements 5 1

/-- The confirmation names the status only, yet the currency has lost a blank; a consumer that
keeps the currency has the one of the creation. -/
theorem changedFields_trimmed :
    ∃ w, World.runFromInit Sample.trimmed = some w ∧
      (w.outbox.map fun event => event.payload.currency) = ["SS  ", "SS "] ∧
      (w.outbox.map fun event => event.payload.changedFields) = [none, some [.status]] ∧
      ¬ ChangedFieldsSound w := by
  have hrun : (World.runFromInit Sample.trimmed).map (fun w =>
      (w.outbox.map fun event => event.payload.currency,
        w.outbox.map fun event => event.payload.changedFields)) =
      some (["SS  ", "SS "], [none, some [.status]]) := by decide
  have hheld : (World.runFromInit Sample.trimmed).map (fun w =>
      ((eventsOf (w.outbox.take 2) Sample.orderId).foldl
          (KeyedLog.follow PayloadField.currency.ignores fun event => event.payload.currency) none,
        (KeyedLog.last OutboxEvent.aggregateId Sample.orderId (w.outbox.take 2)).map
          fun event => event.payload.currency)) =
      some (some "SS  ", some "SS ") := by decide
  obtain ⟨w, hw, hevents⟩ := Option.map_eq_some_iff.mp hrun
  rw [hw, Option.map_some, Option.some.injEq, Prod.mk.injEq] at hheld
  rw [Prod.mk.injEq] at hevents
  refine ⟨w, hw, hevents.1, hevents.2, fun hlaw => ?_⟩
  have hkept := hlaw.kept .currency Sample.orderId 2
  exact absurd (hheld.1.symm.trans (hkept.trans hheld.2)) (by decide)

end OutboxPattern
