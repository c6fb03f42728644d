import Mathlib.Data.List.Basic
import OutboxPattern.Consumer.Acknowledgement
import OutboxPattern.Consumer.Tailing

/-!
# From a request to the log of `consumer.py`

The slot of `manual_consumer/consumer.py` streams `outbox_publication`, which publishes the inserts
into `outbox_events` and nothing else.  What PostgreSQL appends to it is left open (`publication`)
but for one thing: a committed transaction has one Insert message for each outbox event that it
inserted.  `row n event` is the message for the event as the `n`-th row of its table, with the
columns as texts, among them those that an `OutboxEvent` does not have, such as the drawn `id`.

`changes_delivered` says what arrives, with the slot created before the first commit.  Each
committed change of `orders` is in the consumer's log, or is still to be streamed: at least once, in
commit order, and with the columns of its event.
The log reports no insert besides, and no failure to parse one.
-/

namespace OutboxPattern

open ResumableStream

variable {V : Type}

namespace Consumer

/-- What is behind an Insert message is not read. -/
theorem parseInsertMessage_encode_append (m : InsertMessage) (rest : Bytes) :
    parseInsertMessage (m.encode ++ rest) = .ok m.result := by
  have hencode : (m.encode ++ rest).drop 0 = [ascii 'I'] ++ (BigEndian.encode 4 m.relId ++
      ([ascii 'N'] ++ (BigEndian.encode 2 m.columns.length ++
        (m.columns.flatMap Column.encode ++ rest)))) := by
    rw [List.drop_zero, InsertMessage.encode]
    simp only [List.append_assoc]
  have hrelId := drop_of_drop_eq hencode
  have htuple := drop_of_drop_eq hrelId
  have hnum := drop_of_drop_eq htuple
  have hcolumns := drop_of_drop_eq hnum
  simp only [BigEndian.length_encode, List.length_singleton, Nat.reduceAdd] at *
  rw [parseInsertMessage, unpackFrom_encode (by omega) m.relId_lt hrelId, ok_bind,
    unpackFrom_encode (by omega) m.columns_lt hnum, ok_bind,
    parseColumns_encode m.columns hcolumns, ok_bind]
  rfl

/-- The insert that a log record reports. -/
def LogRecord.inserted : LogRecord → Option (ℕ × List (Option String))
  | .insert relId columns => some (relId, columns)
  | _ => none

/-- The insert that is reported for a payload, if any. -/
def insertIn (payload : Bytes) : Option (ℕ × List (Option String)) :=
  if slice payload 0 1 = [ascii 'I'] then (parseInsertMessage payload).toOption else none

/-- What is logged of an Insert message. -/
theorem processMessage_of_isInsert {msg : ReplicationMessage Bytes} (hinsert : IsInsert msg) :
    (∀ result, parseInsertMessage msg.payload = .ok result →
      (processMessage msg).1 = .insert result.1 result.2) ∧
    ∀ e, parseInsertMessage msg.payload = .error e →
      (processMessage msg).1 = .insertFailed e (slice msg.payload 0 50) := by
  have hkinds : [ascii 'I'] ≠ [ascii 'R'] ∧ [ascii 'I'] ≠ [ascii 'B'] ∧
      [ascii 'I'] ≠ [ascii 'C'] := by decide
  obtain ⟨hR, hB, hC⟩ := hkinds
  unfold IsInsert at hinsert
  constructor
  · intro result hparse
    simp only [processMessage, hinsert, if_neg hR, if_neg hB, if_neg hC, if_true, hparse]
  · intro e hparse
    simp only [processMessage, hinsert, if_neg hR, if_neg hB, if_neg hC, if_true, hparse]

/-- What is logged of any other message is no insert, nor that one has failed to parse. -/
theorem processMessage_of_not_isInsert {msg : ReplicationMessage Bytes}
    (hinsert : ¬ IsInsert msg) :
    (processMessage msg).1.inserted = none ∧
      ∀ e raw, (processMessage msg).1 ≠ .insertFailed e raw := by
  unfold IsInsert at hinsert
  simp only [processMessage, if_neg hinsert]
  repeat' split
  all_goals exact ⟨rfl, fun _ _ => LogRecord.noConfusion⟩

/-- An insert is reported for an Insert message that can be parsed, and for nothing else. -/
theorem inserted_processMessage (msg : ReplicationMessage Bytes) :
    (processMessage msg).1.inserted = insertIn msg.payload := by
  by_cases hinsert : slice msg.payload 0 1 = [ascii 'I']
  · rw [insertIn, if_pos hinsert]
    cases hparse : parseInsertMessage msg.payload with
    | ok result =>
        rw [(processMessage_of_isInsert hinsert).1 result hparse]
        rfl
    | error e =>
        rw [(processMessage_of_isInsert hinsert).2 e hparse]
        rfl
  · rw [insertIn, if_neg hinsert]
    exact (processMessage_of_not_isInsert hinsert).1

/-- The payloads of the Insert messages of a list. -/
def insertPayloads (msgs : List (ReplicationMessage Bytes)) : List Bytes :=
  (msgs.filter fun msg => decide (IsInsert msg)).map ReplicationMessage.payload

/-- What is reported for a list of messages is what is reported for its Insert messages. -/
theorem filterMap_inserted (msgs : List (ReplicationMessage Bytes)) :
    msgs.filterMap (fun msg => (processMessage msg).1.inserted) =
      (insertPayloads msgs).filterMap insertIn := by
  induction msgs with
  | nil => rfl
  | cons msg msgs ih =>
      by_cases hinsert : IsInsert msg
      · have hpayloads : insertPayloads (msg :: msgs) = msg.payload :: insertPayloads msgs := by
          simp [insertPayloads, hinsert]
        rw [List.filterMap_cons, inserted_processMessage, ih, hpayloads, List.filterMap_cons]
      · have hpayloads : insertPayloads (msg :: msgs) = insertPayloads msgs := by
          simp [insertPayloads, hinsert]
        have hnone : insertIn msg.payload = none := if_neg hinsert
        rw [List.filterMap_cons, inserted_processMessage, ih, hpayloads, hnone]

/-- A message is reported as it was written. -/
theorem insertIn_encode (m : InsertMessage) : insertIn m.encode = some m.result := by
  have hparse := parseInsertMessage_encode_append m []
  rw [List.append_nil] at hparse
  have hkind : slice m.encode 0 1 = [ascii 'I'] := rfl
  rw [insertIn, if_pos hkind, hparse]
  rfl

end Consumer

/-! ### The publication -/

/-- `consumer.py` and what it follows. -/
abbrev ConsumerTailing (V : Type) := Tailing V Consumer.Bytes Consumer.LogRecord

namespace Tailing

variable (row : ℕ → OutboxEvent V → Consumer.InsertMessage)

/-- What is streamed after a step has one Insert message for each of the events that the step has
committed, of which the first one is the `n`-th row of the table. -/
def Publishes (n : ℕ) (events : List (OutboxEvent V))
    (streamed : Option (ReplicationBatch Consumer.Bytes)) : Prop :=
  Consumer.insertPayloads (streamed.toList.flatMap Batch.messages) =
    events.mapIdx fun i event => (row (i + n) event).encode

/-- `outbox_publication`, as `pgoutput` decodes it. -/
def publication : Decoding V Consumer.Bytes where
  Streams w w' streamed := Publishes row w.outbox.length (w'.outbox.drop w.outbox.length) streamed
  decidable _ _ _ := inferInstanceAs (Decidable (_ = _))

/-- The inserts that have been streamed are those of the committed events. -/
def PublishedBy (w : World V) (messages : List (ReplicationMessage Consumer.Bytes)) : Prop :=
  Consumer.insertPayloads messages = w.outbox.mapIdx fun i event => (row i event).encode

/-- The inserts that are to be reported, in commit order. -/
def published (w : World V) : List (ℕ × List (Option String)) :=
  w.outbox.mapIdx fun i event => (row i event).result

section Publication

variable {row} [BEq V]

theorem keeps_publishedBy : Keeps (publication row) (PublishedBy row) where
  init := rfl
  step w w' action streamed messages hinv hstep hstreams hpublished := by
    have hstreams' : Publishes row w.outbox.length (w'.outbox.drop w.outbox.length) streamed :=
      hstreams
    rw [PublishedBy, outbox_eq_of_step hinv hstep, List.mapIdx_append, ← hstreams', ← hpublished]
    simp only [Consumer.insertPayloads, List.filter_append, List.map_append]

omit [BEq V] in
/-- The inserts of the stream, as they are reported, are those of the committed events. -/
theorem reports_eq_published {w : World V} {messages : List (ReplicationMessage Consumer.Bytes)}
    (h : PublishedBy row w messages) :
    reports Consumer.LogRecord.inserted Consumer.processMessage messages = published row w := by
  rw [reports, Consumer.filterMap_inserted, h, published]
  induction w.outbox using List.reverseRecOn with
  | nil => rfl
  | append_singleton outbox event ih =>
      rw [List.mapIdx_concat, List.mapIdx_concat, List.filterMap_append, ih,
        List.filterMap_cons, Consumer.insertIn_encode]
      rfl

/-- No Insert message of the stream fails to be parsed. -/
theorem Inv.not_mem_insertFailed {s : ConsumerTailing V}
    (h : s.Inv Consumer.processMessage (PublishedBy row)) (e : Consumer.ParseError)
    (raw : Consumer.Bytes) : Consumer.LogRecord.insertFailed e raw ∉ s.consumer.records := by
  rw [h.logged]
  intro hfailed
  obtain ⟨msg, hmsg, hrecord⟩ := List.mem_map.mp hfailed
  have hstreamed := h.tail.committed msg (List.mem_append_left _ hmsg)
  by_cases hinsert : Consumer.IsInsert msg
  · have hpayload : msg.payload ∈ Consumer.insertPayloads s.wal.messages :=
      List.mem_map_of_mem (List.mem_filter.mpr ⟨hstreamed, decide_eq_true hinsert⟩)
    rw [h.streamed] at hpayload
    obtain ⟨i, hi, hencode⟩ := List.mem_mapIdx.mp hpayload
    have hparse := Consumer.parseInsertMessage_encode_append (row i s.world.outbox[i]) []
    rw [List.append_nil, hencode] at hparse
    rw [(Consumer.processMessage_of_isInsert hinsert).1 _ hparse] at hrecord
    cases hrecord
  · exact (Consumer.processMessage_of_not_isInsert hinsert).2 e raw hrecord

end Publication

/-! ### Delivery -/

/-- **The report of a committed change**: it has the columns of the row that the event of the
change is in `outbox_events`. -/
def IsReportOf (write : Write V) (report : ℕ × List (Option String)) : Prop :=
  ∃ n event, Corresponds write event ∧ report = (row n event).result

/-- **Delivery**, of a state of the system. -/
structure ChangesDelivered [BEq V] (s : ConsumerTailing V) : Prop where
  /-- Each committed change is in the log or is still to be streamed: at least once, and in
  commit order. -/
  atLeastOnce : ∃ reports, List.Forall₂ (IsReportOf row) s.world.history reports ∧
    reports.Sublist (s.logged Consumer.LogRecord.inserted ++
      s.pending Consumer.LogRecord.inserted Consumer.processMessage)
  /-- No insert is reported that is not a committed change. -/
  nothingElse : ∀ report ∈ s.logged Consumer.LogRecord.inserted,
    ∃ write ∈ s.world.history, IsReportOf row write report
  neverFails : ∀ e raw, Consumer.LogRecord.insertFailed e raw ∉ s.consumer.records
  /-- If the consumer is handed what is still to be streamed, then all changes are in the log. -/
  drains : ∃ s' reports, Transition.run (step (publication row) Consumer.processMessage) s
      (List.replicate s.consumer.queue.length (.consumer .handle)) = some s' ∧
    s'.world = s.world ∧ List.Forall₂ (IsReportOf row) s.world.history reports ∧
    reports.Sublist (s'.logged Consumer.LogRecord.inserted)

/-- The reports of the committed changes, in commit order. -/
theorem forall₂_mapIdx {ws : List (Write V)} {es : List (OutboxEvent V)}
    (h : List.Forall₂ Corresponds ws es) :
    List.Forall₂ (IsReportOf row) ws (es.mapIdx fun i event => (row i event).result) := by
  have hshift : ∀ n, List.Forall₂ (IsReportOf row) ws
      (es.mapIdx fun i event => (row (i + n) event).result) := by
    induction h with
    | nil => exact fun _ => .nil
    | @cons write event ws es hhead htail ih =>
        intro n
        rw [List.mapIdx_cons]
        refine .cons ⟨_, event, hhead, rfl⟩ ?_
        have hnext := ih (n + 1)
        simp only [Nat.add_right_comm _ 1 n]
        simpa only [Nat.add_assoc] using hnext
  exact hshift 0

/-- **Every committed change is delivered**, however requests, their failures, the stream and the
sessions of the consumer are interleaved.  Committed means committed since the slot was created,
which is before the first commit here. -/
theorem changes_delivered [BEq V] {slot : Lsn} {actions : List (TailingAction V Consumer.Bytes)}
    {s : ConsumerTailing V}
    (h : Transition.run (step (publication row) Consumer.processMessage) (init slot) actions =
      some s) : s.ChangesDelivered row := by
  have hinv := inv_of_run keeps_publishedBy Consumer.processMessage_flushLsn h
  have hcorresponds := forall₂_mapIdx row hinv.world.ledger.corresponds
  have hstream := reports_eq_published hinv.streamed
  refine ⟨⟨_, hcorresponds, ?_⟩, fun report hreport => ?_, hinv.not_mem_insertFailed, ?_⟩
  · have hsublist := hinv.reports_sublist Consumer.LogRecord.inserted
    rwa [hstream] at hsublist
  · have hpublished := hinv.reports_subset (List.mem_append_left _ hreport)
    rw [hstream] at hpublished
    obtain ⟨i, hi, rfl⟩ := List.mem_mapIdx.mp hpublished
    obtain ⟨write, hwrite, hcorresponds⟩ := hinv.world.ledger.exists_write
      (List.getElem_mem hi)
    exact ⟨write, hwrite, i, _, hcorresponds, rfl⟩
  · obtain ⟨s', hrun, hworld, hdrained⟩ :=
      exists_drained (publication row) Consumer.processMessage s
    have hinv' := inv_of_run keeps_publishedBy Consumer.processMessage_flushLsn (by
      rw [Transition.run_append, h, Option.bind_some, hrun])
    have hsublist := hinv'.reports_sublist Consumer.LogRecord.inserted
    rw [reports_eq_published hinv'.streamed, pending_eq_nil hdrained, List.append_nil, published,
      hworld] at hsublist
    exact ⟨s', _, hrun, hworld, hcorresponds, hsublist⟩

/-! ### A session that breaks off -/

/-- The value of a column in text form, which PostgreSQL does not let grow to 4 GiB. -/
def textColumn (value : String) : Consumer.Column :=
  if h : (Consumer.utf8 value).length < 2 ^ 32 then .text value h else .null

/-- The payload of the event that `Sample.create` records, as `JSONB` is written. -/
def createdPayload : String :=
  "\x7b\"status\": \"PENDING\", \"version\": 1, \"currency\": \"EUR\", " ++
  "\"metadata\": \"\x7b\x7d\", \"order_id\": \"00000000-0000-0000-0000-000000000001\", " ++
  "\"is_deleted\": false, \"line_items\": \"[\x7b\\\"product_id\\\": " ++
  "\\\"00000000-0000-0000-0000-000000000007\\\", \\\"quantity\\\": 1, " ++
  "\\\"unit_price_cents\\\": 5\x7d]\", " ++
  "\"customer_id\": \"00000000-0000-0000-0000-000000000002\", \"changed_fields\": null, " ++
  "\"order_created_at\": \"1970-01-01T00:00:00.000001+00:00\", " ++
  "\"order_updated_at\": \"1970-01-01T00:00:00.000001+00:00\", " ++
  "\"shipping_address\": null, \"total_amount_cents\": 5\x7d"

/-- The row of the event that `Sample.create` records. -/
def createdRow : Consumer.InsertMessage where
  relId := 16402
  columns :=
    [textColumn "9f0c2d6e-8a57-4c1b-b3d4-5e6f708192a3", textColumn "orders",
      textColumn "00000000-0000-0000-0000-000000000001", textColumn "ORDER_CREATED",
      textColumn createdPayload, textColumn "1", .null, .null, .null, .null,
      textColumn "PENDING", .null, textColumn "0", .null,
      textColumn "1970-01-01 00:00:00.000001+00"]
  relId_lt := by decide
  columns_lt := by decide

/-- The transaction of `Sample.create`: Begin, Relation, Insert and Commit. -/
def createdBatch : ReplicationBatch Consumer.Bytes where
  body := [⟨110, [0x42]⟩, ⟨110, [0x52]⟩, ⟨110, createdRow.encode⟩]
  last := ⟨130, [0x43]⟩
  commit := 120
  body_lt := by simp
  commit_le := by simp

/-- `Sample.create` up to its commit. -/
def creation : List (TailingAction ℕ Consumer.Bytes) :=
  [.source (.begin 1 Sample.create) none, .source (.advance 0) none, .source (.advance 0) none]

/-- The consumer breaks off after the insert, and begins again before it. -/
def brokenOff : List (TailingAction ℕ Consumer.Bytes) :=
  [.consumer .handle, .consumer .handle, .consumer .handle, .consumer (.restart 100),
    .consumer .handle, .consumer .handle, .consumer .handle]

theorem changes_delivered_brokenOff :
    ∃ s : ConsumerTailing ℕ,
      Transition.run (step (publication fun _ _ => createdRow) Consumer.processMessage) (init 100)
        (creation ++ .source (.advance 0) (some createdBatch) :: brokenOff) = some s ∧
      s.logged Consumer.LogRecord.inserted = [createdRow.result, createdRow.result] ∧
      s.ChangesDelivered fun _ _ => createdRow := by
  obtain ⟨before, world, after, s, hbefore, hworld, hstreams, hafter, hs, hhandled⟩ :
      ∃ before world after, ∃ s : ConsumerTailing ℕ,
        Transition.run (step (publication fun _ _ => createdRow) Consumer.processMessage)
          (init 100) creation = some before ∧
        before.world.step (.advance 0) = some world ∧
        (publication fun _ _ => createdRow).Streams before.world world (some createdBatch) ∧
        before.publish world (some createdBatch) = some after ∧
        Transition.run (step (publication fun _ _ => createdRow) Consumer.processMessage)
          after brokenOff = some s ∧
        Consumer.insertPayloads s.consumer.handled = [createdRow.encode, createdRow.encode] :=
    ⟨_, _, _, _, rfl, rfl, rfl, rfl, rfl, rfl⟩
  have hrun : Transition.run (step (publication fun _ _ => createdRow) Consumer.processMessage)
      (init 100) (creation ++ .source (.advance 0) (some createdBatch) :: brokenOff) =
        some s := by
    rw [Transition.run_append, hbefore, Option.bind_some, Transition.run_cons, step, hworld,
      Option.bind_some, if_pos hstreams, hafter, Option.bind_some, hs]
  have hinv := inv_of_run keeps_publishedBy Consumer.processMessage_flushLsn hrun
  refine ⟨s, hrun, ?_, changes_delivered (fun _ _ => createdRow) hrun⟩
  rw [hinv.logged_eq, reports, Consumer.filterMap_inserted, hhandled]
  rw [List.filterMap_cons_some (Consumer.insertIn_encode _),
    List.filterMap_cons_some (Consumer.insertIn_encode _), List.filterMap_nil]

end Tailing

end OutboxPattern
