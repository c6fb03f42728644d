import OutboxPattern.Consumer.Tailing

/-!
# From a request to the log of `mc-stan.py`

The slot of `mc-stan.py` is decoded by `test_decoding`, which "does not filter by PUBLICATION" but
streams every change of every table, as a line of text.  The script filters for itself: it takes a
line for an outbox event if `public.outbox_events` occurs in it anywhere.

The lines of `outbox_events` begin with this name.  But a line has the values of the row in it as
well, and those of an order are its customer's.  So the change of an order is reported as an outbox
event, beside its event, if the name has been written into the order, say into its metadata.
`events_detected` says that no event is missed which is committed after the slot was created, here
before the first commit, and that these are the only false reports.
-/

namespace OutboxPattern

open ResumableStream

variable {V : Type}

namespace McStan

/-- What `process_message` looks for in a line. -/
def Names (line : String) : Prop := "public.outbox_events".toList <:+: line.toList

instance decidableNames : DecidablePred Names := fun _ => inferInstanceAs (Decidable (_ <:+: _))

/-- The line that is reported as an outbox event. -/
def LogRecord.detected : LogRecord → Option String
  | .outboxEvent payload => some payload
  | .ignored _ => none

/-- The lines of some messages that are taken for outbox events. -/
def named (messages : List (ReplicationMessage String)) : List String :=
  (messages.map ReplicationMessage.payload).filter (Names ·)

theorem detected_processMessage (msg : ReplicationMessage String) :
    (processMessage msg).1.detected = Option.guard (Names ·) msg.payload := by
  show LogRecord.detected (if Names msg.payload then _ else _) = _
  by_cases hnames : Names msg.payload
  · rw [if_pos hnames, Option.guard, if_pos (decide_eq_true hnames)]
    rfl
  · rw [if_neg hnames, Option.guard, if_neg (by simpa using hnames)]
    rfl

theorem reports_eq_named (messages : List (ReplicationMessage String)) :
    Tailing.reports LogRecord.detected processMessage messages = named messages := by
  rw [named, ← List.filterMap_eq_filter, List.filterMap_map]
  exact List.filterMap_congr fun msg _ => detected_processMessage msg

/-! ### The lines of `test_decoding` -/

/-- **The lines** for the rows that the order service writes. -/
structure Lines (V : Type) where
  /-- The `INSERT` into `orders`, or the `UPDATE`. -/
  order : Write V → String
  /-- The `INSERT` of the `n`-th row of `outbox_events`. -/
  event : ℕ → OutboxEvent V → String
  /-- `table public.outbox_events: INSERT: ...`. -/
  names_event : ∀ n e, Names (event n e)

namespace Lines

variable (lines : Lines V)

/-- The lines for what some transactions have committed, of which the first one has inserted the
`n`-th event. -/
def changes : ℕ → List (Write V × OutboxEvent V) → List String
  | _, [] => []
  | n, (write, event) :: committed =>
      lines.order write :: lines.event n event :: changes (n + 1) committed

theorem changes_append (n : ℕ) (xs ys : List (Write V × OutboxEvent V)) :
    lines.changes n (xs ++ ys) = lines.changes n xs ++ lines.changes (n + xs.length) ys := by
  induction xs generalizing n with
  | nil => rfl
  | cons c xs ih =>
      rw [List.cons_append, changes, changes, ih, List.length_cons, Nat.add_assoc, Nat.add_comm 1]
      rfl

/-- What is streamed after a step: of the lines that have the name in them, those of the
transaction that the step has committed, if it has committed one, and no others. -/
def decoding : Decoding V String where
  Streams w w' streamed := named (streamed.toList.flatMap Batch.messages) =
    (lines.changes w.outbox.length
      ((w'.history.zip w'.outbox).drop w.outbox.length)).filter (Names ·)
  decidable _ _ _ := inferInstanceAs (Decidable (_ = _))

/-- The lines with the name that have been streamed are those of the committed transactions. -/
def StreamedBy (w : World V) (messages : List (ReplicationMessage String)) : Prop :=
  named messages = (lines.changes 0 (w.history.zip w.outbox)).filter (Names ·)

/-- The line is that of the event of the change. -/
def IsLineOf (write : Write V) (line : String) : Prop :=
  ∃ n event, Corresponds write event ∧ line = lines.event n event

section Changes

variable {lines} {ws : List (Write V)} {es : List (OutboxEvent V)}

variable (lines) in
/-- The lines of the events are among those with the name. -/
theorem exists_reports (h : List.Forall₂ Corresponds ws es) (n : ℕ) :
    ∃ reports, List.Forall₂ lines.IsLineOf ws reports ∧
      reports.Sublist ((lines.changes n (ws.zip es)).filter (Names ·)) := by
  induction h generalizing n with
  | nil => exact ⟨[], .nil, List.nil_sublist _⟩
  | @cons write event ws es hhead htail ih =>
      obtain ⟨reports, hreports, hsublist⟩ := ih (n + 1)
      refine ⟨lines.event n event :: reports, .cons ⟨n, event, hhead, rfl⟩ hreports, ?_⟩
      rw [List.zip_cons_cons, changes, List.filter_cons, List.filter_cons,
        if_pos (decide_eq_true (lines.names_event n event))]
      split
      · exact (hsublist.cons_cons _).cons _
      · exact hsublist.cons_cons _

/-- The other ones are of orders that have the name in them. -/
theorem mem_changes (h : List.Forall₂ Corresponds ws es) {n : ℕ} {line : String}
    (hline : line ∈ lines.changes n (ws.zip es)) :
    ∃ write ∈ ws, lines.IsLineOf write line ∨ line = lines.order write := by
  induction h generalizing n with
  | nil => cases hline
  | @cons write event ws es hhead htail ih =>
      rw [List.zip_cons_cons, changes, List.mem_cons, List.mem_cons] at hline
      rcases hline with rfl | rfl | hline
      · exact ⟨write, List.mem_cons_self, Or.inr rfl⟩
      · exact ⟨write, List.mem_cons_self, Or.inl ⟨n, event, hhead, rfl⟩⟩
      · obtain ⟨earlier, hmem, hcases⟩ := ih hline
        exact ⟨earlier, List.mem_cons_of_mem _ hmem, hcases⟩

variable (lines) in
theorem order_mem_changes (h : List.Forall₂ Corresponds ws es) (n : ℕ) {write : Write V}
    (hwrite : write ∈ ws) : lines.order write ∈ lines.changes n (ws.zip es) := by
  induction h generalizing n with
  | nil => cases hwrite
  | @cons first event ws es hhead htail ih =>
      rw [List.zip_cons_cons, changes]
      rcases List.mem_cons.mp hwrite with rfl | hlater
      · exact List.mem_cons_self
      · exact List.mem_cons_of_mem _ (List.mem_cons_of_mem _ (ih (n + 1) hlater))

/-- What a step of the service commits comes after all that was committed before. -/
theorem zip_eq_of_step [BEq V] {w w' : World V} (hinv : w.Inv) {action : Action V}
    (hstep : w.step action = some w') :
    w'.history.zip w'.outbox =
      w.history.zip w.outbox ++ (w'.history.zip w'.outbox).drop w.outbox.length := by
  have hlength : w.history.length = w.outbox.length := hinv.ledger.corresponds.length_eq
  have hzip : (w.history.zip w.outbox).length = w.outbox.length := by
    rw [List.length_zip, hlength, Nat.min_self]
  rcases World.step_effect hinv hstep with
    ⟨-, hhistory, houtbox⟩ | ⟨write, event, -, -, hhistory, houtbox⟩
  · rw [hhistory, houtbox, ← hzip, List.drop_length, List.append_nil]
  · rw [hhistory, houtbox, List.zip_append hlength, ← hzip, List.drop_left]

theorem keeps_streamedBy [BEq V] : Tailing.Keeps lines.decoding lines.StreamedBy where
  init := rfl
  step w w' action streamed messages hinv hstep hstreams hstreamed := by
    have hlength : w.history.length = w.outbox.length := hinv.ledger.corresponds.length_eq
    have hnew : named (streamed.toList.flatMap Batch.messages) = _ := hstreams
    have hold : named messages = _ := hstreamed
    rw [StreamedBy, zip_eq_of_step hinv hstep, changes_append, List.filter_append, ← hold,
      List.length_zip, hlength, Nat.min_self, Nat.zero_add, ← hnew]
    simp only [named, List.map_append, List.filter_append]

end Changes

end Lines

/-! ### Detection -/

/-- **Detection**, of a state of the system. -/
structure EventsDetected [BEq V] (lines : Lines V)
    (s : Tailing V String LogRecord) : Prop where
  /-- The event of each committed change is in the log or is still to be streamed: at least once,
  and in commit order. -/
  atLeastOnce : ∃ reports, List.Forall₂ lines.IsLineOf s.world.history reports ∧
    reports.Sublist (s.logged LogRecord.detected ++ s.pending LogRecord.detected processMessage)
  /-- What is reported besides is a change of an order that has the name in its row. -/
  falseReports : ∀ line ∈ s.logged LogRecord.detected, ∃ write ∈ s.world.history,
    lines.IsLineOf write line ∨ line = lines.order write ∧ Names line
  /-- And each such change is reported, or will be. -/
  namedOrders : ∀ write ∈ s.world.history, Names (lines.order write) →
    lines.order write ∈
      s.logged LogRecord.detected ++ s.pending LogRecord.detected processMessage
  /-- If the script is handed what is still to be streamed, then all events are in the log. -/
  drains : ∃ s' reports, Transition.run (Tailing.step lines.decoding processMessage) s
      (List.replicate s.consumer.queue.length (.consumer .handle)) = some s' ∧
    s'.world = s.world ∧ List.Forall₂ lines.IsLineOf s.world.history reports ∧
    reports.Sublist (s'.logged LogRecord.detected)

/-- **Every event is detected** that is committed since the slot was created, before the first
commit, however requests, their failures, the stream and the sessions of the script are interleaved;
and nothing else is but orders that have the name in them. -/
theorem events_detected [BEq V] (lines : Lines V) {slot : Lsn}
    {actions : List (TailingAction V String)} {s : Tailing V String LogRecord}
    (h : Transition.run (Tailing.step lines.decoding processMessage) (Tailing.init slot) actions =
      some s) : EventsDetected lines s := by
  have hinv := Tailing.inv_of_run Lines.keeps_streamedBy processMessage_flushLsn h
  have hcorresponds := hinv.world.ledger.corresponds
  obtain ⟨reports, hreports, hnamed⟩ := Lines.exists_reports lines hcorresponds 0
  have hstreamed : ∀ {t : Tailing V String LogRecord},
      t.Inv processMessage lines.StreamedBy →
      Tailing.reports LogRecord.detected processMessage t.wal.messages =
        (lines.changes 0 (t.world.history.zip t.world.outbox)).filter (Names ·) :=
    fun ht => (reports_eq_named _).trans ht.streamed
  refine ⟨⟨reports, hreports, ?_⟩, fun line hline => ?_, fun write hwrite hnames => ?_, ?_⟩
  · have hsublist := hinv.reports_sublist LogRecord.detected
    rw [hstreamed hinv] at hsublist
    exact hnamed.trans hsublist
  · have hmem := hinv.reports_subset (List.mem_append_left _ hline)
    rw [hstreamed hinv, List.mem_filter, decide_eq_true_eq] at hmem
    obtain ⟨write, hwrite, hcases⟩ := Lines.mem_changes hcorresponds hmem.1
    exact ⟨write, hwrite, hcases.imp_right fun horder => ⟨horder, hmem.2⟩⟩
  · have hmem := Lines.order_mem_changes lines hcorresponds 0 hwrite
    have hsublist := hinv.reports_sublist LogRecord.detected
    rw [hstreamed hinv] at hsublist
    exact hsublist.subset (List.mem_filter.mpr ⟨hmem, decide_eq_true hnames⟩)
  · obtain ⟨s', hrun, hworld, hdrained⟩ := Tailing.exists_drained lines.decoding processMessage s
    have hinv' := Tailing.inv_of_run Lines.keeps_streamedBy processMessage_flushLsn (by
      rw [Transition.run_append, h, Option.bind_some, hrun])
    have hsublist := hinv'.reports_sublist LogRecord.detected
    rw [hstreamed hinv', Tailing.pending_eq_nil hdrained, List.append_nil, hworld] at hsublist
    exact ⟨s', reports, hrun, hworld, hreports, hnamed.trans hsublist⟩

/-! ### An order that is taken for an event -/

/-- Creates the order, with the name as a key of its metadata. -/
def createNamed : Request ℕ where
  orderId := Sample.orderId
  operation := .create { Sample.createRequest "USD" rfl with
    metadata := Finmap.singleton "public.outbox_events" 1 }
  trace := Sample.trace

/-- The row of the order. -/
def orderLine : String :=
  "table public.orders: INSERT: id[uuid]:'00000000-0000-0000-0000-000000000001' " ++
  "customer_id[uuid]:'00000000-0000-0000-0000-000000000002' " ++
  "status[order_status]:'PENDING' line_items[jsonb]:'[\x7b\"quantity\": 1, " ++
  "\"product_id\": \"00000000-0000-0000-0000-000000000007\", \"unit_price_cents\": 5\x7d]' " ++
  "total_amount_cents[bigint]:5 currency[character]:'USD' shipping_address[jsonb]:'null' " ++
  "metadata[jsonb]:'\x7b\"" ++ "public.outbox_events" ++ ("\": 1\x7d' " ++
  "deleted_at[timestamp with time zone]:null version[integer]:1 " ++
  "created_at[timestamp with time zone]:'1970-01-01 00:00:00.000001+00' " ++
  "updated_at[timestamp with time zone]:'1970-01-01 00:00:00.000001+00'")

/-- The row of its event. -/
def eventLine : String :=
  "table " ++ "public.outbox_events" ++
  (": INSERT: id[uuid]:'9f0c2d6e-8a57-4c1b-b3d4-5e6f708192a3' aggregate_type[text]:'orders' " ++
  "aggregate_id[uuid]:'00000000-0000-0000-0000-000000000001' " ++
  "event_type[outbox_event_type]:'ORDER_CREATED' " ++
  "payload[jsonb]:'\x7b\"status\": \"PENDING\", \"version\": 1, \"currency\": \"USD\", " ++
  "\"metadata\": \"\x7b\\\"public.outbox_events\\\": 1\x7d\", " ++
  "\"order_id\": \"00000000-0000-0000-0000-000000000001\", " ++
  "\"is_deleted\": false, \"line_items\": \"[\x7b\\\"product_id\\\": " ++
  "\\\"00000000-0000-0000-0000-000000000007\\\", \\\"quantity\\\": 1, " ++
  "\\\"unit_price_cents\\\": 5\x7d]\", " ++
  "\"customer_id\": \"00000000-0000-0000-0000-000000000002\", \"changed_fields\": null, " ++
  "\"order_created_at\": \"1970-01-01T00:00:00.000001+00:00\", " ++
  "\"order_updated_at\": \"1970-01-01T00:00:00.000001+00:00\", " ++
  "\"shipping_address\": null, \"total_amount_cents\": 5\x7d' schema_version[integer]:1 " ++
  "trace_id[text]:null span_id[text]:null correlation_id[uuid]:null causation_id[uuid]:null " ++
  "status[outbox_status]:'PENDING' error_details[text]:null retry_count[integer]:0 " ++
  "processed_at[timestamp with time zone]:null " ++
  "created_at[timestamp with time zone]:'1970-01-01 00:00:00.000001+00'")

/-- A line that the name was written into. -/
theorem names_append (before after : String) :
    Names (before ++ "public.outbox_events" ++ after) := by
  rw [Names, String.toList_append, String.toList_append]
  exact ⟨before.toList, after.toList, rfl⟩

theorem names_orderLine : Names orderLine := names_append _ _

theorem names_eventLine : Names eventLine := names_append _ _

/-- A line that is too short for it. -/
theorem not_names_of_length {line : String} (h : line.toList.length < 20) : ¬ Names line :=
  fun hnames => absurd hnames.length_le (by
    rw [show "public.outbox_events".toList.length = 20 from by decide]
    exact Nat.not_le_of_lt h)

def linesNamed : Lines ℕ where
  order _ := orderLine
  event _ _ := eventLine
  names_event _ _ := names_eventLine

/-- The transaction of `createNamed`. -/
def namedBatch : ReplicationBatch String where
  body := [⟨110, "BEGIN 771"⟩, ⟨110, orderLine⟩, ⟨112, eventLine⟩]
  last := ⟨130, "COMMIT 771"⟩
  commit := 120
  body_lt := by decide
  commit_le := by decide

theorem named_namedBatch : named namedBatch.messages = [orderLine, eventLine] := by
  have hbegin : ¬ Names "BEGIN 771" := not_names_of_length (by decide)
  have hcommit : ¬ Names "COMMIT 771" := not_names_of_length (by decide)
  simp [named, namedBatch, Batch.messages, hbegin, hcommit, names_orderLine, names_eventLine]

/-- `createNamed` up to its commit. -/
def namedCreation : List (TailingAction ℕ String) :=
  [.source (.begin 1 createNamed) none, .source (.advance 0) none, .source (.advance 0) none]

/-- The script is handed the transaction. -/
def handled : List (TailingAction ℕ String) := List.replicate 4 (.consumer .handle)

/-- Two lines are reported, and one event was committed. -/
theorem events_detected_named :
    ∃ s : Tailing ℕ String LogRecord,
      Transition.run (Tailing.step linesNamed.decoding processMessage) (Tailing.init 100)
        (namedCreation ++ .source (.advance 0) (some namedBatch) :: handled) = some s ∧
      s.world.outbox.length = 1 ∧ s.logged LogRecord.detected = [orderLine, eventLine] ∧
      EventsDetected linesNamed s := by
  obtain ⟨before, world, after, s, hbefore, hworld, hchanges, hafter, hs, houtbox, hhandled⟩ :
      ∃ before world after, ∃ s : Tailing ℕ String LogRecord,
        Transition.run (Tailing.step linesNamed.decoding processMessage) (Tailing.init 100)
          namedCreation = some before ∧
        before.world.step (.advance 0) = some world ∧
        linesNamed.changes before.world.outbox.length
          ((world.history.zip world.outbox).drop before.world.outbox.length) =
            [orderLine, eventLine] ∧
        before.publish world (some namedBatch) = some after ∧
        Transition.run (Tailing.step linesNamed.decoding processMessage) after handled = some s ∧
        s.world.outbox.length = 1 ∧ s.consumer.handled = namedBatch.messages :=
    ⟨_, _, _, _, rfl, rfl, rfl, rfl, rfl, rfl, rfl⟩
  have hstreams : linesNamed.decoding.Streams before.world world (some namedBatch) := by
    have hlines : [orderLine, eventLine].filter (Names ·) = [orderLine, eventLine] :=
      List.filter_eq_self.mpr (by simp [names_orderLine, names_eventLine])
    show named ((some namedBatch).toList.flatMap Batch.messages) = _
    rw [hchanges, hlines, Option.toList_some, List.flatMap_singleton, named_namedBatch]
  have hrun : Transition.run (Tailing.step linesNamed.decoding processMessage) (Tailing.init 100)
      (namedCreation ++ .source (.advance 0) (some namedBatch) :: handled) = some s := by
    rw [Transition.run_append, hbefore, Option.bind_some, Transition.run_cons, Tailing.step,
      hworld, Option.bind_some, if_pos hstreams, hafter, Option.bind_some, hs]
  have hinv := Tailing.inv_of_run Lines.keeps_streamedBy processMessage_flushLsn hrun
  refine ⟨s, hrun, houtbox, ?_, events_detected linesNamed hrun⟩
  rw [hinv.logged_eq, reports_eq_named, hhandled, named_namedBatch]

end McStan

end OutboxPattern
