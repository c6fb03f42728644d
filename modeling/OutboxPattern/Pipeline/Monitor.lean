import Mathlib.Algebra.Order.Field.Rat
import OutboxPattern.Pipeline.Convergence

/-!
# The outbox monitor (`api/app/routers/health.py`, `002_replication_setup.sql`)

Two views watch `outbox_events`, and two endpoints read them.  `outbox_monitor` groups the events
by their status; `outbox_pending_lag` lists the events that have been `PENDING` for more than a
minute, of which there "should be none in a healthy system".

The status is meant to be updated when an event has been delivered, but nothing in the system
does: the pipeline reads the write-ahead log and writes nothing back.  `monitor_of_run` says what
the endpoints report of a system in any state.  It is about the *age of the committed changes*
and not about their delivery, and once a system is reported unhealthy, it is so for good.
-/

namespace OutboxPattern

variable {V : Type}

/-! ### The views -/

/-- `retry_count`, which no statement of the system writes: the default of the column. -/
def OutboxEvent.retryCount (_ : OutboxEvent V) : ℕ := 0

/-- `processed_at`, which no statement of the system writes either. -/
def OutboxEvent.processedAt (_ : OutboxEvent V) : Option Timestamp := none

/-- `INTERVAL '60 seconds'`, in microseconds. -/
def stuckAfter : ℕ := 60000000

/-- `created_at < NOW() - INTERVAL '60 seconds'`. -/
def Aged (now createdAt : Timestamp) : Prop := createdAt + stuckAfter < now

instance decidableAged (now createdAt : Timestamp) : Decidable (Aged now createdAt) :=
  inferInstanceAs (Decidable (_ < _))

/-- The condition of `outbox_pending_lag`, at the time `now`. -/
def OutboxEvent.Stuck (now : Timestamp) (event : OutboxEvent V) : Prop :=
  event.status = .pending ∧ Aged now event.createdAt

instance decidableStuck (now : Timestamp) (event : OutboxEvent V) : Decidable (event.Stuck now) :=
  inferInstanceAs (Decidable (_ ∧ _))

/-- A row of `outbox_pending_lag`, but for the `id` of the event.  The lag is in microseconds. -/
structure StuckEvent where
  aggregateType : String
  eventType : OutboxEventType
  createdAt : Timestamp
  lag : ℕ
  retryCount : ℕ
  deriving DecidableEq, Repr

/-- The view `outbox_pending_lag`.  Events of one `created_at` come in any order; that of the
statement is the argument `orderBy`. -/
def outboxPendingLag (orderBy : List (OutboxEvent V) → List (OutboxEvent V)) (now : Timestamp)
    (outbox : List (OutboxEvent V)) : List StuckEvent :=
  (orderBy (outbox.filter fun event => event.Stuck now)).map fun event =>
    { aggregateType := event.aggregateType
      eventType := event.eventType
      createdAt := event.createdAt
      lag := now - event.createdAt
      retryCount := event.retryCount }

/-- A row of `outbox_monitor`.  The average is in microseconds. -/
structure MonitorRow where
  status : OutboxStatus
  totalEvents : ℕ
  oldestEvent : Option Timestamp
  newestEvent : Option Timestamp
  avgProcessing : Option ℚ
  eventsWithRetries : ℕ
  eventsMaxRetries : ℕ
  deriving DecidableEq

/-- The row of a group. -/
def monitorRow (status : OutboxStatus) (group : List (OutboxEvent V)) : MonitorRow where
  status := status
  totalEvents := group.length
  oldestEvent := (group.map OutboxEvent.createdAt).min?
  newestEvent := (group.map OutboxEvent.createdAt).max?
  avgProcessing :=
    let durations := group.filterMap fun event =>
      event.processedAt.map fun processedAt => (processedAt : ℚ) - event.createdAt
    if durations.isEmpty then none else some (durations.sum / durations.length)
  eventsWithRetries := group.countP fun event => 0 < event.retryCount
  eventsMaxRetries := group.countP fun event => 3 ≤ event.retryCount

/-- The view `outbox_monitor`: a row for each status that occurs. -/
def outboxMonitor (outbox : List (OutboxEvent V)) : List MonitorRow :=
  [.pending, .processed, .failed].filterMap fun status =>
    let group := outbox.filter fun event => event.status = status
    if group.isEmpty then none else some (monitorRow status group)

/-! ### The endpoints -/

/-- What `GET /health/outbox/lag` answers. -/
structure LagReport where
  stuckEvents : List StuckEvent
  count : ℕ
  healthy : Bool
  deriving DecidableEq, Repr

/-- `health_outbox_lag`: `SELECT * FROM outbox_pending_lag LIMIT 20`. -/
def healthOutboxLag (orderBy : List (OutboxEvent V) → List (OutboxEvent V)) (now : Timestamp)
    (outbox : List (OutboxEvent V)) : LagReport :=
  let rows := (outboxPendingLag orderBy now outbox).take 20
  { stuckEvents := rows
    count := rows.length
    healthy := rows.length = 0 }

/-- `health_outbox`: `SELECT * FROM outbox_monitor`. -/
def healthOutbox (outbox : List (OutboxEvent V)) : List MonitorRow := outboxMonitor outbox

/-! ### Events are pending for good -/

theorem pending_of_recordEvents {request : Request V} {order : Order V}
    {changed : List OrderField} {now : Timestamp} {event : OutboxEvent V}
    (h : event ∈ World.recordEvents request order changed now) : event.status = .pending := by
  unfold World.recordEvents at h
  split at h
  · obtain rfl := List.mem_singleton.mp h
    rfl
  · obtain rfl := List.mem_singleton.mp h
    rfl
  · obtain rfl := List.mem_singleton.mp h
    rfl
  · cases h

/-- No event of a ledger has another status than the one it was inserted with. -/
theorem Ledger.pending [BEq V] {ws : List (Write V)} {es : List (OutboxEvent V)}
    (h : Ledger ws es) : ∀ event ∈ es, event.status = .pending := by
  induction h with
  | nil => exact List.forall_mem_nil _
  | @concat ws es write last ledger commits ih =>
      intro event hevent
      rcases List.mem_append.mp hevent with hmem | hmem
      · exact ih event hmem
      · obtain rfl := List.mem_singleton.mp hmem
        cases commits with
        | insert _ _ _ recorded =>
            rw [recorded]
            rfl
        | overwrite _ _ _ _ _ _ recorded =>
            exact pending_of_recordEvents (recorded ▸ List.mem_singleton_self _)

/-- The committed changes whose transactions began more than a minute ago. -/
def agedChanges (now : Timestamp) (ws : List (Write V)) : ℕ :=
  ws.countP fun write => Aged now write.began

/-- The stuck events are those of the aged changes. -/
theorem Ledger.countP_stuck [BEq V] {ws : List (Write V)} {es : List (OutboxEvent V)}
    (h : Ledger ws es) (now : Timestamp) :
    es.countP (fun event => event.Stuck now) = agedChanges now ws := by
  have hcorresponds := h.corresponds
  have hpending := h.pending
  clear h
  induction hcorresponds with
  | nil => rfl
  | @cons write event ws es hhead _ ih =>
      obtain ⟨hevent, hes⟩ := List.forall_mem_cons.mp hpending
      have hstuck : event.Stuck now ↔ Aged now write.began := by
        rw [OutboxEvent.Stuck, hhead.createdAt]
        exact and_iff_right hevent
      rw [List.countP_cons, ih hes, agedChanges, agedChanges, List.countP_cons]
      simp only [decide_eq_true_eq, hstuck]

/-- The event of a change is created at the time its transaction began. -/
theorem Ledger.map_createdAt [BEq V] {ws : List (Write V)} {es : List (OutboxEvent V)}
    (h : Ledger ws es) : es.map OutboxEvent.createdAt = ws.map Write.began := by
  have hcorresponds := h.corresponds
  clear h
  induction hcorresponds with
  | nil => rfl
  | cons hhead _ ih => rw [List.map_cons, List.map_cons, hhead.createdAt, ih]

/-! ### What the endpoints report -/

/-- A way to sort the events by `created_at`. -/
def OldestFirst (orderBy : List (OutboxEvent V) → List (OutboxEvent V)) : Prop :=
  ∀ events, (orderBy events).Perm events ∧
    (orderBy events).Pairwise fun a b => a.createdAt ≤ b.createdAt

/-- The rows of the view are as many as there are stuck events. -/
theorem length_outboxPendingLag {orderBy : List (OutboxEvent V) → List (OutboxEvent V)}
    (hsort : OldestFirst orderBy) (now : Timestamp) (outbox : List (OutboxEvent V)) :
    (outboxPendingLag orderBy now outbox).length =
      outbox.countP fun event => event.Stuck now := by
  rw [outboxPendingLag, List.length_map, (hsort _).1.length_eq, List.countP_eq_length_filter]

/-- All events are in one group, if there are any. -/
theorem outboxMonitor_of_pending {outbox : List (OutboxEvent V)}
    (h : ∀ event ∈ outbox, event.status = .pending) :
    outboxMonitor outbox = if outbox.isEmpty then [] else [monitorRow .pending outbox] := by
  have hall : outbox.filter (fun event => event.status = .pending) = outbox :=
    List.filter_eq_self.mpr fun event hevent => decide_eq_true (h event hevent)
  have hnone : ∀ status, status ≠ .pending →
      outbox.filter (fun event => decide (event.status = status)) = [] := by
    intro status hne
    refine List.filter_eq_nil_iff.mpr fun event hevent => ?_
    rw [h event hevent, decide_eq_true_eq]
    exact hne.symm
  have hprocessed := hnone .processed OutboxStatus.noConfusion
  have hfailed := hnone .failed OutboxStatus.noConfusion
  simp only [outboxMonitor, List.filterMap_cons, List.filterMap_nil, hall, hprocessed, hfailed,
    List.isEmpty_nil, if_true]
  split
  · next hempty => simp_all
  · next hsome => simp_all

/-- The row that `outbox_monitor` shows of the changes `ws`: all are pending, from the earliest
begin of a transaction to the latest, and none has ever been processed or retried. -/
def backlogRow (ws : List (Write V)) : MonitorRow where
  status := .pending
  totalEvents := ws.length
  oldestEvent := (ws.map Write.began).min?
  newestEvent := (ws.map Write.began).max?
  avgProcessing := none
  eventsWithRetries := 0
  eventsMaxRetries := 0

/-- The events of a ledger are one group, which its changes describe. -/
theorem Ledger.monitorRow_eq [BEq V] {ws : List (Write V)} {es : List (OutboxEvent V)}
    (h : Ledger ws es) : monitorRow .pending es = backlogRow ws := by
  have hdurations : es.filterMap (fun event => event.processedAt.map fun processedAt =>
      (processedAt : ℚ) - event.createdAt) = [] :=
    List.filterMap_eq_nil_iff.mpr fun _ _ => rfl
  have hretries : ∀ n, 0 < n → es.countP (fun event => decide (n ≤ event.retryCount)) = 0 := by
    intro n hn
    refine List.countP_eq_zero.mpr fun event _ hretried => ?_
    exact absurd (of_decide_eq_true hretried) (Nat.not_le_of_lt hn)
  rw [monitorRow, backlogRow, hdurations, h.map_createdAt, h.length_eq]
  simp only [List.isEmpty_nil, if_true, MonitorRow.mk.injEq, true_and]
  exact ⟨hretries 1 Nat.one_pos, hretries 3 (by decide)⟩

namespace Pipeline

variable (partition : UUID → ℕ) (nulls : NullHandling)

/-- **What the monitor reports** of a system in the state `s`, at the time `now`. -/
structure Monitored [BEq V] (s : Pipeline V)
    (orderBy : List (OutboxEvent V) → List (OutboxEvent V)) (now : Timestamp) : Prop where
  /-- The system is healthy as long as no committed change is a minute old. -/
  healthy : (healthOutboxLag orderBy now s.world.outbox).healthy = true ↔
    ∀ write ∈ s.world.history, ¬ Aged now write.began
  count : (healthOutboxLag orderBy now s.world.outbox).count =
    min 20 (agedChanges now s.world.history)
  /-- The backlog is all that was ever committed: one row, unless nothing was. -/
  backlog : healthOutbox s.world.outbox =
    if s.world.history.isEmpty then [] else [backlogRow s.world.history]
  /-- The alarm is not cleared, whatever is done and delivered. -/
  forever : ∀ actions s' now', Transition.run (step partition nulls) s actions = some s' →
    now ≤ now' → (healthOutboxLag orderBy now s.world.outbox).healthy = false →
    (healthOutboxLag orderBy now' s'.world.outbox).healthy = false

section Reports

variable {partition nulls} [BEq V] {s s' : Pipeline V}
  {orderBy : List (OutboxEvent V) → List (OutboxEvent V)}

theorem Inv.healthy_iff (h : s.Inv partition nulls) (hsort : OldestFirst orderBy)
    (now : Timestamp) :
    (healthOutboxLag orderBy now s.world.outbox).healthy = true ↔
      agedChanges now s.world.history = 0 := by
  rw [healthOutboxLag, decide_eq_true_eq, List.length_take, length_outboxPendingLag hsort,
    h.world.ledger.countP_stuck]
  omega

/-- What was committed stays committed, whatever the pipeline does. -/
theorem Inv.history_append (h : s.Inv partition nulls) {actions : List (PipelineAction V)}
    (hrun : Transition.run (Pipeline.step partition nulls) s actions = some s') :
    s'.Inv partition nulls ∧ ∃ ws, s'.world.history = s.world.history ++ ws := by
  obtain ⟨schedule, hschedule⟩ := exists_run_world hrun
  obtain ⟨ws, -, hhistory, -⟩ := h.world.committed_append hschedule
  exact ⟨h.run hrun, ws, hhistory⟩

end Reports

/-- **The monitor watches the age of the changes, not their delivery.**  Whatever requests have
been served and whatever the sink has applied. -/
theorem monitor_of_run [BEq V] {actions : List (PipelineAction V)} {s : Pipeline V}
    (h : Transition.run (step partition nulls) init actions = some s)
    {orderBy : List (OutboxEvent V) → List (OutboxEvent V)} (hsort : OldestFirst orderBy)
    (now : Timestamp) : s.Monitored partition nulls orderBy now := by
  have hinv := inv_of_run h
  have hledger := hinv.world.ledger
  refine ⟨?_, ?_, ?_, fun actions s' now' hrun hle hstuck => ?_⟩
  · rw [hinv.healthy_iff hsort, agedChanges, List.countP_eq_zero]
    simp
  · rw [healthOutboxLag, List.length_take, length_outboxPendingLag hsort, hledger.countP_stuck]
  · have hempty : s.world.outbox.isEmpty = s.world.history.isEmpty := by
      rw [Bool.eq_iff_iff, List.isEmpty_iff_length_eq_zero, List.isEmpty_iff_length_eq_zero,
        hledger.length_eq]
    rw [healthOutbox, outboxMonitor_of_pending hledger.pending, hempty, hledger.monitorRow_eq]
  · obtain ⟨hinv', ws, hhistory⟩ := hinv.history_append hrun
    rw [← Bool.not_eq_true, hinv.healthy_iff hsort] at hstuck
    rw [← Bool.not_eq_true, hinv'.healthy_iff hsort, hhistory]
    -- a change that is a minute old stays so
    have hmono : agedChanges now s.world.history ≤ agedChanges now' s.world.history := by
      refine List.countP_mono_left fun write _ haged => ?_
      rw [decide_eq_true_eq] at haged ⊢
      exact Nat.lt_of_lt_of_le haged hle
    rw [agedChanges, List.countP_append, ← agedChanges]
    omega

/-- The order is created, and the sink applies its event. -/
def createdAndDelivered : List (PipelineAction ℕ) :=
  (Action.begin 1 Sample.create :: Sample.statements 3 0).map .source ++ [.deliver 0 2]

/-- One way to sort the events. -/
def byCreatedAt (events : List (OutboxEvent V)) : List (OutboxEvent V) :=
  events.mergeSort fun a b => a.createdAt ≤ b.createdAt

omit partition nulls in
theorem oldestFirst_byCreatedAt : OldestFirst (byCreatedAt (V := V)) := by
  intro events
  have hsorted : (byCreatedAt events).Pairwise fun a b =>
      decide (a.createdAt ≤ b.createdAt) = true := by
    refine List.pairwise_mergeSort ?_ ?_ events
    · intro a b c hab hbc
      rw [decide_eq_true_eq] at hab hbc ⊢
      exact hab.trans hbc
    · intro a b
      simpa using le_total a.createdAt b.createdAt
  exact ⟨List.mergeSort_perm events _, by simpa only [decide_eq_true_eq] using hsorted⟩

/-- A minute later the event is still reported as pending and the system as unhealthy, though the
sink has caught up. -/
theorem monitor_of_run_created :
    ∃ s : Pipeline ℕ, Transition.run (step (fun _ => 0) .written) init createdAndDelivered =
        some s ∧
      s.CaughtUp (fun _ => 0) ∧
      (healthOutboxLag byCreatedAt 60000002 s.world.outbox).healthy = false ∧
      (healthOutbox s.world.outbox).map MonitorRow.totalEvents = [1] ∧
      s.Monitored (fun _ => 0) .written byCreatedAt 60000002 := by
  have hrun : (Transition.run (step (fun _ => 0) .written) init createdAndDelivered).map (fun s =>
      (s.offset 0, (s.records (fun _ => 0) 0).length, s.world.history.map Write.began)) =
      some (1, 1, [1]) := by decide
  obtain ⟨s, hs, hfacts⟩ := Option.map_eq_some_iff.mp hrun
  simp only [Prod.mk.injEq] at hfacts
  obtain ⟨hoffset, hrecords, hbegan⟩ := hfacts
  have hmonitored := monitor_of_run (fun _ => 0) .written hs oldestFirst_byCreatedAt 60000002
  obtain ⟨write, hhistory, hone⟩ := List.map_eq_singleton_iff.mp hbegan
  refine ⟨s, hs, fun id => hoffset.trans hrecords.symm, ?_, ?_, hmonitored⟩
  · rw [← Bool.not_eq_true, hmonitored.healthy]
    intro hyoung
    exact hyoung write (hhistory ▸ List.mem_singleton_self write) (hone ▸ by decide)
  · rw [hmonitored.backlog, hhistory]
    rfl

end Pipeline

end OutboxPattern
