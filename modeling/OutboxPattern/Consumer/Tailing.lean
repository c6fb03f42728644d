import OutboxPattern.Consumer.Resume
import OutboxPattern.Guarantees.Atomicity
import OutboxPattern.Lib.TailedStream

/-!
# A consumer that follows the order service

The order service and a script that tails its log, as one system.  The service commits transactions;
PostgreSQL appends what it decodes of them to the stream of a replication slot; the script is handed
one message after the other, and may break off at any of them.  Every step of any of the three can
come at any time.  The system begins with the slot created and nothing committed (`Tailing.init`).

PostgreSQL is the part that is not in the repository.  A `Decoding` says what it may append for a
step of the service, as far as the results need it.

Both scripts acknowledge each message by its own position, so `Tailing.Inv` holds of both.  What
their logs show is read off the messages (`Tailing.logged`): the reports of the whole stream are
in the log or still to come, at least once and in order, and there are no others.
-/

namespace OutboxPattern

open ResumableStream

variable {V Payload Record Report : Type}

/-- The stream of a replication slot, as far as it has been written. -/
abbrev ReplicationJournal (Payload : Type) := Journal (@ReplicationMessage.dataStart Payload)

/-- What is streamed of one transaction. -/
abbrev ReplicationBatch (Payload : Type) := Batch (@ReplicationMessage.dataStart Payload)

/-- **What PostgreSQL appends** to the stream when the service has taken a step from one world to
another. -/
structure Decoding (V Payload : Type) where
  Streams : World V → World V → Option (ReplicationBatch Payload) → Prop
  decidable : ∀ w w' streamed, Decidable (Streams w w' streamed)

attribute [instance] Decoding.decidable

/-- The order service, the stream and the consumer. -/
structure Tailing (V Payload Record : Type) where
  world : World V
  wal : ReplicationJournal Payload
  consumer : Consumption Payload Record

/-- What can happen next. -/
inductive TailingAction (V Payload : Type)
  /-- The order service takes a step, after which a transaction is appended to the stream, or
  none. -/
  | source (action : Action V) (streamed : Option (ReplicationBatch Payload))
  /-- The consumer is handed the next message, or breaks off and begins again. -/
  | consumer (event : Event Lsn)

namespace Tailing

variable (decoding : Decoding V Payload) (process : ReplicationMessage Payload → Record × Lsn)

/-- The empty database, with a replication slot at the end of its log.  A script creates its slot
when it is started for the first time; here it has been, before the first commit, so that every
commit comes after the slot.  What is committed before a slot is created is never streamed to it. -/
def init (slot : Lsn) : Tailing V Payload Record where
  world := World.init
  wal := Journal.empty _ slot
  consumer := Consumption.start (Journal.empty _ slot).toLog slot

/-- A transaction is appended to the stream, and the consumer has it still to be handed. -/
def publish (s : Tailing V Payload Record) (world : World V) :
    Option (ReplicationBatch Payload) → Option (Tailing V Payload Record)
  | none => some { s with world }
  | some batch =>
      if h : s.wal.finish ≤ batch.commit then
        some
          { world := world
            wal := s.wal.append batch h
            consumer := { s.consumer with queue := s.consumer.queue ++ batch.messages } }
      else none

/-- One step of the system. -/
def step [BEq V] (s : Tailing V Payload Record) :
    TailingAction V Payload → Option (Tailing V Payload Record)
  | .source action streamed =>
      (s.world.step action).bind fun world =>
        if decoding.Streams s.world world streamed then s.publish world streamed else none
  | .consumer event =>
      (s.consumer.step process s.wal.toLog event).map fun consumer => { s with consumer }

/-- The stream and the session that follows it. -/
def toTail (s : Tailing V Payload Record) : Tail (@ReplicationMessage.dataStart Payload) where
  journal := s.wal
  session := s.consumer.toSession

/-! ### Runs -/

/-- `Streamed w messages` holds of the messages that may have been streamed by the time that the
service has come to the world `w`. -/
structure Keeps [BEq V] (Streamed : World V → List (ReplicationMessage Payload) → Prop) : Prop where
  init : Streamed World.init []
  step : ∀ (w w' : World V) action streamed messages, w.Inv → w.step action = some w' →
    decoding.Streams w w' streamed → Streamed w messages →
      Streamed w' (messages ++ streamed.toList.flatMap Batch.messages)

/-- The stream is that of the service, and the log is that of the handled messages. -/
structure Inv [BEq V] (Streamed : World V → List (ReplicationMessage Payload) → Prop)
    (s : Tailing V Payload Record) : Prop where
  world : s.world.Inv
  tail : s.toTail.Inv
  streamed : Streamed s.world s.wal.messages
  logged : s.consumer.records = s.consumer.handled.map fun msg => (process msg).1

section Steps

variable {decoding process} [BEq V]
variable {Streamed : World V → List (ReplicationMessage Payload) → Prop}
variable {s s' : Tailing V Payload Record}

theorem Inv.init (hkeeps : Keeps decoding Streamed) (slot : Lsn) :
    (init slot : Tailing V Payload Record).Inv process Streamed where
  world := World.Inv.init
  tail := Tail.Inv.start slot
  streamed := hkeeps.init
  logged := rfl

theorem Inv.source (hkeeps : Keeps decoding Streamed) (h : s.Inv process Streamed)
    {action : Action V} {world : World V} {streamed : Option (ReplicationBatch Payload)}
    (hworld : s.world.step action = some world)
    (hstreams : decoding.Streams s.world world streamed)
    (hpublish : s.publish world streamed = some s') : s'.Inv process Streamed := by
  have hmessages := hkeeps.step _ _ _ _ _ h.world hworld hstreams h.streamed
  cases streamed with
  | none =>
      obtain rfl := Option.some.inj hpublish
      refine ⟨h.world.step hworld, h.tail, ?_, h.logged⟩
      rwa [Option.toList_none, List.flatMap_nil, List.append_nil] at hmessages
  | some batch =>
      simp only [publish] at hpublish
      split at hpublish
      · next hend =>
        obtain rfl := Option.some.inj hpublish
        refine ⟨h.world.step hworld, h.tail.append hend, ?_, h.logged⟩
        show Streamed world (s.wal.append batch hend).messages
        rwa [Option.toList_some, List.flatMap_singleton, ← Journal.messages_append _ _ hend]
          at hmessages
      · cases hpublish

theorem Inv.consumer (hprocess : ∀ msg, (process msg).2 = msg.dataStart)
    (h : s.Inv process Streamed) {event : Event Lsn} {consumer : Consumption Payload Record}
    (hstep : s.consumer.step process s.wal.toLog event = some consumer) :
    Inv process Streamed { s with consumer := consumer } := by
  have hsession := Consumption.step_toSession hprocess event hstep
  have htail : s.toTail.step (.session event) =
      some ⟨s.wal, consumer.toSession⟩ := by
    show ((s.consumer.toSession.step s.wal.toLog event).map _) = _
    rw [hsession]
    rfl
  exact ⟨h.world, h.tail.step htail, h.streamed, Consumption.step_logged event hstep h.logged⟩

theorem Inv.step (hkeeps : Keeps decoding Streamed)
    (hprocess : ∀ msg, (process msg).2 = msg.dataStart) (h : s.Inv process Streamed)
    {action : TailingAction V Payload} (hstep : s.step decoding process action = some s') :
    s'.Inv process Streamed := by
  cases action with
  | source action streamed =>
      obtain ⟨world, hworld, hpublish⟩ := Option.bind_eq_some_iff.mp hstep
      split at hpublish
      · next hstreams => exact h.source hkeeps hworld hstreams hpublish
      · cases hpublish
  | consumer event =>
      obtain ⟨consumer, hconsumer, rfl⟩ := Option.map_eq_some_iff.mp hstep
      exact h.consumer hprocess hconsumer

/-- **Every reachable state of the system keeps the invariant.** -/
theorem inv_of_run (hkeeps : Keeps decoding Streamed)
    (hprocess : ∀ msg, (process msg).2 = msg.dataStart) {slot : Lsn}
    {actions : List (TailingAction V Payload)}
    (h : Transition.run (step decoding process) (Tailing.init slot) actions = some s) :
    s.Inv process Streamed :=
  Transition.run_invariant (fun _ _ _ hs hstep => hs.step hkeeps hprocess hstep)
    (Inv.init hkeeps slot) h

/-- What a step of the service commits comes after all that was committed before. -/
theorem outbox_eq_of_step {w w' : World V} (h : w.Inv) {action : Action V}
    (hstep : w.step action = some w') :
    w'.outbox = w.outbox ++ w'.outbox.drop w.outbox.length := by
  obtain ⟨events, hevents⟩ := h.outbox_append hstep
  rw [hevents, List.drop_left]

end Steps

/-! ### What the log shows -/

section Reports

variable {decoding process} [BEq V] (report : Record → Option Report)
variable {Streamed : World V → List (ReplicationMessage Payload) → Prop}

/-- The reports of some messages. -/
def reports (process : ReplicationMessage Payload → Record × Lsn)
    (messages : List (ReplicationMessage Payload)) : List Report :=
  messages.filterMap fun msg => report (process msg).1

/-- The reports in the consumer's log. -/
def logged (s : Tailing V Payload Record) : List Report := s.consumer.records.filterMap report

/-- The reports that are still to come. -/
def pending (process : ReplicationMessage Payload → Record × Lsn)
    (s : Tailing V Payload Record) : List Report :=
  reports report process s.consumer.queue

variable {report} {s : Tailing V Payload Record}

theorem Inv.logged_eq (h : s.Inv process Streamed) :
    s.logged report = reports report process s.consumer.handled := by
  rw [Tailing.logged, h.logged, List.filterMap_map]
  rfl

theorem Inv.reports_append (h : s.Inv process Streamed) :
    reports report process (s.consumer.handled ++ s.consumer.queue) =
      s.logged report ++ s.pending report process := by
  rw [h.logged_eq, pending, reports, List.filterMap_append]
  rfl

variable (report) in
/-- At least once, and in the order of the stream. -/
theorem Inv.reports_sublist (h : s.Inv process Streamed) :
    (reports report process s.wal.messages).Sublist
      (s.logged report ++ s.pending report process) := by
  rw [← h.reports_append]
  exact h.tail.inOrder.filterMap _

/-- Nothing but what is in the stream. -/
theorem Inv.reports_subset (h : s.Inv process Streamed) :
    s.logged report ++ s.pending report process ⊆ reports report process s.wal.messages := by
  intro x hx
  rw [← h.reports_append] at hx
  obtain ⟨msg, hmsg, hreport⟩ := List.mem_filterMap.mp hx
  exact List.mem_filterMap.mpr ⟨msg, h.tail.committed msg hmsg, hreport⟩

omit [BEq V] in
/-- A consumer that has been handed everything has nothing to report any more. -/
theorem pending_eq_nil (h : s.consumer.queue = []) : s.pending report process = [] := by
  rw [pending, h]
  rfl

end Reports

/-- The consumer can always be handed all that is still to be streamed. -/
theorem exists_drained [BEq V] (s : Tailing V Payload Record) :
    ∃ s', Transition.run (step decoding process) s
        (List.replicate s.consumer.queue.length (.consumer .handle)) = some s' ∧
      s'.world = s.world ∧ s'.consumer.queue = [] := by
  generalize hqueue : s.consumer.queue = queue
  induction queue generalizing s with
  | nil => exact ⟨s, rfl, rfl, hqueue⟩
  | cons msg queue ih =>
      obtain ⟨next, hstep, hworld, hnext⟩ : ∃ next,
          s.step decoding process (.consumer .handle) = some next ∧
            next.world = s.world ∧ next.consumer.queue = queue := by
        simp only [step, Consumption.step, hqueue]
        exact ⟨_, rfl, rfl, rfl⟩
      obtain ⟨s', hrun, hworld', hdrained⟩ := ih next hnext
      refine ⟨s', ?_, hworld'.trans hworld, hdrained⟩
      rw [List.length_cons, List.replicate_succ, Transition.run_cons_of_step _ hstep]
      exact hrun

end Tailing

end OutboxPattern
