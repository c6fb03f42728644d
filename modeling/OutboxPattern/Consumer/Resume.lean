import Mathlib.Order.Nat
import OutboxPattern.Consumer.ProcessMessage
import OutboxPattern.Lib.ResumableStream

/-!
# What a consumer is handed over its sessions

A consumer may break off at any message.  Which of its feedback had reached the server by then
is open; the next session streams again every transaction from the confirmed position on.
`process_message` acknowledges each message by itself, in the middle of a transaction too,
and the positions go back from one transaction to the next.

`resume_neverSkips` says of both scripts that no transaction is skipped all the same.  Only
the `flush_lsn` that `process_message` sends matters for it, so a consumer is a session of
`ResumableStream` that also writes a log.
-/

namespace OutboxPattern

open ResumableStream

variable {Payload Record : Type}

/-- The transactions that are streamed, in commit order.  Each ends with its Commit message,
whose `data_start` is the end of the commit record. -/
abbrev ReplicationStream (Payload : Type) := Log (@ReplicationMessage.dataStart Payload)

/-- The session of a consumer, and what it has logged in all sessions. -/
structure Consumption (Payload Record : Type) extends
    Session (ReplicationMessage Payload) Lsn where
  records : List Record

namespace Consumption

def start (stream : ReplicationStream Payload) (confirmed : Lsn) :
    Consumption Payload Record where
  toSession := Session.start stream confirmed []
  records := []

variable (process : ReplicationMessage Payload → Record × Lsn)
  (stream : ReplicationStream Payload)

/-- One event of a consumer that runs `process` on every message. -/
def step (c : Consumption Payload Record) : Event Lsn → Option (Consumption Payload Record)
  | .handle =>
      match c.queue with
      | [] => none
      | msg :: queue =>
          let (record, flushLsn) := process msg
          -- psycopg2 keeps the greatest `flush_lsn` that it was given
          let flush := max c.flush flushLsn
          some
            { confirmed := c.confirmed
              flush := flush
              reports := c.reports ++ [flush]
              queue := queue
              handled := c.handled ++ [msg]
              records := c.records ++ [record] }
  | .restart confirmed =>
      if confirmed ∈ c.mayConfirm then
        some { toSession := Session.start stream confirmed c.handled, records := c.records }
      else none

/-- Nothing of the stream is skipped. -/
structure NeverSkips (c : Consumption Payload Record) : Prop where
  /-- Wherever the next session begins, it streams a transaction, or all of that was handled. -/
  resumed : ∀ confirmed ∈ c.mayConfirm, ∀ transaction ∈ stream.batches,
    confirmed ≤ transaction.commit ∨ transaction.messages <:+: c.handled
  whole : ∀ transaction ∈ stream.batches, transaction.messages <:+: c.handled ++ c.queue
  logged : c.records = c.handled.map fun msg => (process msg).1
  /-- A session that does not break hands over all that is missing. -/
  completed : ∃ c', Transition.run (step process stream) c
      (List.replicate c.queue.length .handle) = some c' ∧
    ∀ transaction ∈ stream.batches, transaction.messages <:+: c'.handled

variable {process stream} {c c' : Consumption Payload Record}

/-- A consumer that acknowledges each message by its own position is a session. -/
theorem step_toSession (hprocess : ∀ msg, (process msg).2 = msg.dataStart) (event : Event Lsn)
    (h : c.step process stream event = some c') :
    c.toSession.step stream event = some c'.toSession := by
  cases event with
  | handle =>
      simp only [step] at h
      split at h
      · cases h
      · next msg queue hqueue =>
        cases h
        simp only [Session.step, hqueue, hprocess]
  | restart confirmed =>
      simp only [step] at h
      split at h
      · next hconfirmed =>
        cases h
        simp only [Session.step, if_pos hconfirmed]
      · cases h

theorem step_logged (event : Event Lsn) (h : c.step process stream event = some c')
    (hlogged : c.records = c.handled.map fun msg => (process msg).1) :
    c'.records = c'.handled.map fun msg => (process msg).1 := by
  cases event with
  | handle =>
      simp only [step] at h
      split at h
      · cases h
      · cases h
        simp only [List.map_append, hlogged, List.map_cons, List.map_nil]
  | restart confirmed =>
      simp only [step] at h
      split at h
      · cases h
        exact hlogged
      · cases h

/-- As many messages as the session has still to stream can be handled one after the other. -/
theorem run_handles (process : ReplicationMessage Payload → Record × Lsn)
    (stream : ReplicationStream Payload) (c : Consumption Payload Record) :
    ∃ c', Transition.run (step process stream) c (List.replicate c.queue.length .handle) =
      some c' ∧ c'.handled = c.handled ++ c.queue := by
  generalize hqueue : c.queue = queue
  induction queue generalizing c with
  | nil => exact ⟨c, rfl, (List.append_nil _).symm⟩
  | cons msg queue ih =>
      obtain ⟨next, hstep, hnext, hhandled⟩ : ∃ next, c.step process stream .handle = some next ∧
          next.queue = queue ∧ next.handled = c.handled ++ [msg] := by
        simp only [step, hqueue]
        exact ⟨_, rfl, rfl, rfl⟩
      obtain ⟨c', hrun, hall⟩ := ih next hnext
      refine ⟨c', ?_, ?_⟩
      · rw [List.length_cons, List.replicate_succ, Transition.run_cons_of_step _ hstep]
        exact hrun
      · rw [hall, hhandled, List.append_assoc, List.singleton_append]

/-- The rule for both scripts. -/
theorem neverSkips_of_run (hprocess : ∀ msg, (process msg).2 = msg.dataStart) {confirmed : Lsn}
    (hfirst : ∀ transaction ∈ stream.batches, confirmed ≤ transaction.commit)
    {events : List (Event Lsn)}
    (h : Transition.run (step process stream) (start stream confirmed) events = some c) :
    c.NeverSkips process stream := by
  have hsession : Transition.run (Session.step stream)
      (Session.start stream confirmed []) events = some c.toSession :=
    Transition.run_simulation toSession
      (fun _ event _ hstep => step_toSession hprocess event hstep) h
  have hinv := Session.inv_of_run hfirst hsession
  refine ⟨fun _ hc _ ht => hinv.streamed_or_handled ht hc, fun _ ht => hinv.whole ht, ?_, ?_⟩
  · let Logged (c : Consumption Payload Record) : Prop :=
      c.records = c.handled.map fun msg => (process msg).1
    have hstep : ∀ c event c', Logged c → step process stream c event = some c' → Logged c' :=
      fun _ event _ hlogged hstep => step_logged event hstep hlogged
    exact Transition.run_invariant hstep rfl h
  · obtain ⟨c', hrun, hall⟩ := run_handles process stream c
    refine ⟨c', hrun, fun transaction ht => ?_⟩
    rw [hall]
    exact hinv.whole ht

/-- **Resuming never skips an insert**, nor any other message, in `consumer.py` and in
`mc-stan.py`: whatever the transactions, however their positions interleave, and wherever the
sessions break. -/
theorem resume_neverSkips :
    (∀ (stream : ReplicationStream Consumer.Bytes) (confirmed : Lsn) (events : List (Event Lsn))
      (c : Consumption Consumer.Bytes Consumer.LogRecord),
      (∀ transaction ∈ stream.batches, confirmed ≤ transaction.commit) →
      Transition.run (step Consumer.processMessage stream) (start stream confirmed) events =
        some c →
      c.NeverSkips Consumer.processMessage stream) ∧
    ∀ (stream : ReplicationStream String) (confirmed : Lsn) (events : List (Event Lsn))
      (c : Consumption String McStan.LogRecord),
      (∀ transaction ∈ stream.batches, confirmed ≤ transaction.commit) →
      Transition.run (step McStan.processMessage stream) (start stream confirmed) events =
        some c →
      c.NeverSkips McStan.processMessage stream :=
  ⟨fun _ _ _ _ hfirst h => neverSkips_of_run Consumer.processMessage_flushLsn hfirst h,
    fun _ _ _ _ hfirst h => neverSkips_of_run McStan.processMessage_flushLsn hfirst h⟩

/-- Two transactions whose changes interleave.  The second one is streamed last and has the
lowest position, and it is committed where the first one ends. -/
def interleaved {Payload : Type} (insert commit : Payload) : ReplicationStream Payload where
  batches :=
    [{ body := [⟨20, insert⟩, ⟨40, insert⟩], last := ⟨60, commit⟩, commit := 50
       body_lt := by simp
       commit_le := by simp },
     { body := [⟨10, insert⟩], last := ⟨70, commit⟩, commit := 60
       body_lt := by simp
       commit_le := by simp }]
  ordered := by simp

/-- An Insert message of the relation 1, without columns. -/
def emptyInsert : Consumer.Bytes := [0x49, 0, 0, 0, 1, 0x4e, 0, 0]

def emptyCommit : Consumer.Bytes := [0x43]

/-- The consumer breaks off within the first transaction, and once more between the two. -/
def breaks : List (Event Lsn) :=
  [.handle, .handle, .restart 40, .handle, .handle, .handle, .restart 60, .handle]

theorem resume_neverSkips_interleaved :
    (∃ c, Transition.run (step Consumer.processMessage (interleaved emptyInsert emptyCommit))
        (start (interleaved emptyInsert emptyCommit) 50) breaks = some c ∧
      c.queue.length = 1 ∧ c.records = [.insert 1 [], .insert 1 [], .insert 1 [],
        .insert 1 [], .commit, .insert 1 []] ∧
      c.NeverSkips Consumer.processMessage (interleaved emptyInsert emptyCommit)) ∧
    ∃ c, Transition.run (step McStan.processMessage (interleaved "INSERT" "COMMIT"))
        (start (interleaved "INSERT" "COMMIT") 50) breaks = some c ∧
      c.queue.length = 1 ∧
      c.NeverSkips McStan.processMessage (interleaved "INSERT" "COMMIT") := by
  refine ⟨⟨_, rfl, rfl, by decide, ?_⟩, ⟨_, rfl, rfl, ?_⟩⟩
  · exact resume_neverSkips.1 _ 50 breaks _ (by decide) rfl
  · exact resume_neverSkips.2 _ 50 breaks _ (by decide) rfl

end Consumption

end OutboxPattern
