import OutboxPattern.Pipeline.Convergence

/-!
# Late registration (`scripts/register-connectors.sh`, `01-postgres-source.json`)

The API serves requests as soon as it is up; the connectors are registered by hand, some time later.
(The script does not get as far: it looks for their files in `infra/debezium/connectors`, and they
are in `infra/kafka/debezium/connectors`.)  Registering the source connector creates its replication
slot, and with `"snapshot.mode": "never"` it leaves out the rows that `outbox_events` has by then.
So the topic begins with the first event that is committed afterwards, and nothing that was
committed before is ever delivered.

`LatePipeline.shows_changedSince` says what that costs: once the sink has caught up, the replica
shows exactly the orders that were changed since.  An order is missing until somebody changes it.
-/

namespace OutboxPattern

variable {V : Type}

/-- The order service, the topic of a connector that is registered at some time, and the sink. -/
structure LatePipeline (V : Type) extends Sink V where
  world : World V
  /-- The number of events that were committed when the slot was created. -/
  slot : Option ℕ

/-- What can happen next. -/
inductive LatePipelineAction (V : Type)
  | source (action : Action V)
  /-- The connectors are registered.  A second registration finds the slot. -/
  | register
  | deliver (p : ℕ) (now : Timestamp)
  | rewind (p offset : ℕ)

namespace LatePipeline

variable (partition : UUID → ℕ) (nulls : NullHandling)

/-- Empty tables, and no slot. -/
def init : LatePipeline V where
  toSink := Sink.init
  world := World.init
  slot := none

/-- What a list of changes has had added since the slot was created.  The topic is what the outbox
has had added. -/
def since {α : Type} (s : LatePipeline V) (log : List α) : List α :=
  match s.slot with
  | none => []
  | some n => log.drop n

/-- The order was changed after the slot had been created. -/
def changedSince (s : LatePipeline V) (id : UUID) : Bool :=
  (s.since s.world.history).any fun write => write.orderId == id

/-- One step of the pipeline. -/
def step [BEq V] (s : LatePipeline V) : LatePipelineAction V → Option (LatePipeline V)
  | .source action => (s.world.step action).map fun world => { s with world }
  | .register => some { s with slot := some (s.slot.getD s.world.outbox.length) }
  | .deliver p now =>
      (s.toSink.receive partition nulls (s.since s.world.outbox) p now).map fun sink =>
        { s with toSink := sink }
  | .rewind p offset => (s.toSink.rewind p offset).map fun sink => { s with toSink := sink }

/-- The sink has applied all there is to apply. -/
def CaughtUp (s : LatePipeline V) : Prop :=
  s.toSink.CaughtUp partition (s.since s.world.outbox)

/-- The sink's state is accounted for by the topic. -/
structure Inv [BEq V] (s : LatePipeline V) : Prop where
  world : s.world.Inv
  /-- The slot was created at some point of the outbox. -/
  slot_le : ∀ n ∈ s.slot, n ≤ s.world.outbox.length
  sink : s.toSink.Inv partition nulls (s.since s.world.outbox)

section Steps

variable {partition nulls} [BEq V] {s s' : LatePipeline V}

theorem Inv.init : Inv partition nulls (init : LatePipeline V) where
  world := World.Inv.init
  slot_le := by rintro n ⟨⟩
  sink := Sink.Inv.init []

omit [BEq V] in
/-- What the topic gets when the outbox grows. -/
theorem exists_since_append {log : List (OutboxEvent V)} (h : ∀ n ∈ s.slot, n ≤ log.length)
    (events : List (OutboxEvent V)) :
    ∃ added, s.since (log ++ events) = s.since log ++ added := by
  unfold since
  cases hslot : s.slot with
  | none => exact ⟨[], rfl⟩
  | some n => exact ⟨events, List.drop_append_of_le_length (h n hslot)⟩

/-- What the service commits is published if the slot is there. -/
theorem Inv.source (h : s.Inv partition nulls) {action : Action V} {world : World V}
    (hstep : s.world.step action = some world) :
    Inv partition nulls { s with world := world } := by
  obtain ⟨events, hevents⟩ := h.world.outbox_append hstep
  obtain ⟨added, hadded⟩ := exists_since_append h.slot_le events
  refine ⟨h.world.step hstep, fun n hn => ?_, ?_⟩
  · rw [hevents, List.length_append]
    exact (h.slot_le n hn).trans (Nat.le_add_right _ _)
  · show s.toSink.Inv partition nulls (s.since world.outbox)
    rw [hevents, hadded]
    exact h.sink.append added

/-- Nothing is published by a registration. -/
theorem Inv.register (h : s.Inv partition nulls) :
    Inv partition nulls { s with slot := some (s.slot.getD s.world.outbox.length) } := by
  refine ⟨h.world, ?_, ?_⟩
  · rintro n ⟨⟩
    cases hslot : s.slot with
    | none => exact le_rfl
    | some n => exact h.slot_le n hslot
  · have htopic : s.world.outbox.drop (s.slot.getD s.world.outbox.length) =
        s.since s.world.outbox := by
      unfold since
      cases s.slot with
      | none => exact List.drop_length
      | some n => rfl
    show s.toSink.Inv partition nulls (s.world.outbox.drop _)
    rw [htopic]
    exact h.sink

/-- **One step keeps the invariant.** -/
theorem Inv.step (h : s.Inv partition nulls) {action : LatePipelineAction V}
    (hstep : s.step partition nulls action = some s') : s'.Inv partition nulls := by
  cases action with
  | source action =>
      obtain ⟨world, hworld, rfl⟩ := Option.map_eq_some_iff.mp hstep
      exact h.source hworld
  | register =>
      obtain rfl := Option.some.inj hstep
      exact h.register
  | deliver p now =>
      obtain ⟨sink, hsink, rfl⟩ := Option.map_eq_some_iff.mp hstep
      exact ⟨h.world, h.slot_le, h.sink.receive hsink⟩
  | rewind p offset =>
      obtain ⟨sink, hsink, rfl⟩ := Option.map_eq_some_iff.mp hstep
      exact ⟨h.world, h.slot_le, h.sink.rewind hsink⟩

/-! ### Catching up -/

omit [BEq V] in
/-- What was added since is a part of all there is. -/
theorem since_subset {α : Type} (s : LatePipeline V) (log : List α) : s.since log ⊆ log := by
  unfold since
  cases s.slot with
  | none => exact List.nil_subset log
  | some n => exact List.drop_subset n log

/-- The changes and the events since the slot was created correspond. -/
theorem Inv.since_corresponds (h : s.Inv partition nulls) :
    List.Forall₂ Corresponds (s.since s.world.history) (s.since s.world.outbox) := by
  unfold since
  cases s.slot with
  | none => exact .nil
  | some n => exact List.forall₂_drop n h.world.ledger.corresponds

omit [BEq V] in
/-- An order was changed since exactly if it has a last change since. -/
theorem changedSince_iff {id : UUID} :
    s.changedSince id = true ↔
      (KeyedLog.last Write.orderId id (s.since s.world.history)).isSome := by
  rw [← Bool.not_eq_false, ← Option.ne_none_iff_isSome, ne_eq, KeyedLog.last_eq_none_iff,
    changedSince, List.any_eq_false]
  simp [KeyedLog.Untouched]

omit [BEq V] in
/-- The last change of an order since, if there is one, is its last change at all. -/
theorem last_of_last_since {id : UUID} {write : Write V}
    (h : KeyedLog.last Write.orderId id (s.since s.world.history) = some write) :
    KeyedLog.last Write.orderId id s.world.history = some write := by
  unfold since at h
  split at h
  · cases h
  · exact KeyedLog.last_of_last_drop Write.orderId h

end Steps

/-- **The replica shows what was changed since.**  Whatever has been committed before and after the
connector was registered: once the sink has caught up, the replica has a row for exactly the orders
that were changed after the registration, and the row shows the order. -/
theorem shows_changedSince [BEq V] {actions : List (LatePipelineAction V)} {s : LatePipeline V}
    (h : Transition.run (step partition nulls) init actions = some s)
    (hcaughtUp : s.CaughtUp partition) (id : UUID) :
    Option.Rel ReplicaRow.Agrees (s.table id)
      (if s.changedSince id then (s.world.orders id).committed else none) := by
  have hinv : s.Inv partition nulls :=
    Transition.run_invariant (fun _ _ _ hs hstep => hs.step hstep) Inv.init h
  have hshows : Option.Rel ReplicaRow.Agrees (s.table id)
      ((KeyedLog.last Write.orderId id (s.since s.world.history)).map Write.new) :=
    hinv.sink.shows hcaughtUp hinv.world.ledger (since_subset s _) hinv.since_corresponds
      fun _ => last_of_last_since
  cases hwrite : KeyedLog.last Write.orderId id (s.since s.world.history) with
  | none =>
      have hunchanged : ¬ s.changedSince id = true := by
        rw [changedSince_iff, hwrite]
        exact Bool.false_ne_true
      rw [hwrite] at hshows
      rw [if_neg hunchanged]
      exact hshows
  | some write =>
      have hchanged : s.changedSince id = true := by rw [changedSince_iff, hwrite]; rfl
      rw [hwrite] at hshows
      rw [if_pos hchanged, hinv.world.table, rowAt, last_of_last_since hwrite]
      exact hshows

/-- One order is created before the registration and one after it. -/
def twoOrders : List (LatePipelineAction ℕ) :=
  (Action.begin 1 Sample.create :: Sample.statements 3 0).map .source ++ [.register] ++
    (Action.begin 1 { Sample.create with orderId := 2 } :: Sample.statements 3 1).map .source ++
    [.deliver 0 20]

theorem shows_changedSince_twoOrders :
    ∃ s : LatePipeline ℕ, Transition.run (step (fun _ => 0) .written) init twoOrders = some s ∧
      (s.world.orders Sample.orderId).committed.isSome ∧ s.table Sample.orderId = none ∧
      Option.Rel ReplicaRow.Agrees (s.table 2) (s.world.orders 2).committed := by
  have hrun : (Transition.run (step (fun _ => 0) .written) init twoOrders).map (fun s =>
      (s.offset 0, (Sink.records (fun _ => 0) (s.since s.world.outbox) 0).length,
        s.changedSince Sample.orderId, s.changedSince 2,
        (s.world.orders Sample.orderId).committed.isSome)) =
      some (1, 1, false, true, true) := by
    decide
  obtain ⟨s, hs, hfacts⟩ := Option.map_eq_some_iff.mp hrun
  simp only [Prod.mk.injEq] at hfacts
  obtain ⟨hoffset, hrecords, hfirst, hsecond, hcommitted⟩ := hfacts
  have hshows := shows_changedSince (fun _ => 0) .written hs fun _ => hoffset.trans hrecords.symm
  have hmissing := hshows Sample.orderId
  have hshown := hshows 2
  rw [hfirst, if_neg Bool.false_ne_true] at hmissing
  rw [hsecond, if_pos rfl] at hshown
  refine ⟨s, hs, hcommitted, ?_, hshown⟩
  cases hrow : s.table Sample.orderId with
  | none => rfl
  | some row =>
      rw [hrow] at hmissing
      cases hmissing

end LatePipeline

end OutboxPattern
