import OutboxPattern.Pipeline.Sink

/-!
# Convergence of the replica

The whole pipeline: the order service, the topic that Debezium publishes its events to, and the
sink.  The connectors were registered before the first request, so the topic is the outbox.

`replica_converges` says that a sink which has caught up shows the orders table, no matter how
requests, deliveries and rewinds were interleaved.  Each step keeps `Pipeline.Inv`: the world has a
ledger, and the sink's state is accounted for by the topic (`Sink.Inv`), which only grows.
-/

namespace OutboxPattern

variable {V : Type}

/-- The order service, the topic and the sink. -/
structure Pipeline (V : Type) extends Sink V where
  world : World V

/-- What can happen next. -/
inductive PipelineAction (V : Type)
  /-- The order service takes a step. -/
  | source (action : Action V)
  /-- The sink applies the next record of a partition. -/
  | deliver (p : ℕ) (now : Timestamp)
  /-- The sink is set back to an earlier offset of a partition. -/
  | rewind (p offset : ℕ)

namespace Pipeline

variable (partition : UUID → ℕ) (nulls : NullHandling)

/-- Empty tables and an empty topic. -/
def init : Pipeline V where
  toSink := Sink.init
  world := World.init

/-- The records of one partition, in the order they were published. -/
def records (s : Pipeline V) (p : ℕ) : List (OutboxEvent V) :=
  Sink.records partition s.world.outbox p

/-- One step of the pipeline. -/
def step [BEq V] (s : Pipeline V) : PipelineAction V → Option (Pipeline V)
  | .source action => (s.world.step action).map fun world => { s with world }
  | .deliver p now =>
      (s.toSink.receive partition nulls s.world.outbox p now).map fun sink =>
        { s with toSink := sink }
  | .rewind p offset => (s.toSink.rewind p offset).map fun sink => { s with toSink := sink }

/-- The sink has applied all there is to apply. -/
def CaughtUp (s : Pipeline V) : Prop := s.toSink.CaughtUp partition s.world.outbox

/-- The sink's state is accounted for by the topic. -/
structure Inv [BEq V] (s : Pipeline V) : Prop where
  world : s.world.Inv
  sink : s.toSink.Inv partition nulls s.world.outbox

section Steps

variable {partition nulls} [BEq V] {s s' : Pipeline V}

/-- At first there is nothing to account for. -/
theorem Inv.init : Inv partition nulls (init : Pipeline V) where
  world := World.Inv.init
  sink := Sink.Inv.init []

/-- **One step keeps the invariant.** -/
theorem Inv.step (h : s.Inv partition nulls) {action : PipelineAction V}
    (hstep : s.step partition nulls action = some s') : s'.Inv partition nulls := by
  cases action with
  | source action =>
      obtain ⟨world, hworld, rfl⟩ := Option.map_eq_some_iff.mp hstep
      -- the topic grows by what the service commits
      obtain ⟨events, hevents⟩ := h.world.outbox_append hworld
      exact ⟨h.world.step hworld, hevents ▸ h.sink.append events⟩
  | deliver p now =>
      obtain ⟨sink, hsink, rfl⟩ := Option.map_eq_some_iff.mp hstep
      exact ⟨h.world, h.sink.receive hsink⟩
  | rewind p offset =>
      obtain ⟨sink, hsink, rfl⟩ := Option.map_eq_some_iff.mp hstep
      exact ⟨h.world, h.sink.rewind hsink⟩

/-- A run keeps the invariant, wherever it starts. -/
theorem Inv.run (h : s.Inv partition nulls) {actions : List (PipelineAction V)}
    (hrun : Transition.run (Pipeline.step partition nulls) s actions = some s') :
    s'.Inv partition nulls :=
  Transition.run_invariant (fun _ _ _ hs hstep => hs.step hstep) h hrun

/-- **Every reachable state of the pipeline keeps the invariant.** -/
theorem inv_of_run {actions : List (PipelineAction V)}
    (h : Transition.run (step partition nulls) Pipeline.init actions = some s) :
    s.Inv partition nulls := Inv.init.run h

/-- The requests that were served in a run of the pipeline are a run of the order service. -/
theorem exists_run_world {actions : List (PipelineAction V)}
    (h : Transition.run (step partition nulls) s actions = some s') :
    ∃ schedule, Transition.run World.step s.world schedule = some s'.world := by
  refine Transition.run_matching Pipeline.world (fun s action s' hstep => ?_) h
  cases action with
  | source action =>
      obtain ⟨world, hworld, rfl⟩ := Option.map_eq_some_iff.mp hstep
      exact ⟨[action], Transition.run_cons_of_step World.step hworld []⟩
  | deliver p now =>
      obtain ⟨sink, -, rfl⟩ := Option.map_eq_some_iff.mp hstep
      exact ⟨[], rfl⟩
  | rewind p offset =>
      obtain ⟨sink, -, rfl⟩ := Option.map_eq_some_iff.mp hstep
      exact ⟨[], rfl⟩

end Steps

/-- **Convergence.**  Whenever the sink has caught up, `orders_cdc` has exactly one row for
every committed order and no other, and the row shows the order. -/
theorem replica_converges [BEq V] {actions : List (PipelineAction V)} {s : Pipeline V}
    (h : Transition.run (step partition nulls) init actions = some s)
    (hcaughtUp : s.CaughtUp partition) (id : UUID) :
    Option.Rel ReplicaRow.Agrees (s.table id) (s.world.orders id).committed := by
  have hinv := inv_of_run h
  have hledger := hinv.world.ledger
  rw [hinv.world.table, rowAt]
  exact hinv.sink.shows hcaughtUp hledger (List.Subset.refl _) hledger.corresponds
    fun _ hlast => hlast

/-- Two updates race, and the sink is set back before it has seen the last event. -/
def race : List (PipelineAction ℕ) :=
  Sample.race.map .source ++
    [.deliver 0 20, .deliver 0 21, .rewind 0 1, .deliver 0 22, .deliver 0 23]

theorem replica_converges_race :
    ∃ s : Pipeline ℕ, Transition.run (step (fun _ => 0) .omitted) init race = some s ∧
      s.received.length = 4 ∧
      Option.Rel ReplicaRow.Agrees (s.table Sample.orderId)
        (s.world.orders Sample.orderId).committed := by
  have hrun : (Transition.run (step (fun _ => 0) .omitted) init race).map (fun s =>
      (s.received.length, s.offset 0, (s.records (fun _ => 0) 0).length)) = some (4, 3, 3) := by
    decide
  obtain ⟨s, hs, hfacts⟩ := Option.map_eq_some_iff.mp hrun
  simp only [Prod.mk.injEq] at hfacts
  obtain ⟨hreceived, hoffset, hrecords⟩ := hfacts
  refine ⟨s, hs, hreceived, replica_converges (fun _ => 0) .omitted hs (fun id => ?_) _⟩
  exact hoffset.trans hrecords.symm

end Pipeline

end OutboxPattern
