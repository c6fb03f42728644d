import Mathlib.Algebra.BigOperators.Group.Finset.Piecewise
import Mathlib.Algebra.Order.BigOperators.Group.Finset
import OutboxPattern.Guarantees.Progress
import OutboxPattern.Pipeline.Convergence

/-!
# The pipeline comes to rest

Convergence says what the replica shows *once the sink has caught up*.  Here is why it does.  Two
kinds of work are pending in a pipeline: the statements of open requests, of which each may commit
an event, and the records that the sink has not yet applied.  A statement is therefore counted
twice in `work`, and a record once: then every step decreases the count, unless a request begins
or the sink is set back.

`drains_of_run` puts it together with the progress of the order service.  No state of the pipeline
is a dead end, whatever the requests and rewinds that led to it.
-/

namespace OutboxPattern

open scoped BigOperators

variable {V : Type}

/-- A statement of a request, or a record applied by the sink. -/
def PipelineAction.isWork : PipelineAction V → Bool
  | .source action => action.isStatement
  | .deliver _ _ => true
  | .rewind _ _ => false

namespace Pipeline

variable (partition : UUID → ℕ) (nulls : NullHandling)

/-- The partitions that the topic has records in. -/
def partitions (s : Pipeline V) : Finset ℕ :=
  (s.world.outbox.map (recordPartition partition)).toFinset

/-- The records of one partition that the sink has still to apply. -/
def lag (s : Pipeline V) (p : ℕ) : ℕ := (s.records partition p).length - s.offset p

/-- The work that is pending, at most: two steps for a statement, one for a record. -/
def work (s : Pipeline V) : ℕ :=
  2 * s.world.pending + ∑ p ∈ s.partitions partition, s.lag partition p

/-- All requests are answered, and the sink has applied all there is to apply. -/
def AtRest (s : Pipeline V) : Prop := s.world.quiescent = true ∧ s.CaughtUp partition

variable {partition}

/-- Outside its partitions a topic has no records, and so there is no lag. -/
theorem lag_of_not_mem {s : Pipeline V} {p : ℕ} (hp : p ∉ s.partitions partition) :
    s.lag partition p = 0 := by
  have hrecords : s.records partition p = [] := by
    refine (KeyedLog.entries_eq_nil_iff _).mpr fun event hevent heq => hp ?_
    exact List.mem_toFinset.mpr (heq ▸ List.mem_map_of_mem hevent)
  rw [lag, hrecords, List.length_nil, Nat.zero_sub]

/-- The sum over any partitions that include those of the topic. -/
theorem sum_lag_eq {s : Pipeline V} {ps : Finset ℕ} (h : s.partitions partition ⊆ ps) :
    ∑ p ∈ s.partitions partition, s.lag partition p = ∑ p ∈ ps, s.lag partition p :=
  Finset.sum_subset h fun _ _ hp => lag_of_not_mem hp

section Steps

variable {nulls} [BEq V] {s s' : Pipeline V}

/-- A step of the order service adds no record, or one. -/
theorem sum_lag_source (h : s.Inv partition nulls) {action : Action V} {world : World V}
    (hstep : s.world.step action = some world) :
    ∑ p ∈ partitions partition { s with world := world },
        lag partition { s with world := world } p ≤
      ∑ p ∈ s.partitions partition, s.lag partition p + 1 := by
  rcases World.step_effect h.world hstep with ⟨-, -, houtbox⟩ | ⟨-, event, -, -, -, houtbox⟩
  · have hpartitions : partitions partition { s with world := world } =
        s.partitions partition := by
      rw [partitions, partitions, houtbox]
    have hlag : ∀ p, lag partition { s with world := world } p = s.lag partition p := by
      intro p
      rw [lag, lag, records, records, houtbox]
    rw [hpartitions]
    simp only [hlag]
    omega
  · -- the event raises the lag of its own partition by one
    have hpartitions : s.partitions partition ⊆
        partitions partition { s with world := world } := by
      intro p hp
      rw [partitions, List.mem_toFinset] at hp ⊢
      rw [houtbox, List.map_append]
      exact List.mem_append_left _ hp
    have hlag : ∀ p, lag partition { s with world := world } p ≤
        s.lag partition p + if p = recordPartition partition event then 1 else 0 := by
      intro p
      rw [lag, lag, records, records, Sink.records, Sink.records, houtbox]
      by_cases hp : p = recordPartition partition event
      · subst hp
        rw [KeyedLog.entries_concat_self (recordPartition partition), List.length_append,
          List.length_singleton, if_pos rfl]
        show _ - s.offset _ ≤ _
        omega
      · rw [KeyedLog.entries_concat_of_ne (recordPartition partition) fun heq => hp heq.symm,
          if_neg hp, Nat.add_zero]
    rw [sum_lag_eq hpartitions]
    refine (Finset.sum_le_sum fun p _ => hlag p).trans ?_
    rw [Finset.sum_add_distrib, Finset.sum_ite_eq']
    split <;> omega

omit [BEq V] in
/-- The sink applies a record. -/
theorem sum_lag_deliver {p : ℕ} {event : OutboxEvent V}
    (hevent : (s.records partition p)[s.offset p]? = some event) (hworld : s'.world = s.world)
    (hoffset : s'.offset = Function.update s.offset p (s.offset p + 1)) :
    ∑ q ∈ s'.partitions partition, s'.lag partition q <
      ∑ q ∈ s.partitions partition, s.lag partition q := by
  have hrecords : ∀ q, s'.records partition q = s.records partition q := by
    intro q
    rw [records, records, hworld]
  have hpartitions : s'.partitions partition = s.partitions partition := by
    rw [partitions, partitions, hworld]
  have hbehind : s.offset p < (s.records partition p).length :=
    (List.getElem?_eq_some_iff.mp hevent).1
  have hmem : p ∈ s.partitions partition := by
    by_contra hnot
    have hzero := lag_of_not_mem hnot
    rw [lag] at hzero
    omega
  rw [hpartitions]
  refine Finset.sum_lt_sum (fun q _ => ?_) ⟨p, hmem, ?_⟩
  · rw [lag, lag, hrecords, hoffset]
    by_cases hq : q = p
    · subst hq
      rw [Function.update_self]
      omega
    · rw [Function.update_of_ne hq]
  · rw [lag, lag, hrecords, hoffset, Function.update_self]
    omega

theorem work_lt_of_step (h : s.Inv partition nulls) {action : PipelineAction V}
    (hwork : action.isWork = true) (hstep : s.step partition nulls action = some s') :
    s'.work partition < s.work partition := by
  cases action with
  | source action =>
      obtain ⟨world, hworld, rfl⟩ := Option.map_eq_some_iff.mp hstep
      have hpending := World.pending_lt_of_step hwork hworld
      have hlag := sum_lag_source h hworld
      show 2 * world.pending + _ < 2 * s.world.pending + _
      omega
  | deliver p now =>
      obtain ⟨sink, hsink, hs'⟩ := Option.map_eq_some_iff.mp hstep
      obtain ⟨event, hevent, hreceived⟩ := Sink.receive_eq_some_iff.mp hsink
      have hworld : s'.world = s.world := by rw [← hs']
      have hoffset : s'.offset = Function.update s.offset p (s.offset p + 1) := by
        rw [← hs', ← hreceived]
      rw [work, work, hworld]
      exact Nat.add_lt_add_left (sum_lag_deliver hevent hworld hoffset) _
  | rewind p offset => cases hwork

/-- Short of rest there is work that can be done. -/
theorem exists_step_of_not_atRest (h : s.Inv partition nulls) (hrest : ¬ s.AtRest partition) :
    (∃ t world, s.world.step (.advance t) = some world) ∨
      ∃ p, ∀ now, ∃ s', s.step partition nulls (.deliver p now) = some s' := by
  by_cases hquiescent : s.world.quiescent = true
  · right
    have hbehind : ¬ s.CaughtUp partition := fun hcaught => hrest ⟨hquiescent, hcaught⟩
    obtain ⟨id, hne⟩ := not_forall.mp hbehind
    have hle := (h.sink.delivered (partition id)).offset_le
    have hlt : s.offset (partition id) < (s.records partition (partition id)).length :=
      lt_of_le_of_ne hle hne
    refine ⟨partition id, fun now => ?_⟩
    have hreceive : s.toSink.receive partition nulls s.world.outbox (partition id) now = some _ :=
      Sink.receive_eq_some_iff.mpr ⟨_, List.getElem?_eq_getElem hlt, rfl⟩
    rw [Pipeline.step, hreceive]
    exact ⟨_, rfl⟩
  · left
    by_contra hnone
    refine hquiescent (World.quiescent_of_stuck h.world fun t => ?_)
    cases hstep : s.world.step (.advance t) with
    | none => rfl
    | some world => exact absurd ⟨t, world, hstep⟩ hnone

end Steps

variable (partition)

/-- **Draining**, of a pipeline. -/
structure Drains [BEq V] (s : Pipeline V) : Prop where
  /-- Without new requests and rewinds, no more than `work` steps can be taken. -/
  bounded : ∀ actions s', (∀ action ∈ actions, action.isWork = true) →
    Transition.run (step partition nulls) s actions = some s' →
    actions.length + s'.work partition ≤ s.work partition
  /-- When none can be taken any more, the pipeline is at rest. -/
  stuck : (∀ action, action.isWork = true → s.step partition nulls action = none) →
    s.AtRest partition
  /-- And it can be brought to rest without a failure being injected.  A write that the database
  itself refuses is still answered with 500. -/
  drains : ∃ actions s', (∀ action ∈ actions, action.isWork = true ∧
      ∀ t, action ≠ .source (.raise t)) ∧
    Transition.run (step partition nulls) s actions = some s' ∧ s'.AtRest partition

/-- **No state is a dead end.**  Whatever requests and deliveries have led to a state of the
pipeline, it comes to rest when no requests begin and the sink is not set back any more: every
request answered and every event applied. -/
theorem drains_of_run [BEq V] {actions : List (PipelineAction V)} {s : Pipeline V}
    (h : Transition.run (step partition nulls) init actions = some s) :
    s.Drains partition nulls := by
  have hinv := inv_of_run h
  have hkeeps : ∀ (s : Pipeline V) a s', s.Inv partition nulls →
      s.step partition nulls a = some s' → s'.Inv partition nulls :=
    fun _ _ _ hs hstep => hs.step hstep
  refine ⟨fun actions s' hall hrun => ?_, fun hstuck => ?_, ?_⟩
  · exact Transition.run_length_le hkeeps (fun _ _ _ hs ha hstep => work_lt_of_step hs ha hstep)
      hinv hall hrun
  · by_contra hrest
    rcases exists_step_of_not_atRest hinv hrest with ⟨t, world, hworld⟩ | ⟨p, hdeliver⟩
    · have hnone := hstuck (.source (.advance t)) rfl
      rw [Pipeline.step, hworld] at hnone
      cases hnone
    · obtain ⟨s', hstep⟩ := hdeliver 0
      rw [hstuck (.deliver p 0) rfl] at hstep
      cases hstep
  · refine Transition.exists_run_of_measure hkeeps
      (fun _ _ _ hs ha hstep => work_lt_of_step hs ha.1 hstep) (fun s hs hrest => ?_) hinv
    rcases exists_step_of_not_atRest hs hrest with ⟨t, world, hworld⟩ | ⟨p, hdeliver⟩
    · refine ⟨.source (.advance t), { s with world := world }, ⟨rfl, fun t' heq => ?_⟩, ?_⟩
      · cases heq
      · rw [Pipeline.step, hworld]
        rfl
    · obtain ⟨s', hstep⟩ := hdeliver 0
      refine ⟨.deliver p 0, s', ⟨rfl, fun t heq => ?_⟩, hstep⟩
      cases heq

/-- Two updates race, and the sink is set back while the second one waits for the first. -/
def unsettled : List (PipelineAction ℕ) :=
  Sample.waiting.map .source ++ [.deliver 0 20, .rewind 0 0]

theorem drains_of_run_unsettled :
    ∃ s : Pipeline ℕ, Transition.run (step (fun _ => 0) .omitted) init unsettled = some s ∧
      ¬ s.AtRest (fun _ => 0) ∧ s.Drains (fun _ => 0) .omitted := by
  have hrun : (Transition.run (step (fun _ => 0) .omitted) init unsettled).map
      (fun s => s.world.quiescent) = some false := by decide
  obtain ⟨s, hs, hopen⟩ := Option.map_eq_some_iff.mp hrun
  refine ⟨s, hs, fun hrest => ?_, drains_of_run (fun _ => 0) .omitted hs⟩
  rw [hrest.1] at hopen
  cases hopen

end Pipeline

end OutboxPattern
