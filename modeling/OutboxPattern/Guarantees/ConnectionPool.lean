import OutboxPattern.Guarantees.Progress
import OutboxPattern.Lib.Admission

/-!
# The connection pool (`api/app/db/session.py`)

A session of `get_db` takes a connection of the engine's pool with its first statement and gives it
back when it is closed.  There are `pool_size=10` of them, and `max_overflow=20` more at times; a
request that finds none waits for one, and one that has waited too long fails with a timeout, which
no handler maps.

Row locks and connections are two kinds of things to wait for, and together they can block a
service for good: requests that hold all the connections wait for a lock whose holder waits for a
connection.  Here a request has one session only, so whoever holds a lock has a connection already.
`pool_of_run` says that the pool does bound the number of open transactions, and that it costs
nothing else: no request is lost in the queue, the pool is never stuck, and what happens in the
database could have happened without it.
-/

namespace OutboxPattern

variable {V : Type}

/-- `pool_size`. -/
def poolSize : ℕ := 10

/-- `max_overflow`. -/
def maxOverflow : ℕ := 20

/-! ### Sessions -/

/-- The endpoints of which the session only reads. -/
inductive ReadEndpoint
  | listOrders
  | healthDb
  | healthOutbox
  | healthOutboxLag
  deriving DecidableEq, Repr

/-- How many statements the endpoint sends. -/
def ReadEndpoint.statements : ReadEndpoint → ℕ
  | .listOrders => 2
  | .healthDb => 1
  | .healthOutbox => 1
  | .healthOutboxLag => 1

/-- A session that only reads. -/
structure Reading where
  endpoint : ReadEndpoint
  /-- The statements that are left, the commit among them. -/
  left : ℕ

/-- What a request needs a session for. -/
inductive Demand (V : Type)
  | order (request : Request V)
  | read (endpoint : ReadEndpoint)

/-- All sessions that have got a connection. -/
structure Sessions (V : Type) where
  world : World V
  readings : List Reading

/-- What they can do next. -/
inductive SessionsAction (V : Type)
  | order (action : Action V)
  | beginRead (endpoint : ReadEndpoint)
  /-- The next statement of a session that only reads, or its commit. -/
  | read (i : ℕ)
  /-- It fails. -/
  | failRead (i : ℕ)

/-- An open transaction of an order has its connection. -/
def World.connections (w : World V) : ℕ := w.txs.countP fun tx => !tx.phase.isClosed

namespace Sessions

def init : Sessions V := ⟨World.init, []⟩

/-- A session that only reads has some statements left, and then fewer. -/
def proceed (s : Sessions V) (i : ℕ) (after : ℕ → ℕ) : Option (Sessions V) :=
  s.readings[i]?.bind fun reading =>
    if 0 < reading.left then
      some { s with readings := s.readings.set i { reading with left := after reading.left } }
    else none

def step [BEq V] (s : Sessions V) : SessionsAction V → Option (Sessions V)
  | .order action => (s.world.step action).map fun world => { s with world := world }
  | .beginRead endpoint =>
      some { s with readings := s.readings ++ [⟨endpoint, endpoint.statements + 1⟩] }
  | .read i => s.proceed i fun left => left - 1
  | .failRead i => s.proceed i fun _ => 0

/-- The connections in use. -/
def connections (s : Sessions V) : ℕ :=
  s.world.connections + s.readings.countP fun reading => 0 < reading.left

/-- The sessions, as the queue for a connection sees them. -/
def service [BEq V] : Admission.Service (Sessions V) (SessionsAction V) (Demand V) ℕ where
  step := step
  enter elapsed
    | .order request => .order (.begin elapsed request)
    | .read endpoint => .beginRead endpoint
  isWork
    | .order action => action.isStatement
    | .beginRead _ => false
    | .read _ => true
    | .failRead _ => true
  isFailure
    | .order action => !action.isAdvance
    | .failRead _ => true
    | _ => false
  serving := connections
  entered s :=
    s.world.txs.map (fun tx => .order tx.request) ++
      s.readings.map fun reading => .read reading.endpoint
  pending s := s.world.pending + (s.readings.map Reading.left).sum
  cost := 5

/-! ### The promises -/

section Lawful

variable [BEq V] {s s' : Sessions V}

omit [BEq V] in
/-- A session that only reads goes on, or fails. -/
theorem proceed_eq_some_iff {i : ℕ} (after : ℕ → ℕ) :
    s.proceed i after = some s' ↔ ∃ reading, s.readings[i]? = some reading ∧ 0 < reading.left ∧
      s' = { s with readings := s.readings.set i { reading with left := after reading.left } } := by
  unfold proceed
  rw [Option.bind_eq_some_iff]
  refine exists_congr fun reading => and_congr_right fun _ => ?_
  split
  · next hleft => rw [Option.some.injEq, eq_comm (a := s'), and_iff_right hleft]
  · next hleft => exact iff_of_false (by simp) fun h => hleft h.1

theorem step_read (s : Sessions V) (i : ℕ) :
    s.step (.read i) = some s' ↔ ∃ reading, s.readings[i]? = some reading ∧ 0 < reading.left ∧
      s' = { s with readings := s.readings.set i { reading with left := reading.left - 1 } } :=
  proceed_eq_some_iff fun left => left - 1

theorem step_failRead (s : Sessions V) (i : ℕ) :
    s.step (.failRead i) = some s' ↔ ∃ reading, s.readings[i]? = some reading ∧
      0 < reading.left ∧ s' = { s with readings := s.readings.set i { reading with left := 0 } } :=
  proceed_eq_some_iff fun _ => 0

/-- **What goes on**: the transaction of an order, or a session that only reads. -/
theorem work_cases {action : SessionsAction V} (hwork : service.isWork action = true)
    (hstep : s.step action = some s') :
    (∃ a world, action = .order a ∧ a.isStatement = true ∧ s.world.step a = some world ∧
      s' = { s with world := world }) ∨
    ∃ i reading left, s.readings[i]? = some reading ∧ left < reading.left ∧
      s' = { s with readings := s.readings.set i { reading with left := left } } := by
  cases action with
  | order a =>
      obtain ⟨world, hworld, rfl⟩ := Option.map_eq_some_iff.mp hstep
      exact Or.inl ⟨a, world, rfl, hwork, hworld, rfl⟩
  | beginRead endpoint => cases hwork
  | read i =>
      obtain ⟨reading, hreading, hleft, rfl⟩ := (step_read s i).mp hstep
      exact Or.inr ⟨i, reading, reading.left - 1, hreading, Nat.sub_one_lt_of_lt hleft, rfl⟩
  | failRead i =>
      obtain ⟨reading, hreading, hleft, rfl⟩ := (step_failRead s i).mp hstep
      exact Or.inr ⟨i, reading, 0, hreading, hleft, rfl⟩

/-- A session that is open can go on, unless it waits for one that can. -/
theorem work_exists (hinv : s.world.Inv) (hopen : 0 < s.connections) :
    ∃ action s', service.isWork action = true ∧ service.isFailure action = false ∧
      s.step action = some s' := by
  rcases Nat.add_pos_iff_pos_or_pos.mp hopen with hworld | hreadings
  · obtain ⟨tx, hmem, hclosed⟩ := List.countP_pos_iff.mp hworld
    obtain ⟨t, htx⟩ := List.mem_iff_getElem?.mp hmem
    have hadvance : ∃ t world, s.world.step (.advance t) = some world := by
      rcases World.deadlockFree hinv htx (by simpa using hclosed) with
        ⟨world, hstep⟩ | ⟨t', -, world, hstep⟩
      · exact ⟨t, world, hstep⟩
      · exact ⟨t', world, hstep⟩
    obtain ⟨t, world, hstep⟩ := hadvance
    exact ⟨.order (.advance t), { s with world := world }, rfl, rfl, by rw [step, hstep]; rfl⟩
  · obtain ⟨reading, hmem, hleft⟩ := List.countP_pos_iff.mp hreadings
    obtain ⟨i, hreading⟩ := List.mem_iff_getElem?.mp hmem
    exact ⟨.read i, _, rfl, rfl,
      (step_read s i).mpr ⟨reading, hreading, of_decide_eq_true hleft, rfl⟩⟩

/-- **The sessions keep what the queue needs.** -/
theorem lawful : (service : Admission.Service (Sessions V) _ _ _).Lawful
    (fun s => s.world.Inv) where
  inv_step s action s' hinv hstep := by
    cases action with
    | order a =>
        obtain ⟨world, hworld, rfl⟩ := Option.map_eq_some_iff.mp hstep
        exact hinv.step hworld
    | beginRead endpoint =>
        obtain rfl := Option.some.inj hstep
        exact hinv
    | read i =>
        obtain ⟨reading, -, -, rfl⟩ := (step_read s i).mp hstep
        exact hinv
    | failRead i =>
        obtain ⟨reading, -, -, rfl⟩ := (step_failRead s i).mp hstep
        exact hinv
  enter_enabled s elapsed demand _ := by
    cases demand with
    | order request => exact ⟨_, rfl⟩
    | read endpoint => exact ⟨_, rfl⟩
  serving_enter s elapsed demand s' _ hstep := by
    cases demand with
    | order request =>
        obtain rfl := Option.some.inj hstep
        show World.connections _ + _ ≤ s.world.connections + _ + 1
        rw [World.connections, List.countP_append, List.countP_singleton]
        simp [World.connections, Phase.isClosed]
        omega
    | read endpoint =>
        obtain rfl := Option.some.inj hstep
        show s.world.connections + List.countP _ (s.readings ++ [_]) ≤ s.connections + 1
        rw [List.countP_append, List.countP_singleton, connections]
        split <;> omega
  entered_enter s elapsed demand s' _ hstep := by
    cases demand with
    | order request =>
        obtain rfl := Option.some.inj hstep
        show (List.map _ (s.world.txs ++ [_]) ++ _).Perm _
        rw [List.map_append, List.append_assoc]
        exact List.perm_middle
    | read endpoint =>
        obtain rfl := Option.some.inj hstep
        show (_ ++ List.map _ (s.readings ++ [_])).Perm _
        rw [List.map_append, ← List.append_assoc]
        exact List.perm_append_singleton _ _
  pending_enter s elapsed demand s' _ hstep := by
    cases demand with
    | order request =>
        obtain rfl := Option.some.inj hstep
        show World.pending _ + _ ≤ s.world.pending + _ + 5
        rw [World.pending, List.map_append, List.sum_append]
        simp [World.pending, Phase.rank]
        omega
    | read endpoint =>
        obtain rfl := Option.some.inj hstep
        show s.world.pending + (List.map _ (s.readings ++ [_])).sum ≤ s.world.pending + _ + 5
        rw [List.map_append, List.sum_append]
        cases endpoint <;> simp [ReadEndpoint.statements] <;> omega
  serving_work s action s' _ hwork hstep := by
    rcases work_cases hwork hstep with
      ⟨a, world, -, hstatement, hworld, rfl⟩ | ⟨i, reading, left, hreading, hleft, rfl⟩
    · obtain ⟨t, tx, tx', htx, htxs, -, hrank⟩ := World.exists_set_of_statement hstatement hworld
      refine Nat.add_le_add_right ?_ _
      rw [World.connections, World.connections, htxs]
      refine Transition.countP_set_le htx fun _ => ?_
      cases hclosed : tx.phase with
      | closed response => rw [hclosed] at hrank; cases hrank
      | _ => rfl
    · refine Nat.add_le_add_left (Transition.countP_set_le hreading fun _ => ?_) _
      exact decide_eq_true (Nat.zero_lt_of_lt hleft)
  entered_work s action s' _ hwork hstep := by
    rcases work_cases hwork hstep with
      ⟨a, world, -, hstatement, hworld, rfl⟩ | ⟨i, reading, left, hreading, hleft, rfl⟩
    · obtain ⟨t, tx, tx', htx, htxs, hrequest, -⟩ :=
        World.exists_set_of_statement hstatement hworld
      show world.txs.map _ ++ _ = s.world.txs.map _ ++ _
      rw [htxs, Transition.map_set_of_eq htx (by rw [hrequest])]
    · have hendpoints : (s.readings.set i { reading with left := left }).map
          (fun reading => (.read reading.endpoint : Demand V)) = s.readings.map _ :=
        Transition.map_set_of_eq hreading rfl
      exact congrArg (s.world.txs.map (fun tx => .order tx.request) ++ ·) hendpoints
  pending_work s action s' _ hwork hstep := by
    rcases work_cases hwork hstep with
      ⟨a, world, -, hstatement, hworld, rfl⟩ | ⟨i, reading, left, hreading, hleft, rfl⟩
    · exact Nat.add_lt_add_right (World.pending_lt_of_step hstatement hworld) _
    · exact Nat.add_lt_add_left (Transition.sum_map_set_lt hreading hleft) _
  work_exists s hinv hopen := work_exists hinv hopen

/-- What the sessions of the orders do is a run of the order service. -/
theorem exists_run_world {actions : List (SessionsAction V)}
    (h : Transition.run step s actions = some s') :
    ∃ schedule, Transition.run World.step s.world schedule = some s'.world := by
  refine Transition.run_matching Sessions.world (fun s action s' hstep => ?_) h
  cases action with
  | order a =>
      obtain ⟨world, hworld, rfl⟩ := Option.map_eq_some_iff.mp hstep
      exact ⟨[a], Transition.run_cons_of_step World.step hworld []⟩
  | beginRead endpoint =>
      obtain rfl := Option.some.inj hstep
      exact ⟨[], rfl⟩
  | read i =>
      obtain ⟨reading, -, -, rfl⟩ := (step_read s i).mp hstep
      exact ⟨[], rfl⟩
  | failRead i =>
      obtain ⟨reading, -, -, rfl⟩ := (step_failRead s i).mp hstep
      exact ⟨[], rfl⟩

end Lawful

end Sessions

/-! ### The pool -/

/-- The sessions, and the requests that wait for a connection or have been refused one. -/
abbrev Pool (V : Type) := Admission.Queued (Sessions V) (Demand V)

abbrev PoolEvent (V : Type) := Admission.Event (SessionsAction V) (Demand V) ℕ

namespace Pool

def init : Pool V := ⟨Sessions.init, [], []⟩

/-- One step of the sessions or of the pool. -/
def step [BEq V] : Pool V → PoolEvent V → Option (Pool V) :=
  Admission.Queued.step Sessions.service (poolSize + maxOverflow)

/-- **What the pool does**, when the requests `arrived` have arrived. -/
structure Sound [BEq V] (arrived : List (Demand V)) (s : Pool V) : Prop where
  /-- There are enough connections. -/
  bounded : s.inner.connections ≤ poolSize + maxOverflow
  /-- The database is as the order service alone might have left it. -/
  refines : ∃ schedule, World.runFromInit schedule = some s.inner.world
  /-- Every request that has arrived has its session, or waits for one, or was refused one. -/
  accounted : (Sessions.service.entered s.inner ++ s.waiting ++ s.refused).Perm arrived
  /-- Without new requests, only so many steps can be taken; when none can be taken any more, all
  are answered; and that can be reached without a timeout of the pool and without an injected
  failure.  A write that the database itself refuses is still answered with 500. -/
  served : s.Served Sessions.service (poolSize + maxOverflow)

end Pool

/-- **The pool does not block.**  Whatever requests arrive, in whatever order they get their
connections, send their statements, fail or are refused. -/
theorem pool_of_run [BEq V] {events : List (PoolEvent V)} {s : Pool V}
    (h : Transition.run Pool.step Pool.init events = some s) :
    Pool.Sound (events.flatMap Admission.Event.arrival) s := by
  have hinit : (Pool.init : Pool V).inner.world.Inv := World.Inv.init
  have hinv : s.inner.world.Inv := Transition.run_invariant
    (fun _ _ _ hs hstep => Admission.Queued.inv_step Sessions.lawful hs hstep) hinit h
  obtain ⟨actions, hactions⟩ := Admission.Queued.exists_run_inner h
  have haccount := Admission.Queued.account_of_run Sessions.lawful hinit h
  have hnone : Admission.Queued.account Sessions.service (Pool.init : Pool V) = [] := rfl
  rw [hnone, List.append_nil] at haccount
  refine ⟨?_, Sessions.exists_run_world hactions, haccount, ?_⟩
  · exact Admission.Queued.serving_le_of_run Sessions.lawful hinit (Nat.zero_le _) h
  · exact Admission.Queued.served Sessions.lawful hinv (by decide)

namespace Sample

/-- The statements of the `n`-th transaction. -/
def work (n : ℕ) (t : TxId) : List (PoolEvent ℕ) := (statements n t).map fun a => .work (.order a)

/-- All connections are taken by updates of one order, of which the first has written it. -/
def exhausted : List (PoolEvent ℕ) :=
  [.arrive (.order create), .accept 0 1] ++ work 3 0 ++
    List.replicate 31 (.arrive (.order (update (some .confirmed) none))) ++
    List.replicate 30 (.accept 0 1) ++ work 2 1 ++ work 1 2

end Sample

/-- One more update waits for a connection, and the second one for the lock. -/
theorem pool_of_run_exhausted :
    ∃ s, Transition.run Pool.step Pool.init Sample.exhausted = some s ∧
      s.inner.connections = 30 ∧ Pool.step s (.accept 0 1) = none ∧
      Pool.step s (.work (.order (.advance 2))) = none ∧
      Pool.Sound (Sample.exhausted.flatMap Admission.Event.arrival) s := by
  have hrun : (Transition.run Pool.step Pool.init Sample.exhausted).map (fun s =>
      (s.inner.connections, (Pool.step s (.accept 0 1)).isNone,
        (Pool.step s (.work (.order (.advance 2)))).isNone)) = some (30, true, true) := by
    decide
  obtain ⟨s, hs, hfacts⟩ := Option.map_eq_some_iff.mp hrun
  simp only [Prod.mk.injEq, Option.isNone_iff_eq_none] at hfacts
  obtain ⟨hconnections, haccept, hadvance⟩ := hfacts
  exact ⟨s, hs, hconnections, haccept, hadvance, pool_of_run hs⟩

end OutboxPattern
