import OutboxPattern.Orders.Refinement

/-!
# Requests one after the other

In a serial run a request begins only when every earlier one has been answered.  Any
statement may still fail, so a serial run is not a sequence of successful requests; but
nobody else writes between a request's `SELECT` and its commit.

* `SerialLedger` is a ledger in which every entry is fresh, and `serialLedger_of_run` says
  that a serial run has one.
* `exists_answers` says what a single request is answered with when it meets no failure:
  the error that `rejection` reads off the order's row, if there is one.
-/

namespace OutboxPattern

variable {V : Type}

/-- The transaction has been answered. -/
def Phase.isClosed : Phase V → Bool
  | .closed _ => true
  | _ => false

/-- How many statements a transaction is away from its answer, at most. -/
def Phase.rank : Phase V → ℕ
  | .begun => 5
  | .assigned _ _ _ => 4
  | .flushed _ _ => 3
  | .refreshed _ _ => 2
  | .missed => 1
  | .recorded _ => 1
  | .unchanged _ => 1
  | .closed _ => 0

/-- The service has accepted the request: it ends in success, or in an error that no
handler maps. -/
def Phase.Accepted : Phase V → Prop
  | .begun => False
  | .missed => False
  | .closed (.error e) => e = internalServerError
  | _ => True

/-- The session holds a mapped order. -/
def Phase.holdsOrder : Phase V → Bool
  | .begun => false
  | .missed => false
  | .closed _ => false
  | _ => true

/-- An order that the transaction holds was loaded after the first `n` writes, unless it is
one that the transaction creates. -/
def Transaction.Current (n : ℕ) (tx : Transaction V) : Prop :=
  tx.phase.holdsOrder = true → (∃ req, tx.request.operation = .create req) ∨ tx.snapshot = n

namespace World

/-- No transaction is open. -/
def quiescent (w : World V) : Bool := w.txs.all (·.phase.isClosed)

/-- In a serial run, a request has to wait for the others to be answered. -/
def mayRun (w : World V) : Action V → Bool
  | .begin _ _ => w.quiescent
  | _ => true

/-- One step of a serial run. -/
def serialStep [BEq V] (w : World V) (action : Action V) : Option (World V) :=
  if w.mayRun action then w.step action else none

/-- A serial schedule, started on an empty database. -/
abbrev runSerial [BEq V] (schedule : List (Action V)) : Option (World V) :=
  Transition.run serialStep init schedule

/-- A step of a serial run is a step that did not have to wait. -/
theorem serialStep_eq_some_iff [BEq V] {w w' : World V} {action : Action V} :
    w.serialStep action = some w' ↔ w.mayRun action = true ∧ w.step action = some w' := by
  unfold serialStep
  split <;> simp_all

/-! ### What a statement does to its own transaction

Of a single statement it is enough to know four things (`Statement`): the request stays, the answer
comes nearer, and an order that is up to date and a request that is accepted remain so.  They are
read off the statements here once; that the open transaction runs to its answer, and to which kind
of answer, follows from them by induction. -/

/-- A statement takes the transaction `tx` to `tx'`, in a world with `n` committed writes. -/
structure Statement (n : ℕ) (tx tx' : Transaction V) : Prop where
  request : tx'.request = tx.request
  /-- It brings the transaction nearer to its answer. -/
  rank : tx'.phase.rank < tx.phase.rank
  /-- It loads nothing that is out of date. -/
  current : tx.Current n → tx'.Current n
  /-- What has been accepted is not rejected later. -/
  accepted : tx.phase.Accepted → tx'.phase.Accepted

/-- A rolled back transaction is closed, with an error. -/
theorem txs_rollback (w : World V) (t : TxId) (tx : Transaction V) (error : HttpError) :
    (w.rollback t tx error).txs =
      w.txs.set t { tx with inserted := [], phase := .closed (.error error) } := by
  unfold rollback unlock
  split <;> rfl

/-- What the second `SELECT` of `_get_active_order` makes of the row. -/
def missingError (row : Option (Order V)) (id : UUID) : ServiceError :=
  match row.filter (·.deletedAt.isSome) with
  | some _ => .orderAlreadyDeleted id
  | none => .orderNotFound id

/-- The second `SELECT` ends in one of two errors. -/
theorem selectDeleted_eq (w : World V) (t : TxId) (tx : Transaction V) :
    w.selectDeleted t tx = w.rollback t tx
      (missingError (w.orders tx.request.orderId).committed tx.request.orderId).toHttp := by
  unfold World.selectDeleted missingError
  cases (w.orders tx.request.orderId).committed.filter (·.deletedAt.isSome) with
  | none => rfl
  | some row => rfl

section Statements

variable {w w' : World V} {t : TxId} {tx : Transaction V}

/-- Loading the order: whatever is found, the transaction has seen all that is committed, and from
here on it holds an order or has been refused. -/
theorem statement_selectActive (hphase : tx.phase = .begun) :
    ∃ tx', (w.selectActive t tx).txs = w.txs.set t tx' ∧ Statement w.history.length tx tx' := by
  -- nothing is accepted yet, and the snapshot is taken now
  have hbegun : ∀ {tx' : Transaction V}, tx'.request = tx.request → tx'.phase.rank < 5 →
      tx'.Current w.history.length → Statement w.history.length tx tx' := by
    intro tx' hrequest hrank hcurrent
    refine ⟨hrequest, by rwa [hphase], fun _ => hcurrent, fun haccepted => ?_⟩
    rw [hphase] at haccepted
    exact haccepted.elim
  unfold World.selectActive
  split
  · exact ⟨_, rfl, hbegun rfl (by show 1 < 5; omega) nofun⟩
  · next loaded _ =>
    dsimp only
    split
    · next req _ =>
      -- an update of another version is refused, one without changes has nothing to write
      split
      · exact ⟨_, txs_rollback w t _ _, hbegun rfl (by show 0 < 5; omega) nofun⟩
      · next order changed _ =>
        split
        · exact ⟨_, rfl, hbegun rfl (by show 1 < 5; omega) fun _ => Or.inr rfl⟩
        · exact ⟨_, rfl, hbegun rfl (by show 4 < 5; omega) fun _ => Or.inr rfl⟩
    · next at_ _ => exact ⟨_, rfl, hbegun rfl (by show 4 < 5; omega) fun _ => Or.inr rfl⟩
    · exact ⟨_, rfl, hbegun rfl (by show 1 < 5; omega) fun _ => Or.inr rfl⟩

/-- **What the next statement does to its transaction.** -/
theorem statement_of_advance [BEq V] (hstep : w.advance t tx = some w') :
    ∃ tx', w'.txs = w.txs.set t tx' ∧ Statement w.history.length tx tx' := by
  -- once it holds an order, a transaction changes in phase and inserted rows only
  have hkeeps : ∀ {phase : Phase V} {tx' : Transaction V}, tx.phase = phase →
      (phase.holdsOrder = true ∨ ∃ req, tx.request.operation = .create req) →
      tx'.request = tx.request → tx'.snapshot = tx.snapshot → tx'.phase.rank < phase.rank →
      tx'.phase.Accepted → Statement w.history.length tx tx' := by
    intro phase tx' hphase hload hrequest hsnapshot hrank haccepted
    subst hphase
    refine ⟨hrequest, hrank, fun h _ => ?_, fun _ => haccepted⟩
    rw [hrequest, hsnapshot]
    rcases hload with hload | hcreate
    · exact h hload
    · exact Or.inl hcreate
  -- a write that the database refuses ends in an unmapped error, from any phase
  have hfails : ∀ {phase : Phase V}, tx.phase = phase → 0 < phase.rank →
      ∃ tx', (w.rollback t tx internalServerError).txs = w.txs.set t tx' ∧
        Statement w.history.length tx tx' := by
    intro phase hphase hopen
    exact ⟨_, txs_rollback w t tx internalServerError, rfl, hphase ▸ hopen, nofun, fun _ => rfl⟩
  unfold World.advance at hstep
  split at hstep
  · next hphase =>
    split at hstep
    · next req hoperation =>
      unfold World.flushInsert at hstep
      split at hstep
      · cases hstep
      · split at hstep
        · cases hstep
          exact ⟨_, rfl, hkeeps hphase (Or.inr ⟨req, hoperation⟩) rfl rfl
            (by show 3 < 5; omega) trivial⟩
        · cases hstep
          exact hfails hphase (by show 0 < 5; omega)
    · cases hstep
      exact statement_selectActive hphase
  · next hphase =>
    -- the order is missing: refused, and it had not been accepted
    cases hstep
    rw [selectDeleted_eq]
    refine ⟨_, txs_rollback w t tx _, rfl, ?_, nofun, fun haccepted => ?_⟩
    · rw [hphase]
      show 0 < 1
      omega
    · rw [hphase] at haccepted
      exact haccepted.elim
  · next loaded order changed hphase =>
    unfold World.flushUpdate at hstep
    split at hstep
    · cases hstep
    · split at hstep
      · cases hstep
        exact ⟨_, rfl, hkeeps hphase (Or.inl rfl) rfl rfl (by show 3 < 4; omega) trivial⟩
      · cases hstep
        exact hfails hphase (by show 0 < 4; omega)
  · next order changed hphase =>
    split at hstep
    · cases hstep
      exact ⟨_, rfl, hkeeps hphase (Or.inl rfl) rfl rfl (by show 1 < 3; omega) trivial⟩
    · cases hstep
      unfold World.refresh
      split
      · exact ⟨_, rfl, hkeeps hphase (Or.inl rfl) rfl rfl (by show 2 < 3; omega) trivial⟩
      · exact hfails hphase (by show 0 < 3; omega)
  · next order changed hphase =>
    cases hstep
    exact ⟨_, rfl, hkeeps hphase (Or.inl rfl) rfl rfl (by show 1 < 2; omega) trivial⟩
  · next order hphase =>
    cases hstep
    exact ⟨_, rfl, hkeeps hphase (Or.inl rfl) rfl rfl (by show 0 < 1; omega) trivial⟩
  · next order hphase =>
    cases hstep
    exact ⟨_, rfl, hkeeps hphase (Or.inl rfl) rfl rfl (by show 0 < 1; omega) trivial⟩
  · cases hstep

end Statements

/-! ### One open transaction at a time

A request begins when the others have been answered, so at most one is open, and nothing is
committed between its `SELECT` and its commit but by itself. -/

/-- **The invariant of serial runs**, on top of `World.Inv`. -/
structure SerialInv (w : World V) : Prop where
  /-- At most one transaction is open. -/
  alone : ∀ (t : TxId) (tx : Transaction V) (t' : TxId) (tx' : Transaction V),
    w.txs[t]? = some tx → w.txs[t']? = some tx' → tx.phase.isClosed = false →
    tx'.phase.isClosed = false → t = t'
  /-- Nobody has committed anything since it loaded its order. -/
  current : ∀ (t : TxId) (tx : Transaction V), w.txs[t]? = some tx → tx.Current w.history.length

/-- At first nothing is open. -/
theorem SerialInv.init : SerialInv (World.init : World V) where
  alone t tx t' tx' h := by simp [World.init] at h
  current t tx h := by simp [World.init] at h

/-- A quiescent world has closed transactions only. -/
theorem quiescent_iff {w : World V} :
    w.quiescent = true ↔
      ∀ (t : TxId) (tx : Transaction V), w.txs[t]? = some tx → tx.phase.isClosed = true := by
  rw [quiescent, List.all_eq_true]
  constructor
  · intro h t tx htx
    exact h tx (List.mem_of_getElem? htx)
  · intro h tx htx
    obtain ⟨t, ht⟩ := List.mem_iff_getElem?.mp htx
    exact h t tx ht

/-- A closed transaction holds no order, so none that is out of date. -/
theorem current_of_isClosed {tx : Transaction V} (h : tx.phase.isClosed = true) (n : ℕ) :
    tx.Current n := by
  intro hholds
  unfold Phase.isClosed at h
  unfold Phase.holdsOrder at hholds
  split at h
  · next response hphase =>
    rw [hphase] at hholds
    cases hholds
  · cases h

section SerialInv

variable {w w' : World V} {t : TxId} {tx tx' : Transaction V}

/-- A step of the open transaction keeps the invariant if the transaction ends up current. -/
theorem SerialInv.set (h : w.SerialInv) (htx : w.txs[t]? = some tx)
    (hopen : tx.phase.isClosed = false) (htxs : w'.txs = w.txs.set t tx')
    (hcurrent : tx'.Current w'.history.length) : w'.SerialInv := by
  have hlt : t < w.txs.length := (List.getElem?_eq_some_iff.mp htx).1
  -- all but `t` were closed before, and they are not touched
  have hothers : ∀ t' u, t' ≠ t → w'.txs[t']? = some u → u.phase.isClosed = true := by
    intro t' u hne hu
    rw [htxs, List.getElem?_set_ne hne.symm] at hu
    by_contra hu'
    exact hne (h.alone t' u t tx hu htx (by simpa using hu') hopen)
  refine ⟨fun t₁ u₁ t₂ u₂ h₁ h₂ ho₁ ho₂ => ?_, fun t' u hu => ?_⟩
  · have hself : ∀ t' u, w'.txs[t']? = some u → u.phase.isClosed = false → t' = t := by
      intro t' u hu ho
      by_contra hne
      rw [hothers t' u hne hu] at ho
      cases ho
    rw [hself t₁ u₁ h₁ ho₁, hself t₂ u₂ h₂ ho₂]
  · by_cases hne : t' = t
    · subst hne
      rw [htxs, List.getElem?_set_self hlt] at hu
      obtain rfl := Option.some.inj hu
      exact hcurrent
    · exact current_of_isClosed (hothers t' u hne hu) _

/-- Open is what has not been answered. -/
theorem isClosed_eq_false_iff :
    tx.phase.isClosed = false ↔ ∀ response, tx.phase ≠ .closed response := by
  unfold Phase.isClosed
  split
  · next response hphase => simp [hphase]
  · next hphase => simpa using hphase

/-- **One step of a serial run keeps the invariant.** -/
theorem SerialInv.step [BEq V] (hinv : w.Inv) (h : w.SerialInv) {action : Action V}
    (hstep : w.serialStep action = some w') : w'.SerialInv := by
  obtain ⟨hmay, hstep⟩ := serialStep_eq_some_iff.mp hstep
  cases action with
  | begin elapsed request =>
      cases hstep
      have hquiescent := quiescent_iff.mp hmay
      -- only the new transaction is open
      have hnew : ∀ t u, (w.txs ++ [⟨request, w.clock + elapsed, 0, [], .begun⟩])[t]? = some u →
          u.phase.isClosed = false → t = w.txs.length := by
        intro t u hu hopen
        rcases Nat.lt_or_ge t w.txs.length with hlt | hge
        · rw [List.getElem?_append_left hlt] at hu
          rw [hquiescent t u hu] at hopen
          cases hopen
        · have hlt := (List.getElem?_eq_some_iff.mp hu).1
          rw [List.length_append, List.length_singleton] at hlt
          exact Nat.le_antisymm (Nat.le_of_lt_succ hlt) hge
      refine ⟨fun t u t' u' hu hu' hopen hopen' => ?_, fun t u hu => ?_⟩
      · exact (hnew t u hu hopen).trans (hnew t' u' hu' hopen').symm
      · rcases List.mem_append.mp (List.mem_of_getElem? hu) with hold | hnew
        · obtain ⟨t', ht'⟩ := List.mem_iff_getElem?.mp hold
          exact h.current t' u ht'
        · obtain rfl : u = _ := by simpa using hnew
          exact nofun
  | advance t =>
      obtain ⟨tx, htx, hadvance⟩ := Option.bind_eq_some_iff.mp hstep
      have hopen := isClosed_eq_false_iff.mpr (open_of_advance hadvance)
      obtain ⟨tx', htxs, hstatement⟩ := statement_of_advance hadvance
      refine h.set htx hopen htxs ?_
      rcases advance_cases hinv htx hadvance with
        ⟨⟨_, hlocal, -⟩, -⟩ | ⟨order, row, event, -, -, -, -, -, rfl⟩
      · rw [hlocal.history]
        exact hstatement.current (h.current t tx htx)
      · -- a commit makes the ledger longer, but it closes the transaction
        have hlt : t < w.txs.length := (List.getElem?_eq_some_iff.mp htx).1
        have hself := congrArg (fun l => l[t]?) htxs
        simp only [commit, List.getElem?_set_self hlt, Option.some.injEq] at hself
        rw [← hself]
        exact current_of_isClosed rfl _
  | raise t =>
      obtain ⟨tx, htx, hraise⟩ := Option.bind_eq_some_iff.mp hstep
      split at hraise
      · cases hraise
      · next hphase =>
        cases hraise
        have hopen := isClosed_eq_false_iff.mpr hphase
        exact h.set htx hopen (txs_rollback w t tx internalServerError)
          (current_of_isClosed rfl _)

/-- **In a serial run, every entry is fresh.** -/
theorem SerialInv.firstCommitter [BEq V] (h : w.SerialInv) {action : Action V}
    {write : Write V} {event : OutboxEvent V} (hcommitting : w.committing action = some write)
    (hcommits : Commits w.history write event) : write.FirstCommitter w.history := by
  cases action with
  | begin elapsed request => cases hcommitting
  | raise t => cases hcommitting
  | advance t =>
      obtain ⟨tx, htx, hwrite⟩ := Option.bind_eq_some_iff.mp hcommitting
      split at hwrite
      · next order hphase =>
        obtain ⟨row, -, hwrite⟩ := Option.map_eq_some_iff.mp hwrite
        have hcurrent := h.current t tx htx (by rw [hphase]; rfl)
        have hrequest : write.request = tx.request := by rw [← hwrite]
        have hsnapshot : write.snapshot = tx.snapshot := by rw [← hwrite]
        rw [← hrequest, ← hsnapshot] at hcurrent
        clear hwrite hrequest hsnapshot hcommitting
        cases hcommits with
        | insert _ absent _ _ =>
            -- an order that was not there has no writes at all
            intro earlier hearlier
            exact rowAt_eq_none_iff.mp absent earlier (List.mem_of_mem_drop hearlier)
        | @overwrite t request now snapshot loaded order base row changed event _ _ _ assigns
            _ _ _ =>
            rcases hcurrent with ⟨req, hcreate⟩ | hsnapshot
            · -- a create overwrites nothing
              replace hcreate : request.operation = .create req := hcreate
              rw [hcreate] at assigns
              cases assigns
            · replace hsnapshot : snapshot = w.history.length := hsnapshot
              intro earlier hearlier
              rw [hsnapshot, List.drop_length] at hearlier
              cases hearlier
      · cases hwrite

end SerialInv

end World

/-! ### The ledger of a serial run

A write is fresh if its request has seen all earlier writes of the order.  In a serial run all are,
so the guarantees of serial runs are proved by induction on `SerialLedger`. -/

/-- **A serial ledger**: every entry is fresh. -/
inductive SerialLedger [BEq V] : List (Write V) → List (OutboxEvent V) → Prop
  | nil : SerialLedger [] []
  | concat {ws : List (Write V)} {es : List (OutboxEvent V)} {write : Write V}
      {event : OutboxEvent V} (serial : SerialLedger ws es) (commits : Commits ws write event)
      (fresh : write.FirstCommitter ws) : SerialLedger (ws ++ [write]) (es ++ [event])

/-- A serial ledger is a ledger. -/
theorem SerialLedger.ledger [BEq V] {ws : List (Write V)} {es : List (OutboxEvent V)}
    (h : SerialLedger ws es) : Ledger ws es := by
  induction h with
  | nil => exact .nil
  | concat _ commits _ ih => exact .concat ih commits

namespace World

/-- What holds of the worlds of a serial run. -/
structure SerialReachable [BEq V] (w : World V) : Prop where
  inv : w.Inv
  serial : w.SerialInv
  ledger : SerialLedger w.history w.outbox

/-- What a step of a serial run commits is fresh, so the ledger stays serial. -/
theorem SerialReachable.step [BEq V] {w w' : World V} (h : w.SerialReachable) {action : Action V}
    (hstep : w.serialStep action = some w') : w'.SerialReachable := by
  have hstep' := (serialStep_eq_some_iff.mp hstep).2
  refine ⟨h.inv.step hstep', SerialInv.step h.inv h.serial hstep, ?_⟩
  rcases step_effect h.inv hstep' with
    ⟨-, hhistory, houtbox⟩ | ⟨write, event, hcommitting, hcommits, hhistory, houtbox⟩
  · rw [hhistory, houtbox]
    exact h.ledger
  · rw [hhistory, houtbox]
    exact .concat h.ledger hcommits (h.serial.firstCommitter hcommitting hcommits)

/-- **Every world of a serial run has a serial ledger.** -/
theorem serialReachable_of_run [BEq V] {schedule : List (Action V)} {w : World V}
    (h : runSerial schedule = some w) : w.SerialReachable :=
  Transition.run_invariant (fun _ _ _ hs hstep => hs.step hstep)
    ⟨Inv.init, SerialInv.init, .nil⟩ h

/-- **The rule for guarantees about the committed states of serial runs.** -/
theorem serial_iff_atCommit [BEq V] {Q : List (Write V) → Prop}
    {P : List (Write V) → Write V → Prop} (hnil : Q [])
    (hconcat : ∀ ws es write event, SerialLedger ws es → Commits ws write event →
      write.FirstCommitter ws → (Q (ws ++ [write]) ↔ Q ws ∧ P ws write))
    {schedule : List (Action V)} {w : World V} (h : runSerial schedule = some w) :
    Q w.history ↔ Transition.AllSteps serialStep (AtCommit P) init schedule := by
  refine Transition.run_iff_allSteps (Q := fun w => Q w.history)
    ⟨Inv.init, SerialInv.init, .nil⟩ hnil (fun _ _ _ hs hstep => SerialReachable.step hs hstep) ?_ h
  intro s action s' hs hstep
  have heffect := step_effect hs.inv (serialStep_eq_some_iff.mp hstep).2
  refine history_step_iff heffect fun write event hsome hcommits => ?_
  exact hconcat _ _ _ _ hs.ledger hcommits (hs.serial.firstCommitter hsome hcommits)

/-! ### A request that meets no failure

Served on its own, a request is a `BEGIN` and as many statements as it takes.  There is always a
next one until it is answered, for nobody else holds a lock (`exists_advance`); and the number of
them is bounded (`Phase.rank`). -/

/-- Served from `w` on its own, and without a failure, the request leaves the world `w'` when
it is answered. -/
def Serves [BEq V] (w : World V) (elapsed : ℕ) (request : Request V) (w' : World V) : Prop :=
  ∃ n tx response,
    Transition.run step w (.begin elapsed request :: List.replicate n (.advance w.txs.length)) =
      some w' ∧
    w'.txs[w.txs.length]? = some tx ∧ tx.phase = .closed response

/-- Served from `w` on its own, and without a failure, the request is answered with
`response`. -/
def Answers [BEq V] (w : World V) (elapsed : ℕ) (request : Request V) (response : Response V) :
    Prop :=
  ∃ n w' tx,
    Transition.run step w (.begin elapsed request :: List.replicate n (.advance w.txs.length)) =
      some w' ∧
    w'.txs[w.txs.length]? = some tx ∧ tx.phase = .closed response

/-- The error that the service rejects a request with: what `_get_active_order` and the
version check make of the row of the order. -/
def rejection (row : Option (Order V)) (request : Request V) : Option ServiceError :=
  match row with
  | none => some (.orderNotFound request.orderId)
  | some row =>
      if row.deletedAt.isSome then some (.orderAlreadyDeleted request.orderId)
      else
        match request.operation with
        | .update req =>
            if row.version ≠ req.version then some (.optimisticLock req.version row.version)
            else none
        | _ => none

section Answers

variable [BEq V] {w w' : World V} {t : TxId} {tx : Transaction V}

/-- The open transaction of a serial run never has to wait. -/
theorem writer_eq_none (hinv : w.Inv) (h : w.SerialInv) (htx : w.txs[t]? = some tx)
    (hopen : tx.phase.isClosed = false) (hidle : w.Idle t tx) :
    (w.orders tx.request.orderId).writer = none := by
  cases hwriter : (w.orders tx.request.orderId).writer with
  | none => rfl
  | some entry =>
      obtain ⟨t', row⟩ := entry
      obtain ⟨tx', htx', hid⟩ := hinv.owner _ t' row hwriter
      have hown : w.ownTuple t' tx.request.orderId = some row := ownTuple_eq_some_iff.mpr hwriter
      by_cases hne : t' = t
      · subst hne
        rw [hidle.1] at hown
        cases hown
      · -- another transaction that has written a row is open
        have hclosed : tx'.phase.isClosed = true := by
          by_contra hopen'
          exact hne (h.alone t' tx' t tx htx' htx (by simpa using hopen') hopen)
        have hinvTx := hinv.txs t' tx' htx'
        cases hphase : tx'.phase with
        | closed response =>
            rw [TxInv, hphase] at hinvTx
            rw [← hid, hinvTx.1] at hown
            cases hown
        | _ => rw [hphase] at hclosed; cases hclosed

/-- The next statement of a transaction that is there. -/
theorem step_advance (htx : w.txs[t]? = some tx) : w.step (.advance t) = w.advance t tx := by
  show w.txs[t]?.bind _ = _
  rw [htx, Option.bind_some]

/-- An open transaction can take its next statement. -/
theorem exists_advance (hinv : w.Inv) (h : w.SerialInv) (htx : w.txs[t]? = some tx)
    (hopen : tx.phase.isClosed = false) : ∃ w', w.advance t tx = some w' := by
  have hinvTx := hinv.txs t tx htx
  unfold World.advance
  split
  · next hphase =>
    -- only a flush can have to wait, for whoever has locked the row
    rw [TxInv, hphase] at hinvTx
    have hwriter := writer_eq_none hinv h htx hopen hinvTx
    split
    · unfold World.flushInsert
      rw [hwriter]
      dsimp only
      split
      · exact ⟨_, rfl⟩
      · exact ⟨_, rfl⟩
    · exact ⟨_, rfl⟩
  · exact ⟨_, rfl⟩
  · next loaded order changed hphase =>
    rw [TxInv, hphase] at hinvTx
    have hwriter := writer_eq_none hinv h htx hopen hinvTx.1
    unfold World.flushUpdate
    rw [hwriter]
    dsimp only
    split
    · exact ⟨_, rfl⟩
    · exact ⟨_, rfl⟩
  · split
    · exact ⟨_, rfl⟩
    · exact ⟨_, rfl⟩
  · exact ⟨_, rfl⟩
  · exact ⟨_, rfl⟩
  · exact ⟨_, rfl⟩
  · next response hphase =>
    rw [hphase] at hopen
    cases hopen

/-- **An open transaction runs to its answer**, and to success or an unmapped error if the
service has accepted its request. -/
theorem exists_closed (hinv : w.Inv) (h : w.SerialInv) (htx : w.txs[t]? = some tx) :
    ∃ n w' tx' response, Transition.run step w (List.replicate n (.advance t)) = some w' ∧
      w'.txs[t]? = some tx' ∧ tx'.phase = .closed response ∧
      (tx.phase.Accepted → (Phase.closed response).Accepted) := by
  -- by induction on the statements that are left, at most
  induction hrank : tx.phase.rank using Nat.strong_induction_on generalizing w tx with
  | _ rank ih =>
      cases hclosed : tx.phase.isClosed with
      | true =>
          cases hphase : tx.phase with
          | closed response => exact ⟨0, w, tx, response, rfl, htx, hphase, id⟩
          | _ => rw [hphase] at hclosed; cases hclosed
      | false =>
          obtain ⟨w₁, hadvance⟩ := exists_advance hinv h htx hclosed
          have hlt : t < w.txs.length := (List.getElem?_eq_some_iff.mp htx).1
          obtain ⟨tx₁, htxs, hstatement⟩ := statement_of_advance hadvance
          have hstep : w.step (.advance t) = some w₁ := (step_advance htx).trans hadvance
          have hserial : w.serialStep (.advance t) = some w₁ :=
            serialStep_eq_some_iff.mpr ⟨rfl, hstep⟩
          have htx₁ : w₁.txs[t]? = some tx₁ := by rw [htxs, List.getElem?_set_self hlt]
          obtain ⟨n, w', tx', response, hrun, htx', hphase, haccepted⟩ :=
            ih tx₁.phase.rank (hrank ▸ hstatement.rank) (hinv.step hstep)
              (SerialInv.step hinv h hserial) htx₁ rfl
          refine ⟨n + 1, w', tx', response, ?_, htx', hphase, fun hacc =>
            haccepted (hstatement.accepted hacc)⟩
          rw [List.replicate_succ, Transition.run_cons_of_step step hstep, hrun]

/-! What the first statement of a request finds decides about its answer. -/

/-- Every request but a create begins by loading its order. -/
theorem advance_begun (hphase : tx.phase = .begun)
    (hoperation : ∀ req, tx.request.operation ≠ .create req) :
    w.advance t tx = some (w.selectActive t tx) := by
  unfold World.advance
  rw [hphase]
  dsimp only
  split
  · next req hcreate => exact absurd hcreate (hoperation req)
  · rfl

omit [BEq V] in
/-- Where there is no active row, the request is rejected with the error of the second `SELECT`. -/
theorem rejection_of_filter_none {row : Option (Order V)} {request : Request V}
    (hrow : row.filter (·.deletedAt.isNone) = none) :
    rejection row request = some (missingError row request.orderId) := by
  cases row with
  | none => rfl
  | some row =>
      have hdeleted : row.deletedAt.isSome = true := by
        simpa [Option.filter_some, Option.isSome_iff_ne_none] using hrow
      simp only [rejection, missingError, hdeleted, if_true, Option.filter_some]

/-- The order is missing or deleted: two statements, and an error. -/
theorem run_missed (htx : w.txs[t]? = some tx) (hphase : tx.phase = .begun)
    (hoperation : ∀ req, tx.request.operation ≠ .create req)
    (hrow : (w.orders tx.request.orderId).committed.filter (·.deletedAt.isNone) = none) :
    ∃ e w' tx', rejection (w.orders tx.request.orderId).committed tx.request = some e ∧
      Transition.run step w [.advance t, .advance t] = some w' ∧ w'.txs[t]? = some tx' ∧
      tx'.phase = .closed (.error e.toHttp) := by
  have hlt : t < w.txs.length := (List.getElem?_eq_some_iff.mp htx).1
  -- the first statement finds nothing, the second one chooses the error
  have hselect : w.selectActive t tx = w.setPhase t tx .missed := by
    unfold World.selectActive
    rw [hrow]
  have hfirst : w.step (.advance t) = some (w.setPhase t tx .missed) := by
    rw [step_advance htx, advance_begun hphase hoperation, hselect]
  have htx₁ : (w.setPhase t tx .missed).txs[t]? = some { tx with phase := .missed } :=
    List.getElem?_set_self hlt
  have hsecond : (w.setPhase t tx .missed).step (.advance t) =
      some ((w.setPhase t tx .missed).selectDeleted t { tx with phase := .missed }) :=
    step_advance htx₁
  have hlt₁ : t < (w.setPhase t tx .missed).txs.length := (List.getElem?_eq_some_iff.mp htx₁).1
  refine ⟨_, (w.setPhase t tx .missed).selectDeleted t { tx with phase := .missed },
    { tx with inserted := [], phase := .closed (.error _) }, rejection_of_filter_none hrow,
    ?_, ?_, rfl⟩
  · rw [Transition.run_cons_of_step step hfirst, Transition.run_cons_of_step step hsecond,
      Transition.run_nil]
  · rw [selectDeleted_eq, txs_rollback]
    exact List.getElem?_set_self hlt₁

/-- The order is active: the first statement rejects the request, or accepts it. -/
theorem step_active (htx : w.txs[t]? = some tx) (hphase : tx.phase = .begun)
    (hoperation : ∀ req, tx.request.operation ≠ .create req) {row : Order V}
    (hrow : (w.orders tx.request.orderId).committed.filter (·.deletedAt.isNone) = some row) :
    ∃ w' tx', w.step (.advance t) = some w' ∧ w'.txs[t]? = some tx' ∧
      match rejection (w.orders tx.request.orderId).committed tx.request with
      | some e => tx'.phase = .closed (.error e.toHttp)
      | none => tx'.phase.Accepted := by
  have hlt : t < w.txs.length := (List.getElem?_eq_some_iff.mp htx).1
  have hfirst : w.step (.advance t) = some (w.selectActive t tx) :=
    (step_advance htx).trans (advance_begun hphase hoperation)
  obtain ⟨hcommitted, hactive⟩ := Option.filter_eq_some_iff.mp hrow
  have hnone : row.deletedAt.isSome = false := by
    rw [Option.isNone_iff_eq_none.mp hactive]
    rfl
  suffices hselect : ∃ tx', (w.selectActive t tx).txs[t]? = some tx' ∧
      match rejection (w.orders tx.request.orderId).committed tx.request with
      | some e => tx'.phase = .closed (.error e.toHttp)
      | none => tx'.phase.Accepted by
    obtain ⟨tx', htx', hresult⟩ := hselect
    exact ⟨_, tx', hfirst, htx', hresult⟩
  unfold World.selectActive
  rw [hrow, hcommitted]
  unfold rejection
  simp only [hnone, Bool.false_eq_true, if_false]
  cases hop : tx.request.operation with
  | create req => exact absurd hop (hoperation req)
  | get => exact ⟨_, List.getElem?_set_self hlt, trivial⟩
  | delete at_ => exact ⟨_, List.getElem?_set_self hlt, trivial⟩
  | update req =>
      -- only an update is checked any further
      by_cases hversion : row.version ≠ req.version
      · have hupdate : updateOrder req row = .error (.optimisticLock req.version row.version) := by
          rw [updateOrder, if_pos hversion]
        simp only [hupdate, if_pos hversion]
        rw [txs_rollback]
        exact ⟨_, List.getElem?_set_self hlt, rfl⟩
      · have hupdate : ∃ draft, updateOrder req row = .ok draft := by
          rw [updateOrder, if_neg hversion]
          dsimp only
          split
          · exact ⟨_, rfl⟩
          · exact ⟨_, rfl⟩
        obtain ⟨⟨order, changed⟩, hupdate⟩ := hupdate
        simp only [hupdate, if_neg hversion]
        split
        · exact ⟨_, List.getElem?_set_self hlt, trivial⟩
        · exact ⟨_, List.getElem?_set_self hlt, trivial⟩

/-- **What a request is answered with.**  In a quiescent world of a serial run, a `get`,
`update` or `delete` that meets no failure ends in the error that `rejection` reads off the
order's row; if there is none, it ends in success or in an unmapped database error. -/
theorem exists_answers (h : w.SerialReachable) (hquiescent : w.quiescent = true) (elapsed : ℕ)
    {request : Request V} (hoperation : ∀ req, request.operation ≠ .create req) :
    ∃ response, w.Answers elapsed request response ∧
      match rejection (w.orders request.orderId).committed request with
      | some e => response = .error e.toHttp
      | none => (Phase.closed response).Accepted := by
  obtain ⟨w₁, hw₁⟩ : ∃ w₁, w.step (.begin elapsed request) = some w₁ := ⟨_, rfl⟩
  have hserial : w.serialStep (.begin elapsed request) = some w₁ :=
    serialStep_eq_some_iff.mpr ⟨hquiescent, hw₁⟩
  have hreach := h.step hserial
  obtain ⟨tx, htx, hrequest, hphase⟩ : ∃ tx, w₁.txs[w.txs.length]? = some tx ∧
      tx.request = request ∧ tx.phase = .begun := by
    cases hw₁
    exact ⟨_, List.getElem?_concat_length, rfl, rfl⟩
  have horders : w₁.orders = w.orders := by
    cases hw₁
    rfl
  subst hrequest
  rw [← horders]
  have hanswers : ∀ {n w' tx' response},
      Transition.run step w₁ (List.replicate n (.advance w.txs.length)) = some w' →
      w'.txs[w.txs.length]? = some tx' → tx'.phase = .closed response →
      w.Answers elapsed tx.request response := by
    intro n w' tx' response hrun htx' hphase'
    refine ⟨n, w', tx', ?_, htx', hphase'⟩
    rw [Transition.run_cons_of_step step hw₁, hrun]
  -- what the first statement finds decides
  cases hrow : (w₁.orders tx.request.orderId).committed.filter (·.deletedAt.isNone) with
  | none =>
      obtain ⟨e, w', tx', hrejection, hrun, htx', hphase'⟩ :=
        run_missed htx hphase hoperation hrow
      rw [hrejection]
      exact ⟨_, hanswers (n := 2) hrun htx' hphase', rfl⟩
  | some row =>
      obtain ⟨w₂, tx₂, hstep, htx₂, hresult⟩ := step_active htx hphase hoperation hrow
      have hreach₂ : w₂.SerialReachable :=
        hreach.step (serialStep_eq_some_iff.mpr ⟨rfl, hstep⟩)
      obtain ⟨n, w', tx', response, hrun, htx', hphase', haccepted⟩ :=
        exists_closed hreach₂.inv hreach₂.serial htx₂
      have hrun' : Transition.run step w₁
          (List.replicate (n + 1) (.advance w.txs.length)) = some w' := by
        rw [List.replicate_succ, Transition.run_cons_of_step step hstep, hrun]
      cases hrejection : rejection (w₁.orders tx.request.orderId).committed tx.request with
      | none =>
          rw [hrejection] at hresult
          exact ⟨response, hanswers hrun' htx' hphase', haccepted hresult⟩
      | some e =>
          rw [hrejection] at hresult
          refine ⟨_, hanswers (n := 1) ?_ htx₂ hresult, rfl⟩
          rw [List.replicate_one, Transition.run_cons_of_step step hstep, Transition.run_nil]

/-- An answered transaction takes no further statement, so a request leaves one world. -/
theorem Serves.unique {elapsed : ℕ} {request : Request V} {w₁ w₂ : World V}
    (h₁ : w.Serves elapsed request w₁) (h₂ : w.Serves elapsed request w₂) : w₁ = w₂ := by
  -- a longer run would take a statement of an answered transaction
  have hstuck : ∀ {k m u u' v r}, Transition.run step w
      (.begin elapsed request :: List.replicate k (.advance w.txs.length)) = some u →
      Transition.run step w
        (.begin elapsed request :: List.replicate m (.advance w.txs.length)) = some u' →
      u.txs[w.txs.length]? = some v → v.phase = .closed r → k ≤ m → u = u' := by
    intro k m u u' v r hu hu' hv hphase hle
    obtain ⟨d, rfl⟩ := Nat.exists_eq_add_of_le hle
    rw [List.replicate_add, ← List.cons_append, Transition.run_append, hu, Option.bind_some] at hu'
    cases d with
    | zero => exact Option.some.inj hu'
    | succ d =>
        have hclosed : u.step (.advance w.txs.length) = none := by
          rw [step_advance hv]
          simp only [World.advance, hphase]
        rw [List.replicate_succ, Transition.run_cons, hclosed] at hu'
        cases hu'
  obtain ⟨n₁, tx₁, response₁, hrun₁, htx₁, hphase₁⟩ := h₁
  obtain ⟨n₂, tx₂, response₂, hrun₂, htx₂, hphase₂⟩ := h₂
  rcases Nat.le_total n₁ n₂ with hle | hle
  · exact hstuck hrun₁ hrun₂ htx₁ hphase₁ hle
  · exact (hstuck hrun₂ hrun₁ htx₂ hphase₂ hle).symm

/-- A request has one answer. -/
theorem Answers.unique {elapsed : ℕ} {request : Request V} {response response' : Response V}
    (h : w.Answers elapsed request response) (h' : w.Answers elapsed request response') :
    response = response' := by
  obtain ⟨n, w₁, tx₁, hrun, htx₁, hphase⟩ := h
  obtain ⟨n', w₂, tx₂, hrun', htx₂, hphase'⟩ := h'
  have hserves : w.Serves elapsed request w₁ := ⟨n, tx₁, response, hrun, htx₁, hphase⟩
  obtain rfl := hserves.unique ⟨n', tx₂, response', hrun', htx₂, hphase'⟩
  obtain rfl := Option.some.inj (htx₁.symm.trans htx₂)
  rw [hphase] at hphase'
  exact Phase.closed.inj hphase'

end Answers

end World

end OutboxPattern
