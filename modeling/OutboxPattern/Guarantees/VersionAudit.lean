import OutboxPattern.Guarantees.OptimisticLocking

/-!
# Finding lost updates afterwards

Nothing in the database says of a write that it has overwritten another one unseen.  But the
version of an order does, together with the number of its events: a write increments the version
that its request had *loaded*, and so the version counts the writes that have built on one another,
and the outbox counts all of them.

`versionAudit` says that comparing the two numbers, order by order, is an exact test.  It needs
nothing but the two tables as they are, which makes it one query.
-/

namespace OutboxPattern

variable {V : Type}

/-- All entries of a ledger are numbered from the one that their request had loaded. -/
theorem Ledger.allDerived [BEq V] {ws : List (Write V)} {es : List (OutboxEvent V)}
    (h : Ledger ws es) :
    KeyedLog.AllEntries
      (KeyedLog.Derived Write.orderId (fun write => write.new.version) Write.snapshot) ws := by
  intro i write hwrite
  obtain ⟨event, -, hcommits⟩ := h.entry hwrite
  exact hcommits.derived

/-- No write of the order has overwritten one that its request had not seen. -/
def NothingLost (w : World V) (id : UUID) : Prop :=
  KeyedLog.AllEntries (fun ws write => write.orderId = id → write.FirstCommitter ws) w.history

/-- **Lost updates can be found afterwards.**  In any run, the version of an order is at most the
number of its events, and it is that number exactly when no write of the order has overwritten one
that its request had not seen. -/
theorem versionAudit [BEq V] {schedule : List (Action V)} {w : World V}
    (h : World.runFromInit schedule = some w) {id : UUID} {row : Order V}
    (hrow : (w.orders id).committed = some row) :
    row.version ≤ (eventsOf w.outbox id).length ∧
      (row.version = (eventsOf w.outbox id).length ↔ NothingLost w id) := by
  have hinv := World.inv_of_run h
  have hcount := KeyedLog.last_version_le_and_eq_iff Write.orderId
    (fun write => write.new.version) Write.snapshot hinv.ledger.allDerived id
  have hversion : ((KeyedLog.last Write.orderId id w.history).map
      fun write => write.new.version).getD 0 = row.version := by
    rw [hinv.table] at hrow
    obtain ⟨write, hlast, rfl⟩ := Option.map_eq_some_iff.mp hrow
    rw [hlast]
    rfl
  rw [hversion, (hinv.ledger.corresponds_of id).length_eq] at hcount
  exact hcount

/-- Two updates that have read the same version leave version 2, and three events. -/
theorem versionAudit_lost :
    ∃ w row, World.runFromInit Sample.lostUpdate = some w ∧
      (w.orders Sample.orderId).committed = some row ∧ row.version = 2 ∧
      (eventsOf w.outbox Sample.orderId).length = 3 ∧ ¬ NothingLost w Sample.orderId := by
  have hrun : (World.runFromInit Sample.lostUpdate).bind (fun w =>
      (w.orders Sample.orderId).committed.map fun row =>
        (row.version, (eventsOf w.outbox Sample.orderId).length)) = some (2, 3) := by decide
  obtain ⟨w, hw, hrow⟩ := Option.bind_eq_some_iff.mp hrun
  obtain ⟨row, hrow, hfacts⟩ := Option.map_eq_some_iff.mp hrow
  obtain ⟨hversion, hevents⟩ := Prod.mk.inj hfacts
  refine ⟨w, row, hw, hrow, hversion, hevents, fun hnothing => ?_⟩
  have hcount := (versionAudit hw hrow).2.mpr hnothing
  omega

end OutboxPattern
