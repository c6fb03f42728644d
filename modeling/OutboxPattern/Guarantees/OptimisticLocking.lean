import OutboxPattern.Guarantees.Atomicity

/-!
# Optimistic locking

`update_order` compares the version of the row it loaded with the one in the request and
answers 409 when they differ.  The comparison is a statement of its own: nothing ties it
to the `UPDATE`, which names the primary key only.  So the law that the comparison is
there for, `NoLostUpdate`, is a law about schedules.

* Each write is numbered one past the version its request had loaded (`Commits.derived`),
  so the versions of an order count `1, 2, 3, …` exactly as long as every write finds the
  row as it was loaded.  This is `KeyedLog.numbered_concat`.
* `noLostUpdate_iff` concludes that the law holds at the end of a run exactly when the
  *first committer wins* at every commit of the run.
* `lostUpdate_race` is a run of two updates in which it does not.
-/

namespace OutboxPattern

variable {V : Type}

/-- The versions of the ledger: under every order they count `1, 2, 3, …`. -/
abbrev Numbered (ws : List (Write V)) : Prop :=
  KeyedLog.Numbered Write.orderId (fun write => write.new.version) ws

/-- **No lost update**, of a world. -/
structure NoLostUpdate [BEq V] (w : World V) : Prop where
  /-- An update replaced a row of the version it was based on. -/
  overwrote : ∀ write ∈ w.history, ∀ req, write.request.operation = .update req →
    ∃ row, write.old = some row ∧ row.version = req.version
  /-- No two updates of an order are based on the same version. -/
  once : ∀ a ∈ w.history, ∀ b ∈ w.history, ∀ req req', a.request.operation = .update req →
    b.request.operation = .update req' → a.orderId = b.orderId → req.version = req'.version →
    a.xid = b.xid
  /-- An update that arrives with a version another one was based on is answered with the
  conflict. -/
  conflict : ∀ t tx req row, w.txs[t]? = some tx → tx.phase = .begun →
    tx.request.operation = .update req →
    (w.orders tx.request.orderId).committed = some row → row.deletedAt = none →
    (∃ write ∈ w.history, ∃ req', write.request.operation = .update req' ∧
      write.orderId = tx.request.orderId ∧ req'.version = req.version) →
    w.advance t tx = some (w.rollback t { tx with snapshot := w.history.length }
      (ServiceError.optimisticLock req.version row.version).toHttp)
  /-- The events of an order carry the versions `1, 2, 3, …`. -/
  numbered : ∀ id, (eventsOf w.outbox id).map (·.payload.version) =
    List.range' 1 (eventsOf w.outbox id).length

/-! ### What numbering the ledger buys -/

section Numbered

variable [BEq V] {ws : List (Write V)} {es : List (OutboxEvent V)}

/-- The numbering of the events is the numbering of the writes. -/
theorem Ledger.numbered_iff (h : Ledger ws es) :
    Numbered ws ↔ ∀ id, (eventsOf es id).map (·.payload.version) =
      List.range' 1 (eventsOf es id).length := by
  refine forall_congr' fun id => ?_
  rw [h.map_eventsOf id fun write event hcorresponds => hcorresponds.payload.version.symm,
    (h.corresponds_of id).length_eq]

omit [BEq V] in
/-- A fresh overwrite replaces the very row that it had loaded. -/
theorem Write.FirstCommitter.loaded_eq {write : Write V} (h : write.FirstCommitter ws) :
    write.loaded ws = rowAt ws write.orderId := by
  rw [Write.loaded, rowAt, rowAt, KeyedLog.last_take_of_untouched Write.orderId h]

/-- The version that an update of the ledger was based on is the one below its own. -/
theorem Commits.version_update {write : Write V} {event : OutboxEvent V}
    (h : Commits ws write event) {req : UpdateOrderRequest V}
    (hoperation : write.request.operation = .update req) :
    write.new.version = req.version + 1 ∧
      ∃ loaded, write.loaded ws = some loaded ∧ loaded.version = req.version := by
  cases h with
  | insert operation _ _ _ =>
      rw [operation] at hoperation
      cases hoperation
  | @overwrite t request now snapshot loaded order base row changed event _ read _ assigns
      _ written _ =>
      replace hoperation : request.operation = .update req := hoperation
      have hversion := updateRow_version written assigns.version_eq
      rw [hoperation] at assigns
      cases assigns with
      | update updated changes =>
          obtain ⟨hloaded, -, -⟩ := (updateOrder_eq_ok_iff changes).mp updated
          exact ⟨hloaded ▸ hversion, loaded, read, hloaded⟩

/-- In a numbered ledger every entry was fresh. -/
theorem Ledger.firstCommitter_of_numbered (h : Ledger ws es) (hnumbered : Numbered ws) {i : ℕ}
    {write : Write V} (hwrite : ws[i]? = some write) : write.FirstCommitter (ws.take i) := by
  obtain ⟨event, -, hcommits⟩ := h.entry hwrite
  have hprefix : Numbered (ws.take i ++ [write]) := by
    have htake := hnumbered.take Write.orderId _ (i + 1)
    rwa [List.take_add_one, hwrite] at htake
  exact ((KeyedLog.numbered_concat Write.orderId _ Write.snapshot hcommits.derived).mp hprefix).2

/-- In a numbered ledger, an update replaced a row of the version it was based on. -/
theorem Ledger.overwrote (h : Ledger ws es) (hnumbered : Numbered ws) {write : Write V}
    (hmem : write ∈ ws) {req : UpdateOrderRequest V}
    (hoperation : write.request.operation = .update req) :
    ∃ row, write.old = some row ∧ row.version = req.version := by
  obtain ⟨i, hi⟩ := List.mem_iff_getElem?.mp hmem
  obtain ⟨event, -, hcommits⟩ := h.entry hi
  obtain ⟨-, loaded, hloaded, hversion⟩ := hcommits.version_update hoperation
  refine ⟨loaded, ?_, hversion⟩
  rw [hcommits.old_eq, ← (h.firstCommitter_of_numbered hnumbered hi).loaded_eq, hloaded]

/-- Every update of a ledger carries the version after the one it was based on. -/
theorem Ledger.version_update (h : Ledger ws es) {write : Write V} (hmem : write ∈ ws)
    {req : UpdateOrderRequest V} (hoperation : write.request.operation = .update req) :
    write.new.version = req.version + 1 := by
  obtain ⟨i, hi⟩ := List.mem_iff_getElem?.mp hmem
  obtain ⟨event, -, hcommits⟩ := h.entry hi
  exact (hcommits.version_update hoperation).1

/-- In a numbered ledger the present row's version exceeds every version that an update
was based on. -/
theorem Ledger.version_lt (h : Ledger ws es) (hnumbered : Numbered ws) {write : Write V}
    (hmem : write ∈ ws) {req : UpdateOrderRequest V}
    (hoperation : write.request.operation = .update req) {row : Order V}
    (hrow : rowAt ws write.orderId = some row) : req.version < row.version := by
  have hlast := hnumbered.last_version Write.orderId _ write.orderId
  obtain ⟨last, hlast', rfl⟩ := Option.map_eq_some_iff.mp hrow
  rw [hlast', Option.map_some, Option.getD_some] at hlast
  have hversion : write.new.version ∈ (writesOf ws write.orderId).map fun w => w.new.version :=
    List.mem_map_of_mem ((KeyedLog.mem_entries Write.orderId).mpr ⟨hmem, rfl⟩)
  rw [hnumbered, List.mem_range'_1] at hversion
  rw [h.version_update hmem hoperation] at hversion
  show req.version < last.new.version
  omega

end Numbered

/-- A stale version is rejected by the statement that reads the row. -/
theorem World.advance_stale [BEq V] {w : World V} {t : TxId} {tx : Transaction V}
    {req : UpdateOrderRequest V} {row : Order V} (hphase : tx.phase = .begun)
    (hoperation : tx.request.operation = .update req)
    (hrow : (w.orders tx.request.orderId).committed = some row) (hactive : row.deletedAt = none)
    (hstale : row.version ≠ req.version) :
    w.advance t tx = some (w.rollback t { tx with snapshot := w.history.length }
      (ServiceError.optimisticLock req.version row.version).toHttp) := by
  have hrejected : updateOrder req row = .error (.optimisticLock req.version row.version) := by
    rw [updateOrder, if_pos hstale]
  simp only [World.advance, hphase, hoperation, World.selectActive, hrow, Option.filter_some,
    hactive, Option.isNone_none, if_true, hrejected]

/-- **The law is the numbering of the ledger.** -/
theorem World.Inv.noLostUpdate_iff_numbered [BEq V] {w : World V} (h : w.Inv) :
    NoLostUpdate w ↔ Numbered w.history := by
  rw [h.ledger.numbered_iff]
  refine ⟨NoLostUpdate.numbered, fun hevents => ?_⟩
  have hnumbered := h.ledger.numbered_iff.mpr hevents
  refine ⟨fun write hmem req => h.ledger.overwrote hnumbered hmem, ?_, ?_, hevents⟩
  · intro a ha b hb req req' hreq hreq' horder hversion
    have hinjective := List.inj_on_of_nodup_map (hnumbered.nodup_versions Write.orderId _ b.orderId)
    refine congrArg Write.xid (hinjective ?_ ?_ ?_)
    · exact (KeyedLog.mem_entries Write.orderId).mpr ⟨ha, horder⟩
    · exact (KeyedLog.mem_entries Write.orderId).mpr ⟨hb, rfl⟩
    · show a.new.version = b.new.version
      rw [h.ledger.version_update ha hreq, h.ledger.version_update hb hreq', hversion]
  · rintro t tx req row - hphase hoperation hrow hactive ⟨write, hmem, req', hreq', horder, hused⟩
    refine World.advance_stale hphase hoperation hrow hactive fun hcurrent => ?_
    rw [h.table, ← horder] at hrow
    have hlt := h.ledger.version_lt hnumbered hmem hreq' hrow
    omega

/-! ### The law, and when it holds -/

/-- **First committer wins**, of a step: if it commits a write of an order, no other write
of the order was committed since the request loaded the row. -/
def FirstCommitterWins (w : World V) (action : Action V) : Prop :=
  World.AtCommit (fun ws write => write.FirstCommitter ws) w action

/-- **When no update is lost.**  A run ends without a lost update exactly when the first
committer wins at each of its steps. -/
theorem noLostUpdate_iff [BEq V] {schedule : List (Action V)} {w : World V}
    (h : World.runFromInit schedule = some w) :
    NoLostUpdate w ↔
      Transition.AllSteps World.step FirstCommitterWins World.init schedule := by
  rw [(World.inv_of_run h).noLostUpdate_iff_numbered]
  refine World.history_iff_atCommit (KeyedLog.numbered_nil Write.orderId _) ?_ h
  intro ws es write event _ hcommits
  exact KeyedLog.numbered_concat Write.orderId _ Write.snapshot hcommits.derived

theorem noLostUpdate_iff_race :
    ∃ w, World.runFromInit Sample.race = some w ∧ (NoLostUpdate w ↔
      Transition.AllSteps World.step FirstCommitterWins World.init Sample.race) := by
  have hrun : (World.runFromInit Sample.race).isSome := by decide
  obtain ⟨w, hw⟩ := Option.isSome_iff_exists.mp hrun
  exact ⟨w, hw, noLostUpdate_iff hw⟩

/-- Two updates read version 1, one after the other they write version 2, and both are
answered with success. -/
def Sample.lostUpdate : List (Action ℕ) :=
  [.begin 1 create] ++ statements 3 0 ++
  [.begin 1 (update (some .confirmed) none),
    .begin 1 (update (some .shipped) none), .advance 1, .advance 2] ++
  statements 4 1 ++ statements 4 2

theorem lostUpdate_race :
    ∃ w, World.runFromInit Sample.lostUpdate = some w ∧ ¬ NoLostUpdate w := by
  have hrun : (World.runFromInit Sample.lostUpdate).map
      (fun w => (eventsOf w.outbox Sample.orderId).map (·.payload.version)) =
      some [1, 2, 2] := by decide
  obtain ⟨w, hw, hversions⟩ := Option.map_eq_some_iff.mp hrun
  refine ⟨w, hw, fun hlaw => ?_⟩
  have hnumbered := hlaw.numbered Sample.orderId
  rw [hversions] at hnumbered
  have hlength := congrArg List.length hversions
  rw [List.length_map] at hlength
  rw [hlength] at hnumbered
  exact absurd hnumbered (by decide)

end OutboxPattern
