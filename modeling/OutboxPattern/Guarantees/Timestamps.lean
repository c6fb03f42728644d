import OutboxPattern.Guarantees.OptimisticLocking

/-!
# Timestamps and versions

`orders.updated_at` and `outbox_events.created_at` are both `NOW()`, the instant a
transaction *began*, while versions follow the order in which transactions *committed*.
Whoever looks for the latest event by `ORDER BY created_at DESC LIMIT 1`, as the smoke test
does, takes the two orders to be one.

`timestampsFollow_iff` says when they are: when every commit has the first committer win,
*and* has begun after the transaction that wrote the order last.  Optimistic locking alone
does not give the second half, as `timestampsFollow_overlap` shows.
-/

namespace OutboxPattern

variable {V : Type}

/-- **Timestamps follow versions**, of a world. -/
structure TimestampsFollow (w : World V) : Prop where
  /-- `updated_at` never decreases from one committed state to the next. -/
  monotone : ∀ id n m a b, n ≤ m → rowAt (w.history.take n) id = some a →
    rowAt (w.history.take m) id = some b → a.updatedAt ≤ b.updatedAt
  /-- Sorting the events of an order by `created_at`, however ties are broken, lists them in
  commit order. -/
  sorted : ∀ id events, events.Perm (eventsOf w.outbox id) →
    events.Pairwise (fun e e' => e.createdAt ≤ e'.createdAt) → events = eventsOf w.outbox id
  /-- That is the order of their versions. -/
  increasing : ∀ id, (eventsOf w.outbox id).Pairwise
    fun e e' => e.payload.version < e'.payload.version

/-- Under every order, the ledger's transactions began in the order they committed. -/
abbrev BegunInOrder (ws : List (Write V)) : Prop :=
  KeyedLog.Ordered Write.orderId Write.began ws

/-- The condition on a commit: first committer, and begun after the last writer. -/
def FollowsLastWriter (ws : List (Write V)) (write : Write V) : Prop :=
  write.FirstCommitter ws ∧
    ∀ last, KeyedLog.last Write.orderId write.orderId ws = some last → last.began < write.began

section Ledger

variable [BEq V] {ws : List (Write V)} {es : List (OutboxEvent V)}

/-- Versions that increase already count `1, 2, 3, …`. -/
theorem Ledger.numbered_iff_ordered (h : Ledger ws es) :
    Numbered ws ↔ KeyedLog.Ordered Write.orderId (fun write => write.new.version) ws := by
  induction h with
  | nil =>
      exact iff_of_true (KeyedLog.numbered_nil Write.orderId _)
        (KeyedLog.ordered_nil Write.orderId _)
  | @concat ws es write event _ commits ih =>
      rw [Numbered, KeyedLog.numbered_concat Write.orderId _ Write.snapshot commits.derived,
        KeyedLog.ordered_concat, ← ih]
      exact and_congr_right fun hnumbered =>
        commits.derived.fresh_iff Write.orderId _ Write.snapshot hnumbered

/-- What an event stamps is the begin of its transaction. -/
theorem Ledger.pairwise_createdAt (h : Ledger ws es) (id : UUID) :
    ((eventsOf es id).Pairwise fun e e' => e.createdAt < e'.createdAt) ↔
      ((writesOf ws id).map Write.began).Pairwise (· < ·) := by
  rw [← h.map_eventsOf id fun write event hcorresponds => hcorresponds.createdAt.symm,
    List.pairwise_map]

theorem Ledger.pairwise_version (h : Ledger ws es) (id : UUID) :
    ((eventsOf es id).Pairwise fun e e' => e.payload.version < e'.payload.version) ↔
      ((writesOf ws id).map fun write => write.new.version).Pairwise (· < ·) := by
  rw [← h.map_eventsOf id fun write event hcorresponds => hcorresponds.payload.version.symm,
    List.pairwise_map]

/-- The row of an order carries the begin of the transaction that wrote it. -/
theorem Ledger.updatedAt_eq (h : Ledger ws es) {id : UUID} {n : ℕ} {row : Order V}
    (hrow : rowAt (ws.take n) id = some row) :
    ∃ write, KeyedLog.last Write.orderId id (ws.take n) = some write ∧
      row.updatedAt = write.began := by
  obtain ⟨write, hwrite, rfl⟩ := Option.map_eq_some_iff.mp hrow
  refine ⟨write, hwrite, ?_⟩
  have hmem := List.mem_of_mem_take (KeyedLog.mem_of_last Write.orderId hwrite).1
  obtain ⟨i, hi⟩ := List.mem_iff_getElem?.mp hmem
  obtain ⟨event, -, hcommits⟩ := h.entry hi
  cases hcommits with
  | insert _ _ stored _ =>
      obtain ⟨-, currency, -, rfl⟩ := Order.store_eq_some_iff.mp stored
      rfl
  | overwrite _ _ _ _ _ written _ => exact (updateRow_keeps written).2.2.2.2

/-- In a ledger begun in order, `updated_at` never decreases. -/
theorem Ledger.updatedAt_le (h : Ledger ws es) (hbegun : BegunInOrder ws) {id : UUID} {n m : ℕ}
    (hle : n ≤ m) {a b : Order V} (ha : rowAt (ws.take n) id = some a)
    (hb : rowAt (ws.take m) id = some b) : a.updatedAt ≤ b.updatedAt := by
  obtain ⟨x, hx, hxa⟩ := h.updatedAt_eq ha
  obtain ⟨y, hy, hyb⟩ := h.updatedAt_eq hb
  have hsplit := List.take_append_drop n (ws.take m)
  rw [List.take_take, min_eq_left hle] at hsplit
  have hprefix : BegunInOrder (ws.take n ++ (ws.take m).drop n) := by
    intro k
    rw [hsplit]
    refine (hbegun k).sublist (List.Sublist.map _ ?_)
    exact (List.take_sublist m ws).filter _
  rw [hxa, hyb]
  exact hprefix.last_le Write.orderId Write.began hx (by rwa [hsplit])

end Ledger

/-- **The law, along the ledger.** -/
theorem World.Inv.timestampsFollow_iff_ordered [BEq V] {w : World V} (h : w.Inv) :
    TimestampsFollow w ↔ Numbered w.history ∧ BegunInOrder w.history := by
  have hversions : (∀ id, (eventsOf w.outbox id).Pairwise
      fun e e' => e.payload.version < e'.payload.version) ↔ Numbered w.history := by
    rw [h.ledger.numbered_iff_ordered]
    exact forall_congr' h.ledger.pairwise_version
  -- events of increasing versions are distinct, whatever else they carry
  have hnodup : Numbered w.history → ∀ id, (eventsOf w.outbox id).Nodup := by
    intro hnumbered id
    refine (hversions.mpr hnumbered id).imp ?_
    rintro e e' hlt rfl
    exact lt_irrefl _ hlt
  constructor
  · intro hlaw
    have hnumbered := hversions.mp hlaw.increasing
    refine ⟨hnumbered, fun id => (h.ledger.pairwise_createdAt id).mp ?_⟩
    exact (KeyedLog.sorted_unique_iff _ (hnodup hnumbered id)).mp (hlaw.sorted id)
  · rintro ⟨hnumbered, hbegun⟩
    refine ⟨fun id n m a b hle => h.ledger.updatedAt_le hbegun hle, fun id => ?_,
      hversions.mpr hnumbered⟩
    refine (KeyedLog.sorted_unique_iff _ (hnodup hnumbered id)).mpr ?_
    exact (h.ledger.pairwise_createdAt id).mpr (hbegun id)

/-- **When timestamps follow versions.**  A run ends with timestamps in the order of
versions exactly when each commit is of a transaction that read the order's present row and
began after the last one that wrote it. -/
theorem timestampsFollow_iff [BEq V] {schedule : List (Action V)} {w : World V}
    (h : World.runFromInit schedule = some w) :
    TimestampsFollow w ↔
      Transition.AllSteps World.step (World.AtCommit FollowsLastWriter) World.init schedule := by
  rw [(World.inv_of_run h).timestampsFollow_iff_ordered]
  refine World.history_iff_atCommit (Q := fun ws => Numbered ws ∧ BegunInOrder ws)
    ⟨KeyedLog.numbered_nil Write.orderId _, KeyedLog.ordered_nil Write.orderId _⟩ ?_ h
  intro ws es write event _ hcommits
  rw [Numbered, KeyedLog.numbered_concat Write.orderId _ Write.snapshot hcommits.derived,
    BegunInOrder, KeyedLog.ordered_concat]
  exact and_and_and_comm

/-- A delete begins, an update begins after it and commits, and the delete then reads what
the update left: its version is the higher one, its timestamps are the lower ones. -/
def Sample.overlap : List (Action ℕ) :=
  [.begin 1 create] ++ statements 3 0 ++
  [.begin 1 delete, .begin 1 (update (some .confirmed) none)] ++
  statements 5 2 ++ statements 5 1

theorem timestampsFollow_iff_overlap :
    ∃ w, World.runFromInit Sample.overlap = some w ∧ (TimestampsFollow w ↔
      Transition.AllSteps World.step (World.AtCommit FollowsLastWriter) World.init
        Sample.overlap) := by
  have hrun : (World.runFromInit Sample.overlap).isSome := by decide
  obtain ⟨w, hw⟩ := Option.isSome_iff_exists.mp hrun
  exact ⟨w, hw, timestampsFollow_iff hw⟩

/-- In that run the first committer always wins, and still `updated_at` goes back. -/
theorem timestampsFollow_overlap :
    ∃ w, World.runFromInit Sample.overlap = some w ∧
      (eventsOf w.outbox Sample.orderId).map (·.payload.version) = [1, 2, 3] ∧
      ¬ TimestampsFollow w := by
  have hrun : (World.runFromInit Sample.overlap).map (fun w =>
      ((eventsOf w.outbox Sample.orderId).map (·.payload.version),
        (rowAt (w.history.take 2) Sample.orderId).map Order.updatedAt,
        (rowAt (w.history.take 3) Sample.orderId).map Order.updatedAt)) =
      some ([1, 2, 3], some 3, some 2) := by decide
  obtain ⟨w, hw, hfacts⟩ := Option.map_eq_some_iff.mp hrun
  simp only [Prod.mk.injEq] at hfacts
  obtain ⟨hversions, hbefore, hafter⟩ := hfacts
  obtain ⟨a, ha, hupdated⟩ := Option.map_eq_some_iff.mp hbefore
  obtain ⟨b, hb, hupdated'⟩ := Option.map_eq_some_iff.mp hafter
  refine ⟨w, hw, hversions, fun hlaw => ?_⟩
  have hle := hlaw.monotone Sample.orderId 2 3 a b (by decide) ha hb
  rw [hupdated, hupdated'] at hle
  exact absurd hle (by decide)

end OutboxPattern
