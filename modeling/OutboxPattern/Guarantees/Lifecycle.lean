import OutboxPattern.Guarantees.Deletion
import OutboxPattern.Guarantees.OptimisticLocking
import OutboxPattern.Orders.Serial

/-!
# The life of an order in a serial run

When requests come one after the other, the three views of an order agree: its row, the
list of its events, and what the API answers.  The events are one `ORDER_CREATED`, then any
number of `ORDER_UPDATED`, then at most one `ORDER_DELETED`; the row is what the last of
them says; and the answer to the next request can be read off the list.

A serial ledger is numbered and keeps its deletes last, so the two laws that fail under
concurrency (`OptimisticLocking`, `Deletion`) are the lemmas here.
-/

namespace OutboxPattern

variable {V : Type}

/-! ### Serial ledgers -/

section SerialLedger

variable [BEq V] {ws : List (Write V)} {es : List (OutboxEvent V)}

omit [BEq V] in
/-- A fresh entry respects the deletions before it. -/
theorem Write.FirstCommitter.respectsDeletion {write : Write V} (h : write.FirstCommitter ws) :
    RespectsDeletion ws write := by
  refine ⟨fun earlier hearlier _ => (h earlier hearlier).symm,
    fun loaded base _ hloaded hbase hwas => ?_⟩
  rw [h.loaded_eq, hbase, Option.some.injEq] at hloaded
  rwa [hloaded]

theorem SerialLedger.numbered (h : SerialLedger ws es) : Numbered ws := by
  induction h with
  | nil => exact KeyedLog.numbered_nil Write.orderId _
  | concat _ commits fresh ih =>
      exact (KeyedLog.numbered_concat Write.orderId _ Write.snapshot commits.derived).mpr
        ⟨ih, fresh⟩

theorem SerialLedger.deletesLast (h : SerialLedger ws es) : DeletesLast ws := by
  induction h with
  | nil => exact ⟨.nil, by simp⟩
  | concat serial commits fresh ih =>
      exact (commits.deletesLast_iff serial.ledger).mpr ⟨ih, fresh.respectsDeletion⟩

/-- An order without events is an order without a row. -/
theorem Ledger.eventsOf_eq_nil_iff (h : Ledger ws es) (id : UUID) :
    eventsOf es id = [] ↔ rowAt ws id = none := by
  rw [rowAt_eq_none_iff, ← KeyedLog.entries_eq_nil_iff, ← List.length_eq_zero_iff,
    ← List.length_eq_zero_iff, (h.corresponds_of id).length_eq]

end SerialLedger

/-! ### The shape of an event list -/

/-- The types of the events of an order, in commit order. -/
inductive Lifecycle : List OutboxEventType → Prop
  /-- No such order. -/
  | absent : Lifecycle []
  /-- Created, and updated `k` times. -/
  | active (k : ℕ) : Lifecycle (.orderCreated :: List.replicate k .orderUpdated)
  /-- Created, updated `k` times, and deleted. -/
  | deleted (k : ℕ) :
      Lifecycle (.orderCreated :: (List.replicate k .orderUpdated ++ [.orderDeleted]))

/-- The types of a list of events. -/
abbrev typesOf (events : List (OutboxEvent V)) : List OutboxEventType :=
  events.map OutboxEvent.eventType

/-- **The events of an order in a serial ledger have the shape of a lifecycle.** -/
theorem SerialLedger.lifecycle [BEq V] {ws : List (Write V)} {es : List (OutboxEvent V)}
    (h : SerialLedger ws es) (id : UUID) : Lifecycle (typesOf (eventsOf es id)) := by
  induction h with
  | nil => exact .absent
  | @concat ws es write event serial commits fresh ih =>
      by_cases hid : event.aggregateId = id
      · subst hid
        have hwhole := SerialLedger.concat serial commits fresh
        have hcorresponds := commits.corresponds serial.ledger
        -- no delete comes before the new event
        have hbefore := hwhole.deletesLast.pairwise_eventsOf hwhole.ledger event.aggregateId
        rw [eventsOf_concat_self, List.pairwise_append] at hbefore
        have hnodelete : OutboxEventType.orderDeleted ∉
            typesOf (eventsOf es event.aggregateId) := by
          intro hmem
          obtain ⟨e, he, htype⟩ := List.mem_map.mp hmem
          exact hbefore.2.2 e he event (by simp) htype
        have hcreated : event.eventType = .orderCreated ↔
            typesOf (eventsOf es event.aggregateId) = [] := by
          rw [← hcorresponds.created, commits.old_eq, ← hcorresponds.aggregateId,
            List.map_eq_nil_iff, serial.ledger.eventsOf_eq_nil_iff]
        rw [eventsOf_concat_self, typesOf, List.map_append]
        show Lifecycle (typesOf (eventsOf es event.aggregateId) ++ [event.eventType])
        generalize typesOf (eventsOf es event.aggregateId) = types at ih hnodelete hcreated
        generalize event.eventType = type at hcreated
        cases ih with
        | absent =>
            rw [hcreated.mpr rfl]
            exact .active 0
        | active k =>
            cases type with
            | orderCreated => cases hcreated.mp rfl
            | orderUpdated =>
                rw [List.cons_append, ← List.replicate_succ']
                exact .active (k + 1)
            | orderDeleted => exact .deleted k
        | deleted k => exact absurd (by simp) hnodelete
      · rw [eventsOf_concat_of_ne hid]
        exact ih

/-! ### The guarantee -/

/-- The last event of an order is its deletion. -/
abbrev EndsDeleted (w : World V) (id : UUID) : Prop :=
  (eventsOf w.outbox id).getLast?.map OutboxEvent.eventType = some .orderDeleted

/-- **The life of an order**: its events, and its row. -/
structure OrderLifecycle (w : World V) (id : UUID) : Prop where
  shape : Lifecycle (typesOf (eventsOf w.outbox id))
  versions : (eventsOf w.outbox id).map (·.payload.version) =
    List.range' 1 (eventsOf w.outbox id).length
  absent : (w.orders id).committed = none ↔ eventsOf w.outbox id = []
  version : ∀ row, (w.orders id).committed = some row →
    row.version = (eventsOf w.outbox id).length
  deleted : ∀ row, (w.orders id).committed = some row →
    (row.deletedAt.isSome = true ↔ EndsDeleted w id)
  cancelled : ∀ row, (w.orders id).committed = some row → row.deletedAt.isSome = true →
    row.status = .cancelled
  isDeleted : ∀ event ∈ eventsOf w.outbox id,
    (event.payload.isDeleted = true ↔ event.eventType = .orderDeleted)

/-- **What the next request on an order is answered with**, as far as its events decide
it. -/
structure Outcome (w : World V) (request : Request V) (response : Response V) : Prop where
  notFound : Response.statusCode false response = 404 ↔ eventsOf w.outbox request.orderId = []
  gone : Response.statusCode false response = 410 ↔ EndsDeleted w request.orderId
  conflict : ∀ req, request.operation = .update req →
    eventsOf w.outbox request.orderId ≠ [] → ¬ EndsDeleted w request.orderId →
    (Response.statusCode false response = 409 ↔
      req.version ≠ (eventsOf w.outbox request.orderId).length)

section Guarantee

variable [BEq V] {w : World V}

theorem World.SerialReachable.orderLifecycle (h : w.SerialReachable) (id : UUID) :
    OrderLifecycle w id := by
  have hledger := h.ledger.ledger
  have hlast := h.ledger.deletesLast
  have hsource := hledger.last_corresponds id
  have hrow : ∀ row, (w.orders id).committed = some row → ∃ write event,
      KeyedLog.last Write.orderId id w.history = some write ∧ write.new = row ∧
      (eventsOf w.outbox id).getLast? = some event ∧ Corresponds write event := by
    intro row hrow
    rw [h.inv.table] at hrow
    obtain ⟨write, hwrite, hnew⟩ := Option.map_eq_some_iff.mp hrow
    rw [hwrite] at hsource
    generalize hevent : KeyedLog.last OutboxEvent.aggregateId id w.outbox = event at hsource
    cases hsource with
    | some hcorresponds => exact ⟨write, _, hwrite, hnew, hevent, hcorresponds⟩
  have hdeleted : ∀ row, (w.orders id).committed = some row →
      (row.deletedAt.isSome = true ↔ EndsDeleted w id) := by
    intro row hcommitted
    obtain ⟨write, event, hwrite, rfl, hevent, hcorresponds⟩ := hrow row hcommitted
    rw [hlast.deletedAt_iff hledger hwrite, EndsDeleted, hevent, Option.map_some,
      Operation.IsDelete, hcorresponds.eventType]
  refine ⟨h.ledger.lifecycle id, hledger.numbered_iff.mp h.ledger.numbered id, ?_, ?_, hdeleted,
    ?_, ?_⟩
  · rw [h.inv.table, hledger.eventsOf_eq_nil_iff]
  · intro row hcommitted
    obtain ⟨write, event, hwrite, rfl, -, -⟩ := hrow row hcommitted
    have hversion := h.ledger.numbered.last_version Write.orderId _ id
    rw [hwrite, Option.map_some, Option.getD_some] at hversion
    rw [hversion, (hledger.corresponds_of id).length_eq]
  · intro row hcommitted hsome
    obtain ⟨write, event, hwrite, rfl, -, -⟩ := hrow row hcommitted
    exact hlast.2 write (KeyedLog.mem_of_last Write.orderId hwrite).1
      ((hlast.deletedAt_iff hledger hwrite).mp hsome)
  · intro event hevent
    obtain ⟨write, -, hcorresponds⟩ :=
      hledger.exists_write ((KeyedLog.mem_entries OutboxEvent.aggregateId).mp hevent).1
    exact hcorresponds.isDeleted

omit [BEq V] in
/-- A request that the service accepts ends in 200 or 500. -/
theorem statusCode_of_accepted {response : Response V} (h : (Phase.closed response).Accepted) :
    Response.statusCode false response = 200 ∨ Response.statusCode false response = 500 := by
  cases response with
  | ok order => exact Or.inl rfl
  | error e =>
      obtain rfl : e = internalServerError := h
      exact Or.inr rfl

omit [BEq V] in
/-- What `rejection` reads off the row can be read off the events. -/
theorem OrderLifecycle.outcome {request : Request V} (h : OrderLifecycle w request.orderId)
    {response : Response V}
    (hresponse : match World.rejection (w.orders request.orderId).committed request with
      | some e => response = .error e.toHttp
      | none => (Phase.closed response).Accepted) : Outcome w request response := by
  cases hrow : (w.orders request.orderId).committed with
  | none =>
      have hnil := h.absent.mp hrow
      have hends : ¬ EndsDeleted w request.orderId := by
        rw [EndsDeleted, hnil]
        nofun
      rw [hrow] at hresponse
      obtain rfl : response = .error _ := hresponse
      refine ⟨iff_of_true rfl hnil, iff_of_false ?_ hends, fun _ _ hne => absurd hnil hne⟩
      show (404 : ℕ) ≠ 410
      decide
  | some row =>
      have hne : eventsOf w.outbox request.orderId ≠ [] := by
        intro hnil
        rw [h.absent.mpr hnil] at hrow
        cases hrow
      rw [hrow] at hresponse
      unfold World.rejection at hresponse
      cases hdeleted : row.deletedAt.isSome with
      | true =>
          have hends := (h.deleted row hrow).mp hdeleted
          simp only [hdeleted, if_true] at hresponse
          subst hresponse
          refine ⟨iff_of_false ?_ hne, iff_of_true rfl hends,
            fun _ _ _ hactive => absurd hends hactive⟩
          show (410 : ℕ) ≠ 404
          decide
      | false =>
          have hends : ¬ EndsDeleted w request.orderId := by
            rw [← h.deleted row hrow, hdeleted]
            nofun
          have haccepted : (Phase.closed response).Accepted →
              (∀ req, request.operation = .update req → row.version = req.version) →
              Outcome w request response := by
            intro haccepted hversion
            have hcode := statusCode_of_accepted haccepted
            refine ⟨iff_of_false ?_ hne, iff_of_false ?_ hends,
              fun req hreq _ _ => iff_of_false ?_ fun hstale => ?_⟩
            · rcases hcode with hcode | hcode <;> rw [hcode] <;> decide
            · rcases hcode with hcode | hcode <;> rw [hcode] <;> decide
            · rcases hcode with hcode | hcode <;> rw [hcode] <;> decide
            · exact hstale ((hversion req hreq).symm.trans (h.version row hrow))
          simp only [hdeleted, Bool.false_eq_true, if_false] at hresponse
          cases hoperation : request.operation with
          | update req =>
              rw [hoperation] at hresponse
              by_cases hversion : row.version ≠ req.version
              · simp only [if_pos hversion] at hresponse
                subst hresponse
                refine ⟨iff_of_false ?_ hne, iff_of_false ?_ hends,
                  fun req' hreq' _ _ => iff_of_true rfl fun heq => ?_⟩
                · show (409 : ℕ) ≠ 404
                  decide
                · show (409 : ℕ) ≠ 410
                  decide
                · rw [hoperation] at hreq'
                  obtain rfl := Operation.update.inj hreq'
                  exact hversion ((h.version row hrow).trans heq.symm)
              · simp only [if_neg hversion] at hresponse
                refine haccepted hresponse fun req' hreq' => ?_
                rw [hoperation] at hreq'
                obtain rfl := Operation.update.inj hreq'
                exact not_not.mp hversion
          | _ =>
              rw [hoperation] at hresponse
              exact haccepted hresponse (by simp [hoperation])

end Guarantee

/-- **The lifecycle of an order in serial runs.**  After any serial run, with failures
anywhere, the events and the row of every order have the shape of a lifecycle; and between
two requests, the next `get`, `update` or `delete` that meets no failure is answered as
they say. -/
theorem lifecycle_of_serial [BEq V] {schedule : List (Action V)} {w : World V}
    (h : World.runSerial schedule = some w) :
    (∀ id, OrderLifecycle w id) ∧
      (w.quiescent = true → ∀ elapsed request, (∀ req, request.operation ≠ .create req) →
        (∃ response, w.Answers elapsed request response) ∧
        ∀ response, w.Answers elapsed request response → Outcome w request response) := by
  have hreach := World.serialReachable_of_run h
  refine ⟨hreach.orderLifecycle, fun hquiescent elapsed request hoperation => ?_⟩
  obtain ⟨response, hanswers, hresponse⟩ :=
    World.exists_answers hreach hquiescent elapsed hoperation
  refine ⟨⟨response, hanswers⟩, fun response' hanswers' => ?_⟩
  obtain rfl := hanswers.unique hanswers'
  exact (hreach.orderLifecycle request.orderId).outcome hresponse

/-- A creation, an update that fails once and then succeeds, a stale update, a delete. -/
def Sample.life : List (Action ℕ) :=
  [.begin 1 create] ++ statements 3 0 ++
  [.begin 1 (update (some .confirmed) none)] ++ statements 4 1 ++ [.raise 1] ++
  [.begin 1 (update (some .confirmed) none)] ++ statements 5 2 ++
  [.begin 1 (update (some .shipped) none)] ++ statements 1 3 ++
  [.begin 1 delete] ++ statements 5 4

theorem lifecycle_of_serial_life :
    ∃ w, World.runSerial Sample.life = some w ∧
      typesOf (eventsOf w.outbox Sample.orderId) = [.orderCreated, .orderUpdated, .orderDeleted] ∧
      OrderLifecycle w Sample.orderId ∧
      ∃ response, w.Answers 1 Sample.delete response ∧ Outcome w Sample.delete response := by
  have hrun : (World.runSerial Sample.life).map
      (fun w => (typesOf (eventsOf w.outbox Sample.orderId), w.quiescent)) =
      some ([.orderCreated, .orderUpdated, .orderDeleted], true) := by decide
  obtain ⟨w, hw, hfacts⟩ := Option.map_eq_some_iff.mp hrun
  rw [Prod.mk.injEq] at hfacts
  obtain ⟨hlife, hnext⟩ := lifecycle_of_serial hw
  obtain ⟨⟨response, hanswers⟩, houtcome⟩ := hnext hfacts.2 1 Sample.delete nofun
  exact ⟨w, hw, hfacts.1, hlife Sample.orderId, response, hanswers, houtcome response hanswers⟩

end OutboxPattern
