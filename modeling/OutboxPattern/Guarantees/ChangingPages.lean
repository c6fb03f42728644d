import OutboxPattern.Guarantees.Pagination

/-!
# Paging through orders that change

`OutboxPattern.Guarantees.Pagination` reads all pages from one table.  Here requests go on between
the pages: each page is answered in a world of its own, which the service has reached from the world
of the page before.

A page is cut out by position, and the position of an order changes when newer orders of the filter
come or go.  `walk_of_run` says that nothing else can go wrong: a client that reads on until a page
is not full misses an order only if a newer order has left the filter between two pages, and reads
one twice only if a newer order has entered it.
-/

namespace OutboxPattern

variable {V : Type}

/-! ### The instant of creation -/

/-- No write of an order changes its `created_at`. -/
theorem Commits.createdAt_eq [BEq V] {ws : List (Write V)} {write : Write V}
    {event : OutboxEvent V} (h : Commits ws write event) {row : Order V}
    (hrow : rowAt ws write.orderId = some row) : write.new.createdAt = row.createdAt := by
  cases h with
  | insert _ absent _ _ => cases absent.symm.trans hrow
  | overwrite _ _ _ _ current written _ =>
      obtain rfl := Option.some.inj (current.symm.trans hrow)
      exact (updateRow_keeps written).2.2.2.1

/-- Whatever is committed later, an order keeps its `created_at`. -/
theorem World.Inv.exists_createdAt [BEq V] {w w' : World V} (h : w.Inv) {actions : List (Action V)}
    (hrun : Transition.run World.step w actions = some w') {id : UUID} {row : Order V}
    (hrow : (w.orders id).committed = some row) :
    ∃ row', (w'.orders id).committed = some row' ∧ row'.createdAt = row.createdAt := by
  have hkeeps : ∀ (u : World V) (action : Action V) (u' : World V),
      (u.Inv ∧ ∃ row', (u.orders id).committed = some row' ∧ row'.createdAt = row.createdAt) →
      u.step action = some u' →
      u'.Inv ∧ ∃ row', (u'.orders id).committed = some row' ∧
        row'.createdAt = row.createdAt := by
    rintro u action u' ⟨hu, row', hrow', hcreated⟩ hstep
    have hu' := hu.step hstep
    refine ⟨hu', ?_⟩
    rcases step_effect hu hstep with
      ⟨-, hhistory, -⟩ | ⟨write, event, -, hcommits, hhistory, -⟩
    · exact ⟨row', by rw [hu'.table, hhistory, ← hu.table, hrow'], hcreated⟩
    · rw [hu.table] at hrow'
      by_cases hid : write.orderId = id
      · subst hid
        refine ⟨write.new, ?_, (hcommits.createdAt_eq hrow').trans hcreated⟩
        rw [hu'.table, hhistory, rowAt_concat_self]
      · exact ⟨row', by rw [hu'.table, hhistory, rowAt_concat_of_ne hid, hrow'], hcreated⟩
  exact (Transition.run_invariant hkeeps ⟨h, row, hrow, rfl⟩ hrun).2

/-! ### A walk -/

/-- **A walk through the pages**: page `n + 1` is read in the world `world n`. -/
structure Walk (V : Type) [BEq V] where
  world : ℕ → World V
  /-- How the database orders the rows of each query. -/
  orderBy : ℕ → List (Order V) → List (Order V)
  starts : ∃ schedule, World.runFromInit schedule = some (world 0)
  continues : ∀ n, ∃ schedule, Transition.run World.step (world n) schedule = some (world (n + 1))
  sorts : ∀ n rows, Pagination.Sorts Order.createdAt (orderBy n rows) rows

namespace Walk

variable [BEq V] (walk : Walk V) (filter : ListFilter)

theorem inv (n : ℕ) : (walk.world n).Inv := by
  induction n with
  | zero =>
      obtain ⟨schedule, hrun⟩ := walk.starts
      exact World.inv_of_run hrun
  | succ n ih =>
      obtain ⟨schedule, hrun⟩ := walk.continues n
      exact ih.run hrun

/-- The rows that the query for page `n + 1` finds. -/
def table (n : ℕ) : OrdersTable V := (walk.world n).ordersTable (walk.inv n)

/-- The orders of the filter at the time of page `n + 1`. -/
def listed (n : ℕ) : List (Order V) := filter.orders (walk.table n)

/-- The number of newer orders in the filter at the time of page `n + 1`. -/
def rank (instant : Timestamp) (n : ℕ) : ℕ :=
  Pagination.rank Order.createdAt (walk.listed filter n) instant

/-- The order is in the filter, and no other one there has its `created_at`. -/
structure Alone (n : ℕ) (id : UUID) (row : Order V) : Prop where
  listed : row ∈ walk.listed filter n
  id_eq : row.id = id
  alone : ∀ other ∈ walk.listed filter n, other.createdAt = row.createdAt → other = row

/-- An order newer than `instant` leaves the filter before the next page. -/
def Leaves (n : ℕ) (instant : Timestamp) : Prop :=
  ∃ other ∈ walk.listed filter n, instant < other.createdAt ∧
    other.id ∉ (walk.listed filter (n + 1)).map Order.id

/-- An order newer than `instant` enters the filter before the next page. -/
def Enters (n : ℕ) (instant : Timestamp) : Prop :=
  ∃ other ∈ walk.listed filter (n + 1), instant < other.createdAt ∧
    other.id ∉ (walk.listed filter n).map Order.id

variable {walk filter} {n : ℕ} {id : UUID} {row row' : Order V}

theorem committed_of_listed (h : row ∈ walk.listed filter n) :
    ((walk.world n).orders row.id).committed = some row :=
  (World.mem_ordersTable_iff (walk.inv n)).mp (List.mem_of_mem_filter h)

/-- An order is listed once. -/
theorem eq_of_listed (h : row ∈ walk.listed filter n) (h' : row' ∈ walk.listed filter n)
    (hid : row.id = row'.id) : row = row' := by
  have hrow := committed_of_listed h
  rw [hid, committed_of_listed h'] at hrow
  exact (Option.some.inj hrow).symm

theorem ids_nodup (walk : Walk V) (filter : ListFilter) (n : ℕ) :
    ((walk.listed filter n).map Order.id).Nodup :=
  (walk.table n).ids_nodup.sublist (List.filter_sublist.map Order.id)

/-- An order is listed with the same `created_at` on the next page. -/
theorem createdAt_eq (h : row ∈ walk.listed filter n) (h' : row' ∈ walk.listed filter (n + 1))
    (hid : row.id = row'.id) : row.createdAt = row'.createdAt := by
  obtain ⟨schedule, hrun⟩ := walk.continues n
  obtain ⟨later, hlater, hcreated⟩ := (walk.inv n).exists_createdAt hrun (committed_of_listed h)
  rw [hid, committed_of_listed h'] at hlater
  rw [← hcreated, Option.some.inj hlater]

/-- If there are fewer newer orders on the next page, then one has left. -/
theorem leaves_of_rank_lt {instant : Timestamp}
    (h : walk.rank filter instant (n + 1) < walk.rank filter instant n) :
    walk.Leaves filter n instant := by
  obtain ⟨other, hother, hnewer, hgone⟩ :=
    Pagination.exists_of_countP_lt (walk.ids_nodup filter n) h
  rw [decide_eq_true_eq] at hnewer
  refine ⟨other, hother, hnewer, fun hmem => ?_⟩
  obtain ⟨later, hlater, hid⟩ := List.mem_map.mp hmem
  refine hgone later hlater (decide_eq_true ?_) hid
  rwa [← createdAt_eq hother hlater hid.symm]

/-- If there are more, then one has come in. -/
theorem enters_of_rank_lt {instant : Timestamp}
    (h : walk.rank filter instant n < walk.rank filter instant (n + 1)) :
    walk.Enters filter n instant := by
  obtain ⟨other, hother, hnewer, hnew⟩ :=
    Pagination.exists_of_countP_lt (walk.ids_nodup filter (n + 1)) h
  rw [decide_eq_true_eq] at hnewer
  refine ⟨other, hother, hnewer, fun hmem => ?_⟩
  obtain ⟨earlier, hearlier, hid⟩ := List.mem_map.mp hmem
  refine hnew earlier hearlier (decide_eq_true ?_) hid
  rwa [createdAt_eq hearlier hother hid]

/-- The answer for page `n + 1`. -/
def Answers (walk : Walk V) (filter : ListFilter) (n : ℕ) (items : List (Order V)) : Prop :=
  ∃ total, listOrders (walk.orderBy n) (walk.table n) (filter.query (n + 1) n.succ_pos) =
    .ok (items, total)

theorem Answers.eq_page {items : List (Order V)} (h : walk.Answers filter n items) :
    items = Pagination.page (walk.orderBy n (walk.listed filter n)) filter.pageSize (n + 1) := by
  obtain ⟨total, hok⟩ := h
  exact (ListFilter.listOrders_eq_ok_iff.mp hok).2.1.symm

/-- An order with a `created_at` of its own is on the page of its rank. -/
theorem Answers.mem_iff {items : List (Order V)} (h : walk.Answers filter n items)
    (hrow : walk.Alone filter n id row) :
    id ∈ items.map Order.id ↔
      n * filter.pageSize ≤ walk.rank filter row.createdAt n ∧
        walk.rank filter row.createdAt n < (n + 1) * filter.pageSize := by
  have hsorts := walk.sorts n (walk.listed filter n)
  have hnodup : (walk.listed filter n).Nodup := (walk.ids_nodup filter n).of_map
  rw [rank, ← hsorts.mem_page_iff hnodup hrow.listed hrow.alone, ← h.eq_page]
  constructor
  · intro hmem
    obtain ⟨other, hother, hid⟩ := List.mem_map.mp hmem
    have hlisted : other ∈ walk.listed filter n := by
      rw [h.eq_page] at hother
      exact hsorts.perm.mem_iff.mp (List.mem_of_mem_drop (List.mem_of_mem_take hother))
    rwa [← eq_of_listed hlisted hrow.listed (hid.trans hrow.id_eq.symm)]
  · intro hmem
    exact hrow.id_eq ▸ List.mem_map_of_mem hmem

/-- Behind a page that is not full there is nothing. -/
theorem Answers.rank_lt {items : List (Order V)} (h : walk.Answers filter n items)
    (hend : items.length < filter.pageSize) (instant : Timestamp) :
    walk.rank filter instant n < (n + 1) * filter.pageSize := by
  have hlength : (walk.listed filter n).length < (n + 1) * filter.pageSize := by
    rw [h.eq_page, Pagination.page, List.length_take, List.length_drop,
      (walk.sorts n _).perm.length_eq, Nat.add_sub_cancel] at hend
    rw [Nat.succ_mul]
    omega
  exact List.countP_le_length.trans_lt hlength

end Walk

/-- **What can go wrong on a walk through the pages.**  Let an order be in the filter on each of the
first pages, with a `created_at` of its own, and let the last one of them not be full.  If the
order was on none of them, then a newer order had left the filter before some page; if it was on two
of them, then a newer one had entered it in between. -/
theorem walk_of_run [BEq V] (walk : Walk V) (filter : ListFilter) {id : UUID} {count : ℕ}
    {items : ℕ → List (Order V)} (hlisted : ∀ n ≤ count, ∃ row, walk.Alone filter n id row)
    (hitems : ∀ n ≤ count, walk.Answers filter n (items n))
    (hend : (items count).length < filter.pageSize) :
    ((∀ n ≤ count, id ∉ (items n).map Order.id) →
      ∃ n < count, ∃ row, walk.Alone filter n id row ∧ walk.Leaves filter n row.createdAt) ∧
    (∀ m n, m < n → n ≤ count → id ∈ (items m).map Order.id → id ∈ (items n).map Order.id →
      ∃ i, m ≤ i ∧ i < n ∧
        ∃ row, walk.Alone filter i id row ∧ walk.Enters filter i row.createdAt) := by
  -- the order has one `created_at` on all pages
  obtain ⟨first, hfirst⟩ := hlisted 0 (Nat.zero_le count)
  have hcreated : ∀ n ≤ count, ∀ row, walk.Alone filter n id row →
      row.createdAt = first.createdAt := by
    intro n hn
    induction n with
    | zero =>
        intro row hrow
        rw [Walk.eq_of_listed hrow.listed hfirst.listed (hrow.id_eq.trans hfirst.id_eq.symm)]
    | succ n ih =>
        intro row hrow
        obtain ⟨before, hbefore⟩ := hlisted n (Nat.le_of_succ_le hn)
        rw [← Walk.createdAt_eq hbefore.listed hrow.listed (hbefore.id_eq.trans hrow.id_eq.symm)]
        exact ih (Nat.le_of_succ_le hn) before hbefore
  have hrank : ∀ n ≤ count, (id ∈ (items n).map Order.id ↔
      n * filter.pageSize ≤ walk.rank filter first.createdAt n ∧
        walk.rank filter first.createdAt n < (n + 1) * filter.pageSize) := by
    intro n hn
    obtain ⟨row, hrow⟩ := hlisted n hn
    rw [← hcreated n hn row hrow]
    exact (hitems n hn).mem_iff hrow
  constructor
  · intro hmissed
    have hbehind := (hitems count le_rfl).rank_lt hend first.createdAt
    rcases Pagination.exists_page_or_drop (walk.rank filter first.createdAt) hbehind with
      ⟨n, hn, hpage⟩ | ⟨n, hn, hdrop⟩
    · exact absurd ((hrank n hn).mpr hpage) (hmissed n hn)
    · obtain ⟨row, hrow⟩ := hlisted n hn.le
      refine ⟨n, hn, row, hrow, ?_⟩
      rw [hcreated n hn.le row hrow]
      exact Walk.leaves_of_rank_lt hdrop
  · intro m n hlt hn hm hn'
    obtain ⟨i, hmi, hin, hrise⟩ :=
      Pagination.exists_rise_of_two_pages (walk.rank filter first.createdAt) hlt
        ((hrank m (hlt.le.trans hn)).mp hm).2 ((hrank n hn).mp hn').1
    obtain ⟨row, hrow⟩ := hlisted i (hin.le.trans hn)
    refine ⟨i, hmi, hin, row, hrow, ?_⟩
    rw [hcreated i (hin.le.trans hn) row hrow]
    exact Walk.enters_of_rank_lt hrise

namespace Sample

/-- An order, and a second later a newer one. -/
def createBoth : List (Action ℕ) :=
  .begin 1 create :: statements 3 0 ++ .begin 1 { create with orderId := 2 } :: statements 3 1

/-- The newer one is deleted. -/
def deleteNewer : List (Action ℕ) := .begin 1 { delete with orderId := 2 } :: statements 5 2

def bothCreated : World ℕ := (World.runFromInit createBoth).get (by decide)

def newerDeleted : World ℕ := (Transition.run World.step bothCreated deleteNewer).get (by decide)

theorem sorts_insertionSort (rows : List (Order ℕ)) :
    Pagination.Sorts Order.createdAt
      (rows.insertionSort fun a b => b.createdAt ≤ a.createdAt) rows := by
  have : Std.Total fun a b : Order ℕ => b.createdAt ≤ a.createdAt :=
    ⟨fun a b => le_total b.createdAt a.createdAt⟩
  have : IsTrans (Order ℕ) fun a b => b.createdAt ≤ a.createdAt :=
    ⟨fun _ _ _ hab hbc => hbc.trans hab⟩
  exact ⟨List.perm_insertionSort _ rows, List.pairwise_insertionSort _ rows⟩

/-- Between the first page and the second the newer order is deleted. -/
def shrinking : Walk ℕ where
  world
    | 0 => bothCreated
    | _ + 1 => newerDeleted
  orderBy _ rows := rows.insertionSort fun a b => b.createdAt ≤ a.createdAt
  starts := ⟨createBoth, (Option.some_get _).symm⟩
  continues
    | 0 => ⟨deleteNewer, (Option.some_get _).symm⟩
    | _ + 1 => ⟨[], rfl⟩
  sorts _ rows := sorts_insertionSort rows

theorem onePerPage_ge : 1 ≤ 1 := by decide

theorem onePerPage_le : 1 ≤ 100 := by decide

def onePerPage : ListFilter := everyOrder 1 onePerPage_ge onePerPage_le

/-- The order that is deleted. -/
def newer : Order ℕ := { created with id := 2, createdAt := 2, updatedAt := 2 }

/-- What the client is answered. -/
def itemsRead : ℕ → List (Order ℕ)
  | 0 => [newer]
  | _ + 1 => []

theorem listed_shrinking :
    shrinking.listed onePerPage 0 = [created, newer] ∧
      shrinking.listed onePerPage 1 = [created] :=
  ⟨rfl, rfl⟩

theorem alone_shrinking : ∀ n ≤ 1, shrinking.Alone onePerPage n orderId created := by
  intro n hn
  obtain rfl | rfl : n = 0 ∨ n = 1 := by omega
  · refine ⟨by simp [listed_shrinking.1], rfl, fun other hother hcreated => ?_⟩
    rw [listed_shrinking.1, List.mem_pair] at hother
    rcases hother with rfl | rfl
    · rfl
    · exact absurd hcreated (by decide)
  · refine ⟨by simp [listed_shrinking.2], rfl, fun other hother _ => ?_⟩
    rwa [listed_shrinking.2, List.mem_singleton] at hother

theorem answers_shrinking : ∀ n ≤ 1, shrinking.Answers onePerPage n (itemsRead n) := by
  intro n hn
  obtain rfl | rfl : n = 0 ∨ n = 1 := by omega
  · exact ⟨2, rfl⟩
  · exact ⟨1, rfl⟩

end Sample

open Sample in
/-- The older order is on neither of the two pages. -/
theorem walk_of_run_shrinking :
    (∀ n ≤ 1, orderId ∉ (itemsRead n).map Order.id) ∧
      ∃ n < 1, ∃ row, shrinking.Alone onePerPage n orderId row ∧
        shrinking.Leaves onePerPage n row.createdAt := by
  have hmissed : ∀ n ≤ 1, orderId ∉ (itemsRead n).map Order.id := by
    intro n hn
    obtain rfl | rfl : n = 0 ∨ n = 1 := by omega
    · decide
    · decide
  refine ⟨hmissed, ?_⟩
  exact (walk_of_run shrinking onePerPage (fun n hn => ⟨created, alone_shrinking n hn⟩)
    answers_shrinking (by decide)).1 hmissed

end OutboxPattern
