import OutboxPattern.Lib.ResumableStream

/-!
# Following a log that grows

In `ResumableStream` the log is there from the start.  Here it grows while it is streamed: a
*journal* is a log with the position at which it ends, and a batch that is committed at that
position or above it can be appended at any time.  The session that is open then streams the
batch after all it has still to stream.

`Tail.Inv.inOrder` says more than that no message is lost.  Read as one list, what was handled in
all sessions and what this one has still to stream contain the *whole journal in its order*, as a
subsequence: whatever is handled twice is handled again after it was handled first.

The invariant cuts the journal in two, and the list of handled messages as well (`Tail.Inv.split`).
The batches of the first part were handled whole, in order, before the second part of the handled
messages, which is a beginning of the first batch that was not.
-/

namespace ResumableStream

universe u v

variable {M : Type u} {P : Type v} [LinearOrder P]

/-- A list in which nothing that is to be kept comes before what is not ends with what is kept. -/
theorem exists_append_filter {α : Type u} {l : List α} {p : α → Bool}
    (h : l.Pairwise fun a b => p a = true → p b = true) :
    ∃ skipped, l = skipped ++ l.filter p ∧ ∀ a ∈ skipped, p a = false := by
  induction l with
  | nil => exact ⟨[], rfl, by simp⟩
  | cons a l ih =>
      obtain ⟨ha, hl⟩ := List.pairwise_cons.mp h
      cases hp : p a with
      | true =>
          have hall : (a :: l).filter p = a :: l := by
            rw [List.filter_eq_self]
            intro b hb
            rcases List.mem_cons.mp hb with rfl | hb
            · exact hp
            · exact ha b hb hp
          exact ⟨[], by rw [hall, List.nil_append], by simp⟩
      | false =>
          obtain ⟨skipped, heq, hskipped⟩ := ih hl
          have hfilter : (a :: l).filter p = l.filter p := by simp [hp]
          refine ⟨a :: skipped, ?_, List.forall_mem_cons.mpr ⟨hp, hskipped⟩⟩
          rw [hfilter, List.cons_append, ← heq]

/-! ### Journals -/

/-- **A journal**: a log, and the position at which it ends. -/
structure Journal (position : M → P) extends Log position where
  finish : P
  le_finish : ∀ batch ∈ batches, position batch.last ≤ finish

variable {position : M → P}

namespace Journal

/-- The empty journal that ends at some position. -/
def empty (position : M → P) (finish : P) : Journal position where
  batches := []
  ordered := List.IsChain.nil
  finish := finish
  le_finish := by simp

/-- A batch is committed at the end of the journal, or above it. -/
def append (journal : Journal position) (batch : Batch position)
    (h : journal.finish ≤ batch.commit) : Journal position where
  batches := journal.batches ++ [batch]
  ordered := by
    refine List.isChain_append.mpr ⟨journal.ordered, List.IsChain.singleton _, ?_⟩
    intro before hbefore next hnext
    obtain rfl : batch = next := by simpa using hnext
    exact (journal.le_finish before (List.mem_of_getLast? hbefore)).trans h
  finish := position batch.last
  le_finish := by
    intro b hb
    rcases List.mem_append.mp hb with hb | hb
    · exact (journal.le_finish b hb).trans (h.trans batch.commit_le)
    · rw [List.mem_singleton.mp hb]

/-- All messages of a journal, in its order. -/
def messages (journal : Journal position) : List M := journal.batches.flatMap Batch.messages

@[simp] theorem messages_append (journal : Journal position) (batch : Batch position)
    (h : journal.finish ≤ batch.commit) :
    (journal.append batch h).messages = journal.messages ++ batch.messages := by
  simp [messages, append]

/-- No message lies beyond the end. -/
theorem position_le_finish (journal : Journal position) {m : M} (hm : m ∈ journal.messages) :
    position m ≤ journal.finish := by
  obtain ⟨batch, hbatch, hm⟩ := List.mem_flatMap.mp hm
  rcases List.mem_append.mp hm with hbody | hlast
  · exact (batch.body_lt m hbody).le.trans (batch.commit_le.trans (journal.le_finish batch hbatch))
  · rw [List.mem_singleton.mp hlast]
    exact journal.le_finish batch hbatch

/-- What a session streams that begins at `confirmed` is an end of the journal. -/
theorem exists_skipped (journal : Journal position) (confirmed : P) :
    ∃ skipped, journal.batches = skipped ++ journal.from confirmed ∧
      ∀ batch ∈ skipped, batch.commit < confirmed := by
  have hmonotone : journal.batches.Pairwise fun a b =>
      decide (confirmed ≤ a.commit) = true → decide (confirmed ≤ b.commit) = true := by
    refine journal.toLog.pairwise.imp fun {a b} hab ha => ?_
    exact decide_eq_true ((of_decide_eq_true ha).trans (a.commit_le.trans hab))
  obtain ⟨skipped, heq, hskipped⟩ := exists_append_filter hmonotone
  exact ⟨skipped, heq, fun batch hbatch => not_le.mp (of_decide_eq_false (hskipped batch hbatch))⟩

end Journal

/-! ### A session and its journal -/

/-- A journal and the session that follows it. -/
structure Tail (position : M → P) where
  journal : Journal position
  session : Session M P

/-- What happens next. -/
inductive Tail.Event (position : M → P)
  /-- A batch is committed. -/
  | append (batch : Batch position)
  | session (event : ResumableStream.Event P)

/-- The session has still to stream `queue`, of which it has handled `before`. -/
inductive Within : List (Batch position) → List M → List M → Prop
  | drained : Within [] [] []
  | within {batch : Batch position} {later : List (Batch position)} {before pending : List M}
      (messages : batch.messages = before ++ pending) (unfinished : pending ≠ []) :
      Within (batch :: later) before (pending ++ later.flatMap Batch.messages)

theorem within_start (batches : List (Batch position)) :
    Within batches [] (batches.flatMap Batch.messages) := by
  cases batches with
  | nil => exact .drained
  | cons batch later =>
      have messages : batch.messages = [] ++ batch.messages := rfl
      exact .within messages (messages_ne_nil batch)

namespace Within

variable {batches : List (Batch position)} {before queue : List M}

/-- What was handed over and what is still to come make up the whole stream. -/
theorem flatMap_eq (h : Within batches before queue) :
    batches.flatMap Batch.messages = before ++ queue := by
  cases h with
  | drained => rfl
  | within messages _ => rw [List.flatMap_cons, messages, List.append_assoc]

/-- A batch that is appended is streamed after all others. -/
theorem append (h : Within batches before queue) (batch : Batch position) :
    Within (batches ++ [batch]) before (queue ++ batch.messages) := by
  cases h with
  | drained =>
      have hstart := within_start [batch]
      rwa [List.flatMap_cons, List.flatMap_nil, List.append_nil] at hstart
  | @within first later before pending messages unfinished =>
      have hstreams : pending ++ later.flatMap Batch.messages ++ batch.messages =
          pending ++ (later ++ [batch]).flatMap Batch.messages := by simp
      rw [hstreams]
      exact .within messages unfinished

/-- The next message stays within the batch, below its commit, or ends it. -/
theorem handle {m : M} (h : Within batches before (m :: queue)) :
    ∃ batch later, batches = batch :: later ∧
      ((Within batches (before ++ [m]) queue ∧ position m < batch.commit) ∨
        (Within later [] queue ∧ m = batch.last ∧ batch.messages = before ++ [m])) := by
  generalize hqueue : m :: queue = whole at h
  cases h with
  | drained => cases hqueue
  | @within batch later before pending messages unfinished =>
      refine ⟨batch, later, rfl, ?_⟩
      cases pending with
      | nil => exact absurd rfl unfinished
      | cons next pending =>
          rw [List.cons_append, List.cons.injEq] at hqueue
          obtain ⟨rfl, rfl⟩ := hqueue
          have hmessages : batch.messages = (before ++ [m]) ++ pending := by
            rw [messages, List.append_assoc, List.singleton_append]
          rcases List.eq_nil_or_concat pending with rfl | ⟨init, final, rfl⟩
          · right
            rw [List.append_nil] at hmessages
            refine ⟨within_start later, ?_, hmessages⟩
            rw [Batch.messages] at hmessages
            exact (List.singleton_inj.mp (List.append_inj' hmessages rfl).2).symm
          · left
            refine ⟨.within hmessages (by simp), batch.body_lt m ?_⟩
            rw [Batch.messages, List.concat_eq_append, ← List.append_assoc] at hmessages
            rw [(List.append_inj' hmessages rfl).1]
            simp

end Within

namespace Tail

/-- The session begins at the end of an empty journal. -/
def start [OrderBot P] (position : M → P) (finish : P) : Tail position where
  journal := Journal.empty position finish
  session := Session.start (Journal.empty position finish).toLog finish []

/-- A batch is committed, and the session has it still to stream. -/
def append (t : Tail position) (batch : Batch position) (h : t.journal.finish ≤ batch.commit) :
    Tail position where
  journal := t.journal.append batch h
  session := { t.session with queue := t.session.queue ++ batch.messages }

def step [OrderBot P] (t : Tail position) : Event position → Option (Tail position)
  | .append batch =>
      if h : t.journal.finish ≤ batch.commit then some (t.append batch h) else none
  | .session event =>
      (t.session.step t.journal.toLog event).map fun session => { t with session := session }

/-- **The invariant**: the batches that were handled whole, in order, and the others, of which
those handled last are a beginning.  No position that a next session may begin at is above the
commit of the others. -/
structure Inv (t : Tail position) : Prop where
  split : ∃ done rest earlier before, t.journal.batches = done ++ rest ∧
    t.session.handled = earlier ++ before ∧ (done.flatMap Batch.messages).Sublist earlier ∧
    Within rest before t.session.queue ∧
    ∀ batch ∈ rest, ∀ c ∈ t.session.flush :: t.session.mayConfirm, c ≤ batch.commit
  le_finish : ∀ c ∈ t.session.flush :: t.session.mayConfirm, c ≤ t.journal.finish
  committed : ∀ m ∈ t.session.handled ++ t.session.queue, m ∈ t.journal.messages

variable {t t' : Tail position}

/-- **At least once, in order.**  What was handled and what is still to be streamed contain the
whole journal, in its order. -/
theorem Inv.inOrder (h : t.Inv) :
    t.journal.messages.Sublist (t.session.handled ++ t.session.queue) := by
  obtain ⟨done, rest, earlier, before, hbatches, hhandled, hdone, hwithin, -⟩ := h.split
  have hmessages : t.journal.messages =
      done.flatMap Batch.messages ++ (before ++ t.session.queue) := by
    rw [Journal.messages, hbatches, List.flatMap_append, hwithin.flatMap_eq]
  rw [hmessages, hhandled, List.append_assoc]
  exact hdone.append_right _

theorem Inv.start [OrderBot P] (finish : P) : (Tail.start position finish).Inv where
  split := by
    refine ⟨[], [], [], [], rfl, rfl, List.Sublist.refl _, .drained, ?_⟩
    intro batch hbatch
    cases hbatch
  le_finish := by
    intro c hc
    have hcases : c = ⊥ ∨ c = finish := by simpa [Tail.start, Session.start, Session.mayConfirm]
      using hc
    rcases hcases with rfl | rfl
    · exact bot_le
    · exact le_rfl
  committed := by
    intro m hm
    cases hm

theorem Inv.append (h : t.Inv) {batch : Batch position} (hend : t.journal.finish ≤ batch.commit) :
    (t.append batch hend).Inv := by
  obtain ⟨done, rest, earlier, before, hbatches, hhandled, hdone, hwithin, hbound⟩ := h.split
  refine ⟨⟨done, rest ++ [batch], earlier, before, ?_, hhandled, hdone, hwithin.append batch, ?_⟩,
    fun c hc => ?_, fun m hm => ?_⟩
  · show t.journal.batches ++ [batch] = _
    rw [hbatches, List.append_assoc]
  · intro b hb c hc
    rcases List.mem_append.mp hb with hb | hb
    · exact hbound b hb c hc
    · rw [List.mem_singleton.mp hb]
      exact (h.le_finish c hc).trans hend
  · exact (h.le_finish c hc).trans (hend.trans batch.commit_le)
  · show m ∈ (t.journal.append batch hend).messages
    rw [Journal.messages_append]
    replace hm : m ∈ t.session.handled ++ (t.session.queue ++ batch.messages) := hm
    rw [← List.append_assoc] at hm
    rcases List.mem_append.mp hm with hm | hm
    · exact List.mem_append_left _ (h.committed m hm)
    · exact List.mem_append_right _ hm

/-- A message is handled and its position reported. -/
theorem Inv.handle (h : t.Inv) {m : M} {queue : List M} (hqueue : t.session.queue = m :: queue) :
    Inv { t with session :=
      { t.session with
        flush := max t.session.flush (position m)
        reports := t.session.reports ++ [max t.session.flush (position m)]
        queue := queue
        handled := t.session.handled ++ [m] } } := by
  obtain ⟨done, rest, earlier, before, hbatches, hhandled, hdone, hwithin, hbound⟩ := h.split
  rw [hqueue] at hwithin
  have hm : m ∈ t.journal.messages := h.committed m (by rw [hqueue]; simp)
  -- whatever bounds `m` and the positions so far bounds the positions after it
  have hraise : ∀ bound : P, (∀ c ∈ t.session.flush :: t.session.mayConfirm, c ≤ bound) →
      position m ≤ bound → ∀ c ∈ max t.session.flush (position m) ::
        t.session.confirmed :: (t.session.reports ++ [max t.session.flush (position m)]),
        c ≤ bound := by
    intro bound hall hle c hc
    have hmax : max t.session.flush (position m) ≤ bound :=
      max_le (hall _ List.mem_cons_self) hle
    rcases List.mem_cons.mp hc with rfl | hc
    · exact hmax
    rw [← List.cons_append] at hc
    rcases List.mem_append.mp hc with hc | hc
    · exact hall c (List.mem_cons_of_mem _ hc)
    · rwa [List.mem_singleton.mp hc]
  refine ⟨?_, hraise _ h.le_finish (t.journal.position_le_finish hm), fun x hx => ?_⟩
  · obtain ⟨batch, later, rfl, hcases⟩ := hwithin.handle
    have hordered : (done ++ batch :: later).Pairwise fun a b => position a.last ≤ b.commit := by
      rw [← hbatches]
      exact t.journal.toLog.pairwise
    have hnext := (List.pairwise_cons.mp (List.pairwise_append.mp hordered).2.1).1
    rcases hcases with ⟨hwithin', hlt⟩ | ⟨hwithin', rfl, hmessages⟩
    · refine ⟨done, batch :: later, earlier, before ++ [m], hbatches, ?_, hdone, hwithin', ?_⟩
      · show t.session.handled ++ [m] = _
        rw [hhandled, List.append_assoc]
      · intro b hb
        refine hraise _ (hbound b hb) ?_
        rcases List.mem_cons.mp hb with rfl | hlater
        · exact hlt.le
        · exact hlt.le.trans (batch.commit_le.trans (hnext b hlater))
    · refine ⟨done ++ [batch], later, earlier ++ batch.messages, [], ?_, ?_, ?_, hwithin', ?_⟩
      · rw [hbatches, List.append_assoc, List.singleton_append]
      · show t.session.handled ++ [batch.last] = _
        rw [hhandled, hmessages, List.append_nil, List.append_assoc]
      · rw [List.flatMap_append, List.flatMap_cons, List.flatMap_nil, List.append_nil]
        exact hdone.append_right _
      · intro b hb
        exact hraise _ (hbound b (List.mem_cons_of_mem _ hb)) (hnext b hb)
  · refine h.committed x ?_
    rw [hqueue]
    replace hx : x ∈ t.session.handled ++ [m] ++ queue := hx
    rwa [List.append_assoc, List.singleton_append] at hx

/-- The session breaks, and the next one begins where the server takes it to have got. -/
theorem Inv.restart [OrderBot P] (h : t.Inv) {confirmed : P}
    (hconfirmed : confirmed ∈ t.session.mayConfirm) :
    Inv { t with
      session := Session.start t.journal.toLog confirmed t.session.handled } := by
  obtain ⟨done, rest, earlier, before, hbatches, hhandled, hdone, -, hbound⟩ := h.split
  obtain ⟨skipped, hskipped, hlt⟩ := t.journal.exists_skipped confirmed
  have hmay := List.mem_cons_of_mem t.session.flush hconfirmed
  -- what is skipped was handled whole
  have hprefix : skipped <+: done := by
    rcases List.append_eq_append_iff.mp (hbatches.symm.trans hskipped) with
      ⟨middle, rfl, hrest⟩ | ⟨middle, rfl, -⟩
    · cases middle with
      | nil =>
          exact ⟨[], by rw [List.append_nil, List.append_nil]⟩
      | cons batch middle =>
          have hbatch : batch ∈ rest := by rw [hrest]; simp
          exact absurd (hlt batch (by simp)) (not_lt.mpr (hbound batch hbatch confirmed hmay))
    · exact List.prefix_append _ _
  -- nothing is reported yet
  have hreports : ∀ c ∈ ⊥ :: confirmed :: [], c = ⊥ ∨ c = confirmed := by simp
  refine ⟨⟨skipped, t.journal.from confirmed, t.session.handled, [], hskipped,
    (List.append_nil _).symm, ?_, within_start _, fun batch hbatch c hc => ?_⟩,
    fun c hc => ?_, fun m hm => ?_⟩
  · obtain ⟨more, rfl⟩ := hprefix
    rw [List.flatMap_append] at hdone
    rw [hhandled]
    exact ((List.sublist_append_left _ _).trans hdone).trans (List.sublist_append_left _ _)
  · rcases hreports c hc with rfl | rfl
    · exact bot_le
    · exact of_decide_eq_true (List.mem_filter.mp hbatch).2
  · rcases hreports c hc with rfl | rfl
    · exact bot_le
    · exact h.le_finish c hmay
  · rcases List.mem_append.mp hm with hm | hm
    · exact h.committed m (List.mem_append_left _ hm)
    · obtain ⟨batch, hbatch, hm⟩ := List.mem_flatMap.mp hm
      exact List.mem_flatMap.mpr ⟨batch, (List.mem_filter.mp hbatch).1, hm⟩

theorem Inv.step [OrderBot P] (h : t.Inv) {event : Event position}
    (hstep : t.step event = some t') : t'.Inv := by
  cases event with
  | append batch =>
      simp only [Tail.step] at hstep
      split at hstep
      · next hend =>
        obtain rfl := Option.some.inj hstep
        exact h.append hend
      · cases hstep
  | session event =>
      obtain ⟨session, hsession, rfl⟩ := Option.map_eq_some_iff.mp hstep
      cases event with
      | handle =>
          simp only [Session.step] at hsession
          split at hsession
          · cases hsession
          · next m queue hqueue =>
            obtain rfl := Option.some.inj hsession
            exact h.handle hqueue
      | restart confirmed =>
          simp only [Session.step] at hsession
          split at hsession
          · next hconfirmed =>
            obtain rfl := Option.some.inj hsession
            exact h.restart hconfirmed
          · cases hsession

/-- **Every reachable state keeps the invariant.** -/
theorem inv_of_run [OrderBot P] {finish : P} {events : List (Event position)}
    (h : Transition.run step (Tail.start position finish) events = some t) : t.Inv :=
  Transition.run_invariant (fun _ _ _ ht hstep => ht.step hstep) (Inv.start finish) h

end Tail

end ResumableStream
