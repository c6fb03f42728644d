import Mathlib.Data.List.Basic
import Mathlib.Data.List.Chain
import Mathlib.Order.BoundedOrder.Basic
import Mathlib.Order.Lattice
import OutboxPattern.Lib.Transition

/-!
# Resuming a stream of batches

A server streams messages in batches, a batch being what was committed together.  Each
message has a position in the server's log, and each batch the position of its commit.
The positions of a batch lie below its commit, but nothing else is known of them: they may
go back from one batch to the next.

A client acknowledges the position of every message it has handled, one by one, and reports
the greatest position it has acknowledged so far.  When the session breaks, the server has
received some of these reports or none, and the next session streams again every batch that
was committed at the reported position or above it.

`Session.Inv.whole` says that no message is lost that way: what was handled and what the
session has still to stream contain every batch as a whole.  The reason is that no report is
above the commit of a batch that has not been handled whole: within a batch the reported
position stays below its commit, and the position of the message that ends it is still at
most the commit of the next.
-/

namespace ResumableStream

universe u v

variable {M : Type u} {P : Type v} [LinearOrder P] (position : M → P)

/-- The messages of one commit. -/
structure Batch where
  body : List M
  /-- The message that ends the batch. -/
  last : M
  commit : P
  body_lt : ∀ m ∈ body, position m < commit
  commit_le : commit ≤ position last

/-- The batches of a log, in commit order. -/
structure Log where
  batches : List (Batch position)
  ordered : batches.IsChain fun a b => position a.last ≤ b.commit

/-- What happens next in a session. -/
inductive Event (P : Type v)
  /-- The client handles and acknowledges the next message. -/
  | handle
  /-- The session breaks when the server's confirmed position is `confirmed`, and the next
  one begins. -/
  | restart (confirmed : P)

/-- The state of a session. -/
structure Session (M : Type u) (P : Type v) where
  /-- The position the server took as confirmed when the session began. -/
  confirmed : P
  /-- The greatest position acknowledged in this session. -/
  flush : P
  /-- The positions reported in this session. -/
  reports : List P
  /-- What the session has still to stream. -/
  queue : List M
  /-- The messages handled so far, in all sessions. -/
  handled : List M

variable {position}

/-- The messages of a batch, in stream order. -/
def Batch.messages (batch : Batch position) : List M := batch.body ++ [batch.last]

/-- The order of each batch and the next is that of all batches, a batch ending no lower than
it is committed. -/
theorem Log.pairwise (log : Log position) :
    log.batches.Pairwise fun a b => position a.last ≤ b.commit := by
  have : IsTrans (Batch position) fun a b => position a.last ≤ b.commit :=
    ⟨fun _ b _ hab hbc => hab.trans (b.commit_le.trans hbc)⟩
  exact List.isChain_iff_pairwise.mp log.ordered

/-- The batches that a session which begins at `confirmed` streams. -/
def Log.from (log : Log position) (confirmed : P) : List (Batch position) :=
  log.batches.filter fun batch => confirmed ≤ batch.commit

namespace Session

/-- The beginning of a session. -/
def start [OrderBot P] (log : Log position) (confirmed : P) (handled : List M) :
    Session M P where
  confirmed := confirmed
  flush := ⊥
  reports := []
  queue := (log.from confirmed).flatMap Batch.messages
  handled := handled

/-- The positions that the server can have taken as confirmed when the session breaks. -/
def mayConfirm (s : Session M P) : List P := s.confirmed :: s.reports

/-- One event of a session. -/
def step [OrderBot P] (log : Log position) (s : Session M P) :
    Event P → Option (Session M P)
  | .handle =>
      match s.queue with
      | [] => none
      | m :: queue =>
          some { s with
            flush := max s.flush (position m)
            reports := s.reports ++ [max s.flush (position m)]
            queue := queue
            handled := s.handled ++ [m] }
  | .restart confirmed =>
      if confirmed ∈ s.mayConfirm then some (start log confirmed s.handled) else none

end Session

/-! ### Where a session stands -/

/-- The session has still to stream `queue` of the batches `batches`: the rest of the first
one, whose other messages were the last ones to be handled, and all others. -/
inductive Streaming : List (Batch position) → List M → List M → Prop
  | drained {handled : List M} : Streaming [] [] handled
  | within {batch : Batch position} {later : List (Batch position)}
      {before pending handled : List M} (messages : batch.messages = before ++ pending)
      (unfinished : pending ≠ []) (suffix : before <:+ handled) :
      Streaming (batch :: later) (pending ++ later.flatMap Batch.messages) handled

theorem messages_ne_nil (batch : Batch position) : batch.messages ≠ [] := by
  simp [Batch.messages]

/-- At the beginning of a batch. -/
theorem streaming_start (batches : List (Batch position)) (handled : List M) :
    Streaming batches (batches.flatMap Batch.messages) handled := by
  cases batches with
  | nil => exact .drained
  | cons batch later =>
      have messages : batch.messages = [] ++ batch.messages := rfl
      exact .within messages (messages_ne_nil batch) List.nil_suffix

/-- What was handled and what is still to be streamed contain each batch as a whole. -/
theorem Streaming.whole {batches : List (Batch position)} {queue handled : List M}
    (h : Streaming batches queue handled) {batch : Batch position} (hbatch : batch ∈ batches) :
    batch.messages <:+: handled ++ queue := by
  cases h with
  | drained => cases hbatch
  | @within current later before pending _ messages _ suffix =>
      rcases List.mem_cons.mp hbatch with rfl | hlater
      · obtain ⟨front, rfl⟩ := suffix
        refine ⟨front, later.flatMap Batch.messages, ?_⟩
        rw [messages]
        simp only [List.append_assoc]
      · have hinfix : batch.messages <:+: later.flatMap Batch.messages := by
          rw [List.flatMap_def]
          exact List.infix_of_mem_flatten (List.mem_map_of_mem hlater)
        exact hinfix.trans ((List.suffix_append _ _).trans (List.suffix_append _ _)).isInfix

/-- Handling the next message either stays within the batch, below its commit, or ends
it. -/
theorem Streaming.handle {batches : List (Batch position)} {m : M} {queue handled : List M}
    (h : Streaming batches (m :: queue) handled) :
    ∃ batch later, batches = batch :: later ∧
      ((Streaming batches queue (handled ++ [m]) ∧ position m < batch.commit) ∨
        (Streaming later queue (handled ++ [m]) ∧ m = batch.last ∧
          batch.messages <:+: handled ++ [m])) := by
  generalize hqueue : m :: queue = whole at h
  cases h with
  | drained => cases hqueue
  | @within batch later before pending _ messages unfinished suffix =>
      refine ⟨batch, later, rfl, ?_⟩
      cases pending with
      | nil => exact absurd rfl unfinished
      | cons next pending =>
          rw [List.cons_append, List.cons.injEq] at hqueue
          obtain ⟨rfl, rfl⟩ := hqueue
          have hsuffix : before ++ [m] <:+ handled ++ [m] := by
            obtain ⟨front, rfl⟩ := suffix
            exact ⟨front, (List.append_assoc front before [m]).symm⟩
          have hmessages : batch.messages = (before ++ [m]) ++ pending := by
            rw [messages, List.append_assoc, List.singleton_append]
          rcases List.eq_nil_or_concat pending with rfl | ⟨init, final, rfl⟩
          · right
            rw [List.append_nil] at hmessages
            refine ⟨streaming_start later _, ?_, ?_⟩
            · rw [Batch.messages] at hmessages
              exact (List.append_inj' hmessages rfl).2 |> List.singleton_inj.mp |>.symm
            · rw [hmessages]
              exact hsuffix.isInfix
          · left
            refine ⟨.within hmessages (by simp) hsuffix, batch.body_lt m ?_⟩
            rw [Batch.messages, List.concat_eq_append, ← List.append_assoc] at hmessages
            rw [(List.append_inj' hmessages rfl).1]
            simp

/-! ### The invariant -/

namespace Session

/-- **The invariant of sessions**: the batches of the log are those that were handled whole
and those that every possible next session streams again. -/
structure Inv (log : Log position) (s : Session M P) : Prop where
  streaming : ∃ done rest, log.from s.confirmed = done ++ rest ∧
    Streaming rest s.queue s.handled ∧ (∀ batch ∈ done, batch.messages <:+: s.handled) ∧
    ∀ batch ∈ rest, s.flush ≤ batch.commit ∧ ∀ report ∈ s.reports, report ≤ batch.commit
  skipped : ∀ batch ∈ log.batches, batch.commit < s.confirmed → batch.messages <:+: s.handled

variable {log : Log position} {s s' : Session M P}

/-- Whatever the server takes as confirmed, a batch is streamed again or was handled whole. -/
theorem Inv.streamed_or_handled (h : s.Inv log) {batch : Batch position}
    (hbatch : batch ∈ log.batches) {confirmed : P} (hconfirmed : confirmed ∈ s.mayConfirm) :
    confirmed ≤ batch.commit ∨ batch.messages <:+: s.handled := by
  rcases lt_or_ge batch.commit s.confirmed with hlt | hge
  · exact Or.inr (h.skipped batch hbatch hlt)
  · obtain ⟨done, rest, hfrom, -, hdone, hrest⟩ := h.streaming
    have hmem : batch ∈ done ++ rest := by
      rw [← hfrom]
      exact List.mem_filter.mpr ⟨hbatch, decide_eq_true hge⟩
    rcases List.mem_append.mp hmem with hmem | hmem
    · exact Or.inr (hdone batch hmem)
    · rcases List.mem_cons.mp hconfirmed with rfl | hreport
      · exact Or.inl hge
      · exact Or.inl ((hrest batch hmem).2 confirmed hreport)

/-- **No message is lost.**  What was handled in all sessions and what this one has still to
stream contain every batch as a whole. -/
theorem Inv.whole (h : s.Inv log) {batch : Batch position} (hbatch : batch ∈ log.batches) :
    batch.messages <:+: s.handled ++ s.queue := by
  have hgrows : batch.messages <:+: s.handled → batch.messages <:+: s.handled ++ s.queue :=
    fun hinfix => hinfix.trans (List.prefix_append _ _).isInfix
  rcases lt_or_ge batch.commit s.confirmed with hlt | hge
  · exact hgrows (h.skipped batch hbatch hlt)
  · obtain ⟨done, rest, hfrom, hstreaming, hdone, -⟩ := h.streaming
    have hmem : batch ∈ done ++ rest := by
      rw [← hfrom]
      exact List.mem_filter.mpr ⟨hbatch, decide_eq_true hge⟩
    rcases List.mem_append.mp hmem with hmem | hmem
    · exact hgrows (hdone batch hmem)
    · exact hstreaming.whole hmem

theorem Inv.start [OrderBot P] {confirmed : P} {handled : List M}
    (hskipped : ∀ batch ∈ log.batches, batch.commit < confirmed →
      batch.messages <:+: handled) : (start log confirmed handled).Inv log where
  streaming := by
    refine ⟨[], log.from confirmed, rfl, streaming_start _ _, by simp, fun batch _ => ?_⟩
    exact ⟨bot_le, by simp [Session.start]⟩
  skipped := hskipped

theorem Inv.handle (h : s.Inv log) {m : M} {queue : List M} (hqueue : s.queue = m :: queue) :
    Inv log { s with
      flush := max s.flush (position m)
      reports := s.reports ++ [max s.flush (position m)]
      queue := queue
      handled := s.handled ++ [m] } := by
  obtain ⟨done, rest, hfrom, hstreaming, hdone, hrest⟩ := h.streaming
  rw [hqueue] at hstreaming
  have hgrows : ∀ {messages : List M}, messages <:+: s.handled →
      messages <:+: s.handled ++ [m] := fun hinfix =>
    hinfix.trans (List.prefix_append _ _).isInfix
  refine ⟨?_, fun batch hbatch hlt => hgrows (h.skipped batch hbatch hlt)⟩
  obtain ⟨batch, later, rfl, hcases⟩ := hstreaming.handle
  have hordered : (done ++ batch :: later).Pairwise fun a b => position a.last ≤ b.commit := by
    rw [← hfrom]
    exact log.pairwise.sublist List.filter_sublist
  have hnext := (List.pairwise_cons.mp (List.pairwise_append.mp hordered).2.1).1
  -- raising the reported position to that of `m` keeps it below the batches still to stream
  have hbound : ∀ b, b ∈ batch :: later → position m ≤ b.commit →
      max s.flush (position m) ≤ b.commit ∧
        ∀ report ∈ s.reports ++ [max s.flush (position m)], report ≤ b.commit := by
    intro b hb hle
    obtain ⟨hflush, hreports⟩ := hrest b hb
    refine ⟨max_le hflush hle, fun report hreport => ?_⟩
    rcases List.mem_append.mp hreport with hreport | hreport
    · exact hreports report hreport
    · rw [List.mem_singleton.mp hreport]
      exact max_le hflush hle
  rcases hcases with ⟨hstreaming', hlt⟩ | ⟨hstreaming', rfl, hinfix⟩
  · refine ⟨done, batch :: later, hfrom, hstreaming', fun b hb => hgrows (hdone b hb),
      fun b hb => hbound b hb ?_⟩
    rcases List.mem_cons.mp hb with rfl | hlater
    · exact hlt.le
    · exact hlt.le.trans (batch.commit_le.trans (hnext b hlater))
  · refine ⟨done ++ [batch], later, by rw [hfrom, List.append_assoc, List.singleton_append],
      hstreaming', fun b hb => ?_, fun b hb => hbound b (List.mem_cons_of_mem _ hb) (hnext b hb)⟩
    rcases List.mem_append.mp hb with hb | hb
    · exact hgrows (hdone b hb)
    · rw [List.mem_singleton.mp hb]
      exact hinfix

theorem Inv.step [OrderBot P] (h : s.Inv log) {event : Event P}
    (hstep : s.step log event = some s') : s'.Inv log := by
  cases event with
  | handle =>
      simp only [Session.step] at hstep
      split at hstep
      · cases hstep
      · next m queue hqueue =>
        cases hstep
        exact h.handle hqueue
  | restart confirmed =>
      simp only [Session.step] at hstep
      split at hstep
      · next hconfirmed =>
        cases hstep
        refine Inv.start fun batch hbatch hlt => ?_
        rcases h.streamed_or_handled hbatch hconfirmed with hle | hinfix
        · exact absurd hle (not_le.mpr hlt)
        · exact hinfix
      · cases hstep

/-- **Every reachable session keeps the invariant**, if the first one starts no later than
the log. -/
theorem inv_of_run [OrderBot P] {confirmed : P}
    (hfirst : ∀ batch ∈ log.batches, confirmed ≤ batch.commit)
    {events : List (Event P)}
    (h : Transition.run (step log) (Session.start log confirmed []) events = some s) :
    s.Inv log := by
  refine Transition.run_invariant (fun _ _ _ hs hstep => hs.step hstep) (Inv.start ?_) h
  intro batch hbatch hlt
  exact absurd (hfirst batch hbatch) (not_le.mpr hlt)

end Session

end ResumableStream
