import OutboxPattern.Lib.KeyedLog

/-!
# At-least-once delivery of a log

A consumer of a log keeps an offset, the position of the next record it will receive.  It
receives records one by one from there on, and it may be set back to any earlier offset,
any number of times: after a crash it starts again from the last offset it has stored.
Meanwhile the log grows.

A log that is split into partitions is delivered partition by partition (`delivered_next`,
`delivered_rewind`).

`Delivered log offset received` says that a consumer can be at that offset with those
records received so far.  Received records need not be in log order, and any of them may
have been received many times; still, `Delivered.last_eq` says that a consumer which has
caught up has received, under each key, the last record of the log last.
-/

namespace Delivery

universe u v w

variable {E : Type u} {K : Type v} [DecidableEq K]

/-- What a consumer of a log may have received by the time it is at an offset. -/
inductive Delivered (log : List E) : ℕ → List E → Prop
  /-- It starts at the beginning. -/
  | start : Delivered log 0 []
  /-- It receives the next record. -/
  | next {offset : ℕ} {received : List E} {e : E} (delivered : Delivered log offset received)
      (record : log[offset]? = some e) : Delivered log (offset + 1) (received ++ [e])
  /-- It is set back. -/
  | rewind {offset offset' : ℕ} {received : List E} (delivered : Delivered log offset received)
      (earlier : offset' ≤ offset) : Delivered log offset' received

namespace Delivered

variable {log received : List E} {offset : ℕ}

/-- The log may grow at any time. -/
theorem append (h : Delivered log offset received) (log' : List E) :
    Delivered (log ++ log') offset received := by
  induction h with
  | start => exact .start
  | next _ record ih =>
      refine .next ih ?_
      rwa [List.getElem?_append_left (List.getElem?_eq_some_iff.mp record).1]
  | rewind _ earlier ih => exact .rewind ih earlier

/-- It never gets ahead of the log. -/
theorem offset_le (h : Delivered log offset received) : offset ≤ log.length := by
  induction h with
  | start => exact Nat.zero_le _
  | next _ record _ => exact (List.getElem?_eq_some_iff.mp record).1
  | rewind _ earlier ih => exact earlier.trans ih

theorem subset (h : Delivered log offset received) : received ⊆ log := by
  induction h with
  | start => exact List.nil_subset _
  | next _ record ih =>
      refine List.append_subset.mpr ⟨ih, List.cons_subset.mpr ⟨?_, List.nil_subset _⟩⟩
      exact List.mem_of_getElem? record
  | rewind _ _ ih => exact ih

variable (key : E → K)

/-- Under each key, the record received last is the last one of some prefix of the log that
reaches up to the offset: a consumer that was set back is ahead of its offset, never behind
it. -/
theorem last_take (h : Delivered log offset received) (k : K) :
    ∃ n, offset ≤ n ∧ KeyedLog.last key k received = KeyedLog.last key k (log.take n) := by
  induction h with
  | start => exact ⟨0, Nat.le_refl _, rfl⟩
  | @next offset received e _ record ih =>
      obtain ⟨n, hle, hlast⟩ := ih
      have htake : log.take (offset + 1) = log.take offset ++ [e] := by
        rw [List.take_add_one, record, Option.toList_some]
      by_cases hk : key e = k
      · subst hk
        refine ⟨offset + 1, Nat.le_refl _, ?_⟩
        rw [htake, KeyedLog.last_concat_self, KeyedLog.last_concat_self]
      · rw [KeyedLog.last_concat_of_ne key hk, hlast]
        rcases Nat.eq_or_lt_of_le hle with rfl | hlt
        · refine ⟨offset + 1, Nat.le_refl _, ?_⟩
          rw [htake, KeyedLog.last_concat_of_ne key hk]
        · exact ⟨n, hlt, rfl⟩
  | rewind _ earlier ih =>
      obtain ⟨n, hle, hlast⟩ := ih
      exact ⟨n, Nat.le_trans earlier hle, hlast⟩

/-- **A consumer that has caught up has received the last record of every key last.** -/
theorem last_eq (h : Delivered log log.length received) (k : K) :
    KeyedLog.last key k received = KeyedLog.last key k log := by
  obtain ⟨n, hle, hlast⟩ := h.last_take key k
  rw [hlast, List.take_of_length_le hle]

end Delivered

/-! ### Partitions -/

section Partitions

variable {P : Type v} [DecidableEq P] {part : E → P} {log received : List E} {offset : P → ℕ}

/-- The next record of a partition is received. -/
theorem delivered_next
    (h : ∀ p, Delivered (KeyedLog.entries part p log) (offset p)
      (KeyedLog.entries part p received))
    {p : P} {e : E} (hrecord : (KeyedLog.entries part p log)[offset p]? = some e) (q : P) :
    Delivered (KeyedLog.entries part q log) (Function.update offset p (offset p + 1) q)
      (KeyedLog.entries part q (received ++ [e])) := by
  have hpart : part e = p := ((KeyedLog.mem_entries part).mp (List.mem_of_getElem? hrecord)).2
  by_cases hq : q = p
  · subst hq
    subst hpart
    rw [Function.update_self, KeyedLog.entries_concat_self]
    exact .next (h _) hrecord
  · have hne : part e ≠ q := fun heq => hq (heq.symm.trans hpart)
    rw [Function.update_of_ne hq, KeyedLog.entries_concat_of_ne part hne]
    exact h q

/-- The consumer is set back in a partition. -/
theorem delivered_rewind
    (h : ∀ p, Delivered (KeyedLog.entries part p log) (offset p)
      (KeyedLog.entries part p received))
    {p : P} {earlier : ℕ} (hle : earlier ≤ offset p) (q : P) :
    Delivered (KeyedLog.entries part q log) (Function.update offset p earlier q)
      (KeyedLog.entries part q received) := by
  by_cases hq : q = p
  · subst hq
    rw [Function.update_self]
    exact .rewind (h q) hle
  · rw [Function.update_of_ne hq]
    exact h q

end Partitions

end Delivery
