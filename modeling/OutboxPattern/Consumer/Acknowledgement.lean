import Mathlib.Order.Nat
import OutboxPattern.Consumer.InsertFormat

/-!
# What `consumer.py` acknowledges

The position that `send_feedback` reports tells the server that the consumer "has successfully
processed up to this point"; the server may then delete what lies below it.

Over a stream of increasing positions, the greatest position reported so far reaches the
messages handed over so far and no others.  `process_message` reports the position of every
one of them, also that of an insert which it failed to parse.  So an insert is acknowledged
without having been processed if and only if its payload is broken, as
`acknowledgesProcessed_iff` says at every point of every stream.
-/

namespace OutboxPattern.Consumer

/-- `msg_type == b'I'`. -/
def IsInsert (msg : ReplicationMessage Bytes) : Prop := slice msg.payload 0 1 = [ascii 'I']

instance decidableIsInsert (msg : ReplicationMessage Bytes) : Decidable (IsInsert msg) :=
  inferInstanceAs (Decidable (_ = _))

/-- What `send_feedback` has reported when these messages have been handed over. -/
def reported (handed : List (ReplicationMessage Bytes)) : List Lsn :=
  handed.map fun msg => (processMessage msg).2

/-- **What is acknowledged was processed**, when `handed` has been handed over of the stream: if
the greatest position reported so far is at or beyond an Insert message, then that message
was handed over, and `parse_insert_message` returned normally on it. -/
def AcknowledgesProcessed (stream handed : List (ReplicationMessage Bytes)) : Prop :=
  ∀ msg ∈ stream, IsInsert msg → ∀ flushLsn, (reported handed).max? = some flushLsn →
    msg.dataStart ≤ flushLsn →
      msg ∈ handed ∧ ∃ result, parseInsertMessage msg.payload = .ok result

section Stream

variable {stream handed : List (ReplicationMessage Bytes)}

/-- The greatest reported position reaches what was handed over. -/
theorem exists_flushLsn {msg : ReplicationMessage Bytes} (hmsg : msg ∈ handed) :
    ∃ flushLsn, (reported handed).max? = some flushLsn ∧ msg.dataStart ≤ flushLsn := by
  have hreported : msg.dataStart ∈ reported handed :=
    List.mem_map.mpr ⟨msg, hmsg, processMessage_flushLsn msg⟩
  cases hmax : (reported handed).max? with
  | none =>
      rw [List.max?_eq_none_iff.mp hmax] at hreported
      cases hreported
  | some flushLsn => exact ⟨flushLsn, rfl, (List.max?_eq_some_iff.mp hmax).2 _ hreported⟩

/-- It reaches nothing else. -/
theorem mem_handed (hincreasing : stream.Pairwise fun a b => a.dataStart < b.dataStart)
    (hinitial : handed <+: stream) {msg : ReplicationMessage Bytes} (hmsg : msg ∈ stream)
    {flushLsn : Lsn} (hmax : (reported handed).max? = some flushLsn)
    (hle : msg.dataStart ≤ flushLsn) : msg ∈ handed := by
  obtain ⟨rest, rfl⟩ := hinitial
  rcases List.mem_append.mp hmsg with hhanded | hrest
  · exact hhanded
  · obtain ⟨last, hlast, heq⟩ := List.mem_map.mp (List.max?_mem hmax)
    have hlt := (List.pairwise_append.mp hincreasing).2.2 last hlast msg hrest
    rw [processMessage_flushLsn] at heq
    exact absurd (heq ▸ hle) (Nat.not_le_of_lt hlt)

/-- **Broken inserts are what is acknowledged without having been processed.**  At every point
of a stream, everything acknowledged was processed if and only if no Insert message handed
over so far is broken. -/
theorem acknowledgesProcessed_iff
    (hincreasing : stream.Pairwise fun a b => a.dataStart < b.dataStart)
    (hinitial : handed <+: stream) :
    AcknowledgesProcessed stream handed ↔
      ∀ msg ∈ handed, IsInsert msg → ¬ Broken msg.payload := by
  constructor
  · intro h msg hmsg hinsert hbroken
    obtain ⟨flushLsn, hmax, hle⟩ := exists_flushLsn hmsg
    obtain ⟨-, result, hok⟩ := h msg (hinitial.subset hmsg) hinsert flushLsn hmax hle
    obtain ⟨e, herror⟩ := (parseInsertMessage_error_iff msg.payload).mpr hbroken
    rw [hok] at herror
    cases herror
  · intro h msg hmsg hinsert flushLsn hmax hle
    have hhanded := mem_handed hincreasing hinitial hmsg hmax hle
    refine ⟨hhanded, ?_⟩
    cases hparse : parseInsertMessage msg.payload with
    | ok result => exact ⟨result, rfl⟩
    | error e =>
        exact absurd ((parseInsertMessage_error_iff _).mp ⟨e, hparse⟩) (h msg hhanded hinsert)

end Stream

/-- A payload of one text column, the only byte of which is not UTF-8. -/
def invalidText : Bytes := [0x49, 0, 0, 0, 1, 0x4e, 0, 1, 0x74, 0, 0, 0, 1, 0xff]

/-- An Insert message without columns, one whose text is invalid, and a Commit message. -/
def invalidStream : List (ReplicationMessage Bytes) :=
  [⟨10, [0x49, 0, 0, 0, 1, 0x4e, 0, 0]⟩, ⟨20, invalidText⟩, ⟨60, [0x43]⟩]

/-- Up to the invalid text everything acknowledged was processed. -/
theorem acknowledgesProcessed_iff_invalidStream :
    AcknowledgesProcessed invalidStream (invalidStream.take 1) := by
  refine (acknowledgesProcessed_iff (by decide) (List.take_prefix _ _)).mpr ?_
  intro msg hmsg _
  obtain rfl := List.mem_singleton.mp hmsg
  decide

/-- The invalid text is acknowledged by its own feedback, and by that of the Commit message. -/
theorem invalidText_acknowledged :
    invalidStream.Pairwise (fun a b => a.dataStart < b.dataStart) ∧
      ¬ AcknowledgesProcessed invalidStream (invalidStream.take 2) ∧
      ¬ AcknowledgesProcessed invalidStream invalidStream := by
  have hrejected : ∀ result, parseInsertMessage invalidText ≠ .ok result := by
    intro result hok
    obtain ⟨e, herror⟩ := (parseInsertMessage_error_iff invalidText).mpr (by decide)
    rw [hok] at herror
    cases herror
  refine ⟨by decide, fun h => ?_, fun h => ?_⟩
  · obtain ⟨-, result, hok⟩ :=
      h ⟨20, invalidText⟩ (by decide) (by decide) 20 (by decide) (by decide)
    exact hrejected result hok
  · obtain ⟨-, result, hok⟩ :=
      h ⟨20, invalidText⟩ (by decide) (by decide) 60 (by decide) (by decide)
    exact hrejected result hok

end OutboxPattern.Consumer
