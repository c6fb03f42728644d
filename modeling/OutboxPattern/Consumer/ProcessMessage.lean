import Mathlib.Data.List.Infix
import Mathlib.Data.List.Basic
import OutboxPattern.Lib.BigEndian

/-!
# The replication consumers (`manual_consumer/consumer.py`, `mc-stan.py`)

psycopg2 hands a consumer one message of the replication stream at a time.  Both scripts
define a `process_message` that logs what it recognizes in the payload and then sends the
`data_start` of the message back as `flush_lsn`, whatever it recognized: the failure to parse
an insert is logged too, and is no reason to stop.

The payload of `pgoutput` is a byte string, which `consumer.py` parses; that of
`test_decoding` is a text, which `mc-stan.py` searches.
-/

namespace OutboxPattern

/-- A position in the write-ahead log. -/
abbrev Lsn := ℕ

/-- A message of the stream, as psycopg2 hands it over. -/
structure ReplicationMessage (Payload : Type) where
  dataStart : Lsn
  payload : Payload
  deriving DecidableEq, Repr

/-! ### `consumer.py` -/

namespace Consumer

abbrev Bytes := List UInt8

/-- The byte of an ASCII character. -/
def ascii (c : Char) : UInt8 := c.toUInt8

/-- The exceptions that parsing raises, with what their texts tell. -/
inductive ParseError
  /-- `unpack_from requires a buffer of at least offset + size bytes for unpacking size bytes
  at offset offset (actual buffer size is actual)` -/
  | structError (size offset actual : ℕ)
  | unicodeDecodeError (object : Bytes)
  deriving DecidableEq, Repr

/-- `payload[start:stop]`, which is cut off at the end of the payload. -/
def slice (payload : Bytes) (start stop : ℕ) : Bytes := (payload.take stop).drop start

/-- `struct.unpack_from` of one unsigned big-endian integer: of `'>I'` for the size 4, of
`'>H'` for the size 2. -/
def unpackFrom (size : ℕ) (payload : Bytes) (offset : ℕ) : Except ParseError ℕ :=
  if offset + size ≤ payload.length then
    .ok (BigEndian.decode (slice payload offset (offset + size)))
  else
    .error (.structError size offset payload.length)

/-- `data.decode('utf-8')`. -/
def decodeUtf8 (data : Bytes) : Except ParseError String :=
  match String.fromUTF8? data.toByteArray with
  | some text => .ok text
  | none => .error (.unicodeDecodeError data)

/-- One turn of the loop over the columns: what it appends, and the offset after it. -/
def parseColumn (payload : Bytes) (offset : ℕ) :
    Except ParseError (List (Option String) × ℕ) := do
  let colType := slice payload offset (offset + 1)
  let offset := offset + 1
  if colType = [ascii 't'] then
    let colLen ← unpackFrom 4 payload offset
    let offset := offset + 4
    let colData := slice payload offset (offset + colLen)
    let offset := offset + colLen
    let text ← decodeUtf8 colData
    return ([some text], offset)
  else if colType = [ascii 'n'] then
    return ([none], offset)
  else if colType = [ascii 'u'] then
    return ([some "UNCHANGED_TOAST"], offset)
  else
    -- no other kind of column, nor a missing one, is an error
    return ([], offset)

/-- The remaining turns of the loop, after which `columns` is complete. -/
def parseColumns (payload : Bytes) :
    ℕ → ℕ → List (Option String) → Except ParseError (List (Option String))
  | 0, _, columns => return columns
  | turns + 1, offset, columns => do
      let (appended, offset) ← parseColumn payload offset
      parseColumns payload turns offset (columns ++ appended)

/-- `parse_insert_message`: the relation's id and the columns.  The byte at offset 5, the
tuple type, is read and not looked at, and what follows the last column is not read. -/
def parseInsertMessage (payload : Bytes) :
    Except ParseError (ℕ × List (Option String)) := do
  let relId ← unpackFrom 4 payload 1
  let numCols ← unpackFrom 2 payload 6
  let columns ← parseColumns payload numCols 8 []
  return (relId, columns)

/-! What the text of an exception tells is true of the payload. -/

/-- The exception is due: a read past the end of the payload, or a part of it that is not
UTF-8. -/
def ParseError.Justified (payload : Bytes) : ParseError → Prop
  | .structError size offset actual => actual = payload.length ∧ actual < offset + size
  | .unicodeDecodeError object => object <:+: payload ∧ String.fromUTF8? object.toByteArray = none

section Errors

variable {payload : Bytes} {offset : ℕ} {e : ParseError}

theorem slice_isInfix (payload : Bytes) (start stop : ℕ) : slice payload start stop <:+: payload :=
  (List.drop_suffix start _).isInfix.trans (List.take_prefix stop payload).isInfix

theorem unpackFrom_error {size : ℕ} (h : unpackFrom size payload offset = .error e) :
    e.Justified payload := by
  unfold unpackFrom at h
  split at h
  · cases h
  · next hshort =>
    cases h
    exact ⟨rfl, Nat.lt_of_not_le hshort⟩

theorem decodeUtf8_error {data : Bytes} (hdata : data <:+: payload)
    (h : decodeUtf8 data = .error e) : e.Justified payload := by
  unfold decodeUtf8 at h
  split at h
  · cases h
  · next hinvalid =>
    cases h
    exact ⟨hdata, hinvalid⟩

@[simp] theorem ok_bind {α β : Type} (a : α) (f : α → Except ParseError β) :
    Except.ok a >>= f = f a := rfl

@[simp] theorem error_bind {α β : Type} (e : ParseError) (f : α → Except ParseError β) :
    Except.error e >>= f = .error e := rfl

/-- A computation fails in its first step or in what follows. -/
theorem error_of_bind {α β : Type} {x : Except ParseError α} {f : α → Except ParseError β}
    (h : x >>= f = .error e) : x = .error e ∨ ∃ a, x = .ok a ∧ f a = .error e := by
  cases x with
  | error e' =>
      cases h
      exact Or.inl rfl
  | ok a => exact Or.inr ⟨a, rfl, h⟩

theorem parseColumn_error (h : parseColumn payload offset = .error e) : e.Justified payload := by
  unfold parseColumn at h
  dsimp only at h
  split at h
  · rcases error_of_bind h with hlen | ⟨colLen, -, h⟩
    · exact unpackFrom_error hlen
    · rcases error_of_bind h with htext | ⟨text, -, h⟩
      · exact decodeUtf8_error (slice_isInfix _ _ _) htext
      · cases h
  · split at h
    · cases h
    · split at h
      · cases h
      · cases h

theorem parseColumns_error {turns : ℕ} {columns : List (Option String)}
    (h : parseColumns payload turns offset columns = .error e) : e.Justified payload := by
  induction turns generalizing offset columns with
  | zero => cases h
  | succ turns ih =>
      rw [parseColumns] at h
      rcases error_of_bind h with hcolumn | ⟨⟨appended, next⟩, -, h⟩
      · exact parseColumn_error hcolumn
      · exact ih h

/-- **An insert fails to parse for the reason that is logged.** -/
theorem parseInsertMessage_error (h : parseInsertMessage payload = .error e) :
    e.Justified payload := by
  unfold parseInsertMessage at h
  rcases error_of_bind h with hrel | ⟨relId, -, h⟩
  · exact unpackFrom_error hrel
  rcases error_of_bind h with hnum | ⟨numCols, -, h⟩
  · exact unpackFrom_error hnum
  rcases error_of_bind h with hcols | ⟨columns, -, h⟩
  · exact parseColumns_error hcols
  · cases h

end Errors

/-- A null, an unchanged column and a text, cut off within the length of the text. -/
example : parseInsertMessage [0x49, 0, 0, 0x40, 1, 0x4e, 0, 3, 0x6e, 0x75, 0x74, 0, 0] =
    .error (.structError 4 11 13) := by
  decide

/-- What `process_message` logs. -/
inductive LogRecord
  | relation
  | begin
  | commit
  | insert (relId : ℕ) (columns : List (Option String))
  | insertFailed (error : ParseError) (raw : Bytes)
  | update (raw : Bytes)
  | delete (raw : Bytes)
  | other (msgType : Bytes)
  deriving DecidableEq, Repr

/-- `process_message`: what it logs, and the `flush_lsn` it sends. -/
def processMessage (msg : ReplicationMessage Bytes) : LogRecord × Lsn :=
  let payload := msg.payload
  let msgType := slice payload 0 1
  let record :=
    if msgType = [ascii 'R'] then
      .relation
    else if msgType = [ascii 'B'] then
      .begin
    else if msgType = [ascii 'C'] then
      .commit
    else if msgType = [ascii 'I'] then
      match parseInsertMessage payload with
      | .ok (relId, cols) => .insert relId cols
      | .error e => .insertFailed e (slice payload 0 50)
    else if msgType = [ascii 'U'] then
      .update (slice payload 0 100)
    else if msgType = [ascii 'D'] then
      .delete (slice payload 0 100)
    else
      .other msgType
  (record, msg.dataStart)

@[simp] theorem processMessage_flushLsn (msg : ReplicationMessage Bytes) :
    (processMessage msg).2 = msg.dataStart := rfl

end Consumer

/-! ### `mc-stan.py` -/

namespace McStan

/-- What `process_message` logs. -/
inductive LogRecord
  | outboxEvent (payload : String)
  | ignored (payload : String)
  deriving DecidableEq, Repr

/-- `process_message`: what it logs, and the `flush_lsn` it sends. -/
def processMessage (msg : ReplicationMessage String) : LogRecord × Lsn :=
  let payload := msg.payload
  let record :=
    if "public.outbox_events".toList <:+: payload.toList then
      .outboxEvent payload
    else
      .ignored payload
  (record, msg.dataStart)

@[simp] theorem processMessage_flushLsn (msg : ReplicationMessage String) :
    (processMessage msg).2 = msg.dataStart := rfl

end McStan

end OutboxPattern
