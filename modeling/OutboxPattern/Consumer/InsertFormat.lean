import OutboxPattern.Consumer.ProcessMessage

/-!
# The format of an Insert message

The docstring of `parse_insert_message` describes a format: `'I'`, the id of a relation in 32
bits, `'N'`, the number of columns in 16 bits, then the columns, each `'n'`, `'u'`, or `'t'`
with a length in 32 bits and as many bytes of UTF-8.  An `InsertMessage` is what can be
written in this format, and `InsertMessage.encode` writes it.

* `parseInsertMessage_encode` says that the parser reads a message as it was written.
* `acceptsExactly_iff` says of which payloads the parser is exact.  It is not of all: it reads
  no tuple type, takes a column of any other kind for no column at all, a text to be as long as
  there are bytes left, and stops after the last column.  What it does reject is `Broken`.
-/

namespace OutboxPattern.Consumer

/-- The bytes of a text in UTF-8. -/
def utf8 (text : String) : Bytes := text.toByteArray.data.toList

/-- A column of an Insert message. -/
inductive Column
  | null
  | unchanged
  | text (value : String) (length_lt : (utf8 value).length < 2 ^ 32)

/-- An Insert message: what its fields can hold. -/
@[ext] structure InsertMessage where
  relId : ℕ
  columns : List Column
  relId_lt : relId < 2 ^ 32
  columns_lt : columns.length < 2 ^ 16

namespace Column

def encode : Column → Bytes
  | null => [ascii 'n']
  | unchanged => [ascii 'u']
  | text value _ => [ascii 't'] ++ BigEndian.encode 4 (utf8 value).length ++ utf8 value

/-- What the parser is to return for a column. -/
def result : Column → Option String
  | null => none
  | unchanged => some "UNCHANGED_TOAST"
  | text value _ => some value

end Column

namespace InsertMessage

def encode (m : InsertMessage) : Bytes :=
  [ascii 'I'] ++ BigEndian.encode 4 m.relId ++ [ascii 'N'] ++
    BigEndian.encode 2 m.columns.length ++ m.columns.flatMap Column.encode

/-- What the parser is to return for a message. -/
def result (m : InsertMessage) : ℕ × List (Option String) :=
  (m.relId, m.columns.map Column.result)

end InsertMessage

/-! ### Reading at an offset

What the parser reads depends on what is left of the payload at its offset. -/

section Reading

variable {payload : Bytes} {offset : ℕ}

/-- A slice is taken from what is left at its start. -/
theorem slice_add (payload : Bytes) (offset size : ℕ) :
    slice payload offset (offset + size) = (payload.drop offset).take size := by
  rw [slice, List.drop_take, Nat.add_sub_cancel_left]

/-- An integer is read if there are enough bytes left. -/
theorem unpackFrom_of_le {size : ℕ} (hsize : 0 < size)
    (h : size ≤ (payload.drop offset).length) :
    unpackFrom size payload offset = .ok (BigEndian.decode ((payload.drop offset).take size)) := by
  have hfits : offset + size ≤ payload.length := by
    rw [List.length_drop] at h
    omega
  rw [unpackFrom, if_pos hfits, slice_add]

/-- And if there are not, `struct` says so. -/
theorem unpackFrom_of_lt {size : ℕ} (h : (payload.drop offset).length < size) :
    unpackFrom size payload offset = .error (.structError size offset payload.length) := by
  have hshort : ¬ offset + size ≤ payload.length := by
    rw [List.length_drop] at h
    omega
  rw [unpackFrom, if_neg hshort]

/-- An integer that was written is read. -/
theorem unpackFrom_encode {size n : ℕ} {rest : Bytes} (hsize : 0 < size) (hn : n < 256 ^ size)
    (h : payload.drop offset = BigEndian.encode size n ++ rest) :
    unpackFrom size payload offset = .ok n := by
  have hle : size ≤ (payload.drop offset).length := by
    rw [h, List.length_append, BigEndian.length_encode]
    exact Nat.le_add_right _ _
  rw [unpackFrom_of_le hsize hle, h, List.take_left' (BigEndian.length_encode _ _),
    BigEndian.decode_encode hn]

/-- Behind what was read is the rest. -/
theorem drop_of_drop_eq {bytes rest : Bytes} (h : payload.drop offset = bytes ++ rest) :
    payload.drop (offset + bytes.length) = rest := by
  rw [← List.drop_drop, h, List.drop_left]

/-- A text that was encoded is decoded. -/
theorem decodeUtf8_utf8 (text : String) : decodeUtf8 (utf8 text) = .ok text := by
  have hbytes : (utf8 text).toByteArray = text.toByteArray := by
    apply ByteArray.ext
    rw [utf8, List.data_toByteArray, Array.toArray_toList]
  have hdecode : String.fromUTF8? (utf8 text).toByteArray = some text := by
    rw [hbytes, String.fromUTF8?, dif_pos text.isValidUTF8]
    rfl
  rw [decodeUtf8, hdecode]

/-- The kind of a column is its first byte. -/
theorem slice_kind {kind : UInt8} {tail : Bytes} (h : payload.drop offset = kind :: tail) :
    slice payload offset (offset + 1) = [kind] := by
  rw [slice_add, h]
  rfl

/-- A text column, when its length and its bytes can be read. -/
theorem parseColumn_text {colLen : ℕ} {text : String}
    (hkind : slice payload offset (offset + 1) = [ascii 't'])
    (hlen : unpackFrom 4 payload (offset + 1) = .ok colLen)
    (htext : decodeUtf8 (slice payload (offset + 1 + 4) (offset + 1 + 4 + colLen)) = .ok text) :
    parseColumn payload offset = .ok ([some text], offset + 1 + 4 + colLen) := by
  simp only [parseColumn, if_pos hkind, hlen, ok_bind, htext]
  rfl

/-- A column that was written is read, and the offset is then behind it. -/
theorem parseColumn_encode (column : Column) {rest : Bytes}
    (h : payload.drop offset = column.encode ++ rest) :
    parseColumn payload offset = .ok ([column.result], offset + column.encode.length) := by
  cases column with
  | null =>
      simp only [parseColumn, slice_kind h]
      rfl
  | unchanged =>
      simp only [parseColumn, slice_kind h]
      rfl
  | text value hlength =>
      rw [Column.encode, List.append_assoc, List.append_assoc] at h
      have hlen := drop_of_drop_eq h
      have hdata := drop_of_drop_eq hlen
      rw [BigEndian.length_encode, List.length_singleton] at hdata
      have hread : slice payload (offset + 1 + 4) (offset + 1 + 4 + (utf8 value).length) =
          utf8 value := by
        rw [slice_add, hdata, List.take_left]
      have hnext : offset + 1 + 4 + (utf8 value).length =
          offset + (Column.text value hlength).encode.length := by
        rw [Column.encode, List.length_append, List.length_append, BigEndian.length_encode,
          List.length_singleton]
        omega
      rw [← hnext]
      refine parseColumn_text (slice_kind h) (unpackFrom_encode (by omega) hlength hlen) ?_
      rw [hread, decodeUtf8_utf8]

/-- One turn of the loop. -/
theorem parseColumns_of_ok {turns next : ℕ} {appended : List (Option String)}
    (h : parseColumn payload offset = .ok (appended, next)) (before : List (Option String)) :
    parseColumns payload (turns + 1) offset before =
      parseColumns payload turns next (before ++ appended) := by
  rw [parseColumns, h]
  rfl

/-- The columns that were written are read, after those that were read before. -/
theorem parseColumns_encode (columns : List Column) {rest : Bytes}
    (h : payload.drop offset = columns.flatMap Column.encode ++ rest)
    (before : List (Option String)) :
    parseColumns payload columns.length offset before =
      .ok (before ++ columns.map Column.result) := by
  induction columns generalizing offset before with
  | nil =>
      rw [List.map_nil, List.append_nil]
      rfl
  | cons column columns ih =>
      rw [List.flatMap_cons, List.append_assoc] at h
      rw [List.length_cons, parseColumns_of_ok (parseColumn_encode column h),
        ih (drop_of_drop_eq h), List.append_assoc, List.singleton_append, List.map_cons]

end Reading

/-- **The parser inverts the encoder**: it returns the id of the relation and the columns of
every message, in order. -/
theorem parseInsertMessage_encode (m : InsertMessage) :
    parseInsertMessage m.encode = .ok m.result := by
  have hencode : m.encode.drop 0 = [ascii 'I'] ++ (BigEndian.encode 4 m.relId ++
      ([ascii 'N'] ++ (BigEndian.encode 2 m.columns.length ++
        (m.columns.flatMap Column.encode ++ [])))) := by
    rw [List.drop_zero, InsertMessage.encode]
    simp only [List.append_assoc, List.append_nil]
  have hrelId := drop_of_drop_eq hencode
  have htuple := drop_of_drop_eq hrelId
  have hnum := drop_of_drop_eq htuple
  have hcolumns := drop_of_drop_eq hnum
  simp only [BigEndian.length_encode, List.length_singleton, Nat.reduceAdd] at *
  rw [parseInsertMessage, unpackFrom_encode (by omega) m.relId_lt hrelId, ok_bind,
    unpackFrom_encode (by omega) m.columns_lt hnum, ok_bind,
    parseColumns_encode m.columns hcolumns, ok_bind]
  rfl

/-! ### One message for each payload, and one payload for each result -/

theorem utf8_inj {s t : String} : utf8 s = utf8 t ↔ s = t := by
  refine ⟨fun h => ?_, fun h => by rw [h]⟩
  apply String.toByteArray_inj.mp
  apply ByteArray.ext
  exact Array.toList_inj.mp h

/-- The format is free of prefixes: it can be told where a column ends. -/
theorem Column.encode_append_inj {column column' : Column} {rest rest' : Bytes}
    (h : column.encode ++ rest = column'.encode ++ rest') : column = column' ∧ rest = rest' := by
  have hkinds : ascii 'n' ≠ ascii 'u' ∧ ascii 'n' ≠ ascii 't' ∧ ascii 'u' ≠ ascii 't' := by
    decide
  obtain ⟨hnu, hnt, hut⟩ := hkinds
  cases column <;> cases column'
  case text.text value hvalue value' hvalue' =>
    simp only [encode, List.append_assoc] at h
    obtain ⟨hlen, htail⟩ :=
      BigEndian.encode_append_inj hvalue hvalue' (List.append_cancel_left h)
    obtain ⟨htext, hrest⟩ := List.append_inj htail hlen
    rw [utf8_inj] at htext
    subst htext
    exact ⟨rfl, hrest⟩
  case null.null | unchanged.unchanged => exact ⟨rfl, List.tail_eq_of_cons_eq h⟩
  all_goals replace h := List.head_eq_of_cons_eq h
  · exact absurd h hnu
  · exact absurd h hnt
  · exact absurd h.symm hnu
  · exact absurd h hut
  · exact absurd h.symm hnt
  · exact absurd h.symm hut

/-- Columns that were written can be told from what follows them. -/
theorem columns_append_inj {columns columns' : List Column} {rest rest' : Bytes}
    (hlength : columns.length = columns'.length)
    (h : columns.flatMap Column.encode ++ rest = columns'.flatMap Column.encode ++ rest') :
    columns = columns' ∧ rest = rest' := by
  induction columns generalizing columns' with
  | nil =>
      obtain rfl := List.length_eq_zero_iff.mp hlength.symm
      exact ⟨rfl, h⟩
  | cons column columns ih =>
      cases columns' with
      | nil => cases hlength
      | cons column' columns' =>
          rw [List.flatMap_cons, List.flatMap_cons, List.append_assoc, List.append_assoc] at h
          obtain ⟨rfl, htail⟩ := Column.encode_append_inj h
          obtain ⟨rfl, hrest⟩ := ih (Nat.succ.inj hlength) htail
          exact ⟨rfl, hrest⟩

/-- A message is no prefix of another one, nor are two messages written alike. -/
theorem InsertMessage.encode_append_inj {m m' : InsertMessage} {rest rest' : Bytes}
    (h : m.encode ++ rest = m'.encode ++ rest') : m = m' ∧ rest = rest' := by
  simp only [encode, List.append_assoc] at h
  obtain ⟨hrelId, htail⟩ :=
    BigEndian.encode_append_inj m.relId_lt m'.relId_lt (List.append_cancel_left h)
  obtain ⟨hcount, htail⟩ :=
    BigEndian.encode_append_inj m.columns_lt m'.columns_lt (List.append_cancel_left htail)
  obtain ⟨hcolumns, hrest⟩ := columns_append_inj hcount htail
  exact ⟨InsertMessage.ext hrelId hcolumns, hrest⟩

/-- The column is one whose result no other column has. -/
def Column.Unambiguous : Column → Prop
  | null => True
  | unchanged => False
  | text value _ => value ≠ "UNCHANGED_TOAST"

/-- The text that is returned for an unchanged column. -/
def unchangedToast : Column := .text "UNCHANGED_TOAST" (by decide)

/-- An unambiguous column is the only one with its result. -/
theorem Column.Unambiguous.eq {column column' : Column} (h : column.Unambiguous)
    (hresult : column'.result = column.result) : column' = column := by
  cases column <;> cases column'
  case null.null => rfl
  case text.text value _ value' _ =>
    obtain rfl : value' = value := Option.some.inj hresult
    rfl
  case text.unchanged => exact absurd (Option.some.inj hresult).symm h
  case unchanged.null | unchanged.unchanged | unchanged.text => exact h.elim
  all_goals cases hresult

/-- An ambiguous column has a double. -/
theorem Column.exists_double {column : Column} (h : ¬ column.Unambiguous) :
    ∃ column' : Column, column' ≠ column ∧ column'.result = column.result := by
  cases column with
  | null => exact absurd trivial h
  | unchanged => exact ⟨unchangedToast, Column.noConfusion, rfl⟩
  | text value hlength =>
      obtain rfl : value = "UNCHANGED_TOAST" := Classical.not_not.mp h
      exact ⟨.unchanged, Column.noConfusion, rfl⟩

/-- So are the columns of a message, if all of them are unambiguous. -/
theorem columns_eq_of_results {columns columns' : List Column}
    (h : ∀ column ∈ columns, column.Unambiguous)
    (hresults : columns'.map Column.result = columns.map Column.result) :
    columns' = columns := by
  induction columns generalizing columns' with
  | nil => exact List.map_eq_nil_iff.mp hresults
  | cons column columns ih =>
      obtain ⟨hcolumn, hcolumns⟩ := List.forall_mem_cons.mp h
      obtain ⟨column', columns', rfl, hresult, htail⟩ := List.map_eq_cons_iff.mp hresults
      rw [hcolumn.eq hresult, ih hcolumns htail]

/-- A message all of whose columns are unambiguous is the only one with its result. -/
theorem eq_of_result {m m' : InsertMessage} (h : ∀ column ∈ m.columns, column.Unambiguous)
    (hresult : m'.result = m.result) : m' = m := by
  obtain ⟨hrelId, hcolumns⟩ := Prod.mk.inj hresult
  exact InsertMessage.ext hrelId (columns_eq_of_results h hcolumns)

/-- Any other message shares its result with one more. -/
theorem exists_double {m : InsertMessage} {column : Column} (hmem : column ∈ m.columns)
    (h : ¬ column.Unambiguous) : ∃ m' : InsertMessage, m' ≠ m ∧ m'.result = m.result := by
  obtain ⟨column', hne, hresult⟩ := Column.exists_double h
  obtain ⟨before, after, hcolumns⟩ := List.append_of_mem hmem
  have hlt : (before ++ column' :: after).length < 2 ^ 16 := by
    have hm := m.columns_lt
    rw [hcolumns] at hm
    simpa only [List.length_append, List.length_cons] using hm
  refine ⟨⟨m.relId, before ++ column' :: after, m.relId_lt, hlt⟩, fun heq => hne ?_, ?_⟩
  · have hsame : before ++ column' :: after = before ++ column :: after := by
      rw [← hcolumns, ← heq]
    exact List.head_eq_of_cons_eq (List.append_cancel_left hsame)
  · simp only [InsertMessage.result, hcolumns, List.map_append, List.map_cons, hresult]

/-! ### What is rejected -/

/-- Where the parser looks for the text of a column behind the kind `'t'`: as many bytes as the
length says, or as there are. -/
def columnText (tail : Bytes) : Bytes := (tail.drop 4).take (BigEndian.decode (tail.take 4))

/-- The first column is cut off within its length, or what there is of its text is not UTF-8. -/
def BrokenColumn : Bytes → Prop
  | [] => False
  | kind :: tail =>
      kind = ascii 't' ∧
        (tail.length < 4 ∨ String.fromUTF8? (columnText tail).toByteArray = none)

/-- Where the parser looks for the next column: behind the text of a text column, else behind
the kind. -/
def nextColumn : Bytes → Bytes
  | [] => []
  | kind :: tail =>
      if kind = ascii 't' then (tail.drop 4).drop (BigEndian.decode (tail.take 4)) else tail

/-- One of the first columns is broken. -/
def BrokenColumns : ℕ → Bytes → Prop
  | 0, _ => False
  | count + 1, bytes => BrokenColumn bytes ∨ BrokenColumns count (nextColumn bytes)

/-- A payload whose header is cut off, or one of whose columns is broken. -/
def Broken (payload : Bytes) : Prop :=
  payload.length < 8 ∨ BrokenColumns (BigEndian.decode (slice payload 6 8)) (payload.drop 8)

instance decidableBrokenColumn (bytes : Bytes) : Decidable (BrokenColumn bytes) :=
  match bytes with
  | [] => inferInstanceAs (Decidable False)
  | _ :: _ => inferInstanceAs (Decidable (_ ∧ (_ ∨ _)))

instance decidableBrokenColumns : (count : ℕ) → (bytes : Bytes) →
    Decidable (BrokenColumns count bytes)
  | 0, _ => inferInstanceAs (Decidable False)
  | count + 1, bytes =>
      have := decidableBrokenColumns count (nextColumn bytes)
      inferInstanceAs (Decidable (_ ∨ _))

instance decidableBroken (payload : Bytes) : Decidable (Broken payload) :=
  inferInstanceAs (Decidable (_ ∨ _))

section Rejected

variable {payload : Bytes} {offset : ℕ}

theorem decodeUtf8_of_none {data : Bytes} (h : String.fromUTF8? data.toByteArray = none) :
    decodeUtf8 data = .error (.unicodeDecodeError data) := by
  rw [decodeUtf8, h]

theorem decodeUtf8_of_some {data : Bytes} {text : String}
    (h : String.fromUTF8? data.toByteArray = some text) : decodeUtf8 data = .ok text := by
  rw [decodeUtf8, h]

/-- Whatever is no text column takes one byte and is no error. -/
theorem parseColumn_of_ne (hkind : slice payload offset (offset + 1) ≠ [ascii 't']) :
    ∃ appended, parseColumn payload offset = .ok (appended, offset + 1) := by
  simp only [parseColumn, if_neg hkind]
  split
  · exact ⟨[none], rfl⟩
  · split
    · exact ⟨[some "UNCHANGED_TOAST"], rfl⟩
    · exact ⟨[], rfl⟩

/-- A text column is broken, or it is read as far as `nextColumn`. -/
theorem parseColumn_text_cases {tail : Bytes} (h : payload.drop offset = ascii 't' :: tail) :
    (BrokenColumn (ascii 't' :: tail) ∧ ∃ e, parseColumn payload offset = .error e) ∨
      ¬ BrokenColumn (ascii 't' :: tail) ∧ ∃ appended next,
        parseColumn payload offset = .ok (appended, next) ∧
          payload.drop next = nextColumn (ascii 't' :: tail) := by
  have hkind := slice_kind h
  have htail : payload.drop (offset + 1) = tail := by
    rw [← List.drop_drop, h, List.drop_one, List.tail_cons]
  by_cases hshort : tail.length < 4
  · refine Or.inl ⟨⟨rfl, Or.inl hshort⟩, .structError 4 (offset + 1) payload.length, ?_⟩
    rw [← htail] at hshort
    simp only [parseColumn, if_pos hkind, unpackFrom_of_lt hshort, error_bind]
  · have hlen := unpackFrom_of_le (by omega) (htail ▸ Nat.le_of_not_lt hshort)
    have hread : ∀ len, slice payload (offset + 1 + 4) (offset + 1 + 4 + len) =
        (tail.drop 4).take len := by
      intro len
      rw [slice_add, ← List.drop_drop, htail]
    rw [htail] at hlen
    cases htext : String.fromUTF8? (columnText tail).toByteArray with
    | none =>
        refine Or.inl ⟨⟨rfl, Or.inr htext⟩, .unicodeDecodeError (columnText tail), ?_⟩
        simp only [parseColumn, if_pos hkind, hlen, ok_bind, hread]
        rw [← columnText, decodeUtf8_of_none htext, error_bind]
    | some text =>
        have hsound : ¬ BrokenColumn (ascii 't' :: tail) := by
          rintro ⟨-, hcut | hinvalid⟩
          · exact hshort hcut
          · rw [htext] at hinvalid
            cases hinvalid
        have hdecode := decodeUtf8_of_some htext
        rw [columnText, ← hread] at hdecode
        refine Or.inr ⟨hsound, _, _, parseColumn_text hkind hlen hdecode, ?_⟩
        rw [nextColumn, if_pos rfl, ← htail]
        simp only [List.drop_drop]

/-- A broken column raises, and behind any other the parser goes on. -/
theorem parseColumn_cases (payload : Bytes) (offset : ℕ) :
    (BrokenColumn (payload.drop offset) ∧ ∃ e, parseColumn payload offset = .error e) ∨
      ¬ BrokenColumn (payload.drop offset) ∧ ∃ appended next,
        parseColumn payload offset = .ok (appended, next) ∧
          payload.drop next = nextColumn (payload.drop offset) := by
  have htail : payload.drop (offset + 1) = (payload.drop offset).tail := by
    rw [← List.drop_drop, List.drop_one]
  cases hrest : payload.drop offset with
  | nil =>
      have hkind : slice payload offset (offset + 1) ≠ [ascii 't'] := by
        rw [slice_add, hrest, List.take_nil]
        exact (List.cons_ne_nil _ _).symm
      obtain ⟨appended, hcolumn⟩ := parseColumn_of_ne hkind
      refine Or.inr ⟨id, appended, offset + 1, hcolumn, ?_⟩
      rw [htail, hrest]
      rfl
  | cons kind tail =>
      by_cases ht : kind = ascii 't'
      · subst ht
        exact parseColumn_text_cases hrest
      · have hkind : slice payload offset (offset + 1) ≠ [ascii 't'] := by
          rw [slice_kind hrest]
          exact fun h => ht (List.head_eq_of_cons_eq h)
        obtain ⟨appended, hcolumn⟩ := parseColumn_of_ne hkind
        refine Or.inr ⟨fun hbroken => ht hbroken.1, appended, offset + 1, hcolumn, ?_⟩
        rw [htail, hrest, nextColumn, if_neg ht, List.tail_cons]

/-- The columns are rejected as soon as one of them is broken. -/
theorem parseColumns_error_iff (turns : ℕ) (before : List (Option String)) :
    (∃ e, parseColumns payload turns offset before = .error e) ↔
      BrokenColumns turns (payload.drop offset) := by
  induction turns generalizing offset before with
  | zero =>
      refine ⟨?_, False.elim⟩
      rintro ⟨e, h⟩
      cases h
  | succ turns ih =>
      rw [BrokenColumns]
      rcases parseColumn_cases payload offset with
        ⟨hbroken, e, hcolumn⟩ | ⟨hsound, appended, next, hcolumn, hnext⟩
      · refine ⟨fun _ => Or.inl hbroken, fun _ => ⟨e, ?_⟩⟩
        rw [parseColumns, hcolumn]
        rfl
      · rw [parseColumns_of_ok hcolumn, ih, hnext, or_iff_right hsound]

/-- **What the parser rejects** are the broken payloads. -/
theorem parseInsertMessage_error_iff (payload : Bytes) :
    (∃ e, parseInsertMessage payload = .error e) ↔ Broken payload := by
  rw [Broken, ← parseColumns_error_iff _ []]
  by_cases hshort : payload.length < 8
  · refine ⟨fun _ => Or.inl hshort, fun _ => ?_⟩
    have hnum : unpackFrom 2 payload 6 = .error (.structError 2 6 payload.length) := by
      rw [unpackFrom, if_neg (by omega)]
    rw [parseInsertMessage, hnum]
    cases hrelId : unpackFrom 4 payload 1 with
    | error e => exact ⟨e, rfl⟩
    | ok relId => exact ⟨_, rfl⟩
  · rw [or_iff_right hshort, parseInsertMessage, unpackFrom, if_pos (by omega), ok_bind,
      unpackFrom, if_pos (by omega), ok_bind]
    constructor
    · rintro ⟨e, h⟩
      rcases error_of_bind h with hcolumns | ⟨columns, -, h⟩
      · exact ⟨e, hcolumns⟩
      · cases h
    · rintro ⟨e, hcolumns⟩
      exact ⟨e, by rw [hcolumns, error_bind]⟩

end Rejected

/-! ### Which payloads the parser is exact on -/

/-- The parser returns nothing for the payload, or what it returns is the result of one message,
with as many columns as that has, and the payload is that message. -/
def AcceptsExactly (payload : Bytes) : Prop :=
  ∀ relId columns, parseInsertMessage payload = .ok (relId, columns) →
    ∃ m : InsertMessage, m.encode = payload ∧ columns.length = m.columns.length ∧
      ∀ m' : InsertMessage, parseInsertMessage m'.encode = .ok (relId, columns) →
        m'.encode = payload

/-- **The parser is exact on the payloads that are broken, and on the messages whose columns are
all unambiguous.**  On any other payload it is not: either it returns something for what is no
message, or a message shares its result with another one. -/
theorem acceptsExactly_iff (payload : Bytes) :
    AcceptsExactly payload ↔ Broken payload ∨
      ∃ m : InsertMessage, m.encode = payload ∧ ∀ column ∈ m.columns, column.Unambiguous := by
  constructor
  · intro h
    cases hparse : parseInsertMessage payload with
    | error e => exact Or.inl ((parseInsertMessage_error_iff payload).mp ⟨e, hparse⟩)
    | ok result =>
        obtain ⟨m, rfl, -, honly⟩ := h result.1 result.2 hparse
        rw [parseInsertMessage_encode] at hparse
        obtain rfl := Except.ok.inj hparse
        refine Or.inr ⟨m, rfl, fun column hmem => ?_⟩
        by_contra hambiguous
        obtain ⟨m', hne, hresult⟩ := exists_double hmem hambiguous
        have hparse' : parseInsertMessage m'.encode = .ok m.result := by
          rw [parseInsertMessage_encode, hresult]
        have hencode : m'.encode ++ [] = m.encode ++ [] := by rw [honly m' hparse']
        exact hne (InsertMessage.encode_append_inj hencode).1
  · rintro (hbroken | ⟨m, rfl, hunambiguous⟩) relId columns hparse
    · obtain ⟨e, herror⟩ := (parseInsertMessage_error_iff payload).mpr hbroken
      rw [herror] at hparse
      cases hparse
    · have hresult : m.result = (relId, columns) := by
        rw [parseInsertMessage_encode] at hparse
        exact Except.ok.inj hparse
      refine ⟨m, rfl, ?_, fun m' hparse' => ?_⟩
      · rw [← (Prod.mk.inj hresult).2, List.length_map]
      · rw [parseInsertMessage_encode, ← hresult] at hparse'
        rw [eq_of_result hunambiguous (Except.ok.inj hparse')]

/-- A message of one column that is cut off before the column: the parser returns no column. -/
def cutOffInsert : Bytes := [0x49, 0, 0, 0, 1, 0x4e, 0, 1]

/-- The parser reads a message without its column, and finds no column. -/
theorem cutOffInsert_accepted :
    slice cutOffInsert 0 1 = [ascii 'I'] ∧ parseInsertMessage cutOffInsert = .ok (1, []) ∧
      ¬ AcceptsExactly cutOffInsert := by
  have hparse : parseInsertMessage cutOffInsert = .ok (1, []) := by decide
  refine ⟨by decide, hparse, fun h => ?_⟩
  obtain ⟨m, hencode, hlength, -⟩ := h 1 [] hparse
  have hnil : m.columns = [] := List.length_eq_zero_iff.mp hlength.symm
  -- a message without columns has the count zero where the payload has one
  have hcount := congrArg (List.getLast? ·) hencode
  simp [InsertMessage.encode, hnil, BigEndian.encode, cutOffInsert] at hcount

end OutboxPattern.Consumer
