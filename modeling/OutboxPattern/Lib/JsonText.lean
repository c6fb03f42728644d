import OutboxPattern.Lib.Hexadecimal

/-!
# JSON texts

A writer and a reader of JSON.  The writer puts `", "` between the parts of a list or an object and
`": "` behind a key.  It escapes what has to be escaped, and with `ascii` also everything that is
not printable ASCII: the members of the Basic Multilingual Plane by one `\uXXXX`, all others by a
surrogate pair.  The reader takes every JSON text but those with a lone surrogate.

The members of an object are kept in the order of the text, repeated keys included.

The main result is `loads_dumps`: what was written is read.  The reader recurses on a counter, and
the length of a text is enough of it.
-/

namespace JsonText

/-! ### Numbers -/

/-- What a reader has seen of a number. -/
inductive NumberState
  | start | minus | zero | integer | point | fraction | exponent | exponentSign | exponentDigits
  deriving DecidableEq, Repr

namespace NumberState

/-- The first digit of a number. -/
def first (c : Char) : Option NumberState :=
  if c = '0' then some .zero else if c.isDigit then some .integer else none

/-- What may follow the integer part of a number. -/
def afterInteger (c : Char) : Option NumberState :=
  if c = '.' then some .point else if c = 'e' ∨ c = 'E' then some .exponent else none

/-- The grammar of numbers. -/
def next : NumberState → Char → Option NumberState
  | .start, c => if c = '-' then some .minus else first c
  | .minus, c => first c
  | .zero, c => afterInteger c
  | .integer, c => if c.isDigit then some .integer else afterInteger c
  | .point, c => if c.isDigit then some .fraction else none
  | .fraction, c =>
      if c.isDigit then some .fraction else if c = 'e' ∨ c = 'E' then some .exponent else none
  | .exponent, c =>
      if c = '+' ∨ c = '-' then some .exponentSign
      else if c.isDigit then some .exponentDigits else none
  | .exponentSign, c | .exponentDigits, c => if c.isDigit then some .exponentDigits else none

/-- The states a number may end in. -/
def accepting : NumberState → Bool
  | .zero | .integer | .fraction | .exponentDigits => true
  | .start | .minus | .point | .exponent | .exponentSign => false

/-- The characters `cs` complete a number. -/
def accepts (state : NumberState) (cs : List Char) : Bool :=
  (cs.foldlM next state).any accepting

/-- The longest number at the head of `cs`, and what is behind it. -/
def scan (state : NumberState) : List Char → Option (List Char × List Char)
  | [] => if state.accepting then some ([], []) else none
  | c :: cs =>
      match state.next c with
      | some state' => (scan state' cs).map fun (token, rest) => (c :: token, rest)
      | none => if state.accepting then some ([], c :: cs) else none

end NumberState

/-- A number, as it is written. -/
structure Number where
  text : List Char
  accepts_text : NumberState.start.accepts text
  deriving DecidableEq

/-! ### Values -/

/-- A JSON value.  The members of an object are listed as in the text. -/
inductive Value
  | null
  | bool (b : Bool)
  | num (n : Number)
  | str (s : String)
  | arr (elements : List Value)
  | obj (members : List (String × Value))

/-! ### The writer -/

/-- The letters of the short escapes, and what they stand for. -/
def shortEscapes : List (Char × Char) :=
  [('"', '"'), ('\\', '\\'), ('n', '\n'), ('r', '\r'), ('t', '\t'), ('b', '\x08'), ('f', '\x0c')]

/-- The UTF-16 code units of a character. -/
def codeUnits (c : Char) : List ℕ :=
  if c.toNat < 0x10000 then [c.toNat]
  else [0xd800 + (c.toNat - 0x10000) / 0x400, 0xdc00 + (c.toNat - 0x10000) % 0x400]

/-- `\uXXXX`. -/
def writeCodeUnit (unit : ℕ) : List Char := '\\' :: 'u' :: Hexadecimal.encode 4 unit

/-- A character that has no short escape and needs no other. -/
def isPlain (ascii : Bool) (c : Char) : Bool := ' ' ≤ c && (!ascii || c ≤ '~')

/-- One character of a string. -/
def writeCharacter (ascii : Bool) (c : Char) : List Char :=
  match shortEscapes.find? (·.2 == c) with
  | some (letter, _) => ['\\', letter]
  | none => if isPlain ascii c then [c] else (codeUnits c).flatMap writeCodeUnit

/-- The string in quotes. -/
def writeString (ascii : Bool) (s : String) : List Char :=
  '"' :: s.toList.flatMap (writeCharacter ascii) ++ ['"']

mutual

/-- The text of a value.  What follows the first part of a list or an object is written by
`writeElements` and `writeMembers`, which also close it. -/
def write (ascii : Bool) : Value → List Char
  | .null => ['n', 'u', 'l', 'l']
  | .bool true => ['t', 'r', 'u', 'e']
  | .bool false => ['f', 'a', 'l', 's', 'e']
  | .num n => n.text
  | .str s => writeString ascii s
  | .arr [] => ['[', ']']
  | .arr (v :: vs) => '[' :: (write ascii v ++ writeElements ascii vs)
  | .obj [] => ['{', '}']
  | .obj ((key, v) :: members) =>
      '{' :: (writeString ascii key ++ ':' :: ' ' :: (write ascii v ++ writeMembers ascii members))

/-- The further elements of a list, and its end. -/
def writeElements (ascii : Bool) : List Value → List Char
  | [] => [']']
  | v :: vs => ',' :: ' ' :: (write ascii v ++ writeElements ascii vs)

/-- The further members of an object, and its end. -/
def writeMembers (ascii : Bool) : List (String × Value) → List Char
  | [] => ['}']
  | (key, v) :: members =>
      ',' :: ' ' :: (writeString ascii key ++
        ':' :: ' ' :: (write ascii v ++ writeMembers ascii members))

end

/-- The text of a value. -/
def dumps (ascii : Bool) (v : Value) : String := String.ofList (write ascii v)

/-! ### The reader

A part of the reader returns what it has read and what is behind it. -/

def isSpace (c : Char) : Bool := c == ' ' || c == '\t' || c == '\n' || c == '\r'

def skipSpace (cs : List Char) : List Char := cs.dropWhile isSpace

/-- Four hexadecimal digits. -/
def codeUnit (cs : List Char) : Option (ℕ × List Char) :=
  if (cs.take 4).length = 4 then (Hexadecimal.decode (cs.take 4)).map (·, cs.drop 4) else none

/-- What follows `\u`. -/
def unicodeEscape (cs : List Char) : Option (Char × List Char) := do
  let (unit, rest) ← codeUnit cs
  if unit < 0xd800 ∨ 0xdfff < unit then return (Char.ofNat unit, rest)
  else
    match rest with
    | '\\' :: 'u' :: rest =>
        let (low, rest) ← codeUnit rest
        if unit < 0xdc00 ∧ 0xdc00 ≤ low ∧ low ≤ 0xdfff then
          return (Char.ofNat (0x10000 + 0x400 * (unit - 0xd800) + (low - 0xdc00)), rest)
        else none
    | _ => none

/-- What follows a backslash. -/
def escape : List Char → Option (Char × List Char)
  | [] => none
  | letter :: rest =>
      if letter = 'u' then unicodeEscape rest
      else if letter = '/' then some ('/', rest)
      else (shortEscapes.lookup letter).map (·, rest)

/-- The rest of a string, behind its first quotation mark. -/
def string : ℕ → List Char → Option (List Char × List Char)
  | 0, _ => none
  | _, [] => none
  | fuel + 1, c :: rest =>
      if c = '"' then some ([], rest)
      else do
        let (c, rest) ←
          if c = '\\' then escape rest else if ' ' ≤ c then some (c, rest) else none
        let (cs, rest) ← string fuel rest
        return (c :: cs, rest)

/-- A string, if there is one. -/
def quoted : List Char → Option (String × List Char)
  | [] => none
  | c :: rest =>
      if c = '"' then (string (rest.length + 1) rest).map fun (cs, rest) => (String.ofList cs, rest)
      else none

/-- The number at the head of `cs`, as long as it can be. -/
def number (cs : List Char) : Option (Value × List Char) := do
  let (token, rest) ← NumberState.start.scan cs
  if h : NumberState.start.accepts token then return (.num ⟨token, h⟩, rest) else none

/-- A keyword, if `cs` starts with it. -/
def keyword (word : List Char) (v : Value) (cs : List Char) : Option (Value × List Char) :=
  if word.isPrefixOf cs then some (v, cs.drop word.length) else none

/-- What is behind the character `expected`, if it comes next. -/
def token (expected : Char) (cs : List Char) : Option (List Char) :=
  if (skipSpace cs).head? = some expected then some (skipSpace cs).tail else none

mutual

def read : ℕ → List Char → Option (Value × List Char)
  | 0, _ => none
  | fuel + 1, cs =>
      match skipSpace cs with
      | [] => none
      | c :: rest =>
          if c = '"' then (quoted (c :: rest)).map fun (s, rest) => (.str s, rest)
          else if c = '[' then
            match token ']' rest with
            | some rest => some (.arr [], rest)
            | none => (readElements fuel rest).map fun (vs, rest) => (.arr vs, rest)
          else if c = '{' then
            match token '}' rest with
            | some rest => some (.obj [], rest)
            | none => (readMembers fuel rest).map fun (members, rest) => (.obj members, rest)
          else if c = 'n' then keyword ['u', 'l', 'l'] .null rest
          else if c = 't' then keyword ['r', 'u', 'e'] (.bool true) rest
          else if c = 'f' then keyword ['a', 'l', 's', 'e'] (.bool false) rest
          else number (c :: rest)

/-- The elements of a list that has at least one, and its end. -/
def readElements : ℕ → List Char → Option (List Value × List Char)
  | 0, _ => none
  | fuel + 1, cs => do
      let (v, rest) ← read fuel cs
      match token ',' rest with
      | some rest =>
          let (vs, rest) ← readElements fuel rest
          return (v :: vs, rest)
      | none =>
          let rest ← token ']' rest
          return ([v], rest)

/-- The members of an object that has at least one, and its end. -/
def readMembers : ℕ → List Char → Option (List (String × Value) × List Char)
  | 0, _ => none
  | fuel + 1, cs => do
      let (key, rest) ← quoted (skipSpace cs)
      let rest ← token ':' rest
      let (v, rest) ← read fuel rest
      match token ',' rest with
      | some rest =>
          let (members, rest) ← readMembers fuel rest
          return ((key, v) :: members, rest)
      | none =>
          let rest ← token '}' rest
          return ([(key, v)], rest)

end

/-- The value of a text. -/
def loads (text : String) : Option Value := do
  let (v, rest) ← read (text.toList.length + 1) text.toList
  if skipSpace rest = [] then return v else none

/-! ### Strings -/

/-- A code unit that was written is read. -/
theorem codeUnit_encode {unit : ℕ} (h : unit < 0x10000) (rest : List Char) :
    codeUnit (Hexadecimal.encode 4 unit ++ rest) = some (unit, rest) := by
  have hlength : (Hexadecimal.encode 4 unit).length = 4 := Hexadecimal.length_encode 4 unit
  rw [codeUnit, List.take_left' hlength, List.drop_left' hlength, if_pos hlength,
    Hexadecimal.decode_encode h]
  rfl

/-- A code unit that is no surrogate stands for a character. -/
theorem unicodeEscape_single {unit : ℕ} (h : unit < 0xd800 ∨ 0xdfff < unit ∧ unit < 0x10000)
    (rest : List Char) :
    unicodeEscape (Hexadecimal.encode 4 unit ++ rest) = some (Char.ofNat unit, rest) := by
  have hsingle : unit < 0xd800 ∨ 0xdfff < unit := h.imp_right And.left
  have hunit : unit < 0x10000 := by omega
  simp only [unicodeEscape, codeUnit_encode hunit, Option.bind_eq_bind, Option.bind_some,
    if_pos hsingle, Option.pure_def]

/-- A surrogate pair stands for a character. -/
theorem unicodeEscape_pair {high low : ℕ} (hhigh : high < 0x400) (hlow : low < 0x400)
    (rest : List Char) :
    unicodeEscape (Hexadecimal.encode 4 (0xd800 + high) ++
        writeCodeUnit (0xdc00 + low) ++ rest) =
      some (Char.ofNat (0x10000 + 0x400 * high + low), rest) := by
  have hnotSingle : ¬ (0xd800 + high < 0xd800 ∨ 0xdfff < 0xd800 + high) := by omega
  have hsurrogates :
      0xd800 + high < 0xdc00 ∧ 0xdc00 ≤ 0xdc00 + low ∧ 0xdc00 + low ≤ 0xdfff := by
    omega
  have hhigh' : 0xd800 + high < 0x10000 := by omega
  have hlow' : 0xdc00 + low < 0x10000 := by omega
  simp only [unicodeEscape, List.append_assoc, codeUnit_encode hhigh', codeUnit_encode hlow',
    writeCodeUnit, List.cons_append, Option.bind_eq_bind, Option.bind_some, if_neg hnotSingle,
    if_pos hsurrogates, Nat.add_sub_cancel_left, Option.pure_def]

/-- A character is read from the escape of its code units. -/
theorem escape_codeUnits (c : Char) (rest : List Char) :
    ∃ cs, (codeUnits c).flatMap writeCodeUnit ++ rest = '\\' :: cs ∧
      escape cs = some (c, rest) := by
  have hvalid : c.toNat < 0xd800 ∨ 0xdfff < c.toNat ∧ c.toNat < 0x110000 := c.valid
  unfold codeUnits
  split
  · next hbasic =>
      have hread := unicodeEscape_single (hvalid.imp_right (⟨·.1, hbasic⟩)) rest
      rw [Char.ofNat_toNat] at hread
      refine ⟨'u' :: (Hexadecimal.encode 4 c.toNat ++ rest), ?_, hread⟩
      rw [List.flatMap_singleton, writeCodeUnit, List.cons_append, List.cons_append]
  · next hbeyond =>
      obtain ⟨n, hn⟩ := Nat.exists_eq_add_of_le (Nat.le_of_not_lt hbeyond)
      have hhigh : n / 0x400 < 0x400 := by omega
      have hread := unicodeEscape_pair hhigh (Nat.mod_lt n (by omega)) rest
      rw [Nat.add_assoc, Nat.div_add_mod, ← hn, Char.ofNat_toNat] at hread
      rw [hn, Nat.add_sub_cancel_left]
      refine ⟨'u' :: _, ?_, hread⟩
      rw [List.flatMap_cons, List.flatMap_singleton, writeCodeUnit, List.cons_append,
        List.cons_append, List.cons_append, List.cons_append]

/-- No short escape is mistaken for another kind, or for another short one. -/
theorem shortEscapes_spec : ∀ entry ∈ shortEscapes,
    entry.1 ≠ 'u' ∧ entry.1 ≠ '/' ∧ shortEscapes.lookup entry.1 = some entry.2 := by
  decide

/-- An escape is one character of the string. -/
theorem string_escape {fuel : ℕ} {c : Char} {cs rest : List Char}
    (h : escape cs = some (c, rest)) :
    string (fuel + 1) ('\\' :: cs) = (string fuel rest).map fun (s, rest) => (c :: s, rest) := by
  have hnotQuote : '\\' ≠ '"' := by decide
  simp only [string, if_neg hnotQuote, if_pos, h, Option.bind_eq_bind, Option.bind_some,
    Option.pure_def, Option.map_eq_bind, Function.comp_def]

/-- A plain character stands for itself. -/
theorem string_plain {fuel : ℕ} {c : Char} (hspace : ' ' ≤ c) (hquote : c ≠ '"')
    (hbackslash : c ≠ '\\') (rest : List Char) :
    string (fuel + 1) (c :: rest) = (string fuel rest).map fun (s, rest) => (c :: s, rest) := by
  simp only [string, if_neg hquote, if_neg hbackslash, if_pos hspace,
    Option.bind_eq_bind, Option.bind_some, Option.pure_def, Option.map_eq_bind, Function.comp_def]

/-- A character is read as it was written. -/
theorem string_writeCharacter (ascii : Bool) (c : Char) (fuel : ℕ) (rest : List Char) :
    string (fuel + 1) (writeCharacter ascii c ++ rest) =
      (string fuel rest).map fun (s, rest) => (c :: s, rest) := by
  unfold writeCharacter
  split
  · next letter c' hfind =>
      obtain ⟨hu, hslash, hlookup⟩ := shortEscapes_spec _ (List.mem_of_find?_eq_some hfind)
      obtain rfl : c' = c := by simpa using List.find?_some hfind
      refine string_escape ?_
      show escape (letter :: rest) = some (c', rest)
      rw [escape, if_neg hu, if_neg hslash, hlookup, Option.map_some]
  · next hfind =>
      have hne : ∀ entry ∈ shortEscapes, c ≠ entry.2 := by
        rintro entry hentry rfl
        exact List.find?_eq_none.mp hfind entry hentry (beq_self_eq_true _)
      split
      · next hplain =>
          have hspace : ' ' ≤ c := of_decide_eq_true (Bool.and_eq_true_iff.mp hplain).1
          exact string_plain hspace (hne ('"', '"') (by decide)) (hne ('\\', '\\') (by decide)) rest
      · next hplain =>
          obtain ⟨cs, hcs, hescape⟩ := escape_codeUnits c rest
          rw [hcs, string_escape hescape]

/-- The counter suffices if there is more of it than of characters. -/
theorem string_writeCharacters (ascii : Bool) {s rest : List Char} {fuel : ℕ}
    (h : s.length < fuel) :
    string fuel (s.flatMap (writeCharacter ascii) ++ '"' :: rest) = some (s, rest) := by
  induction s generalizing fuel with
  | nil =>
      obtain ⟨fuel, rfl⟩ := Nat.exists_eq_succ_of_ne_zero (Nat.ne_of_gt h)
      simp only [List.flatMap_nil, List.nil_append, string, if_pos]
  | cons c s ih =>
      obtain ⟨fuel, rfl⟩ := Nat.exists_eq_succ_of_ne_zero (Nat.ne_zero_of_lt h)
      rw [List.flatMap_cons, List.append_assoc, string_writeCharacter,
        ih (Nat.lt_of_succ_lt_succ h), Option.map_some]

theorem writeCharacter_ne_nil (ascii : Bool) (c : Char) : writeCharacter ascii c ≠ [] := by
  unfold writeCharacter
  split
  · exact List.cons_ne_nil _ _
  · split
    · exact List.cons_ne_nil _ _
    · obtain ⟨cs, hcs, -⟩ := escape_codeUnits c []
      rw [List.append_nil] at hcs
      rw [hcs]
      exact List.cons_ne_nil _ _

/-- A string is read as it was written. -/
theorem quoted_writeString (ascii : Bool) (s : String) (rest : List Char) :
    quoted (writeString ascii s ++ rest) = some (s, rest) := by
  have hlength : ∀ cs : List Char, cs.length ≤ (cs.flatMap (writeCharacter ascii)).length := by
    intro cs
    induction cs with
    | nil => exact Nat.le_refl 0
    | cons c cs ih =>
        have hpos := List.length_pos_iff.mpr (writeCharacter_ne_nil ascii c)
        rw [List.flatMap_cons, List.length_append, List.length_cons]
        omega
  rw [writeString, List.cons_append, List.cons_append, List.append_assoc, List.singleton_append,
    quoted, if_pos rfl, string_writeCharacters]
  · simp only [Option.map_some, String.ofList_toList]
  · have := hlength s.toList
    rw [List.length_append]
    omega

/-! ### Numbers -/

namespace NumberState

/-- A number is read to its end, if what follows cannot continue one. -/
theorem scan_append {state : NumberState} {text rest : List Char} (h : state.accepts text)
    (hrest : ∀ c ∈ rest.head?, ∀ state, next state c = none) :
    state.scan (text ++ rest) = some (text, rest) := by
  induction text generalizing state with
  | nil =>
      have haccepting : state.accepting = true := by simpa [accepts] using h
      cases rest with
      | nil => simp only [List.append_nil, scan, if_pos haccepting]
      | cons c rest =>
          rw [List.nil_append, scan, hrest c rfl, if_pos haccepting]
  | cons c text ih =>
      rw [accepts, List.foldlM_cons] at h
      cases hnext : state.next c with
      | none => rw [hnext] at h; cases h
      | some state' =>
          rw [hnext] at h
          simp only [List.cons_append, scan, hnext, ih h, Option.map_some]

/-- A number starts with a sign or with a digit. -/
theorem exists_head {text : List Char} (h : start.accepts text) :
    ∃ c cs, text = c :: cs ∧ (c = '-' ∨ c.isDigit) := by
  cases text with
  | nil => cases h
  | cons c cs =>
      refine ⟨c, cs, rfl, ?_⟩
      by_contra hc
      obtain ⟨hminus, hdigit⟩ := not_or.mp hc
      have hzero : c ≠ '0' := by
        rintro rfl
        exact hdigit rfl
      have hnext : next .start c = none := by
        rw [next, if_neg hminus, first, if_neg hzero, if_neg hdigit]
      rw [accepts, List.foldlM_cons, hnext] at h
      cases h

end NumberState

/-- The numeral of a positive number is the integer part of a number. -/
theorem NumberState.foldlM_toDigits {n : ℕ} (h : 0 < n) :
    (Nat.toDigits 10 n).foldlM NumberState.next .start = some .integer := by
  induction n using Nat.strong_induction_on with
  | _ n ih =>
      rw [Nat.toDigits_eq_if (by decide)]
      split
      · next hlt => interval_cases n <;> rfl
      · next hge =>
          have hdigit : ∀ d < 10, NumberState.next .integer d.digitChar = some .integer := by
            decide
          rw [List.foldlM_append, ih (n / 10) (by omega) (by omega)]
          exact congrArg (·.bind pure) (hdigit (n % 10) (Nat.mod_lt n (by decide)))

/-- The decimal numeral of a natural number. -/
def Number.ofNat (n : ℕ) : Number where
  text := Nat.toDigits 10 n
  accepts_text := by
    cases n with
    | zero => rfl
    | succ n => rw [NumberState.accepts, NumberState.foldlM_toDigits n.succ_pos]; rfl

/-- The natural number of a numeral without sign, fraction and exponent. -/
def Number.toNat? (n : Number) : Option ℕ :=
  if n.text.all Char.isDigit then some (Nat.ofDigitChars 10 n.text 0) else none

theorem Number.toNat?_ofNat (n : ℕ) : (Number.ofNat n).toNat? = some n := by
  have hdigits : (Nat.toDigits 10 n).all Char.isDigit := by
    rw [List.all_eq_true]
    exact fun c hc => Nat.isDigit_of_mem_toDigits (by decide) (by decide) hc
  rw [toNat?, ofNat, if_pos hdigits, Nat.ofDigitChars_ten_toDigits]

/-- A number is read to its end if what follows cannot go on with it. -/
theorem number_append {n : Number} {rest : List Char}
    (hrest : ∀ c ∈ rest.head?, ∀ state, NumberState.next state c = none) :
    number (n.text ++ rest) = some (.num n, rest) := by
  simp only [number, NumberState.scan_append n.accepts_text hrest, Option.bind_eq_bind,
    Option.bind_some, dif_pos n.accepts_text, Option.pure_def]

/-! ### Values -/

/-- What may follow a value: nothing, or what goes on with or ends a list or an object. -/
def Ends (rest : List Char) : Prop := ∀ c ∈ rest.head?, c = ',' ∨ c = ']' ∨ c = '}'

/-- What ends a value goes on with no number. -/
theorem Ends.next_eq_none {rest : List Char} (h : Ends rest) :
    ∀ c ∈ rest.head?, ∀ state, NumberState.next state c = none := by
  rintro c hc state
  rcases h c hc with rfl | rfl | rfl <;> cases state <;> rfl

/-- Behind an element there is a comma or a closing bracket. -/
theorem ends_writeElements (ascii : Bool) (vs : List Value) (rest : List Char) :
    Ends (writeElements ascii vs ++ rest) := by
  cases vs with
  | nil => rintro c ⟨⟩; exact Or.inr (Or.inl rfl)
  | cons v vs => rintro c ⟨⟩; exact Or.inl rfl

/-- Behind a member there is a comma or a closing brace. -/
theorem ends_writeMembers (ascii : Bool) (members : List (String × Value)) (rest : List Char) :
    Ends (writeMembers ascii members ++ rest) := by
  cases members with
  | nil => rintro c ⟨⟩; exact Or.inr (Or.inr rfl)
  | cons member members => rintro c ⟨⟩; exact Or.inl rfl

/-- A blank before a value is skipped. -/
theorem read_space (fuel : ℕ) (cs : List Char) : read fuel (' ' :: cs) = read fuel cs := by
  cases fuel with
  | zero => rfl
  | succ fuel => rfl

/-- A token is found where it stands. -/
theorem token_self {c : Char} (h : isSpace c = false) (rest : List Char) :
    token c (c :: rest) = some rest := by
  simp only [token, skipSpace, List.dropWhile_cons, h, Bool.false_eq_true, if_false,
    List.head?_cons, if_pos, List.tail_cons]

/-- Another character is not taken for it. -/
theorem token_of_ne {c c' : Char} (h : isSpace c = false) (hne : c ≠ c') (rest : List Char) :
    token c' (c :: rest) = none := by
  simp only [token, skipSpace, List.dropWhile_cons, h, Bool.false_eq_true, if_false,
    List.head?_cons, Option.some.injEq, if_neg hne]

theorem isSpace_of_numberHead {c : Char} (h : c = '-' ∨ c.isDigit) : isSpace c = false := by
  rw [Bool.eq_false_iff]
  intro hspace
  have hc : c = ' ' ∨ c = '\t' ∨ c = '\n' ∨ c = '\r' := by
    simpa [isSpace, or_assoc] using hspace
  rcases hc with rfl | rfl | rfl | rfl <;> exact absurd h (by decide)

/-- A number starts like nothing else. -/
theorem ne_of_numberHead {c c' : Char} (h : c = '-' ∨ c.isDigit)
    (h' : ¬ (c' = '-' ∨ c'.isDigit)) : c ≠ c' := by
  rintro rfl
  exact h' h

/-- A text starts with neither a blank nor the end of a list. -/
theorem exists_write_head (ascii : Bool) (v : Value) :
    ∃ c cs, write ascii v = c :: cs ∧ isSpace c = false ∧ c ≠ ']' := by
  cases v with
  | num n =>
      obtain ⟨c, cs, hcs, hc⟩ := NumberState.exists_head n.accepts_text
      exact ⟨c, cs, hcs, isSpace_of_numberHead hc, ne_of_numberHead hc (by decide)⟩
  | bool b => cases b <;> exact ⟨_, _, rfl, rfl, by decide⟩
  | arr vs => cases vs <;> exact ⟨_, _, rfl, rfl, by decide⟩
  | obj members => cases members <;> exact ⟨_, _, rfl, rfl, by decide⟩
  | _ => exact ⟨_, _, rfl, rfl, by decide⟩

/-- The value `v` is read from its text, if the counter is at least the length of it. -/
def Reads (ascii : Bool) (v : Value) : Prop :=
  ∀ fuel rest, (write ascii v).length ≤ fuel → Ends rest →
    read fuel (write ascii v ++ rest) = some (v, rest)

theorem reads_num (ascii : Bool) (n : Number) : Reads ascii (.num n) := by
  intro fuel rest hfuel hrest
  obtain ⟨c, cs, hcs, hc⟩ := NumberState.exists_head n.accepts_text
  have hnumber := number_append (n := n) hrest.next_eq_none
  rw [write, hcs] at hfuel
  rw [hcs, List.cons_append] at hnumber
  rw [write, hcs, List.cons_append]
  obtain ⟨fuel, rfl⟩ := Nat.exists_eq_succ_of_ne_zero (Nat.ne_zero_of_lt hfuel)
  have hne : ∀ c', ¬ (c' = '-' ∨ c'.isDigit) → c ≠ c' := fun _ => ne_of_numberHead hc
  simp only [read, skipSpace, List.dropWhile_cons, isSpace_of_numberHead hc,
    Bool.false_eq_true, if_false, if_neg (hne '"' (by decide)), if_neg (hne '[' (by decide)),
    if_neg (hne '{' (by decide)), if_neg (hne 'n' (by decide)), if_neg (hne 't' (by decide)),
    if_neg (hne 'f' (by decide)), hnumber]

theorem reads_str (ascii : Bool) (s : String) : Reads ascii (.str s) := by
  intro fuel rest hfuel _
  obtain ⟨fuel, rfl⟩ := Nat.exists_eq_succ_of_ne_zero (Nat.ne_zero_of_lt hfuel)
  have hquoted := quoted_writeString ascii s rest
  show (quoted (writeString ascii s ++ rest)).map _ = _
  rw [hquoted]
  rfl

/-- A list that is not empty. -/
theorem read_bracket {fuel : ℕ} {cs : List Char} (h : token ']' cs = none) :
    read (fuel + 1) ('[' :: cs) =
      (readElements fuel cs).map fun (vs, rest) => (Value.arr vs, rest) := by
  have hskip : skipSpace ('[' :: cs) = '[' :: cs := rfl
  have hquote : '[' ≠ '"' := by decide
  simp only [read, hskip, if_neg hquote, if_pos, h]

/-- An object that is not empty. -/
theorem read_brace {fuel : ℕ} {cs : List Char} (h : token '}' cs = none) :
    read (fuel + 1) ('{' :: cs) =
      (readMembers fuel cs).map fun (members, rest) => (Value.obj members, rest) := by
  have hskip : skipSpace ('{' :: cs) = '{' :: cs := rfl
  have hquote : '{' ≠ '"' := by decide
  have hbracket : '{' ≠ '[' := by decide
  simp only [read, hskip, if_neg hquote, if_neg hbracket, if_pos, h]

theorem readElements_space (fuel : ℕ) (cs : List Char) :
    readElements fuel (' ' :: cs) = readElements fuel cs := by
  cases fuel with
  | zero => rfl
  | succ fuel => rw [readElements, read_space, ← readElements]

theorem readMembers_space (fuel : ℕ) (cs : List Char) :
    readMembers fuel (' ' :: cs) = readMembers fuel cs := by
  cases fuel with
  | zero => rfl
  | succ fuel => rfl

/-- The last element. -/
theorem readElements_last {ascii : Bool} {v : Value} (hv : Reads ascii v) {fuel : ℕ}
    (hfuel : (write ascii v).length ≤ fuel) (rest : List Char) :
    readElements (fuel + 1) (write ascii v ++ ']' :: rest) = some ([v], rest) := by
  have hends : Ends (']' :: rest) := ends_writeElements ascii [] rest
  simp only [readElements, hv fuel _ hfuel hends, Option.bind_eq_bind, Option.bind_some,
    token_of_ne rfl (show ']' ≠ ',' by decide), token_self (c := ']') rfl,
    Option.pure_def]

/-- An element before another one. -/
theorem readElements_more {ascii : Bool} {v : Value} (hv : Reads ascii v) {fuel : ℕ}
    (hfuel : (write ascii v).length ≤ fuel) {rest rest' : List Char} {vs : List Value}
    (hrest : readElements fuel rest = some (vs, rest')) :
    readElements (fuel + 1) (write ascii v ++ ',' :: ' ' :: rest) = some (v :: vs, rest') := by
  have hends : Ends (',' :: ' ' :: rest) := by
    rintro c ⟨⟩
    exact Or.inl rfl
  simp only [readElements, hv fuel _ hfuel hends, Option.bind_eq_bind, Option.bind_some,
    token_self (c := ',') rfl, readElements_space, hrest, Option.pure_def]

theorem skipSpace_writeString (ascii : Bool) (s : String) (rest : List Char) :
    skipSpace (writeString ascii s ++ rest) = writeString ascii s ++ rest :=
  rfl

/-- The last member. -/
theorem readMembers_last {ascii : Bool} {v : Value} (hv : Reads ascii v) {fuel : ℕ}
    (hfuel : (write ascii v).length ≤ fuel) (key : String) (rest : List Char) :
    readMembers (fuel + 1)
        (writeString ascii key ++ ':' :: ' ' :: (write ascii v ++ '}' :: rest)) =
      some ([(key, v)], rest) := by
  have hends : Ends ('}' :: rest) := ends_writeMembers ascii [] rest
  simp only [readMembers, skipSpace_writeString, quoted_writeString, Option.bind_eq_bind,
    Option.bind_some, token_self (c := ':') rfl, read_space, hv fuel _ hfuel hends,
    token_of_ne rfl (show '}' ≠ ',' by decide), token_self (c := '}') rfl,
    Option.pure_def]

/-- One member, and more of them behind it. -/
theorem readMembers_more {ascii : Bool} {v : Value} (hv : Reads ascii v) {fuel : ℕ}
    (hfuel : (write ascii v).length ≤ fuel) (key : String) {rest rest' : List Char}
    {members : List (String × Value)} (hrest : readMembers fuel rest = some (members, rest')) :
    readMembers (fuel + 1)
        (writeString ascii key ++ ':' :: ' ' :: (write ascii v ++ ',' :: ' ' :: rest)) =
      some ((key, v) :: members, rest') := by
  have hends : Ends (',' :: ' ' :: rest) := by
    rintro c ⟨⟩
    exact Or.inl rfl
  simp only [readMembers, skipSpace_writeString, quoted_writeString, Option.bind_eq_bind,
    Option.bind_some, token_self (c := ':') rfl, read_space, hv fuel _ hfuel hends,
    token_self (c := ',') rfl, readMembers_space, hrest, Option.pure_def]

mutual

/-- **A value that was written is read**, if the counter is not below the length of its text.  The
three theorems recurse on the value, as the writer does. -/
theorem read_write (ascii : Bool) : ∀ v : Value, Reads ascii v
  | .null => by
      intro fuel rest hfuel _
      obtain ⟨fuel, rfl⟩ := Nat.exists_eq_succ_of_ne_zero (Nat.ne_zero_of_lt hfuel)
      rfl
  | .bool b => by
      intro fuel rest hfuel _
      have hpos : 0 < (write ascii (.bool b)).length := by cases b <;> exact Nat.succ_pos _
      have hne : fuel ≠ 0 := Nat.ne_zero_of_lt (hpos.trans_le hfuel)
      obtain ⟨fuel, rfl⟩ := Nat.exists_eq_succ_of_ne_zero hne
      cases b <;> rfl
  | .num n => reads_num ascii n
  | .str s => reads_str ascii s
  | .arr [] => by
      intro fuel rest hfuel _
      obtain ⟨fuel, rfl⟩ := Nat.exists_eq_succ_of_ne_zero (Nat.ne_zero_of_lt hfuel)
      rfl
  | .arr (v :: vs) => by
      intro fuel rest hfuel _
      obtain ⟨fuel, rfl⟩ := Nat.exists_eq_succ_of_ne_zero (Nat.ne_zero_of_lt hfuel)
      have helements := readElements_write ascii vs v (read_write ascii v) fuel rest
        (Nat.le_of_succ_le_succ hfuel)
      obtain ⟨c, cs, hcs, hspace, hne⟩ := exists_write_head ascii v
      have hclosing : token ']' (write ascii v ++ (writeElements ascii vs ++ rest)) = none := by
        rw [hcs]
        exact token_of_ne hspace hne _
      rw [write, List.cons_append, List.append_assoc, read_bracket hclosing, helements]
      rfl
  | .obj [] => by
      intro fuel rest hfuel _
      obtain ⟨fuel, rfl⟩ := Nat.exists_eq_succ_of_ne_zero (Nat.ne_zero_of_lt hfuel)
      rfl
  | .obj ((key, v) :: members) => by
      intro fuel rest hfuel _
      obtain ⟨fuel, rfl⟩ := Nat.exists_eq_succ_of_ne_zero (Nat.ne_zero_of_lt hfuel)
      have hlength := Nat.le_of_succ_le_succ hfuel
      rw [List.length_append, List.length_cons, List.length_cons] at hlength
      have hmembers := readMembers_write ascii members key v (read_write ascii v) fuel rest
        (by omega)
      have hclosing : token '}' (writeString ascii key ++
          ':' :: ' ' :: (write ascii v ++ (writeMembers ascii members ++ rest))) = none := rfl
      rw [write, List.cons_append, List.append_assoc, List.cons_append, List.cons_append,
        List.append_assoc, read_brace hclosing, hmembers]
      rfl

theorem readElements_write (ascii : Bool) : ∀ (vs : List Value) (v : Value), Reads ascii v →
    ∀ fuel rest, (write ascii v ++ writeElements ascii vs).length ≤ fuel →
      readElements fuel (write ascii v ++ (writeElements ascii vs ++ rest)) = some (v :: vs, rest)
  | [], v, hv, fuel, rest, hfuel => by
      rw [List.length_append] at hfuel
      obtain ⟨fuel, rfl⟩ := Nat.exists_eq_succ_of_ne_zero (Nat.ne_zero_of_lt hfuel)
      exact readElements_last hv (Nat.le_of_succ_le_succ hfuel) rest
  | w :: vs, v, hv, fuel, rest, hfuel => by
      rw [writeElements, List.length_append, List.length_cons, List.length_cons] at hfuel
      obtain ⟨fuel, rfl⟩ := Nat.exists_eq_succ_of_ne_zero (Nat.ne_zero_of_lt hfuel)
      have hvs := readElements_write ascii vs w (read_write ascii w) fuel rest (by omega)
      rw [← List.append_assoc] at hvs
      exact readElements_more hv (by omega) hvs

theorem readMembers_write (ascii : Bool) :
    ∀ (members : List (String × Value)) (key : String) (v : Value), Reads ascii v →
    ∀ fuel rest,
      (write ascii v ++ writeMembers ascii members).length ≤ fuel →
      readMembers fuel (writeString ascii key ++
          ':' :: ' ' :: (write ascii v ++ (writeMembers ascii members ++ rest))) =
        some ((key, v) :: members, rest)
  | [], key, v, hv, fuel, rest, hfuel => by
      rw [List.length_append] at hfuel
      obtain ⟨fuel, rfl⟩ := Nat.exists_eq_succ_of_ne_zero (Nat.ne_zero_of_lt hfuel)
      exact readMembers_last hv (Nat.le_of_succ_le_succ hfuel) key rest
  | (key', w) :: members, key, v, hv, fuel, rest, hfuel => by
      rw [writeMembers, List.length_append, List.length_cons, List.length_cons,
        List.length_append, List.length_cons, List.length_cons] at hfuel
      obtain ⟨fuel, rfl⟩ := Nat.exists_eq_succ_of_ne_zero (Nat.ne_zero_of_lt hfuel)
      have hmembers := readMembers_write ascii members key' w (read_write ascii w) fuel rest
        (by omega)
      rw [writeMembers, List.cons_append, List.cons_append, List.append_assoc, List.cons_append,
        List.cons_append, List.append_assoc]
      exact readMembers_more hv (by omega) key hmembers

end

/-- **Round trip.**  What was written is read. -/
theorem loads_dumps (ascii : Bool) (v : Value) : loads (dumps ascii v) = some v := by
  have hread := read_write ascii v _ [] (Nat.le_succ (write ascii v).length) (by rintro _ ⟨⟩)
  rw [List.append_nil] at hread
  simp only [loads, dumps, String.toList_ofList, hread, Option.bind_eq_bind, Option.bind_some]
  rfl

end JsonText
