import Mathlib.Algebra.Order.Ring.Nat
import Mathlib.Tactic.IntervalCases

/-!
# Hexadecimal numerals of a fixed width

`encode width n` writes `n` with exactly `width` digits, in lower case, and `decode` reads digits
of either case.
-/

namespace Hexadecimal

/-- The digit of a value below 16. -/
def digit (d : ℕ) : Char := if d < 10 then Char.ofNat (48 + d) else Char.ofNat (87 + d)

/-- The value of a digit. -/
def digitValue (c : Char) : Option ℕ :=
  if '0' ≤ c ∧ c ≤ '9' then some (c.toNat - 48)
  else if 'a' ≤ c ∧ c ≤ 'f' then some (c.toNat - 87)
  else if 'A' ≤ c ∧ c ≤ 'F' then some (c.toNat - 55)
  else none

def encode : ℕ → ℕ → List Char
  | 0, _ => []
  | width + 1, n => encode width (n / 16) ++ [digit (n % 16)]

def decode (cs : List Char) : Option ℕ :=
  cs.foldl (fun value c => value.bind fun n => (digitValue c).map (16 * n + ·)) (some 0)

theorem digitValue_digit {d : ℕ} (h : d < 16) : digitValue (digit d) = some d := by
  interval_cases d <;> decide

@[simp] theorem length_encode (width n : ℕ) : (encode width n).length = width := by
  induction width generalizing n with
  | zero => rfl
  | succ width ih => rw [encode, List.length_append, ih, List.length_singleton]

theorem decode_concat (cs : List Char) (c : Char) :
    decode (cs ++ [c]) = (decode cs).bind fun n => (digitValue c).map (16 * n + ·) := by
  rw [decode, List.foldl_append, ← decode, List.foldl_cons, List.foldl_nil]

/-- **A number that fits into the width is read as it was written.** -/
theorem decode_encode {width n : ℕ} (h : n < 16 ^ width) : decode (encode width n) = some n := by
  induction width generalizing n with
  | zero =>
      obtain rfl : n = 0 := by simpa using h
      rfl
  | succ width ih =>
      have hquotient : n / 16 < 16 ^ width := by
        rw [Nat.pow_succ] at h
        exact Nat.div_lt_of_lt_mul (by omega)
      rw [encode, decode_concat, ih hquotient, Option.bind_some,
        digitValue_digit (Nat.mod_lt n (by omega)), Option.map_some, Nat.div_add_mod]

/-- Only digits are written. -/
theorem digitValue_isSome_of_mem {width n : ℕ} {c : Char} (hc : c ∈ encode width n) :
    (digitValue c).isSome := by
  induction width generalizing n with
  | zero => cases hc
  | succ width ih =>
      rw [encode, List.mem_append, List.mem_singleton] at hc
      rcases hc with hc | rfl
      · exact ih hc
      · rw [digitValue_digit (Nat.mod_lt n (by omega))]
        rfl

end Hexadecimal
