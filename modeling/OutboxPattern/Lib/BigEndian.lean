import Mathlib.Algebra.Order.Ring.Nat

/-!
# Big-endian integers of a fixed width

An unsigned integer is written in `width` bytes, the most significant one first.  What is below
`256 ^ width` is read as it was written (`decode_encode`), whatever is written behind it
(`encode_append_inj`).
-/

namespace BigEndian

/-- The integer that a byte string stands for. -/
def decode (bytes : List UInt8) : ℕ := bytes.foldl (fun n byte => 256 * n + byte.toNat) 0

/-- The last `width` bytes of an integer. -/
def encode : ℕ → ℕ → List UInt8
  | 0, _ => []
  | width + 1, n => encode width (n / 256) ++ [UInt8.ofNat n]

@[simp] theorem length_encode (width n : ℕ) : (encode width n).length = width := by
  induction width generalizing n with
  | zero => rfl
  | succ width ih => rw [encode, List.length_append, ih, List.length_singleton]

@[simp] theorem decode_nil : decode [] = 0 := rfl

@[simp] theorem decode_concat (bytes : List UInt8) (byte : UInt8) :
    decode (bytes ++ [byte]) = 256 * decode bytes + byte.toNat := by
  rw [decode, List.foldl_append, ← decode, List.foldl_cons, List.foldl_nil]

/-- An integer that fits is read as it was written. -/
theorem decode_encode {width n : ℕ} (h : n < 256 ^ width) : decode (encode width n) = n := by
  induction width generalizing n with
  | zero =>
      have hn : n = 0 := Nat.lt_one_iff.mp h
      rw [hn, encode, decode_nil]
  | succ width ih =>
      have hdiv : n / 256 < 256 ^ width := Nat.div_lt_of_lt_mul (by rwa [pow_succ'] at h)
      rw [encode, decode_concat, ih hdiv, UInt8.toNat_ofNat']
      exact Nat.div_add_mod n 256

/-- An integer that fits can be told from what follows it. -/
theorem encode_append_inj {width m n : ℕ} {rest rest' : List UInt8} (hm : m < 256 ^ width)
    (hn : n < 256 ^ width) (h : encode width m ++ rest = encode width n ++ rest') :
    m = n ∧ rest = rest' := by
  obtain ⟨hencode, hrest⟩ := List.append_inj h (by rw [length_encode, length_encode])
  refine ⟨?_, hrest⟩
  rw [← decode_encode hm, hencode, decode_encode hn]

end BigEndian
