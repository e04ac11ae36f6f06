import Mathlib.Tactic

/-!
# Little-endian numbers

The bytes of a number in memory, lowest first, and back.
-/

namespace LittleEndian

/-- The lowest `w` bytes of a number. -/
def bytes : ℕ → ℕ → List UInt8
  | 0, _ => []
  | w + 1, n => UInt8.ofNat n :: bytes w (n / 256)

/-- The number with these bytes. -/
def value : List UInt8 → ℕ
  | [] => 0
  | b :: bs => b.toNat + 256 * value bs

@[simp] theorem length_bytes (w n : ℕ) : (bytes w n).length = w := by
  induction w generalizing n with
  | zero => rfl
  | succ w ih => rw [bytes, List.length_cons, ih]

/-- By induction on the width: each byte is a digit to the base 256. -/
theorem value_bytes {w n : ℕ} (h : n < 256 ^ w) : value (bytes w n) = n := by
  induction w generalizing n with
  | zero => rw [pow_zero] at h; exact (Nat.lt_one_iff.mp h).symm
  | succ w ih =>
    have hdiv : n / 256 < 256 ^ w := by
      rw [Nat.div_lt_iff_lt_mul (by norm_num), ← pow_succ]
      exact h
    have hlow : (UInt8.ofNat n).toNat = n % 256 := UInt8.toNat_ofNat'
    rw [bytes, value, ih hdiv, hlow, Nat.mod_add_div]

/-- A number is at least its lowest byte. -/
theorem le_value (b : UInt8) (bs : List UInt8) : b.toNat ≤ value (b :: bs) := Nat.le_add_right _ _

end LittleEndian
