import Mathlib.Logic.Function.Iterate
import Mathlib.Tactic.Common

/-!
# Cyclic redundancy checks

A register of any width is shifted to the right, and the polynomial is added to it whenever a one comes
out. `feed` shifts the bits of a message in, the first one first.

Shifting is linear (`shift_xor`), and it loses nothing when the polynomial has its highest bit set
(`shift_injective`). A message that fits into the register is therefore the same as its bits added to the
register at once (`feed_eq`), and no two such messages of one length leave the same register
(`feed_bits_injective`). A shift by a whole byte can be looked up in a table (`iterate_shift_split`).
-/

namespace Crc

variable {w : ℕ} (poly : BitVec w)

/-- One turn of the register. -/
def shift (x : BitVec w) : BitVec w := if x.getLsbD 0 then (x >>> 1) ^^^ poly else x >>> 1

/-- The register after the bits of a message. -/
def feed (x : BitVec w) (bits : List Bool) : BitVec w :=
  bits.foldl (fun x b => shift poly (x ^^^ (BitVec.ofBool b).setWidth w)) x

/-- The bits of a message as a word, the first one lowest. -/
def word (w : ℕ) (bits : List Bool) : BitVec w := (BitVec.ofBoolListLE bits).setWidth w

theorem getLsbD_word (bits : List Bool) {i : ℕ} (hi : i < w) : (word w bits).getLsbD i = bits.getD i false := by
  rw [word, BitVec.getLsbD_setWidth, BitVec.getLsbD_ofBoolListLE, decide_eq_true hi, Bool.true_and]

/-! ### Shifting is linear -/

theorem shift_xor (x y : BitVec w) : shift poly (x ^^^ y) = shift poly x ^^^ shift poly y := by
  -- the polynomial cancels out when a one comes out of both
  have hcancel : (x >>> 1) ^^^ poly ^^^ ((y >>> 1) ^^^ poly) = (x >>> 1) ^^^ (y >>> 1) := by
    rw [BitVec.xor_comm (y >>> 1) poly, BitVec.xor_assoc, ← BitVec.xor_assoc poly, BitVec.xor_self, BitVec.zero_xor]
  unfold shift
  rw [BitVec.getLsbD_xor, BitVec.ushiftRight_xor_distrib]
  cases x.getLsbD 0 <;> cases y.getLsbD 0
  · rfl
  · exact BitVec.xor_assoc _ _ _
  · show (x >>> 1) ^^^ (y >>> 1) ^^^ poly = (x >>> 1) ^^^ poly ^^^ (y >>> 1)
    rw [BitVec.xor_assoc, BitVec.xor_comm (y >>> 1), BitVec.xor_assoc]
  · exact hcancel.symm

theorem iterate_shift_xor (n : ℕ) (x y : BitVec w) :
    (shift poly)^[n] (x ^^^ y) = (shift poly)^[n] x ^^^ (shift poly)^[n] y := by
  induction n generalizing x y with
  | zero => rfl
  | succ n ih => rw [Function.iterate_succ_apply, shift_xor, ih]; rfl

/-- As long as zeros come out, the register only moves. -/
theorem iterate_shift_of_low {n : ℕ} {x : BitVec w} (hlow : ∀ i < n, x.getLsbD i = false) :
    (shift poly)^[n] x = x >>> n := by
  induction n generalizing x with
  | zero => rw [BitVec.ushiftRight_zero]; rfl
  | succ n ih =>
    have hshift : shift poly x = x >>> 1 := if_neg (by rw [hlow 0 (Nat.succ_pos n)]; exact Bool.false_ne_true)
    rw [Function.iterate_succ_apply, hshift, ih fun i hi => ?_, ← BitVec.shiftRight_add, Nat.add_comm 1 n]
    rw [BitVec.getLsbD_ushiftRight]
    exact hlow (1 + i) (by omega)

/-- **The table**: `n` shifts of the register are `n` shifts of its lowest bits, added to the rest of it. -/
theorem iterate_shift_split {n : ℕ} {x low : BitVec w} (hin : ∀ i < n, low.getLsbD i = x.getLsbD i)
    (hout : ∀ i, n ≤ i → low.getLsbD i = false) :
    (shift poly)^[n] x = (shift poly)^[n] low ^^^ (x >>> n) := by
  have hhigh : ∀ i < n, (x ^^^ low).getLsbD i = false := fun i hi => by
    rw [BitVec.getLsbD_xor, hin i hi, Bool.xor_self]
  have hrest : (x ^^^ low) >>> n = x >>> n := by
    refine BitVec.eq_of_getLsbD_eq fun i _ => ?_
    rw [BitVec.getLsbD_ushiftRight, BitVec.getLsbD_ushiftRight, BitVec.getLsbD_xor, hout (n + i) (by omega),
      Bool.xor_false]
  calc (shift poly)^[n] x = (shift poly)^[n] (low ^^^ (x ^^^ low)) := by
        rw [BitVec.xor_comm x, ← BitVec.xor_assoc, BitVec.xor_self, BitVec.zero_xor]
    _ = (shift poly)^[n] low ^^^ (x >>> n) := by
        rw [iterate_shift_xor, iterate_shift_of_low poly hhigh, hrest]

/-! ### Bits at once -/

/-- **A message that fits into the register** is its word added to the register. By induction on the bits. -/
theorem feed_eq (bits : List Bool) (x : BitVec w) (hfits : bits.length ≤ w) :
    feed poly x bits = (shift poly)^[bits.length] (x ^^^ word w bits) := by
  induction bits generalizing x with
  | nil =>
    have hzero : word w [] = 0 := BitVec.eq_of_getLsbD_eq fun i hi => by
      rw [getLsbD_word [] hi, List.getD_nil]
      exact BitVec.getLsbD_zero.symm
    rw [hzero, List.length_nil, Function.iterate_zero_apply]
    exact BitVec.xor_zero.symm
  | cons b bits ih =>
    have hw : bits.length < w := hfits
    -- the first bit comes out first, and the others have moved one place down by then
    have hword : word w (b :: bits) = (BitVec.ofBool b).setWidth w ^^^ (word w bits <<< 1) := by
      refine BitVec.eq_of_getLsbD_eq fun i hi => ?_
      rw [getLsbD_word _ hi, BitVec.getLsbD_xor, BitVec.getLsbD_setWidth, BitVec.getLsbD_ofBool,
        BitVec.getLsbD_shiftLeft, decide_eq_true hi, Bool.true_and, Bool.true_and]
      cases i with
      | zero => simp
      | succ i => simp [getLsbD_word bits (show i < w by omega)]
    have hmoved : shift poly (word w bits <<< 1) = word w bits := by
      have hlow : ∀ i < 1, (word w bits <<< 1).getLsbD i = false := fun i hi => by
        rw [BitVec.getLsbD_shiftLeft, decide_eq_true hi]
        simp
      have hone := iterate_shift_of_low poly hlow
      rw [Function.iterate_one] at hone
      rw [hone]
      refine BitVec.eq_of_getLsbD_eq fun i hi => ?_
      rw [BitVec.getLsbD_ushiftRight, BitVec.getLsbD_shiftLeft]
      by_cases hlast : 1 + i < w
      · simp [hlast]
      · have hnone : bits[i]? = none := List.getElem?_eq_none (by omega)
        simp [hlast, getLsbD_word bits hi, hnone]
    show feed poly (shift poly (x ^^^ (BitVec.ofBool b).setWidth w)) bits = _
    rw [ih _ (Nat.le_of_lt hw), List.length_cons, Function.iterate_succ_apply, hword, ← BitVec.xor_assoc,
      shift_xor poly _ (word w bits <<< 1), hmoved]

/-! ### Nothing is lost -/

variable {poly}

/-- **Shifting loses nothing**: the highest bit of the result says whether the polynomial was added. -/
theorem shift_injective (hpoly : poly.msb = true) : Function.Injective (shift poly) := by
  intro x y h
  have hw : 0 < w := by
    by_contra hzero
    obtain rfl : w = 0 := by omega
    exact absurd hpoly (by simp [BitVec.msb_eq_getLsbD_last])
  -- shifting is linear, so it is enough that nothing but zero is shifted to zero
  have hz : shift poly (x ^^^ y) = 0 := by
    rw [shift_xor, h, BitVec.xor_self]
    rfl
  obtain ⟨z, hz'⟩ : ∃ z, z = x ^^^ y := ⟨_, rfl⟩
  rw [← hz'] at hz
  -- a low bit would set the top bit of the outcome, as the polynomial has it
  have hlow : z.getLsbD 0 = false := by
    by_contra hone
    rw [Bool.not_eq_false] at hone
    rw [shift, if_pos hone] at hz
    have hlast := congrArg (BitVec.getLsbD · (w - 1)) hz
    simp only [BitVec.getLsbD_xor, BitVec.getLsbD_ushiftRight] at hlast
    rw [BitVec.getLsbD_of_ge z _ (by omega), Bool.false_xor, ← BitVec.msb_eq_getLsbD_last, hpoly] at hlast
    exact absurd hlast (by simp)
  have hzero : z = 0 := by
    rw [shift, if_neg (by rw [hlow]; exact Bool.false_ne_true)] at hz
    refine BitVec.eq_of_getLsbD_eq fun i _ => ?_
    cases i with
    | zero => rw [hlow]; simp
    | succ i =>
      have hi := congrArg (BitVec.getLsbD · i) hz
      simp only [BitVec.getLsbD_ushiftRight] at hi
      rw [Nat.add_comm] at hi
      rw [hi]
      simp
  exact BitVec.xor_eq_zero_iff.mp (hz'.symm.trans hzero)

/-- The same message keeps different registers apart. By induction on the bits. -/
theorem feed_injective (hpoly : poly.msb = true) (bits : List Bool) : Function.Injective (feed poly · bits) := by
  induction bits with
  | nil => exact fun _ _ h => h
  | cons b bits ih =>
    intro x y h
    have hshift := shift_injective hpoly (ih h)
    exact (BitVec.xor_left_inj _).mp hshift

/-- **Different messages of one length** that fit into the register keep it apart. -/
theorem feed_bits_injective (hpoly : poly.msb = true) {x : BitVec w} {bits bits' : List Bool}
    (hlength : bits.length = bits'.length) (hfits : bits.length ≤ w) (h : feed poly x bits = feed poly x bits') :
    bits = bits' := by
  rw [feed_eq poly bits x hfits, feed_eq poly bits' x (hlength ▸ hfits), ← hlength] at h
  have hword : word w bits = word w bits' :=
    (BitVec.xor_right_inj _).mp ((shift_injective hpoly).iterate _ h)
  refine List.ext_getElem hlength fun i hi hi' => ?_
  have hbit := congrArg (BitVec.getLsbD · i) hword
  simp only [getLsbD_word _ (show i < w by omega)] at hbit
  simpa [hi, hi'] using hbit

end Crc
