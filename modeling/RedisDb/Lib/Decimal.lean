import Mathlib.Data.Nat.Digits.Defs
import Mathlib.Data.Nat.Digits.Lemmas
import Mathlib.Data.List.TakeWhile
import Mathlib.Tactic.Ring

/-!
# Decimal text over bytes

Printing and reading integers as ASCII decimal text, on lists of bytes.

* `natText`, `intText` — the text a number is printed as;
* `digitsVal` — the number a run of digits spells;
* `splitDigits` — the longest run of digits at the head of a text, and what follows it.

The two round trips are `digitsVal_natText`, which reads a printed number back, and
`splitDigits_natText_append`, which says that a printed number followed by something that is not a
digit is cut off at exactly its end.
-/

namespace Decimal

/-- ASCII `'0'` … `'9'`. -/
def isDigit (b : UInt8) : Bool := 48 ≤ b && b ≤ 57

/-- The byte of one decimal digit. -/
def digitByte (d : ℕ) : UInt8 := UInt8.ofNat (48 + d)

/-- The number one digit stands for. -/
def digitVal (b : UInt8) : ℕ := b.toNat - 48

/-- The number a run of digits spells, most significant digit first. -/
def digitsVal (ds : List UInt8) : ℕ := ds.foldl (fun a b => 10 * a + digitVal b) 0

/-- The longest run of digits at the head of a text, with the rest. -/
def splitDigits (s : List UInt8) : List UInt8 × List UInt8 := s.span isDigit

/-- The decimal text of a natural number. -/
def natText (n : ℕ) : List UInt8 :=
  if n = 0 then [48] else (Nat.digits 10 n).reverse.map digitByte

/-- The decimal text of an integer: a minus sign before the digits of a negative one. -/
def intText (i : ℤ) : List UInt8 :=
  if i < 0 then 45 :: natText i.natAbs else natText i.natAbs

/-! ### One digit -/

theorem digitByte_toNat {d : ℕ} (h : d < 10) : (digitByte d).toNat = 48 + d := by
  unfold digitByte
  rw [UInt8.toNat_ofNat']
  omega

theorem isDigit_digitByte {d : ℕ} (h : d < 10) : isDigit (digitByte d) = true := by
  have hb := digitByte_toNat h
  simp only [isDigit, Bool.and_eq_true, decide_eq_true_eq, UInt8.le_iff_toNat_le, hb]
  exact ⟨by simp, by simp; omega⟩

theorem digitVal_digitByte {d : ℕ} (h : d < 10) : digitVal (digitByte d) = d := by
  unfold digitVal
  rw [digitByte_toNat h]
  omega

/-! ### Reading back -/

theorem digitsVal_append_singleton (ds : List UInt8) (b : UInt8) :
    digitsVal (ds ++ [b]) = 10 * digitsVal ds + digitVal b := by
  unfold digitsVal
  rw [List.foldl_append, List.foldl_cons, List.foldl_nil]

/-- The most-significant-first reading of a reversed digit list is `Nat.ofDigits`. -/
theorem digitsVal_reverse_map {L : List ℕ} (h : ∀ d ∈ L, d < 10) :
    digitsVal (L.reverse.map digitByte) = Nat.ofDigits 10 L := by
  induction L with
  | nil => rfl
  | cons d L ih =>
    rw [List.reverse_cons, List.map_append, List.map_singleton, digitsVal_append_singleton,
      ih fun x hx => h x (List.mem_cons_of_mem _ hx), digitVal_digitByte (h d List.mem_cons_self),
      Nat.ofDigits_cons]
    ring

theorem digitsVal_natText (n : ℕ) : digitsVal (natText n) = n := by
  unfold natText
  split
  · next h => subst h; rfl
  · rw [digitsVal_reverse_map fun d hd => Nat.digits_lt_base (by norm_num) hd, Nat.ofDigits_digits]

theorem natText_injective : Function.Injective natText :=
  Function.LeftInverse.injective digitsVal_natText

theorem natText_ne_nil (n : ℕ) : natText n ≠ [] := by
  unfold natText
  split
  · simp
  · next h => simpa [Nat.digits_eq_nil_iff_eq_zero] using h

theorem isDigit_of_mem_natText {n : ℕ} {b : UInt8} (h : b ∈ natText n) : isDigit b = true := by
  unfold natText at h
  split at h
  · rw [List.mem_singleton.mp h]; rfl
  · obtain ⟨d, hd, rfl⟩ := List.mem_map.mp h
    exact isDigit_digitByte (Nat.digits_lt_base (by norm_num) (List.mem_reverse.mp hd))

/-- Everything in a printed integer is a digit or the sign. -/
theorem mem_intText {i : ℤ} {b : UInt8} (h : b ∈ intText i) : b = 45 ∨ isDigit b = true := by
  unfold intText at h
  split at h
  · rcases List.mem_cons.mp h with h | h
    · exact Or.inl h
    · exact Or.inr (isDigit_of_mem_natText h)
  · exact Or.inr (isDigit_of_mem_natText h)

theorem intText_natCast (n : ℕ) : intText n = natText n := by
  simp [intText]

/-- A number is known from its text: the sign is no digit, and the rest is the text of the absolute value. -/
theorem intText_injective : Function.Injective intText := by
  have hsign {m n : ℕ} : 45 :: natText m ≠ natText n := fun h => by
    have hdigit := isDigit_of_mem_natText (h ▸ List.mem_cons_self : (45 : UInt8) ∈ natText n)
    exact absurd hdigit (by decide)
  intro i j h
  unfold intText at h
  split at h <;> split at h
  · have habs := natText_injective (List.cons.inj h).2
    omega
  · exact absurd h hsign
  · exact absurd h.symm hsign
  · have habs := natText_injective h
    omega

/-! ### Cutting a number off the head of a text -/

/-- A run of digits followed by a non-digit is split exactly there. -/
theorem splitDigits_append {ds rest : List UInt8} (hds : ∀ b ∈ ds, isDigit b = true)
    (hrest : ∀ b, rest.head? = some b → isDigit b = false) :
    splitDigits (ds ++ rest) = (ds, rest) := by
  unfold splitDigits
  rw [List.span_eq_takeWhile_dropWhile, List.takeWhile_append_of_pos hds,
    List.dropWhile_append_of_pos hds]
  cases rest with
  | nil => simp
  | cons b t =>
    have hb := hrest b rfl
    simp [hb]

theorem splitDigits_natText_append {n : ℕ} {rest : List UInt8}
    (hrest : ∀ b, rest.head? = some b → isDigit b = false) :
    splitDigits (natText n ++ rest) = (natText n, rest) :=
  splitDigits_append (fun _ h => isDigit_of_mem_natText h) hrest

/-- A number in front of something that is no digit can be read off. -/
theorem natText_append_inj {m n : ℕ} {x y : List UInt8} (hx : ∀ b, x.head? = some b → isDigit b = false)
    (hy : ∀ b, y.head? = some b → isDigit b = false) (h : natText m ++ x = natText n ++ y) : m = n ∧ x = y := by
  have hsplit := congrArg splitDigits h
  rw [splitDigits_natText_append hx, splitDigits_natText_append hy] at hsplit
  obtain ⟨hnumber, hrest⟩ := Prod.mk.inj hsplit
  exact ⟨natText_injective hnumber, hrest⟩

/-- What precedes the cut is digits only. -/
theorem isDigit_of_mem_splitDigits {s : List UInt8} {b : UInt8} (h : b ∈ (splitDigits s).1) :
    isDigit b = true := by
  unfold splitDigits at h
  rw [List.span_eq_takeWhile_dropWhile] at h
  exact List.mem_takeWhile_imp h

end Decimal
