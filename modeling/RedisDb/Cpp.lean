import Mathlib.Order.Defs.LinearOrder
import RedisDb.Lib.Decimal

/-!
# The C++ standard library the sources rest on

Byte strings, the exceptions the program can throw, and the number conversions of the standard
library: `std::from_chars`, the `std::stoi` family and `std::to_string`, each following its
documented behaviour on the whole input range.

`std::from_chars` and `std::stoll` differ in what they accept before the digits (`from_chars` a
minus sign only, `stoll` white space and either sign) and agree in what they leave behind: both stop
at the first byte that is not a digit and report success.
-/

namespace RedisDb

/-- A `std::string`: any sequence of bytes. -/
abbrev Bytes := List UInt8

/-- `std::string` compares bytes as unsigned numbers. -/
instance byteOrder : LinearOrder UInt8 where
  le_refl := UInt8.le_refl
  le_trans _ _ _ := UInt8.le_trans
  le_antisymm _ _ := UInt8.le_antisymm
  le_total := UInt8.le_total
  lt_iff_le_not_ge a b := by
    rw [UInt8.not_le]
    exact ⟨fun h => ⟨UInt8.le_of_lt h, h⟩, And.right⟩
  toDecidableLE := inferInstance
  toDecidableLT := inferInstance
  toDecidableEq := inferInstance

instance lawfulBEqBytes : LawfulBEq Bytes := inferInstance

/-- The bytes of an ASCII literal of the source. -/
def str (s : String) : Bytes := s.toList.map fun c => UInt8.ofNat c.toNat

/-- `\r` and `\n`. -/
def CR : UInt8 := 13
@[inherit_doc CR] def LF : UInt8 := 10

/-- The line terminator `"\r\n"`. -/
def CRLF : Bytes := [CR, LF]

/-- What the program can throw. -/
inductive Exn where
  /-- `std::bad_variant_access`, from `std::get` on the wrong alternative. -/
  | badVariantAccess
  /-- `std::length_error`, from a container asked for more than `max_size()`. -/
  | lengthError
  /-- `std::bad_alloc`. -/
  | badAlloc
  /-- `std::invalid_argument`, from the `std::stoi` family. -/
  | invalidArgument
  /-- `std::out_of_range`, from the `std::stoi` family. -/
  | outOfRange
deriving DecidableEq, Repr

/-- `what()` of each exception, as libstdc++ words it. The `std::stoi` family throws the name of the
function that was called, which is `stoll` wherever an exception reaches a reply. -/
def Exn.what : Exn → Bytes
  | .badVariantAccess => str "std::get: wrong index for variant"
  | .lengthError => str "vector::reserve"
  | .badAlloc => str "std::bad_alloc"
  | .invalidArgument => str "stoll"
  | .outOfRange => str "stoll"

/-- How a call can fail to return: with an exception, or by doing what the language leaves
undefined. -/
inductive Fault where
  | thrown (e : Exn)
  | undefined
deriving DecidableEq, Repr

/-! ### Fixed-width ranges -/

/-- The values of a signed type of `w` bits. -/
def InRange (w : ℕ) (i : ℤ) : Prop := -2 ^ (w - 1) ≤ i ∧ i < 2 ^ (w - 1)

instance (w : ℕ) (i : ℤ) : Decidable (InRange w i) := by unfold InRange; infer_instance

theorem InRange.natCast_of_lt {w n : ℕ} (h : n < 2 ^ (w - 1)) : InRange w (n : ℤ) := by
  refine ⟨?_, by exact_mod_cast h⟩
  have : (0 : ℤ) ≤ 2 ^ (w - 1) := by positivity
  omega

/-- `static_cast<int>` of a `size_t`: the residue modulo `2^32` that an `int` can hold. -/
def asInt (n : ℕ) : ℤ := (n : ℤ).bmod (2 ^ 32)

theorem asInt_of_lt {n : ℕ} (h : n < 2 ^ 31) : asInt n = n := by
  unfold asInt
  rw [Int.bmod_eq_of_le] <;> omega

theorem asInt_le (n : ℕ) : asInt n ≤ n := by
  unfold asInt Int.bmod
  dsimp only
  split <;> omega

/-- `++` of an `int` that counts, which wraps around behind `2 ^ 31 - 1`. -/
def intSucc (i : ℤ) : ℤ := (i + 1).bmod (2 ^ 32)

@[simp] theorem asInt_zero : asInt 0 = 0 := rfl

/-- Counting `n` more with an `int` and taking `n` more as an `int` come to the same. -/
@[simp] theorem intSucc_asInt (n : ℕ) : intSucc (asInt n) = asInt (n + 1) := by
  unfold intSucc asInt
  rw [Int.bmod_add_bmod, Nat.cast_add, Nat.cast_one]

/-- An `int` counts exactly as long as it does not overflow. -/
theorem asInt_eq_iff {n : ℕ} : asInt n = n ↔ n < 2 ^ 31 := by
  refine ⟨fun h => ?_, asInt_of_lt⟩
  have := @Int.bmod_lt (n : ℤ) (2 ^ 32) (by norm_num)
  unfold asInt at h
  omega

/-- The `int64_t` with the same bits as an integer, for sums and differences that leave the range and
for the conversion from `uint64_t`. -/
def asInt64 (i : ℤ) : ℤ := i.bmod (2 ^ 64)

/-- The `uint64_t` with the same bits as an integer. -/
def asUInt64 (i : ℤ) : ℕ := (i % 2 ^ 64).toNat

theorem asUInt64_lt (i : ℤ) : asUInt64 i < 2 ^ 64 := by
  unfold asUInt64
  have := Int.emod_lt_of_pos i (show (0 : ℤ) < 2 ^ 64 by norm_num)
  omega

theorem asInt64_inRange (i : ℤ) : InRange 64 (asInt64 i) := by
  unfold asInt64 InRange
  have := @Int.le_bmod i (2 ^ 64) (by norm_num)
  have := @Int.bmod_lt i (2 ^ 64) (by norm_num)
  omega

theorem asInt64_of_inRange {i : ℤ} (h : InRange 64 i) : asInt64 i = i := by
  unfold asInt64
  rw [Int.bmod_eq_of_le] <;> have := h.1 <;> have := h.2 <;> omega

/-- Back from `uint64_t` to `int64_t`. -/
theorem asInt64_asUInt64 {i : ℤ} (h : InRange 64 i) : asInt64 (asUInt64 i) = i := by
  have hcast : ((asUInt64 i : ℕ) : ℤ) = i % 2 ^ 64 :=
    Int.toNat_of_nonneg (Int.emod_nonneg _ (by norm_num))
  have hmod : asInt64 (i % 2 ^ 64) = asInt64 i := by
    unfold asInt64
    exact Int.emod_bmod i (2 ^ 64)
  rw [hcast, hmod, asInt64_of_inRange h]

/-! ### `std::from_chars` -/

/-- The `ec` of a failed `std::from_chars`. -/
inductive Errc where
  | invalidArgument
  | resultOutOfRange
deriving DecidableEq, Repr

/-- Split an optional minus sign off the head of a text. -/
def splitMinus : Bytes → Bool × Bytes
  | 45 :: t => (true, t)
  | t => (false, t)

/-- The integer a sign and a run of digits spell. -/
def signedVal (neg : Bool) (ds : Bytes) : ℤ :=
  if neg then -(Decimal.digitsVal ds : ℤ) else Decimal.digitsVal ds

/-- `std::from_chars` into an `int64_t`, base 10: the value and the unread rest. -/
def fromChars (s : Bytes) : Except Errc (ℤ × Bytes) :=
  let (neg, t) := splitMinus s
  let (ds, rest) := Decimal.splitDigits t
  if ds = [] then .error .invalidArgument
  else if InRange 64 (signedVal neg ds) then .ok (signedVal neg ds, rest)
  else .error .resultOutOfRange

/-! ### The `std::stoi` family -/

/-- `isspace` in the C locale. -/
def isSpace (b : UInt8) : Bool := b = 32 || (9 ≤ b && b ≤ 13)

/-- Split an optional sign of either kind off the head of a text. -/
def splitSign : Bytes → Bool × Bytes
  | 45 :: t => (true, t)
  | 43 :: t => (false, t)
  | t => (false, t)

/-- `std::stoi`, `std::stol` and `std::stoll`, by the width of the result. -/
def stoInt (w : ℕ) (s : Bytes) : Except Exn ℤ :=
  let (neg, t) := splitSign (s.dropWhile isSpace)
  let (ds, _) := Decimal.splitDigits t
  if ds = [] then .error .invalidArgument
  else if InRange w (signedVal neg ds) then .ok (signedVal neg ds)
  else .error .outOfRange

/-- `std::stoll`. -/
def stoll (s : Bytes) : Except Exn ℤ := stoInt 64 s

/-- `std::stol`, whose `long` has 64 bits. -/
def stol (s : Bytes) : Except Exn ℤ := stoInt 64 s

/-- `std::stoi`. -/
def stoi (s : Bytes) : Except Exn ℤ := stoInt 32 s

/-! ### `std::to_string` and `toupper` -/

/-- `std::to_string` of an integer. -/
def toText (i : ℤ) : Bytes := Decimal.intText i

/-- `toupper` in the C locale. -/
def toUpperByte (b : UInt8) : UInt8 := if 97 ≤ b && b ≤ 122 then b - 32 else b

/-- `std::transform(…, ::toupper)` over a whole string. -/
def toUpper (s : Bytes) : Bytes := s.map toUpperByte

/-! ### Reading printed numbers -/

/-- A run of digits does not begin with a minus sign. -/
theorem splitMinus_of_isDigit {b : UInt8} {t : Bytes} (h : Decimal.isDigit b = true) :
    splitMinus (b :: t) = (false, b :: t) := by
  unfold splitMinus
  split
  · next heq =>
    obtain ⟨rfl, -⟩ := List.cons.inj heq
    exact absurd h (by decide)
  · rfl

theorem splitMinus_natText_append (n : ℕ) (rest : Bytes) :
    splitMinus (Decimal.natText n ++ rest) = (false, Decimal.natText n ++ rest) := by
  cases hn : Decimal.natText n with
  | nil => exact absurd hn (Decimal.natText_ne_nil n)
  | cons b t =>
    rw [List.cons_append]
    exact splitMinus_of_isDigit (Decimal.isDigit_of_mem_natText (hn ▸ List.mem_cons_self))

/-- **`from_chars` inverts `to_string`** on every value of the type, whatever follows the number. -/
theorem fromChars_toText_append {i : ℤ} (hi : InRange 64 i) {rest : Bytes}
    (hrest : ∀ b, rest.head? = some b → Decimal.isDigit b = false) :
    fromChars (toText i ++ rest) = .ok (i, rest) := by
  unfold toText Decimal.intText
  by_cases hneg : i < 0
  · have hval : signedVal true (Decimal.natText i.natAbs) = i := by
      simp only [signedVal, if_true, Decimal.digitsVal_natText]
      omega
    rw [if_pos hneg]
    simp only [fromChars, List.cons_append, splitMinus, Decimal.splitDigits_natText_append hrest,
      if_neg (Decimal.natText_ne_nil _), hval, if_pos hi]
  · have hval : signedVal false (Decimal.natText i.natAbs) = i := by
      simp only [signedVal, Bool.false_eq_true, if_false, Decimal.digitsVal_natText]
      omega
    rw [if_neg hneg]
    simp only [fromChars, splitMinus_natText_append, Decimal.splitDigits_natText_append hrest,
      if_neg (Decimal.natText_ne_nil _), hval, if_pos hi]

theorem fromChars_toText {i : ℤ} (hi : InRange 64 i) : fromChars (toText i) = .ok (i, []) := by
  simpa using @fromChars_toText_append i hi [] (by simp)

/-- A printed integer contains no line terminator byte. -/
theorem notMem_toText {i : ℤ} {b : UInt8} (hb : b = CR ∨ b = LF) : b ∉ toText i := by
  intro h
  rcases Decimal.mem_intText h with rfl | hd
  · exact absurd hb (by decide)
  · rcases hb with rfl | rfl <;> exact absurd hd (by decide)

end RedisDb
