import RedisDb.Protocol.RespParser

/-!
# Header lines

The number of a header line goes through `std::from_chars`, and through `std::stoll` where that finds
none. Between them they read white space, a sign of either kind and digits, and stop at the first byte
that is not a digit, whatever it is (`headerNumber_iff`). The protocol has no such lines: a header is
digits with a minus sign before them or nothing (`IsHeader`).
-/

namespace RedisDb
namespace RespParser

open Decimal

/-! ### The two grammars -/

/-- What can stand before the digits. -/
inductive Sign where
  | none
  | plus
  | minus

namespace Sign

def text : Sign → Bytes
  | none => []
  | plus => [43]
  | minus => [45]

def isMinus : Sign → Bool
  | minus => true
  | _ => false

end Sign

/-- The line is white space, a sign, digits and whatever follows them, and the number is in range. -/
def ReadsAs (line : Bytes) (n : ℤ) : Prop :=
  ∃ (spaces : Bytes) (sign : Sign) (ds junk : Bytes), line = spaces ++ (sign.text ++ (ds ++ junk)) ∧
    (∀ b ∈ spaces, isSpace b = true) ∧ ds ≠ [] ∧ (∀ b ∈ ds, isDigit b = true) ∧
    (∀ b ∈ junk.head?, isDigit b = false) ∧ n = signedVal sign.isMinus ds ∧ InRange 64 n

/-- The line is digits, with a minus sign before them or nothing, and the number is in range. -/
def IsHeader (line : Bytes) (n : ℤ) : Prop :=
  ∃ (neg : Bool) (ds : Bytes), line = (if neg then [45] else []) ++ ds ∧ ds ≠ [] ∧
    (∀ b ∈ ds, isDigit b = true) ∧ n = signedVal neg ds ∧ InRange 64 n

theorem IsHeader.readsAs {line : Bytes} {n : ℤ} (h : IsHeader line n) : ReadsAs line n := by
  obtain ⟨neg, ds, rfl, hne, hds, hn, hrange⟩ := h
  cases neg with
  | false => exact ⟨[], .none, ds, [], by simp [Sign.text], nofun, hne, hds, nofun, hn, hrange⟩
  | true => exact ⟨[], .minus, ds, [], by simp [Sign.text], nofun, hne, hds, nofun, hn, hrange⟩

/-! ### What the source reads -/

theorem isSpace_of_isDigit {b : UInt8} (h : isDigit b = true) : isSpace b = false := by
  simp only [isDigit, Bool.and_eq_true, decide_eq_true_eq, UInt8.le_iff_toNat_le] at h
  have hbound : (48 : UInt8).toNat ≤ b.toNat := h.1
  rw [Bool.eq_false_iff]
  intro hspace
  simp only [isSpace, Bool.or_eq_true, Bool.and_eq_true, decide_eq_true_eq, UInt8.le_iff_toNat_le,
    ← UInt8.toNat_inj] at hspace
  simp at hbound hspace
  omega

theorem splitSign_text {sign : Sign} {t : Bytes} (ht : ∃ b ∈ t.head?, isDigit b = true) :
    splitSign (sign.text ++ t) = (sign.isMinus, t) := by
  cases sign with
  | plus => rfl
  | minus => rfl
  | none =>
    obtain ⟨b, hb, hdigit⟩ := ht
    change splitSign t = (false, t)
    unfold splitSign
    split
    · obtain rfl := Option.some.inj hb
      exact absurd hdigit (by decide)
    · obtain rfl := Option.some.inj hb
      exact absurd hdigit (by decide)
    · rfl

theorem exists_splitSign (t : Bytes) : ∃ sign : Sign, t = sign.text ++ (splitSign t).2 ∧
    sign.isMinus = (splitSign t).1 := by
  unfold splitSign
  split
  · exact ⟨.minus, rfl, rfl⟩
  · exact ⟨.plus, rfl, rfl⟩
  · exact ⟨.none, rfl, rfl⟩

theorem splitDigits_spec (t : Bytes) : t = (splitDigits t).1 ++ (splitDigits t).2 ∧
    ∀ b ∈ (splitDigits t).2.head?, isDigit b = false := by
  unfold splitDigits
  rw [List.span_eq_takeWhile_dropWhile]
  refine ⟨List.takeWhile_append_dropWhile.symm, fun b hb => ?_⟩
  have hnot := List.head?_dropWhile_not isDigit t
  rw [Option.mem_def.mp hb] at hnot
  exact hnot

/-- **`std::stoll`** accepts the lines of the lax grammar, and no others. -/
theorem stoll_iff {line : Bytes} {n : ℤ} : stoll line = .ok n ↔ ReadsAs line n := by
  constructor
  · intro h
    -- blanks, a sign, digits and what is behind them: the four parts of the line
    obtain ⟨sign, hsign, hminus⟩ := exists_splitSign (line.dropWhile isSpace)
    obtain ⟨hdigits, hrest⟩ := splitDigits_spec (splitSign (line.dropWhile isSpace)).2
    unfold stoll stoInt at h
    dsimp only at h
    split at h
    · cases h
    · next hne =>
      split at h
      · next hrange =>
        obtain rfl := Except.ok.inj h
        refine ⟨line.takeWhile isSpace, sign, _, _, ?_, fun b hb => List.mem_takeWhile_imp hb, hne,
          fun b hb => isDigit_of_mem_splitDigits hb, hrest, by rw [hminus], hrange⟩
        rw [← hdigits, ← hsign, List.takeWhile_append_dropWhile]
      · cases h
  · rintro ⟨spaces, sign, ds, junk, rfl, hspaces, hne, hds, hjunk, rfl, hrange⟩
    obtain ⟨b, t, rfl⟩ := List.exists_cons_of_ne_nil hne
    have hdigit : isDigit b = true := hds b List.mem_cons_self
    -- the blanks are dropped, and a sign or a digit is no blank
    have hstart : (spaces ++ (sign.text ++ (b :: t ++ junk))).dropWhile isSpace
        = sign.text ++ (b :: t ++ junk) := by
      rw [List.dropWhile_append_of_pos hspaces]
      cases sign with
      | plus => rfl
      | minus => rfl
      | none => exact List.dropWhile_cons_of_neg (by simp [isSpace_of_isDigit hdigit])
    unfold stoll stoInt
    rw [hstart, splitSign_text ⟨b, rfl, hdigit⟩]
    simp only [splitDigits_append hds hjunk, if_neg hne, if_pos hrange]

theorem splitMinus_of_readsAs {line rest ds : Bytes} {neg : Bool} (hline : splitMinus line = (neg, ds ++ rest))
    (hne : ds ≠ []) (hds : ∀ b ∈ ds, isDigit b = true) (hrest : ∀ b ∈ rest.head?, isDigit b = false)
    (hrange : InRange 64 (signedVal neg ds)) : ReadsAs line (signedVal neg ds) := by
  unfold splitMinus at hline
  split at hline
  · obtain ⟨rfl, rfl⟩ := Prod.mk.inj hline
    exact ⟨[], .minus, ds, rest, rfl, nofun, hne, hds, hrest, rfl, hrange⟩
  · obtain ⟨rfl, rfl⟩ := Prod.mk.inj hline
    exact ⟨[], .none, ds, rest, rfl, nofun, hne, hds, hrest, rfl, hrange⟩

/-- **The number of a header line** is read from the lines of the lax grammar, and no others. What
`std::from_chars` accepts, `std::stoll` would have read as the same number. -/
theorem headerNumber_iff {line : Bytes} {n : ℤ} : headerNumber line = some n ↔ ReadsAs line n := by
  rw [← stoll_iff]
  -- a line that is a number to the end, or up to what follows it, is one to `stoll`
  have hfrom {m : ℤ} {rest : Bytes} (h : fromChars line = .ok (m, rest)) : stoll line = .ok m := by
    obtain ⟨hdigits, hrest⟩ := splitDigits_spec (splitMinus line).2
    unfold fromChars at h
    dsimp only at h
    split at h
    · cases h
    · next hne =>
      split at h
      · next hrange =>
        obtain ⟨rfl, -⟩ := Prod.mk.inj (Except.ok.inj h)
        exact stoll_iff.mpr (splitMinus_of_readsAs (by rw [← hdigits]) hne
          (fun b hb => isDigit_of_mem_splitDigits hb) hrest hrange)
      · cases h
  unfold headerNumber
  cases hchars : fromChars line with
  | ok x =>
    obtain ⟨m, rest⟩ := x
    rw [hfrom hchars]
    simp
  | error e =>
    cases stoll line <;> simp

/-- The numbers of a header line and of the line with its last bytes missing: the digits of the one
begin the digits of the other. -/
def Truncates (m n : ℤ) : Prop :=
  ∃ (neg : Bool) (ds more : Bytes), ds ≠ [] ∧ m = signedVal neg ds ∧ n = signedVal neg (ds ++ more)

/-- Nothing but what can stand before the digits. -/
def Opens (line : Bytes) : Prop :=
  ∃ (spaces : Bytes) (sign : Sign), line = spaces ++ sign.text ∧ ∀ b ∈ spaces, isSpace b = true

theorem Opens.readsAs {line : Bytes} (h : Opens line) : ReadsAs (line ++ [48]) 0 := by
  obtain ⟨spaces, sign, rfl, hspaces⟩ := h
  refine ⟨spaces, sign, [48], [], by simp, hspaces, by simp, List.all_eq_true.mp (by decide), nofun, ?_, by decide⟩
  cases sign <;> rfl

/-- Bytes behind the digits that are none are not looked at. -/
theorem ReadsAs.append {line : Bytes} {n : ℤ} (h : ReadsAs line n) {b : UInt8} (hb : isDigit b = false)
    (t : Bytes) : ReadsAs (line ++ b :: t) n := by
  obtain ⟨spaces, sign, ds, junk, rfl, hspaces, hne, hds, hjunk, hn, hrange⟩ := h
  refine ⟨spaces, sign, ds, junk ++ b :: t, by simp, hspaces, hne, hds, ?_, hn, hrange⟩
  cases junk with
  | nil =>
    rintro b' ⟨⟩
    exact hb
  | cons b' junk => exact hjunk

theorem le_digitsVal_append (ds more : Bytes) : digitsVal ds ≤ digitsVal (ds ++ more) := by
  induction more using List.reverseRecOn with
  | nil => rw [List.append_nil]
  | append_singleton more b ih =>
    rw [← List.append_assoc, digitsVal_append_singleton]
    omega

theorem Truncates.inRange {m n : ℤ} (h : Truncates m n) (hn : InRange 64 n) : InRange 64 m := by
  obtain ⟨neg, ds, more, -, rfl, rfl⟩ := h
  have hle := le_digitsVal_append ds more
  unfold InRange signedVal at *
  cases neg <;> simp at hn ⊢ <;> omega

theorem Sign.exists_of_prefix {sign : Sign} {text : Bytes} (h : text <+: sign.text) :
    ∃ sign' : Sign, text = sign'.text := by
  have hlength : sign.text.length ≤ 1 := by cases sign <;> decide
  rcases text with _ | ⟨b, t⟩
  · exact ⟨.none, rfl⟩
  · exact ⟨sign, h.eq_of_length_le (hlength.trans (Nat.le_add_left 1 t.length))⟩

/-- **What a header line begins with** is a header line with a number that is cut short, or it ends
before the first digit. By where the cut is among the parts of the line. -/
theorem ReadsAs.of_append {line more : Bytes} {n : ℤ} (h : ReadsAs (line ++ more) n) :
    Opens line ∨ ∃ m, ReadsAs line m ∧ Truncates m n := by
  obtain ⟨spaces, sign, ds, junk, hline, hspaces, hne, hds, hjunk, hn, hrange⟩ := h
  rcases List.append_eq_append_iff.mp hline with ⟨spaces', rfl, -⟩ | ⟨text, rfl, htext⟩
  · -- Within the white space.
    exact .inl ⟨line, .none, by simp [Sign.text], fun b hb => hspaces b (List.mem_append_left _ hb)⟩
  rcases List.append_eq_append_iff.mp htext with ⟨text', rfl, htext'⟩ | ⟨sign', hsign, -⟩
  · rcases List.append_eq_append_iff.mp htext' with ⟨junk', rfl, rfl⟩ | ⟨ds', rfl, -⟩
    · -- Behind the digits.
      refine .inr ⟨n, ⟨spaces, sign, ds, junk', rfl, hspaces, hne, hds, fun b hb => ?_, hn, hrange⟩,
        _, ds, [], hne, hn, by rw [List.append_nil]; exact hn⟩
      cases junk' with
      | nil => cases hb
      | cons b' t => exact hjunk b hb
    · -- Among the digits.
      cases text' with
      | nil => exact .inl ⟨spaces, sign, by rw [List.append_nil], hspaces⟩
      | cons b t =>
        have hcut : Truncates (signedVal sign.isMinus (b :: t)) n := ⟨_, b :: t, ds', nofun, rfl, hn⟩
        exact .inr ⟨_, ⟨spaces, sign, b :: t, [], by simp, hspaces, nofun,
          fun b' hb' => hds b' (List.mem_append_left _ hb'), nofun, rfl, hcut.inRange hrange⟩, hcut⟩
  · -- Within the sign.
    obtain ⟨sign'', rfl⟩ := Sign.exists_of_prefix ⟨sign', hsign.symm⟩
    exact .inl ⟨spaces, sign'', rfl, hspaces⟩

end RespParser
end RedisDb
