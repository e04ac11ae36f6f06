import Mathlib.Tactic

/-!
# Sub-chains of a row of positions

A row of positions `0, 1, …, n` of which a predicate `tall` picks a sub-chain, as the nodes of one
level of a skip list are picked from all its nodes. `IsNext` is the successor in the sub-chain,
`gap` the number of positions to it, `IsLast` the last position of the sub-chain up to a bound.

The first part says how successors and gaps change when a position is put in after position `r`
(`IsNext.insert_new`, `IsNext.insert_last`, `IsNext.insert_skip`, `IsNext.insert_other`). Since
successors exist and are unique, the same facts read backwards say what taking the position out
does. The second part is the rule for a search that follows successors up to a bound and goes down
from a sparser sub-chain to a denser one (`chase_spec`).
-/

namespace Chain

/-! ### Successors -/

/-- `o` is the first position after `p`, up to `n`, where `tall` holds. -/
def IsNext (tall : ℕ → Prop) (n p : ℕ) : Option ℕ → Prop
  | some q => p < q ∧ q ≤ n ∧ tall q ∧ ∀ m, p < m → m < q → ¬ tall m
  | none => ∀ m, p < m → m ≤ n → ¬ tall m

/-- The number of positions from `p` to its successor, or to the end of the row. -/
def gap (n p : ℕ) (o : Option ℕ) : ℕ := o.getD n - p

/-- `q` is the last position up to `r` where `tall` holds. -/
def IsLast (tall : ℕ → Prop) (r q : ℕ) : Prop :=
  q ≤ r ∧ tall q ∧ ∀ m, q < m → m ≤ r → ¬ tall m

variable {tall : ℕ → Prop} {n p r : ℕ}

theorem exists_isNext (tall : ℕ → Prop) (n p : ℕ) : ∃ o, IsNext tall n p o := by
  classical
  by_cases h : ∃ q, p < q ∧ q ≤ n ∧ tall q
  · refine ⟨some (Nat.find h), ?_⟩
    obtain ⟨h1, h2, h3⟩ := Nat.find_spec h
    refine ⟨h1, h2, h3, fun m hm hlt ht => ?_⟩
    exact Nat.find_min h hlt ⟨hm, by omega, ht⟩
  · exact ⟨none, fun m hm hle ht => h ⟨m, hm, hle, ht⟩⟩

theorem IsNext.unique {o o' : Option ℕ} (h : IsNext tall n p o) (h' : IsNext tall n p o') :
    o = o' := by
  cases o with
  | none =>
    cases o' with
    | none => rfl
    | some q => exact absurd h'.2.2.1 (h q h'.1 h'.2.1)
  | some q =>
    cases o' with
    | none => exact absurd h.2.2.1 (h' q h.1 h.2.1)
    | some q' =>
      obtain ⟨h1, h2, h3, h4⟩ := h
      obtain ⟨h1', h2', h3', h4'⟩ := h'
      rcases Nat.lt_trichotomy q q' with hlt | rfl | hgt
      · exact absurd h3 (h4' q h1 hlt)
      · rfl
      · exact absurd h3' (h4 q' h1' hgt)

/-- The successor of the last position up to `r` lies beyond `r`. -/
theorem IsNext.lt_of_isLast {q q' : ℕ} (h : IsNext tall n q (some q')) (hq : IsLast tall r q) :
    r < q' := by
  by_contra hle
  exact hq.2.2 q' h.1 (by omega) h.2.2.1

theorem IsLast.unique {q q' : ℕ} (h : IsLast tall r q) (h' : IsLast tall r q') : q = q' := by
  rcases Nat.lt_trichotomy q q' with hlt | heq | hgt
  · exact absurd h'.2.1 (h.2.2 q' hlt h'.1)
  · exact heq
  · exact absurd h.2.1 (h'.2.2 q hgt h.1)

/-! ### A new position after `r` -/

/-- Where position `p` moves when a position is put in after `r`. -/
def shift (r p : ℕ) : ℕ := if p ≤ r then p else p + 1

/-- `tall` after a position is put in after `r`; it holds of the new one when `b` does. -/
def insertAt (tall : ℕ → Prop) (r : ℕ) (b : Prop) (m : ℕ) : Prop :=
  if m ≤ r then tall m else if m = r + 1 then b else tall (m - 1)

variable {b : Prop}

theorem insertAt_shift (p : ℕ) : insertAt tall r b (shift r p) ↔ tall p := by
  unfold insertAt shift
  by_cases h : p ≤ r
  · rw [if_pos h, if_pos h]
  · rw [if_neg h, if_neg (show ¬ p + 1 ≤ r by omega), if_neg (show p + 1 ≠ r + 1 by omega),
      Nat.add_sub_cancel]

@[simp] theorem insertAt_new : insertAt tall r b (r + 1) ↔ b := by
  unfold insertAt
  rw [if_neg (show ¬ r + 1 ≤ r by omega), if_pos rfl]

/-- Every position is the new one or one that moved. -/
theorem eq_new_or_shift (r m : ℕ) : m = r + 1 ∨ ∃ p, m = shift r p := by
  rcases Nat.lt_trichotomy m (r + 1) with h | h | h
  · exact Or.inr ⟨m, by unfold shift; rw [if_pos (by omega)]⟩
  · exact Or.inl h
  · exact Or.inr ⟨m - 1, by unfold shift; rw [if_neg (by omega)]; omega⟩

theorem shift_lt_shift {p q : ℕ} : shift r p < shift r q ↔ p < q := by
  unfold shift; split <;> split <;> omega

theorem shift_inj {q : ℕ} : shift r p = shift r q ↔ p = q := by
  unfold shift; split <;> split <;> omega

theorem shift_le (h : p ≤ n) : shift r p ≤ n + 1 := by
  unfold shift; split <;> omega

theorem shift_ne_new : shift r p ≠ r + 1 := by
  unfold shift; split <;> omega

theorem shift_eq_zero : shift r p = 0 ↔ p = 0 := by
  unfold shift; split <;> omega

theorem shift_of_le (h : p ≤ r) : shift r p = p := if_pos h

theorem shift_of_lt (h : r < p) : shift r p = p + 1 := if_neg (by omega)

/-- Successors away from the new position move along. -/
theorem IsNext.insert_of {o : Option ℕ} {s : ℕ} (h : IsNext tall n p o) (hr : r ≤ n)
    (hs : ∀ m, s < m → insertAt tall r b m → ∃ p', m = shift r p' ∧ p < p')
    (hsp : ∀ q, p < q → tall q → s < shift r q) :
    IsNext (insertAt tall r b) (n + 1) s (o.map (shift r)) := by
  cases o with
  | none =>
    intro m hm hle ht
    obtain ⟨p', rfl, hp⟩ := hs m hm ht
    refine h p' hp ?_ (insertAt_shift p' |>.mp ht)
    unfold shift at hle
    split at hle <;> omega
  | some q =>
    obtain ⟨h1, h2, h3, h4⟩ := h
    refine ⟨hsp q h1 h3, ?_, (insertAt_shift q).mpr h3, fun m hm hlt ht => ?_⟩
    · unfold shift; split <;> omega
    · obtain ⟨p', rfl, hp⟩ := hs m hm ht
      exact h4 p' hp (shift_lt_shift.mp hlt) ((insertAt_shift p').mp ht)

/-- The new position takes over the successor of the last tall position before it. -/
theorem IsNext.insert_new {o : Option ℕ} (h : IsNext tall n p o) (hr : r ≤ n)
    (hp : IsLast tall r p) : IsNext (insertAt tall r b) (n + 1) (r + 1) (o.map (shift r)) := by
  have hbeyond : ∀ q, p < q → tall q → r < q := fun q hq ht => by
    by_contra hle
    exact hp.2.2 q hq (by omega) ht
  refine h.insert_of hr (fun m hm ht => ?_) fun q hq ht => ?_
  · refine ⟨m - 1, ?_, by have := hp.1; omega⟩
    rw [shift_of_lt (by omega)]; omega
  · rw [shift_of_lt (hbeyond q hq ht)]
    have := hbeyond q hq ht
    omega

/-- The last tall position before the new one now leads to it, when it is tall. -/
theorem IsNext.insert_last (hr : r ≤ n) (hp : IsLast tall r p) (hb : b) :
    IsNext (insertAt tall r b) (n + 1) p (some (r + 1)) := by
  refine ⟨by have := hp.1; omega, by omega, insertAt_new.mpr hb, fun m hm hlt ht => ?_⟩
  unfold insertAt at ht
  rw [if_pos (by omega)] at ht
  exact hp.2.2 m hm (by omega) ht

/-- The last tall position before the new one leads past it, when it is not tall. -/
theorem IsNext.insert_skip {o : Option ℕ} (h : IsNext tall n p o) (hr : r ≤ n)
    (hp : IsLast tall r p) (hb : ¬ b) :
    IsNext (insertAt tall r b) (n + 1) p (o.map (shift r)) := by
  refine h.insert_of hr (fun m hm ht => ?_) fun q hq _ => ?_
  · rcases eq_new_or_shift r m with rfl | ⟨p', rfl⟩
    · exact absurd (insertAt_new.mp ht) hb
    · refine ⟨p', rfl, ?_⟩
      rw [← shift_of_le hp.1] at hm
      exact shift_lt_shift.mp hm
  · rw [← shift_of_le hp.1]; exact shift_lt_shift.mpr hq

/-- The other tall positions keep their successors. -/
theorem IsNext.insert_other {o : Option ℕ} {q : ℕ} (h : IsNext tall n p o) (hr : r ≤ n)
    (ht : tall p) (hq : IsLast tall r q) (hne : p ≠ q) :
    IsNext (insertAt tall r b) (n + 1) (shift r p) (o.map (shift r)) ∧
      gap (n + 1) (shift r p) (o.map (shift r)) = gap n p o := by
  -- before `q` the successor is at most `q`; beyond `r` everything moves by one
  have hcases : p < q ∨ r < p := by
    rcases Nat.lt_trichotomy p q with hlt | heq | hgt
    · exact Or.inl hlt
    · exact absurd heq hne
    · refine Or.inr ?_
      by_contra hle
      exact hq.2.2 p hgt (by omega) ht
  have hqr := hq.1
  rcases hcases with hlt | hgt
  · cases o with
    | none => exact absurd hq.2.1 (h q hlt (by omega))
    | some s =>
      have hs : s ≤ q := by
        by_contra hle
        exact h.2.2.2 q hlt (by omega) hq.2.1
      rw [Option.map_some, shift_of_le (show p ≤ r by omega), shift_of_le (show s ≤ r by omega)]
      refine ⟨⟨h.1, by omega, ?_, fun m hm hms => ?_⟩, rfl⟩
      · rw [insertAt, if_pos (by omega)]; exact h.2.2.1
      · rw [insertAt, if_pos (by omega)]; exact h.2.2.2 m hm hms
  · refine ⟨h.insert_of hr (fun m hm _ => ?_) fun s hs _ => shift_lt_shift.mpr hs, ?_⟩
    · rw [shift_of_lt hgt] at hm
      exact ⟨m - 1, by rw [shift_of_lt (by omega)]; omega, by omega⟩
    · cases o with
      | none => simp only [gap, Option.map_none, Option.getD_none, shift_of_lt hgt]; omega
      | some s =>
        have := h.1
        simp only [gap, Option.map_some, Option.getD_some, shift_of_lt hgt,
          shift_of_lt (show r < s by omega)]
        omega

/-- The gap the last tall position before the new one had, shared between the two. -/
theorem gap_insert_new {o : Option ℕ} (h : IsNext tall n p o) (hr : r ≤ n) (hp : IsLast tall r p) :
    gap (n + 1) (r + 1) (o.map (shift r)) + (r - p) = gap n p o := by
  have hpr := hp.1
  cases o with
  | none => simp only [gap, Option.map_none, Option.getD_none]; omega
  | some q =>
    have hlt := h.lt_of_isLast hp
    simp only [gap, Option.map_some, Option.getD_some, shift_of_lt hlt]
    omega

/-- Its gap grows by one when it leads past the new position. -/
theorem gap_insert_skip {o : Option ℕ} (h : IsNext tall n p o) (hr : r ≤ n)
    (hp : IsLast tall r p) : gap (n + 1) p (o.map (shift r)) = gap n p o + 1 := by
  have hpr := hp.1
  cases o with
  | none => simp only [gap, Option.map_none, Option.getD_none]; omega
  | some q =>
    have hlt := h.lt_of_isLast hp
    simp only [gap, Option.map_some, Option.getD_some, shift_of_lt hlt]
    omega

/-! ### Following successors -/

section Chase

variable {σ : Type*}

/-- Follow `next` as long as it leads somewhere, `fuel` times at most. -/
def chase (next : σ → Option σ) : ℕ → σ → σ
  | 0, s => s
  | fuel + 1, s =>
    match next s with
    | some s' => chase next fuel s'
    | none => s

/-- A search that finds nothing to follow stays where it is. -/
theorem chase_of_none {next : σ → Option σ} {s : σ} (h : next s = none) (fuel : ℕ) :
    chase next fuel s = s := by
  cases fuel with
  | zero => rfl
  | succ fuel => rw [chase, h]

/-- When `at_ p` is the state of a search at position `p`, and one step of it leads to the successor
if that is not beyond `r`, the search ends at the last tall position up to `r`. By induction on the
positions left. -/
theorem chase_spec {next : σ → Option σ} (at_ : ℕ → σ) (hr : r ≤ n)
    (hnext : ∀ p o, p ≤ r → tall p → IsNext tall n p o →
      next (at_ p) = (o.filter fun q => q ≤ r).map at_) :
    ∀ {fuel p : ℕ}, p ≤ r → tall p → r - p ≤ fuel →
      ∃ q, p ≤ q ∧ IsLast tall r q ∧ chase next fuel (at_ p) = at_ q := by
  intro fuel
  induction fuel with
  | zero =>
    intro p hpr ht hfuel
    exact ⟨p, le_rfl, ⟨hpr, ht, fun m h1 h2 => by omega⟩, rfl⟩
  | succ fuel ih =>
    intro p hpr ht hfuel
    obtain ⟨o, ho⟩ := exists_isNext tall n p
    have hstep := hnext p o hpr ht ho
    -- a successor up to `r` is followed; otherwise `p` is the last one
    have hstop : (∀ q, o = some q → r < q) → IsLast tall r p := fun hfar => by
      refine ⟨hpr, ht, fun m h1 h2 hm => ?_⟩
      cases o with
      | none => exact ho m h1 (by omega) hm
      | some q => exact ho.2.2.2 m h1 (by have := hfar q rfl; omega) hm
    unfold chase
    rw [hstep]
    cases o with
    | none => exact ⟨p, le_rfl, hstop (fun q hq => nomatch hq), rfl⟩
    | some q =>
      by_cases hq : q ≤ r
      · have hpq := ho.1
        obtain ⟨q', h1, h2, h3⟩ := ih hq ho.2.2.1 (by omega)
        exact ⟨q', by omega, h2, by simpa [Option.filter, hq] using h3⟩
      · refine ⟨p, le_rfl, hstop fun q' hq' => ?_, by simp [Option.filter, hq]⟩
        obtain rfl := Option.some.inj hq'
        omega

end Chase

end Chain
