import Mathlib.Tactic

/-!
# Circular probing

The search of an open-addressing table: walk the `n` slots circularly from a start until a slot
stops the search, and give up on coming round to the start.

`probe_eq_some_iff` and `probe_eq_none_iff` say what the walk finds in terms of the distance from
the start, and `exists_dist` that the walk reaches every slot.
-/

namespace Probe

/-- Walk from `idx` until `stop`, giving up on coming round to `start`. -/
def walk (n : ℕ) (stop : ℕ → Bool) (start : ℕ) : ℕ → ℕ → Option ℕ
  | 0, _ => none
  | fuel + 1, idx =>
    if stop idx then some idx
    else if (idx + 1) % n = start then none
    else walk n stop start fuel ((idx + 1) % n)

/-- The first slot, circularly from `start`, that stops the search. -/
def probe (n : ℕ) (stop : ℕ → Bool) (start : ℕ) : Option ℕ := walk n stop start n start

variable {n : ℕ} {stop : ℕ → Bool} {start : ℕ}

theorem succ_mod_eq_start_iff (hstart : start < n) {k : ℕ} (hk : k < n) :
    ((start + k) % n + 1) % n = start ↔ k + 1 = n := by
  have hn : 0 < n := by omega
  rw [Nat.mod_add_mod]
  constructor
  · intro h
    by_contra hne
    rcases Nat.lt_or_ge (start + k + 1) n with h1 | h1
    · rw [Nat.mod_eq_of_lt h1] at h; omega
    · rw [Nat.mod_eq_sub_mod h1, Nat.mod_eq_of_lt (by omega)] at h; omega
  · intro h
    have : start + k + 1 = start + n := by omega
    rw [this, Nat.add_mod_right, Nat.mod_eq_of_lt hstart]

/-- A walk that has come `k` slots far finds the first stop at distance `k` or more. By induction on
the slots still ahead. -/
theorem walk_eq_some_iff (hstart : start < n) {fuel : ℕ} : ∀ {k i : ℕ}, k + fuel = n →
    (walk n stop start fuel ((start + k) % n) = some i ↔
      ∃ d, k ≤ d ∧ d < n ∧ i = (start + d) % n ∧ stop i = true ∧
        ∀ j, k ≤ j → j < d → stop ((start + j) % n) = false) := by
  induction fuel with
  | zero =>
    intro k i hk
    constructor
    · intro h; cases h
    · rintro ⟨d, h1, h2, -⟩; omega
  | succ fuel ih =>
    intro k i hk
    have hkn : k < n := by omega
    simp only [walk]
    by_cases hstop : stop ((start + k) % n) = true
    · rw [if_pos hstop]
      constructor
      · intro h
        obtain rfl := Option.some.inj h
        exact ⟨k, le_rfl, hkn, rfl, hstop, fun j h1 h2 => by omega⟩
      · rintro ⟨d, h1, h2, rfl, h3, h4⟩
        rcases Nat.eq_or_lt_of_le h1 with rfl | hlt
        · rfl
        · rw [h4 k le_rfl hlt] at hstop; cases hstop
    · rw [if_neg hstop]
      -- the walk ends when it is back at its start
      by_cases hlast : k + 1 = n
      · rw [if_pos ((succ_mod_eq_start_iff hstart hkn).mpr hlast)]
        constructor
        · intro h; cases h
        · rintro ⟨d, h1, h2, rfl, h3, -⟩
          obtain rfl : k = d := by omega
          exact absurd h3 hstop
      · rw [if_neg fun h => hlast ((succ_mod_eq_start_iff hstart hkn).mp h),
          Nat.mod_add_mod, Nat.add_assoc, ih (by omega)]
        constructor
        · rintro ⟨d, h1, h2, h3, h4, h5⟩
          refine ⟨d, by omega, h2, h3, h4, fun j hj hjd => ?_⟩
          rcases Nat.eq_or_lt_of_le hj with rfl | hlt
          · exact Bool.eq_false_iff.mpr hstop
          · exact h5 j hlt hjd
        · rintro ⟨d, h1, h2, h3, h4, h5⟩
          rcases Nat.eq_or_lt_of_le h1 with rfl | hlt
          · exact absurd (h3 ▸ h4) hstop
          · exact ⟨d, hlt, h2, h3, h4, fun j hj => h5 j (by omega)⟩

theorem probe_eq_some_iff (hstart : start < n) {i : ℕ} :
    probe n stop start = some i ↔
      ∃ d, d < n ∧ i = (start + d) % n ∧ stop i = true ∧
        ∀ j < d, stop ((start + j) % n) = false := by
  have h := @walk_eq_some_iff n stop start hstart n 0 i (by omega)
  rw [Nat.add_zero, Nat.mod_eq_of_lt hstart] at h
  unfold probe
  rw [h]
  constructor
  · rintro ⟨d, -, h2, h3, h4, h5⟩
    exact ⟨d, h2, h3, h4, fun j hj => h5 j (Nat.zero_le j) hj⟩
  · rintro ⟨d, h2, h3, h4, h5⟩
    exact ⟨d, Nat.zero_le d, h2, h3, h4, fun j _ hj => h5 j hj⟩

/-- The walk reaches every slot. -/
theorem exists_dist (hstart : start < n) {i : ℕ} (hi : i < n) :
    ∃ d, d < n ∧ i = (start + d) % n := by
  rcases Nat.lt_or_ge i start with h | h
  · refine ⟨i + n - start, by omega, ?_⟩
    have : start + (i + n - start) = i + n := by omega
    rw [this, Nat.add_mod_right, Nat.mod_eq_of_lt hi]
  · refine ⟨i - start, by omega, ?_⟩
    have : start + (i - start) = i := by omega
    rw [this, Nat.mod_eq_of_lt hi]

/-- The walk fails only when no slot stops it. -/
theorem probe_ne_none (hstart : start < n) {i : ℕ} (hi : i < n) (hstop : stop i = true) :
    probe n stop start ≠ none := by
  obtain ⟨d, hd, rfl⟩ := exists_dist hstart hi
  have hex : ∃ k, k < n ∧ stop ((start + k) % n) = true := ⟨d, hd, hstop⟩
  classical
  have hfirst : probe n stop start = some ((start + Nat.find hex) % n) :=
    (probe_eq_some_iff hstart).mpr ⟨Nat.find hex, (Nat.find_spec hex).1, rfl,
      (Nat.find_spec hex).2, fun j hj => by
        have hjd := Nat.find_spec hex
        have hmin := Nat.find_min hex hj
        rw [not_and] at hmin
        exact Bool.eq_false_iff.mpr (hmin (by omega))⟩
  rw [hfirst]
  simp

end Probe
