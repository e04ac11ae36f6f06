import Mathlib.Tactic

/-!
# Slices by index, with negative indexes

The elements of a list at the positions from one index to another, where a negative index counts
from the end. `slice_eq_drop_take` is what an implementation computes after clamping the indexes.
-/

namespace Slice

variable {α β : Type*}

/-- The position an index stands for in a list of length `n`. -/
def position (n : ℕ) (i : ℤ) : ℤ := if i < 0 then n + i else i

/-- The elements at the positions from `start` to `stop`. -/
def slice (xs : List α) (start stop : ℤ) : List α :=
  (xs.zipIdx.filter fun x =>
    position xs.length start ≤ (x.2 : ℤ) ∧ (x.2 : ℤ) ≤ position xs.length stop).map Prod.fst

/-- Elements whose positions, counted from `k` on, lie in `[a, b)`. By induction on the list. -/
theorem filter_zipIdx (xs : List α) (a b : ℕ) : ∀ k : ℕ,
    ((xs.zipIdx k).filter fun x => decide (a ≤ x.2 ∧ x.2 < b)).map Prod.fst
      = (xs.take (b - k)).drop (a - k) := by
  induction xs with
  | nil => intro k; simp
  | cons x xs ih =>
    intro k
    rw [List.zipIdx_cons]
    -- the first element is in the slice, or before it, or there is nothing left of it
    by_cases hk : a ≤ k ∧ k < b
    · obtain ⟨m, hm⟩ : ∃ m, b - k = m + 1 := ⟨b - k - 1, by omega⟩
      rw [List.filter_cons_of_pos (by simpa using hk), List.map_cons, ih (k + 1), hm,
        List.take_succ_cons, show a - k = 0 by omega, show a - (k + 1) = 0 by omega,
        show b - (k + 1) = m by omega]
      rfl
    · rw [List.filter_cons_of_neg (by simpa using hk), ih (k + 1)]
      rcases Nat.lt_or_ge k b with hb | hb
      · obtain ⟨m, hm⟩ : ∃ m, b - k = m + 1 := ⟨b - k - 1, by omega⟩
        obtain ⟨l, hl⟩ : ∃ l, a - k = l + 1 := ⟨a - k - 1, by omega⟩
        rw [hm, hl, List.take_succ_cons, List.drop_succ_cons, show b - (k + 1) = m by omega,
          show a - (k + 1) = l by omega]
      · rw [show b - k = 0 by omega, show b - (k + 1) = 0 by omega]
        simp

/-- The slice between two positions. -/
theorem slice_eq (xs : List α) {start stop : ℤ} {a b : ℕ}
    (ha : ∀ i : ℕ, i < xs.length → (position xs.length start ≤ (i : ℤ) ↔ a ≤ i))
    (hb : ∀ i : ℕ, i < xs.length → ((i : ℤ) ≤ position xs.length stop ↔ i < b)) :
    slice xs start stop = (xs.take b).drop a := by
  have h := filter_zipIdx xs a b 0
  rw [Nat.sub_zero, Nat.sub_zero] at h
  rw [← h]
  refine congrArg (List.map Prod.fst) (List.filter_congr fun x hx => ?_)
  have hlt : x.2 < xs.length := by
    have := List.snd_lt_of_mem_zipIdx hx
    omega
  rw [decide_eq_decide]
  exact and_congr (ha x.2 hlt) (hb x.2 hlt)

/-- The slice from the first element to the last. -/
theorem slice_all (xs : List α) : slice xs 0 (-1) = xs := by
  rw [slice_eq (a := 0) (b := xs.length) xs (fun i _ => by simp [position]) fun i _ => by
    rw [position, if_pos (by decide)]
    omega, List.take_length, List.drop_zero]

/-- The slice of one position. -/
theorem slice_self {xs : List α} {k : ℕ} {x : α} (hk : xs[k]? = some x) : slice xs k k = [x] := by
  obtain ⟨hlt, rfl⟩ := List.getElem?_eq_some_iff.mp hk
  have hposition : position xs.length k = k := if_neg (by omega)
  rw [slice_eq (a := k) (b := k + 1) xs (fun i _ => by rw [hposition]; omega)
    (fun i _ => by rw [hposition]; omega), List.take_add_one, List.drop_left' (by simp; omega)]
  simp [hlt]

theorem slice_map (f : α → β) (xs : List α) (start stop : ℤ) :
    slice (xs.map f) start stop = (slice xs start stop).map f := by
  simp only [slice, List.length_map, List.zipIdx_map, List.filter_map, List.map_map]
  rfl

end Slice
