import Mathlib.Tactic

/-!
# Circular buffers

A stream written into a list of cells of fixed size, element `p` into the cell `p` modulo the size.
The cells then hold the last elements of the stream (`Ring.Follows`), and reading backwards from the
cell that is written next gives them in order (`Ring.Follows.readBefore`).
-/

namespace Ring

variable {α : Type*} {cells stream : List α}

/-- Every one of the last elements of the stream, as many as there are cells, is in its cell. -/
def Follows (cells stream : List α) : Prop :=
  ∀ p < stream.length, stream.length ≤ p + cells.length → cells[p % cells.length]? = stream[p]?

/-- The `n` elements read circularly that end just before the cell `idx`. -/
def readBefore [Inhabited α] (cells : List α) (idx n : ℕ) : List α :=
  (List.range n).map fun j => cells.getD ((idx + cells.length - n + j) % cells.length) default

theorem follows_nil (cells : List α) : Follows cells [] := fun _ hp => absurd hp (Nat.not_lt_zero _)

/-- Positions less than a round apart are different cells. -/
theorem mod_ne_mod {n p q : ℕ} (hlt : p < q) (hround : q < p + n) : p % n ≠ q % n := by
  intro heq
  have hdvd : n ∣ q - p := (Nat.modEq_iff_dvd' hlt.le).mp heq
  have hle := Nat.le_of_dvd (Nat.sub_pos_of_lt hlt) hdvd
  omega

/-- **One element is written.** -/
theorem Follows.write (h : Follows cells stream) (hcells : 0 < cells.length) (a : α) :
    Follows (cells.set (stream.length % cells.length) a) (stream ++ [a]) := by
  intro p hp hround
  rw [List.length_set, List.length_append, List.length_singleton] at *
  have hidx : stream.length % cells.length < cells.length := Nat.mod_lt _ hcells
  rcases Nat.lt_succ_iff_lt_or_eq.mp hp with hlt | rfl
  · -- an element that was there: its cell is not the one that is written
    have hne : p % cells.length ≠ stream.length % cells.length := mod_ne_mod hlt (by omega)
    rw [List.getElem?_set_ne hne.symm, List.getElem?_append_left hlt]
    exact h p hlt (by omega)
  · rw [List.getElem?_set_self hidx, List.getElem?_append_right le_rfl, Nat.sub_self]
    rfl

/-- The cell that is `j` from the first of `n`, reckoned from the next cell to write and from the
length of the stream. -/
theorem before_mod {len size n j : ℕ} (hsize : n ≤ size) (hlen : n ≤ len) :
    (len % size + size - n + j) % size = (len - n + j) % size := by
  have hdiv : len % size + size * (len / size) = len := Nat.mod_add_div len size
  calc (len % size + size - n + j) % size
      = (len % size + size - n + j + size * (len / size)) % size :=
        (Nat.add_mul_mod_self_left _ _ _).symm
    _ = (len - n + j + size) % size := by
        congr 1
        omega
    _ = (len - n + j) % size := Nat.add_mod_right _ _

/-- **Reading backwards** gives the end of the stream. -/
theorem Follows.readBefore [Inhabited α] {n : ℕ} (h : Follows cells stream) (hcells : n ≤ cells.length)
    (hstream : n ≤ stream.length) :
    Ring.readBefore cells (stream.length % cells.length) n = stream.drop (stream.length - n) := by
  have hlength : (Ring.readBefore cells (stream.length % cells.length) n).length
      = (stream.drop (stream.length - n)).length := by
    rw [Ring.readBefore, List.length_map, List.length_range, List.length_drop]
    omega
  refine List.ext_getElem hlength fun j hj hj' => ?_
  rw [List.length_drop] at hj'
  have hpos : stream.length - n + j < stream.length := by omega
  have hcell := h (stream.length - n + j) hpos (by omega)
  simp only [Ring.readBefore, List.getElem_map, List.getElem_range, List.getElem_drop]
  rw [before_mod hcells hstream, List.getD_eq_getElem?_getD, hcell, List.getElem?_eq_getElem hpos]
  rfl

end Ring
