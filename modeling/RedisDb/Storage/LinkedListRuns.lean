import RedisDb.Storage.LinkedListInv

/-!
# Runs of `LinkedList`

Any number of lists, and any sequence of calls of their methods. The lists behave as double-ended
queues (`LinkedList.refines_deque`): every call answers what the queues answer, and after it the links
of every list spell its queue from both ends (`LinkedList.Represents`).
-/

namespace RedisDb

variable {ι : Type} [DecidableEq ι]

/-! ### Queues -/

namespace Deque

/-- The value at an index, where a negative index counts from the end. -/
def get (xs : List Bytes) (index : ℤ) : Option Bytes :=
  if 0 ≤ index then xs[index.toNat]?
  else if -index ≤ xs.length then xs[(xs.length + index).toNat]?
  else none

end Deque

/-- A call of a method of one of several lists. -/
inductive ListOp (ι : Type) where
  | pushFront (i : ι) (value : Bytes)
  | pushBack (i : ι) (value : Bytes)
  | popFront (i : ι)
  | popBack (i : ι)
  | clear (i : ι)
  /-- The list `i` is move-assigned the list `j`. -/
  | moveAssign (i j : ι)
  /-- The list `i` is now what `clone` makes of the list `j`. -/
  | clone (i j : ι)

/-- What a call does to queues, and what it answers. -/
def ListOp.applyDeque (qs : ι → List Bytes) : ListOp ι → Option Bytes × (ι → List Bytes)
  | .pushFront i value => (none, Function.update qs i (value :: qs i))
  | .pushBack i value => (none, Function.update qs i (qs i ++ [value]))
  | .popFront i => ((qs i).head?, Function.update qs i (qs i).tail)
  | .popBack i => ((qs i).getLast?, Function.update qs i (qs i).dropLast)
  | .clear i => (none, Function.update qs i [])
  | .moveAssign i j =>
    (none, if i = j then qs else Function.update (Function.update qs i (qs j)) j [])
  | .clone i j => (none, Function.update qs i (qs j))

namespace LinkedList

/-! ### Calls -/

/-- `operator=`, for another list: the nodes of the other list go over, and leave it empty. -/
def moveAssign (l other : LinkedList) : LinkedList × LinkedList :=
  ({ l.clear with heap := other.heap, fresh := other.fresh, head := other.head, tail := other.tail
                  length := other.length },
    { other with heap := fun _ => none, head := none, tail := none, length := 0 })

/-- A call of a method, and what it answers. -/
def apply (ls : ι → LinkedList) : ListOp ι → Option Bytes × (ι → LinkedList)
  | .pushFront i value => (none, Function.update ls i ((ls i).pushFront value))
  | .pushBack i value => (none, Function.update ls i ((ls i).pushBack value))
  | .popFront i => ((ls i).popFront.1, Function.update ls i (ls i).popFront.2)
  | .popBack i => ((ls i).popBack.1, Function.update ls i (ls i).popBack.2)
  | .clear i => (none, Function.update ls i (ls i).clear)
  | .moveAssign i j =>
    (none, if i = j then ls
      else Function.update (Function.update ls i ((ls i).moveAssign (ls j)).1) j
        ((ls i).moveAssign (ls j)).2)
  | .clone i j => (none, Function.update ls i (ls j).clone)

/-- The list represents the queue: its links spell the queue from both ends and end there, and `get`
finds every value from the end it walks from. -/
structure Represents (l : LinkedList) (xs : List Bytes) : Prop where
  forward : ∀ n, l.heap.value (l.heap.next^[n] l.head) = xs[n]?
  forward_end : l.heap.next^[xs.length] l.head = none
  backward : ∀ n, l.heap.value (l.heap.prev^[n] l.tail) = xs.reverse[n]?
  backward_end : l.heap.prev^[xs.length] l.tail = none
  length : l.length = xs.length
  head : l.head = none ↔ xs = []
  tail : l.tail = none ↔ xs = []
  get : xs.length < 2 ^ 31 → ∀ index, l.get index = Deque.get xs index

variable {l other : LinkedList} {xs ys : List Bytes}

/-! ### What the links spell -/

theorem addrAt_eq_none_iff {row : List (ListAddr × Bytes)} {i : ℕ} :
    addrAt row i = none ↔ row.length ≤ i := by
  rw [addrAt, Option.map_eq_none_iff, List.getElem?_eq_none_iff]

/-- The walk past the end stays at the null pointer. -/
theorem iterate_next_none (h : ListHeap) (n : ℕ) : h.next^[n] none = none := by
  induction n with
  | zero => rfl
  | succ n ih => rw [Function.iterate_succ_apply', ih]; rfl

theorem Spells.iterate_next_eq {row : List (ListAddr × Bytes)} (h : Spells l row) (n : ℕ) :
    l.heap.next^[n] l.head = addrAt row n := by
  rcases Nat.le_total n row.length with hle | hle
  · exact h.iterate_next n hle
  · -- beyond the end: the walk up to the end, and then on from the null pointer
    obtain ⟨k, rfl⟩ := Nat.exists_eq_add_of_le hle
    calc l.heap.next^[row.length + k] l.head
        = l.heap.next^[k] (l.heap.next^[row.length] l.head) := by
          rw [Nat.add_comm, Function.iterate_add_apply]
      _ = l.heap.next^[k] none := by
          rw [h.iterate_next _ le_rfl, addrAt_of_length_le le_rfl]
      _ = none := iterate_next_none _ _
      _ = addrAt row (row.length + k) := (addrAt_of_length_le hle).symm

theorem Holds.forward (h : l.Holds xs) (n : ℕ) :
    l.heap.value (l.heap.next^[n] l.head) = xs[n]? := by
  obtain ⟨row, hrow, rfl⟩ := h
  rw [hrow.iterate_next_eq, hrow.value_addrAt]

theorem Holds.forward_end (h : l.Holds xs) : l.heap.next^[xs.length] l.head = none := by
  obtain ⟨row, hrow, rfl⟩ := h
  rw [hrow.iterate_next_eq, List.length_map]
  exact addrAt_of_length_le le_rfl

theorem Holds.head_eq_none_iff (h : l.Holds xs) : l.head = none ↔ xs = [] := by
  obtain ⟨row, hrow, rfl⟩ := h
  rw [hrow.head, addrAt_eq_none_iff, Nat.le_zero, List.length_eq_zero_iff, List.map_eq_nil_iff]

theorem iterate_prev_eq_mirror (l : LinkedList) (n : ℕ) :
    l.heap.prev^[n] l.tail = l.mirror.heap.next^[n] l.mirror.head := by
  have hlinks : l.mirror.heap.next = l.heap.prev := funext l.heap.next_mirror
  rw [hlinks]
  rfl

/-- `get` of a list is `get` of its queue. -/
theorem Holds.get_eq (h : l.Holds xs) (hsize : xs.length < 2 ^ 31) (index : ℤ) :
    l.get index = Deque.get xs index := by
  rw [h.get hsize, Deque.get, Slice.position]
  by_cases hneg : index < 0
  · rw [if_pos hneg, if_neg (not_le.mpr hneg)]
    by_cases hout : (xs.length : ℤ) + index < 0
    · rw [if_pos hout, if_neg (by omega)]
    · rw [if_neg hout, if_pos (by omega)]
  · rw [if_neg hneg, if_neg hneg, if_pos (not_lt.mp hneg)]

/-- **A list that holds a queue represents it.** What the backward links spell is what the forward
links of the mirror image spell. -/
theorem Holds.represents (h : l.Holds xs) : l.Represents xs where
  forward := h.forward
  forward_end := h.forward_end
  backward n := by
    rw [iterate_prev_eq_mirror, ← h.mirror.forward n]
    exact (l.heap.value_mirror _).symm
  backward_end := by
    rw [iterate_prev_eq_mirror, ← List.length_reverse]
    exact h.mirror.forward_end
  length := h.length
  head := h.head_eq_none_iff
  tail := by
    rw [← List.reverse_eq_nil_iff]
    exact h.mirror.head_eq_none_iff
  get := h.get_eq

/-! ### Runs -/

theorem Holds.moveAssign (h : other.Holds ys) (l : LinkedList) :
    (l.moveAssign other).1.Holds ys ∧ (l.moveAssign other).2.Holds [] := by
  obtain ⟨row, hrow, rfl⟩ := h
  refine ⟨⟨row, ?_, rfl⟩, [], ⟨List.nodup_nil, by simp, by simp, rfl, rfl, rfl⟩, rfl⟩
  exact ⟨hrow.nodup, hrow.below, hrow.node, hrow.head, hrow.tail, hrow.length⟩

/-- One list changes, and holds what its queue has become. -/
theorem holds_update {ls : ι → LinkedList} {qs : ι → List Bytes} (h : ∀ i, (ls i).Holds (qs i))
    {i : ι} (hl : l.Holds xs) (k : ι) : (Function.update ls i l k).Holds (Function.update qs i xs k) := by
  by_cases hk : k = i
  · subst hk
    rwa [Function.update_self, Function.update_self]
  · rw [Function.update_of_ne hk, Function.update_of_ne hk]
    exact h k

/-- **A call** answers what the queues answer, and the lists hold what the queues have become. -/
theorem apply_spec {ls : ι → LinkedList} {qs : ι → List Bytes} (h : ∀ i, (ls i).Holds (qs i))
    (op : ListOp ι) :
    (apply ls op).1 = (op.applyDeque qs).1 ∧ ∀ i, ((apply ls op).2 i).Holds ((op.applyDeque qs).2 i) := by
  cases op with
  | pushFront i value => exact ⟨rfl, holds_update h ((h i).pushFront value)⟩
  | pushBack i value => exact ⟨rfl, holds_update h ((h i).pushBack value)⟩
  | popFront i => exact ⟨(h i).popFront.1, holds_update h (h i).popFront.2⟩
  | popBack i => exact ⟨(h i).popBack.1, holds_update h (h i).popBack.2⟩
  | clear i => exact ⟨rfl, holds_update h (holds_clear _)⟩
  | moveAssign i j =>
    refine ⟨rfl, ?_⟩
    obtain ⟨hto, hfrom⟩ := (h j).moveAssign (ls i)
    simp only [apply, ListOp.applyDeque]
    split
    · exact h
    · exact holds_update (holds_update h hto) hfrom
  | clone i j => exact ⟨rfl, holds_update h (h j).clone⟩

/-- Calls one after another, and what each answers. -/
def runOps : List (ListOp ι) → (ι → LinkedList) → List (Option Bytes) × (ι → LinkedList)
  | [], ls => ([], ls)
  | op :: ops, ls =>
    ((apply ls op).1 :: (runOps ops (apply ls op).2).1, (runOps ops (apply ls op).2).2)

/-- What the same calls do to queues. -/
def runDeques : List (ListOp ι) → (ι → List Bytes) → List (Option Bytes) × (ι → List Bytes)
  | [], qs => ([], qs)
  | op :: ops, qs =>
    ((op.applyDeque qs).1 :: (runDeques ops (op.applyDeque qs).2).1,
      (runDeques ops (op.applyDeque qs).2).2)

/-- **A run of calls**: by induction on the calls. -/
theorem runOps_spec (ops : List (ListOp ι)) : ∀ {ls : ι → LinkedList} {qs : ι → List Bytes},
    (∀ i, (ls i).Holds (qs i)) → (runOps ops ls).1 = (runDeques ops qs).1 ∧
      ∀ i, ((runOps ops ls).2 i).Holds ((runDeques ops qs).2 i) := by
  induction ops with
  | nil => exact fun h => ⟨rfl, h⟩
  | cons op ops ih =>
    intro ls qs h
    obtain ⟨hanswer, hstep⟩ := apply_spec h op
    obtain ⟨hanswers, hrun⟩ := ih hstep
    refine ⟨?_, hrun⟩
    rw [runOps, runDeques, hanswer, hanswers]

/-- **The lists are double-ended queues**, in every run that starts from empty lists. The invariant is that every list
holds the elements of its deque, whatever has been moved between lists. -/
theorem refines_deque (ops : List (ListOp ι)) :
    (runOps ops fun _ => new).1 = (runDeques ops fun _ => []).1 ∧
      ∀ i, ((runOps ops fun _ => new).2 i).Represents ((runDeques ops fun _ => []).2 i) := by
  have hnew : ∀ i : ι, ((fun _ => new : ι → LinkedList) i).Holds ((fun _ => []) i) :=
    fun _ => holds_new
  obtain ⟨hanswers, hholds⟩ := runOps_spec ops hnew
  exact ⟨hanswers, fun i => (hholds i).represents⟩

end LinkedList

end RedisDb
