import RedisDb.Lib.Slice
import RedisDb.Storage.LinkedList

/-!
# `LinkedList` is a double-ended queue

`Spells l row` says that the forward and the backward links of `l` spell the row of nodes, each an address with its
value: the node at a position points to the addresses at the positions beside it, `head` and `tail` are the two ends,
and the addresses are distinct and were all allocated. `Holds l xs` forgets the addresses.

Every operation at the front is the operation at the back of the list seen in a mirror (`mirror`), which exchanges the
two kinds of links, so that each fact is proved at one end only. The mirror image of a list spells the reversed row.

At the back the row gets one node more or less, and two nodes are written: the new or old last one, and its neighbour.
The proofs of `Spells.pushBack` and `Spells.popBack` go through the positions of the row. Distinct addresses make sure
that the other nodes are not written to, and that the address of a new node is beyond all others makes it distinct
from them.

Reading follows links: so many steps from the head lead to the position of this number. `get` starts from the end that
is nearer, which makes no difference.
-/

namespace RedisDb

/-! ### The mirror -/

/-- A node with its links exchanged. -/
def ListNode.mirror (n : ListNode) : ListNode := { value := n.value, prev := n.next, next := n.prev }

/-- A heap with all links exchanged. -/
def ListHeap.mirror (h : ListHeap) : ListHeap := fun a => (h a).map ListNode.mirror

namespace ListHeap

variable (h : ListHeap)

/-- Twice in the mirror everything is as it was. -/
@[simp] theorem mirror_mirror : h.mirror.mirror = h := by
  funext a
  simp only [mirror, Option.map_map]
  exact Option.map_id'

/-- The next node is the one before. -/
@[simp] theorem next_mirror (a : Option ListAddr) : h.mirror.next a = h.prev a := by
  cases a with
  | none => rfl
  | some a => simp only [next, prev, mirror, Option.bind_some]; cases h a <;> rfl

/-- The one before is the next. -/
@[simp] theorem prev_mirror (a : Option ListAddr) : h.mirror.prev a = h.next a := by
  rw [← next_mirror, mirror_mirror]

/-- Values do not change in the mirror. -/
@[simp] theorem value_mirror (a : Option ListAddr) : h.mirror.value a = h.value a := by
  cases a with
  | none => rfl
  | some a => simp only [value, mirror, Option.bind_some]; cases h a <;> rfl

/-- A write is seen in the mirror. -/
theorem mirror_update (a : ListAddr) (n : Option ListNode) :
    mirror (Function.update h a n) = Function.update h.mirror a (n.map ListNode.mirror) := by
  funext b
  simp only [mirror, Function.update_apply]
  split <;> rfl

/-- A forward link that is written is a backward link. -/
theorem mirror_setNext (a p : Option ListAddr) : (h.setNext a p).mirror = h.mirror.setPrev a p := by
  cases a with
  | none => rfl
  | some a =>
    simp only [setNext, setPrev, mirror_update]
    congr 1
    simp only [mirror]
    cases h a <;> rfl

/-- A node that is freed is freed. -/
theorem mirror_free (a : Option ListAddr) : (h.free a).mirror = h.mirror.free a := by
  cases a with
  | none => rfl
  | some a => exact mirror_update h a none

end ListHeap

namespace LinkedList

variable {l : LinkedList} {row : List (ListAddr × Bytes)}

/-- The list read from the other end. -/
def mirror (l : LinkedList) : LinkedList :=
  { heap := l.heap.mirror, fresh := l.fresh, head := l.tail, tail := l.head, length := l.length }

/-- So it is with the list. -/
@[simp] theorem mirror_mirror (l : LinkedList) : l.mirror.mirror = l := by simp [mirror]

/-- Pushing at the front is pushing at the back of the mirror image. -/
theorem pushFront_eq_mirror (l : LinkedList) (value : Bytes) :
    l.pushFront value = (l.mirror.pushBack value).mirror := by
  by_cases h : l.length = 0
  · simp [pushFront, pushBack, mirror, h, ListHeap.mirror_update, ListNode.mirror]
  · simp [pushFront, pushBack, mirror, h, ListHeap.mirror_setNext, ListHeap.mirror_update,
      ListNode.mirror]

/-- Popping at the front is popping at the back of the mirror image. -/
theorem popFront_eq_mirror (l : LinkedList) :
    l.popFront = (l.mirror.popBack.1, l.mirror.popBack.2.mirror) := by
  by_cases h : l.length = 0
  · rw [popFront, popBack, if_pos h, if_pos (show l.mirror.length = 0 from h), mirror_mirror]
  · simp [popFront, popBack, mirror, h, ListHeap.mirror_setNext, ListHeap.mirror_free]

/-! ### The row of nodes -/

/-- The address at a position of the row, if the position exists. -/
def addrAt (row : List (ListAddr × Bytes)) (i : ℕ) : Option ListAddr := (row[i]?).map Prod.fst

/-- The address before a position of the row. -/
def addrBefore (row : List (ListAddr × Bytes)) : ℕ → Option ListAddr
  | 0 => none
  | i + 1 => addrAt row i

/-- The links of the list spell the row, forwards and backwards. -/
structure Spells (l : LinkedList) (row : List (ListAddr × Bytes)) : Prop where
  nodup : (row.map Prod.fst).Nodup
  below : ∀ e ∈ row, e.1 < l.fresh
  node : ∀ i e, row[i]? = some e →
    l.heap e.1 = some { value := e.2, prev := addrBefore row i, next := addrAt row (i + 1) }
  head : l.head = addrAt row 0
  tail : l.tail = addrBefore row row.length
  length : l.length = row.length

/-- The list holds these values. -/
def Holds (l : LinkedList) (xs : List Bytes) : Prop := ∃ row, Spells l row ∧ row.map Prod.snd = xs

/-- Behind the end there is no address. -/
theorem addrAt_of_length_le {i : ℕ} (h : row.length ≤ i) : addrAt row i = none := by
  rw [addrAt, List.getElem?_eq_none h]; rfl

/-- The address of the node at a position. -/
theorem addrAt_of_getElem? {i : ℕ} {e : ListAddr × Bytes} (h : row[i]? = some e) :
    addrAt row i = some e.1 := by rw [addrAt, h]; rfl

/-- What comes behind does not change it. -/
theorem addrAt_append {i : ℕ} (t : List (ListAddr × Bytes)) (h : i < row.length) :
    addrAt (row ++ t) i = addrAt row i := by rw [addrAt, addrAt, List.getElem?_append_left h]

/-- The address of the node that is put behind. -/
theorem addrAt_append_length (e : ListAddr × Bytes) : addrAt (row ++ [e]) row.length = some e.1 :=
  addrAt_of_getElem? (by simp)

/-- Nor does it change the addresses before. -/
theorem addrBefore_append {i : ℕ} (t : List (ListAddr × Bytes)) (h : i ≤ row.length) :
    addrBefore (row ++ t) i = addrBefore row i := by
  cases i with
  | zero => rfl
  | succ i => exact addrAt_append t h

/-- No two positions of the row have the same address. -/
theorem Spells.inj (h : Spells l row) {i j : ℕ} {e f : ListAddr × Bytes} (hi : row[i]? = some e)
    (hj : row[j]? = some f) (heq : e.1 = f.1) : i = j := by
  have hlt : i < (row.map Prod.fst).length := by
    rw [List.length_map]; exact (List.getElem?_eq_some_iff.mp hi).1
  refine (List.getElem?_inj hlt h.nodup).mp ?_
  rw [List.getElem?_map, List.getElem?_map, hi, hj]
  exact congrArg some heq

/-- The addresses from the other end. -/
theorem addrAt_reverse {i : ℕ} (hi : i < row.length) :
    addrAt row.reverse i = addrAt row (row.length - 1 - i) := by
  rw [addrAt, addrAt, List.getElem?_reverse hi]

/-- The mirror image spells the reversed row. -/
theorem Spells.mirror (h : Spells l row) : Spells l.mirror row.reverse where
  nodup := by rw [List.map_reverse]; exact List.nodup_reverse.mpr h.nodup
  below e he := h.below e (List.mem_reverse.mp he)
  node i e hi := by
    have hlt : i < row.length := by
      have := (List.getElem?_eq_some_iff.mp hi).1
      rwa [List.length_reverse] at this
    rw [List.getElem?_reverse hlt] at hi
    -- the node at position i from the back: its links are exchanged
    show (l.heap e.1).map ListNode.mirror = _
    rw [h.node _ e hi]
    simp only [Option.map_some, ListNode.mirror, Option.some.injEq, ListNode.mk.injEq, true_and]
    constructor
    · cases i with
      | zero => exact addrAt_of_length_le (by omega)
      | succ i =>
        rw [addrBefore, addrAt_reverse (by omega)]
        congr 1
        omega
    · rcases Nat.lt_or_ge (i + 1) row.length with hi' | hi'
      · rw [addrAt_reverse hi', show row.length - 1 - i = row.length - 1 - (i + 1) + 1 by omega]
        rfl
      · rw [addrAt_of_length_le (by rwa [List.length_reverse]),
          show row.length - 1 - i = 0 by omega]
        rfl
  head := by
    show l.tail = _
    rw [h.tail]
    cases hn : row.length with
    | zero => rw [addrAt_of_length_le (by rw [List.length_reverse, hn])]; rfl
    | succ n => rw [addrAt_reverse (by omega), hn]; rfl
  tail := by
    show l.head = _
    rw [h.head, List.length_reverse]
    cases hn : row.length with
    | zero => rw [addrAt_of_length_le (by omega)]; rfl
    | succ n => rw [addrBefore, addrAt_reverse (by omega), hn, Nat.add_sub_cancel, Nat.sub_self]
  length := by rw [List.length_reverse]; exact h.length

/-- The mirror image holds the reversed values. -/
theorem Holds.mirror {xs : List Bytes} (h : Holds l xs) : Holds l.mirror xs.reverse := by
  obtain ⟨row, hrow, rfl⟩ := h
  exact ⟨row.reverse, hrow.mirror, List.map_reverse ..⟩

/-- A new list holds none. -/
theorem holds_new : Holds new [] :=
  ⟨[], ⟨List.nodup_nil, by simp, by simp, rfl, rfl, rfl⟩, rfl⟩

/-- The length is counted. -/
theorem Holds.length {xs : List Bytes} (h : Holds l xs) : l.length = xs.length := by
  obtain ⟨row, hrow, rfl⟩ := h
  rw [hrow.length, List.length_map]

/-! ### Pushing and popping -/

/-- **A node is put at the back**, with a new address. The new node points back to the last one, which now points to
it; in an empty list it is the first one too. -/
theorem Spells.pushBack (h : Spells l row) (value : Bytes) :
    Spells (l.pushBack value) (row ++ [(l.fresh, value)]) := by
  -- the new address is beyond all others
  have hne : ∀ e ∈ row, e.1 ≠ l.fresh := fun e he => (h.below e he).ne
  have hnodup : ((row ++ [(l.fresh, value)]).map Prod.fst).Nodup := by
    rw [List.map_append, List.nodup_append]
    refine ⟨h.nodup, List.nodup_singleton _, fun a ha b hb heq => ?_⟩
    obtain ⟨e, he, rfl⟩ := List.mem_map.mp ha
    exact hne e he (heq.trans (List.mem_singleton.mp hb))
  have hbelow : ∀ e ∈ row ++ [(l.fresh, value)], e.1 < l.fresh + 1 := fun e he => by
    rcases List.mem_append.mp he with he | he
    · exact Nat.lt_succ_of_lt (h.below e he)
    · rw [List.mem_singleton.mp he]; exact Nat.lt_succ_self _
  -- and it is the last of the longer row
  have hlast : some l.fresh
      = addrBefore (row ++ [(l.fresh, value)]) (row ++ [(l.fresh, value)]).length := by
    rw [List.length_append]; exact (addrAt_append_length (l.fresh, value)).symm
  -- the positions of the longer row
  have hpos : ∀ {i : ℕ} {e : ListAddr × Bytes}, (row ++ [(l.fresh, value)])[i]? = some e →
      row[i]? = some e ∨ i = row.length ∧ e = (l.fresh, value) := fun {i e} hi => by
    rcases Nat.lt_or_ge i row.length with hlt | hge
    · rw [List.getElem?_append_left hlt] at hi
      exact Or.inl hi
    · rw [List.getElem?_append_right hge] at hi
      have hlt := (List.getElem?_eq_some_iff.mp hi).1
      rw [List.length_singleton] at hlt
      have hi0 : i - row.length = 0 := by omega
      rw [hi0] at hi
      exact Or.inr ⟨by omega, (Option.some.inj hi).symm⟩
  -- an empty list gets its first node, and any other one a node behind the last
  by_cases hempty : l.length = 0
  · have hrow : row.length = 0 := h.length ▸ hempty
    simp only [LinkedList.pushBack, if_pos hempty]
    refine ⟨hnodup, hbelow, fun i e hi => ?_, ?_, hlast, by simp [hempty, hrow]⟩
    · rcases hpos hi with hi | ⟨rfl, rfl⟩
      · have := (List.getElem?_eq_some_iff.mp hi).1
        omega
      · dsimp only
        rw [Function.update_self, hrow, addrAt_of_length_le (by simp [hrow])]
        rfl
    · rw [← addrAt_append_length (l.fresh, value), hrow]
  · obtain ⟨n, hn⟩ : ∃ n, row.length = n + 1 := ⟨row.length - 1, by have := h.length; omega⟩
    obtain ⟨f, hf⟩ : ∃ f, row[n]? = some f := ⟨_, List.getElem?_eq_getElem (by omega)⟩
    have htail : l.tail = some f.1 := by rw [h.tail, hn]; exact addrAt_of_getElem? hf
    simp only [LinkedList.pushBack, if_neg hempty, htail, ListHeap.setNext]
    refine ⟨hnodup, hbelow, fun i e hi => ?_, ?_, hlast, by simp [h.length]⟩
    · dsimp only
      rcases hpos hi with hi | ⟨rfl, rfl⟩
      · have hlt := (List.getElem?_eq_some_iff.mp hi).1
        have hfresh := hne e (List.mem_of_getElem? hi)
        rw [addrBefore_append _ hlt.le]
        by_cases hin : i = n
        · -- the old last node gets the new one behind it
          subst hin
          obtain rfl := Option.some.inj (hi.symm.trans hf)
          rw [Function.update_self, Function.update_of_ne hfresh, h.node i e hi, ← hn,
            addrAt_append_length]
          rfl
        · have hef : e.1 ≠ f.1 := fun heq => hin (h.inj hi hf heq)
          rw [Function.update_of_ne hef, Function.update_of_ne hfresh, h.node i e hi,
            addrAt_append _ (by omega)]
      · rw [Function.update_of_ne (hne f (List.mem_of_getElem? hf)).symm, Function.update_self,
          addrBefore_append _ le_rfl, addrAt_of_length_le (by simp), ← htail, h.tail]
    · rw [h.head, addrAt_append _ (by omega)]

/-- **The last node is taken off**, and its value is the answer. The node before the last one ends the list, or
nothing is left. -/
theorem Spells.popBack {e : ListAddr × Bytes} (h : Spells l (row ++ [e])) :
    l.popBack.1 = some e.2 ∧ Spells l.popBack.2 row := by
  have hlen : l.length = row.length + 1 := by rw [h.length, List.length_append]; rfl
  have hget : (row ++ [e])[row.length]? = some e := by simp
  have hnode := h.node _ e hget
  have htail : l.tail = some e.1 := by
    rw [h.tail, List.length_append]; exact addrAt_append_length e
  -- the last node, its value and the one before it
  have hprev : l.heap.prev l.tail = addrBefore row row.length := by
    rw [htail]
    simp only [ListHeap.prev, Option.bind_some, hnode, addrBefore_append _ le_rfl]
  have hvalue : l.heap.value l.tail = some e.2 := by
    rw [htail]
    simp only [ListHeap.value, Option.bind_some, hnode, Option.map_some]
  -- the nodes before the last one stay where they are
  have hold : ∀ {i : ℕ} {f : ListAddr × Bytes}, row[i]? = some f → (row ++ [e])[i]? = some f :=
    fun hi => by rw [List.getElem?_append_left (List.getElem?_eq_some_iff.mp hi).1]; exact hi
  rw [LinkedList.popBack, if_neg (by omega)]
  refine ⟨hvalue, ?_, fun f hf => h.below f (List.mem_append_left _ hf), fun i f hi => ?_, ?_,
    hprev, by simp [hlen]⟩
  · -- the addresses that are left are distinct
    have hnodup := h.nodup
    rw [List.map_append] at hnodup
    exact (List.nodup_append.mp hnodup).1
  · have hlt := (List.getElem?_eq_some_iff.mp hi).1
    have hne : f.1 ≠ e.1 := fun heq => by
      have := h.inj (hold hi) hget heq
      omega
    have hnode := h.node i f (hold hi)
    rw [addrBefore_append _ hlt.le] at hnode
    obtain ⟨n, hn⟩ : ∃ n, row.length = n + 1 := ⟨row.length - 1, by omega⟩
    obtain ⟨g, hg⟩ : ∃ g, row[n]? = some g := ⟨_, List.getElem?_eq_getElem (by omega)⟩
    have hback : addrBefore row row.length = some g.1 := by rw [hn]; exact addrAt_of_getElem? hg
    simp only [hprev.trans hback]
    simp only [htail, ListHeap.setNext, ListHeap.free]
    rw [Function.update_of_ne hne]
    by_cases hin : i = n
    · -- the new last node has nothing behind it
      subst hin
      obtain rfl := Option.some.inj (hi.symm.trans hg)
      rw [Function.update_self, hnode, addrAt_of_length_le (show row.length ≤ _ by omega)]
      rfl
    · have hfg : f.1 ≠ g.1 := fun heq => hin (h.inj (hold hi) (hold hg) heq)
      rw [Function.update_of_ne hfg, hnode, addrAt_append _ (by omega)]
  · simp only [hprev, h.head]
    rcases Nat.eq_zero_or_pos row.length with hz | hz
    · obtain rfl := List.eq_nil_of_length_eq_zero hz
      rfl
    · have hsome : (addrBefore row row.length).isSome := by
        obtain ⟨n, hn⟩ : ∃ n, row.length = n + 1 := ⟨row.length - 1, by omega⟩
        rw [hn]
        exact Option.isSome_map.trans (by simp [hn])
      rw [if_pos hsome, addrAt_append _ hz]

/-- `pushBack` puts a value behind the others. -/
theorem Holds.pushBack {xs : List Bytes} (h : Holds l xs) (value : Bytes) :
    Holds (l.pushBack value) (xs ++ [value]) := by
  obtain ⟨row, hrow, rfl⟩ := h
  exact ⟨_, hrow.pushBack value, by simp⟩

/-- `pushFront` puts it before them. -/
theorem Holds.pushFront {xs : List Bytes} (h : Holds l xs) (value : Bytes) :
    Holds (l.pushFront value) (value :: xs) := by
  rw [pushFront_eq_mirror]
  simpa using (h.mirror.pushBack value).mirror

/-- `popBack` answers the last value and takes it off. -/
theorem Holds.popBack {xs : List Bytes} (h : Holds l xs) :
    l.popBack.1 = xs.getLast? ∧ Holds l.popBack.2 xs.dropLast := by
  obtain ⟨row, hrow, rfl⟩ := h
  rcases List.eq_nil_or_concat' row with rfl | ⟨row, e, rfl⟩
  · have hzero : l.length = 0 := hrow.length
    rw [LinkedList.popBack, if_pos hzero]
    exact ⟨rfl, [], hrow, rfl⟩
  · obtain ⟨hval, hspell⟩ := hrow.popBack
    exact ⟨by simp [hval], row, hspell, by simp⟩

/-- `popFront` answers the first value and takes it off. -/
theorem Holds.popFront {xs : List Bytes} (h : Holds l xs) :
    l.popFront.1 = xs.head? ∧ Holds l.popFront.2 xs.tail := by
  obtain ⟨hval, hrest⟩ := h.mirror.popBack
  rw [popFront_eq_mirror]
  refine ⟨by rw [hval, List.getLast?_reverse], ?_⟩
  have := hrest.mirror
  rwa [List.dropLast_reverse, List.reverse_reverse] at this

/-- A list that is cleared holds no value. -/
theorem holds_clear (l : LinkedList) : Holds l.clear [] :=
  ⟨[], ⟨List.nodup_nil, by simp, by simp, rfl, rfl, rfl⟩, rfl⟩

/-! ### Reading -/

/-- `i` steps along the forward links lead to position `i`. By induction on the steps. -/
theorem Spells.iterate_next (h : Spells l row) (i : ℕ) (hi : i ≤ row.length) :
    l.heap.next^[i] l.head = addrAt row i := by
  induction i with
  | zero => exact h.head
  | succ i ih =>
    obtain ⟨e, he⟩ : ∃ e, row[i]? = some e := ⟨_, List.getElem?_eq_getElem (by omega)⟩
    rw [Function.iterate_succ_apply', ih (by omega), addrAt_of_getElem? he]
    simp only [ListHeap.next, Option.bind_some, h.node i e he]

/-- `i` steps along the backward links lead to position `i` from the end. -/
theorem Spells.iterate_prev (h : Spells l row) (i : ℕ) (hi : i < row.length) :
    l.heap.prev^[i] l.tail = addrAt row (row.length - 1 - i) := by
  have hmirror := h.mirror.iterate_next i (by rw [List.length_reverse]; omega)
  rw [addrAt_reverse hi] at hmirror
  rw [← hmirror]
  congr 1
  funext a
  exact (l.heap.next_mirror a).symm

/-- The value at a position. -/
theorem Spells.value_addrAt (h : Spells l row) (i : ℕ) :
    l.heap.value (addrAt row i) = (row.map Prod.snd)[i]? := by
  rw [List.getElem?_map, addrAt]
  cases hi : row[i]? with
  | none => rfl
  | some e => simp only [ListHeap.value, Option.map_some, Option.bind_some, h.node i e hi]

/-- **`get`** is the value at the position, counted from the end for a negative index, whichever
end the walk starts at. -/
theorem Holds.get {xs : List Bytes} (h : Holds l xs) (hsize : xs.length < 2 ^ 31) (index : ℤ) :
    l.get index = if Slice.position xs.length index < 0 then none
      else xs[(Slice.position xs.length index).toNat]? := by
  have hlen := h.length
  obtain ⟨row, hrow, rfl⟩ := h
  have hrows : (row.map Prod.snd).length = row.length := List.length_map ..
  rw [hrows] at hlen hsize ⊢
  obtain ⟨p, hp⟩ : ∃ p, p = Slice.position row.length index := ⟨_, rfl⟩
  have hpos : (if index < 0 then (row.length : ℤ) + index else index) = p := hp.symm
  have hend : ∀ q : ℕ, row.length ≤ q → (row.map Prod.snd)[q]? = none := fun q hq =>
    List.getElem?_eq_none (by omega)
  rw [← hp, LinkedList.get]
  simp only [hlen, asInt_of_lt hsize, asInt_of_lt (show row.length / 2 < 2 ^ 31 by omega), hpos]
  by_cases h0 : row.length = 0
  · rw [if_pos h0, hend _ (by omega), ite_self]
  · rw [if_neg h0]
    by_cases hneg : p < 0
    · rw [if_pos (Or.inl hneg), if_pos hneg]
    · rw [if_neg hneg]
      by_cases hout : (row.length : ℤ) ≤ p
      · rw [if_pos (Or.inr hout), hend _ (by omega)]
      · rw [if_neg (by omega)]
        split
        · -- from the tail
          rw [hrow.iterate_prev _ (by omega), hrow.value_addrAt]
          congr 1
          omega
        · rw [hrow.iterate_next _ (by omega), hrow.value_addrAt]

/-- The values from position `i` on, along the forward links. By induction on their number. -/
theorem Spells.collect (h : Spells l row) (n : ℕ) : ∀ i,
    LinkedList.collect l.heap n (addrAt row i) = ((row.map Prod.snd).drop i).take n := by
  induction n with
  | zero => intro i; cases addrAt row i <;> simp [LinkedList.collect]
  | succ n ih =>
    intro i
    cases hi : row[i]? with
    | none =>
      have hle := List.getElem?_eq_none_iff.mp hi
      rw [addrAt_of_length_le hle, List.drop_eq_nil_of_le (by rwa [List.length_map])]
      rfl
    | some e =>
      have hmap : (row.map Prod.snd)[i]? = some e.2 := by rw [List.getElem?_map, hi]; rfl
      obtain ⟨hlt, hval⟩ := List.getElem?_eq_some_iff.mp hmap
      rw [addrAt_of_getElem? hi, List.drop_eq_getElem_cons hlt, hval, List.take_succ_cons, ← ih]
      simp only [LinkedList.collect, ListHeap.value, ListHeap.next, Option.bind_some,
        h.node i e hi, Option.map_some, Option.getD_some]

/-- **The iteration** gives the values in order. -/
theorem Holds.toList {xs : List Bytes} (h : Holds l xs) : l.toList = xs := by
  have hlen := h.length
  obtain ⟨row, hrow, rfl⟩ := h
  rw [LinkedList.toList, hrow.head, hrow.collect, List.drop_zero, hlen, List.take_length]

/-- A list is empty if it holds nothing. -/
theorem Holds.isEmpty_iff {xs : List Bytes} (h : Holds l xs) : l.isEmpty = true ↔ xs = [] := by
  rw [isEmpty, decide_eq_true_eq, h.length, List.length_eq_zero_iff]

/-- The loop of `clone` copies the values from position `i` on. By induction on their number. -/
theorem Spells.cloneLoop (h : Spells l row) (n : ℕ) : ∀ {i : ℕ} {copy : LinkedList}
    {ys : List Bytes}, Holds copy ys → Holds (LinkedList.cloneLoop l.heap n (addrAt row i) copy)
      (ys ++ ((row.map Prod.snd).drop i).take n) := by
  induction n with
  | zero =>
    intro i copy ys hcopy
    rw [List.take_zero, List.append_nil]
    cases addrAt row i <;> exact hcopy
  | succ n ih =>
    intro i copy ys hcopy
    -- the copy has grown by the value of the node, and the loop goes on at the next one
    cases hi : row[i]? with
    | none =>
      have hle := List.getElem?_eq_none_iff.mp hi
      rw [addrAt_of_length_le hle, List.drop_eq_nil_of_le (by rwa [List.length_map]),
        List.take_nil, List.append_nil]
      exact hcopy
    | some e =>
      have hmap : (row.map Prod.snd)[i]? = some e.2 := by rw [List.getElem?_map, hi]; rfl
      obtain ⟨hlt, hval⟩ := List.getElem?_eq_some_iff.mp hmap
      have hstep := ih (i := i + 1) (hcopy.pushBack e.2)
      rw [List.append_assoc, List.singleton_append] at hstep
      rw [addrAt_of_getElem? hi, List.drop_eq_getElem_cons hlt, hval, List.take_succ_cons]
      simpa only [LinkedList.cloneLoop, ListHeap.value, ListHeap.next, Option.bind_some,
        h.node i e hi, Option.map_some, Option.getD_some] using hstep

/-- **A copy** holds the same values. -/
theorem Holds.clone {xs : List Bytes} (h : Holds l xs) : Holds l.clone xs := by
  have hlen := h.length
  obtain ⟨row, hrow, rfl⟩ := h
  have hcopy := hrow.cloneLoop l.length (i := 0) holds_new
  rw [List.drop_zero, hlen, List.take_length, List.nil_append, ← hrow.head] at hcopy
  rwa [LinkedList.clone, hlen]

end LinkedList
end RedisDb
