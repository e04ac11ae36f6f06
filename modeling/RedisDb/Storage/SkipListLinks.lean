import RedisDb.Storage.SkipList

/-!
# The links of a skip list

A skip list is described by its row of towers: the nodes of level 0 in order, with their addresses, pairs and heights.
`Linked` says that the heap holds the links of one level of that row: every node that reaches the level points to the
next one that does, and its span is the number of level-0 steps to it, as an `unsigned int`.

The loops of `insert` and `deleteNode` write each level in a turn of its own (`IsTurn`), so their effect is a fact
about the links of one level. The turn at level `i` replaces links of that level by a function of them, and the others
are as they were (`IsTurn.levelAt`), so the loop need not be looked at again.

What putting a tower in or taking one out does to one level is a matter of positions in the row. A position reaches
the level or it does not, and `Chain` says for any such predicate which position is next, how far it is, and how both
change when a position is put in: behind the place where the tower goes positions shift by one, the last position
before it that reaches the level gets the tower for its next one if the tower reaches the level, and otherwise its gap
grows by one. `Linked.link`, `Linked.widen` and `Linked.unlink` carry this over to the links. That spans are taken
modulo `2 ^ 32` does no harm, for they are only added and subtracted here.
-/

namespace RedisDb

open Chain (IsNext IsLast gap shift insertAt)

variable {S : Type}

/-! ### Reading the heap after a write -/

namespace NodeHeap

variable {h : NodeHeap S}

/-- What the loops of `insert` and `deleteNode` never change: the pair of a node and its height. -/
def data (h : NodeHeap S) (a : Addr) : Option (S × Bytes × ℕ) :=
  (h a).map fun n => (n.score, n.member, n.level.length)

/-- The number of levels of a node. -/
def height (h : NodeHeap S) (a : Addr) : ℕ := ((h.data a).map fun d => d.2.2).getD 0

/-- A link is no part of the data. -/
@[simp] theorem data_setLevel (a : Addr) (i : ℕ) (l : SkipListLevel) :
    (h.setLevel a i l).data = h.data := by
  ext1 b
  unfold data setLevel
  by_cases hb : b = a
  · subst hb; simp [Function.comp_def]
  · simp [Function.update_of_ne hb]

/-- Nor is a backward link. -/
@[simp] theorem data_setBackward (a : Addr) (b : Option Addr) :
    (h.setBackward a b).data = h.data := by
  ext1 c
  unfold data setBackward
  by_cases hc : c = a
  · subst hc; simp [Function.comp_def]
  · simp [Function.update_of_ne hc]

/-- The height is one of the data. -/
theorem height_def (h : NodeHeap S) :
    h.height = fun a => ((h.data a).map fun d => d.2.2).getD 0 := rfl

/-- The height of one node. -/
theorem height_apply (h : NodeHeap S) (a : Addr) :
    h.height a = ((h.data a).map fun d => d.2.2).getD 0 := rfl

/-- A link that is written changes no height. -/
@[simp] theorem height_setLevel (a : Addr) (i : ℕ) (l : SkipListLevel) (b : Addr) :
    (h.setLevel a i l).height b = h.height b := by simp [height]

/-- A forward link is no backward link. -/
@[simp] theorem backward_setLevel (a : Addr) (i : ℕ) (l : SkipListLevel) (b : Addr) :
    (h.setLevel a i l).backward b = h.backward b := by
  unfold backward setLevel
  by_cases hb : b = a
  · subst hb; simp [Option.bind_map]
  · simp [Function.update_of_ne hb]

/-- What is read after a backward link has been written. -/
theorem backward_setBackward {a : Addr} {d : S × Bytes × ℕ} (ha : h.data a = some d)
    (v : Option Addr) (b : Addr) :
    (h.setBackward a v).backward b = if b = a then v else h.backward b := by
  unfold backward setBackward
  by_cases hb : b = a
  · subst hb
    obtain ⟨n, hn, -⟩ := Option.map_eq_some_iff.mp ha
    simp [hn]
  · simp [hb]

/-- A backward link is no forward link. -/
@[simp] theorem levelAt_setBackward (a : Addr) (v : Option Addr) (b : Addr) (j : ℕ) :
    (h.setBackward a v).levelAt b j = h.levelAt b j := by
  unfold levelAt setBackward
  by_cases hb : b = a
  · subst hb; simp [Option.bind_map]
  · simp [Function.update_of_ne hb]

/-- What is read after a forward link has been written. Nothing is written above the height of the node. -/
theorem levelAt_setLevel (a : Addr) (i : ℕ) (l : SkipListLevel) (b : Addr) (j : ℕ) :
    (h.setLevel a i l).levelAt b j =
      if b = a ∧ j = i ∧ i < h.height a then l else h.levelAt b j := by
  unfold levelAt setLevel height data
  by_cases hb : b = a
  · subst hb
    cases hn : h b with
    | none => simp
    | some n =>
      by_cases hj : j = i
      · subst hj
        by_cases hlt : j < n.level.length <;> simp [hlt]
      · simp [hj, List.getElem?_set_ne (Ne.symm hj)]
  · simp [hb]

/-- A write to another level is not seen. -/
theorem levelAt_setLevel_of_ne {i j : ℕ} (hij : j ≠ i) (a : Addr) (l : SkipListLevel) (b : Addr) :
    (h.setLevel a i l).levelAt b j = h.levelAt b j := by
  rw [levelAt_setLevel, if_neg fun hc => hij hc.2.1]

/-- The height of a node whose data are known. -/
theorem height_eq {a : Addr} {s : S} {m : Bytes} {k : ℕ} (ha : h.data a = some (s, m, k)) :
    h.height a = k := by simp [height, ha]

/-- The pair of a node whose data are known. -/
theorem node_eq [Inhabited S] {a : Addr} {s : S} {m : Bytes} {k : ℕ}
    (ha : h.data a = some (s, m, k)) : (h.node a).score = s ∧ (h.node a).member = m := by
  obtain ⟨n, hn, hd⟩ := Option.map_eq_some_iff.mp ha
  simp only [Prod.mk.injEq] at hd
  simp [node, hn, hd.1, hd.2.1]

/-- Where there is no node nothing is written. -/
@[simp] theorem data_setBackwardIf (a b : Option Addr) : (h.setBackwardIf a b).data = h.data := by
  cases a with
  | none => rfl
  | some a => exact data_setBackward a b

/-- And otherwise no forward link is. -/
@[simp] theorem levelAt_setBackwardIf (a b : Option Addr) (c : Addr) (j : ℕ) :
    (h.setBackwardIf a b).levelAt c j = h.levelAt c j := by
  cases a with
  | none => rfl
  | some a => exact levelAt_setBackward a b c j

/-- The backward link is written if there is a node. -/
theorem backward_setBackwardIf {a : Option Addr} (ha : ∀ y, a = some y → (h.data y).isSome)
    (b : Option Addr) (c : Addr) :
    (h.setBackwardIf a b).backward c = if a = some c then b else h.backward c := by
  cases a with
  | none => simp [setBackwardIf]
  | some y =>
    obtain ⟨d, hd⟩ := Option.isSome_iff_exists.mp (ha y rfl)
    rw [setBackwardIf, backward_setBackward hd]
    simp [eq_comm]

/-! #### Allocating and freeing -/

/-- The data after a node has been allocated or freed. -/
theorem data_update (a : Addr) (n : Option (SkipListNode S)) :
    NodeHeap.data (Function.update h a n)
      = Function.update h.data a (n.map fun n => (n.score, n.member, n.level.length)) := by
  ext1 b
  unfold data
  by_cases hb : b = a
  · subst hb; simp
  · simp [hb]

/-- The backward links after it. -/
theorem backward_update (a : Addr) (n : Option (SkipListNode S)) :
    NodeHeap.backward (Function.update h a n)
      = Function.update h.backward a (n.bind SkipListNode.backward) := by
  ext1 b
  unfold backward
  by_cases hb : b = a
  · subst hb; simp
  · simp [hb]

/-- The links of the other nodes stay. -/
theorem levelAt_update_of_ne {a b : Addr} (hb : b ≠ a) (n : Option (SkipListNode S)) (i : ℕ) :
    NodeHeap.levelAt (Function.update h a n) b i = h.levelAt b i := by
  simp [levelAt, hb]

end NodeHeap

namespace SkipList

open NodeHeap

/-! ### What the loops write -/

section Loops

variable {α : Type}

/-- A turn of a loop over the levels: at level `i`, for the entry `u`, it replaces the links of
level `i` by `effect u` of them and touches nothing else, when `pre i u` holds of the nodes. -/
structure IsTurn (body : ℕ → α → NodeHeap S → NodeHeap S)
    (pre : ℕ → α → (Addr → ℕ) → Prop)
    (effect : α → (Addr → SkipListLevel) → Addr → SkipListLevel) : Prop where
  data : ∀ i u h, (body i u h).data = h.data
  backward : ∀ i u h, (body i u h).backward = h.backward
  other : ∀ i u h a j, j ≠ i → (body i u h).levelAt a j = h.levelAt a j
  self : ∀ i u h a, pre i u h.height →
    (body i u h).levelAt a i = effect u (fun b => h.levelAt b i) a

variable {body : ℕ → α → NodeHeap S → NodeHeap S} {pre : ℕ → α → (Addr → ℕ) → Prop}
  {effect : α → (Addr → SkipListLevel) → Addr → SkipListLevel}

/-- The loop changes no data. By induction on the entries. -/
theorem IsTurn.data_forLevels (hb : IsTurn body pre effect) (i : ℕ) (us : List α)
    (h : NodeHeap S) : (forLevels body i us h).data = h.data := by
  induction us generalizing i h with
  | nil => rfl
  | cons u us ih => rw [forLevels, ih, hb.data]

/-- Nor backward links. -/
theorem IsTurn.backward_forLevels (hb : IsTurn body pre effect) (i : ℕ) (us : List α)
    (h : NodeHeap S) : (forLevels body i us h).backward = h.backward := by
  induction us generalizing i h with
  | nil => rfl
  | cons u us ih => rw [forLevels, ih, hb.backward]

/-- The loop writes only the levels it covers. -/
theorem IsTurn.levelAt_of_not (hb : IsTurn body pre effect) {i j : ℕ} (us : List α)
    (hj : j < i ∨ i + us.length ≤ j) (h : NodeHeap S) (a : Addr) :
    (forLevels body i us h).levelAt a j = h.levelAt a j := by
  induction us generalizing i h with
  | nil => rfl
  | cons u us ih =>
    rw [List.length_cons] at hj
    rw [forLevels, ih (by omega), hb.other _ _ _ _ _ (by omega)]

/-- Each level is written by its own turn. -/
theorem IsTurn.levelAt (hb : IsTurn body pre effect) {i j : ℕ} {us : List α} {u : α}
    (hu : us[j]? = some u) (h : NodeHeap S) (hpre : pre (i + j) u h.height) (a : Addr) :
    (forLevels body i us h).levelAt a (i + j)
      = effect u (fun b => h.levelAt b (i + j)) a := by
  induction us generalizing i j h with
  | nil => cases hu
  | cons v us ih =>
    cases j with
    | zero =>
      obtain rfl := Option.some.inj hu
      rw [forLevels, hb.levelAt_of_not us (Or.inl (by omega))]
      exact hb.self i v h a hpre
    | succ j =>
      have hne : i + 1 + j ≠ i := by omega
      rw [show i + (j + 1) = i + 1 + j by omega] at hpre ⊢
      rw [forLevels, ih (by simpa using hu) _ (by simpa only [height_def, hb.data] using hpre)]
      simp only [hb.other _ _ _ _ _ hne]

variable {h : NodeHeap S} {x : Addr}

/-- The turn that brings a level into use. -/
theorem isTurn_openLevel (n : ℕ) :
    IsTurn (S := S) (openLevel n) (fun i u height => i < height u.1)
      fun u lv a => if a = u.1 then { lv u.1 with span := UInt32.ofNat n } else lv a where
  data := fun i u h => data_setLevel _ _ _
  backward := fun i u h => funext fun b => backward_setLevel _ _ _ _
  other := fun i u h a j hj => levelAt_setLevel_of_ne hj _ _ _
  self := fun i u h a hi => by
    rw [openLevel, levelAt_setLevel]
    by_cases ha : a = u.1 <;> simp [ha, hi]

/-- The turn that links a node behind another one. -/
theorem isTurn_link (rank0 : UInt32) :
    IsTurn (S := S) (link x rank0) (fun i u height => u.1 ≠ x ∧ i < height u.1 ∧ i < height x)
      fun u lv a =>
        if a = x then { forward := (lv u.1).forward, span := (lv u.1).span - (rank0 - u.2) }
        else if a = u.1 then { forward := some x, span := rank0 - u.2 + 1 }
        else lv a where
  data := fun i u h => by simp [link]
  backward := fun i u h => funext fun b => by simp [link]
  other := fun i u h a j hj => by
    rw [link, levelAt_setLevel_of_ne hj, levelAt_setLevel_of_ne hj]
  self := fun i u h a hi => by
    obtain ⟨hne, hu, hx⟩ := hi
    rw [link, levelAt_setLevel, height_setLevel, levelAt_setLevel]
    -- the new node, the one before it, and all others
    by_cases ha : a = x
    · subst ha; simp [Ne.symm hne, hx]
    · by_cases hau : a = u.1
      · simp [hau, hu, hne]
      · simp [ha, hau]

/-- The turn that passes over a node. -/
theorem isTurn_widen :
    IsTurn (S := S) widen (fun i u height => i < height u.1)
      fun u lv a => if a = u.1 then { lv u.1 with span := (lv u.1).span + 1 } else lv a where
  data := fun i u h => data_setLevel _ _ _
  backward := fun i u h => funext fun b => backward_setLevel _ _ _ _
  other := fun i u h a j hj => levelAt_setLevel_of_ne hj _ _ _
  self := fun i u h a hi => by
    rw [widen, levelAt_setLevel]
    by_cases ha : a = u.1 <;> simp [ha, hi]

/-- The turn that takes a node out. -/
theorem isTurn_unlink :
    IsTurn (S := S) (unlink x) (fun i u height => i < height u.1)
      fun u lv a =>
        if a = u.1 then
          if (lv u.1).forward = some x then
            { forward := (lv x).forward, span := (lv u.1).span + ((lv x).span - 1) }
          else { lv u.1 with span := (lv u.1).span - 1 }
        else lv a where
  data := fun i u h => data_setLevel _ _ _
  backward := fun i u h => funext fun b => backward_setLevel _ _ _ _
  other := fun i u h a j hj => levelAt_setLevel_of_ne hj _ _ _
  self := fun i u h a hi => by
    rw [unlink, levelAt_setLevel]
    by_cases ha : a = u.1 <;> simp [ha, hi]

end Loops

/-! ### The row of towers -/

variable (S) in
/-- A node as the row sees it. -/
structure Tower where
  addr : Addr
  score : S
  member : Bytes
  height : ℕ

/-- Putting an element into a list related pairwise. -/
theorem pairwise_insertIdx {β : Type} {R : β → β → Prop} {e : β} : ∀ {l : List β} {r : ℕ},
    l.Pairwise R → r ≤ l.length → (∀ p f, l[p]? = some f → p < r → R f e) →
    (∀ p f, l[p]? = some f → r ≤ p → R e f) → (l.insertIdx r e).Pairwise R
  | l, 0, h, _, _, hafter => by
    refine List.pairwise_cons.mpr ⟨fun f hf => ?_, h⟩
    obtain ⟨p, hp⟩ := List.getElem?_of_mem hf
    exact hafter p f hp (Nat.zero_le p)
  | [], r + 1, _, hr, _, _ => by simp at hr
  | a :: l, r + 1, h, hr, hbefore, hafter => by
    rw [List.pairwise_cons] at h
    have hr' : r ≤ l.length := by simpa using hr
    refine List.pairwise_cons.mpr ⟨fun f hf => ?_, pairwise_insertIdx h.2 hr' ?_ ?_⟩
    · rcases (List.mem_insertIdx hr').mp hf with rfl | hmem
      · exact hbefore 0 a rfl (by omega)
      · exact h.1 f hmem
    · exact fun p f hp hlt => hbefore (p + 1) f (by simpa using hp) (by omega)
    · exact fun p f hp hle => hafter (p + 1) f (by simpa using hp) (by omega)

section Row

variable [Inhabited S]

/-- The towers at positions `0, 1, …`: the head, then the row. -/
def cells (head : Addr) (row : List (Tower S)) : List (Tower S) :=
  { addr := head, score := default, member := [], height := maxLevel } :: row

/-- The address at a position. -/
def addrAt (head : Addr) (row : List (Tower S)) (p : ℕ) : Addr :=
  (((cells head row)[p]?).map Tower.addr).getD head

/-- The tower at a position reaches level `i`. -/
def Tall (head : Addr) (row : List (Tower S)) (i p : ℕ) : Prop :=
  ∃ e, (cells head row)[p]? = some e ∧ i < e.height

variable {head : Addr} {row : List (Tower S)} {e : Tower S}

/-- The head is one more. -/
@[simp] theorem length_cells : (cells head row).length = row.length + 1 := rfl

/-- The head is at position 0. -/
@[simp] theorem addrAt_zero : addrAt head row 0 = head := rfl

/-- The tower of a place in the row is at the position after it. -/
theorem addrAt_succ {p : ℕ} (h : row[p]? = some e) : addrAt head row (p + 1) = e.addr := by
  simp [addrAt, cells, h]

/-- The tower at a position. -/
theorem addrAt_eq {p : ℕ} (h : (cells head row)[p]? = some e) : addrAt head row p = e.addr := by
  simp [addrAt, h]

/-- The head reaches every level. -/
theorem tall_zero {i : ℕ} (hi : i < maxLevel) : Tall head row i 0 := ⟨_, rfl, hi⟩

/-- A position that reaches a level is one of the row. -/
theorem Tall.le {i p : ℕ} (h : Tall head row i p) : p ≤ row.length := by
  obtain ⟨e, he, -⟩ := h
  have := (List.getElem?_eq_some_iff.mp he).1
  rw [length_cells] at this
  omega

/-- It reaches the levels below as well. -/
theorem Tall.mono {i j p : ℕ} (h : Tall head row i p) (hij : j ≤ i) : Tall head row j p := by
  obtain ⟨e, he, hi⟩ := h
  exact ⟨e, he, by omega⟩

/-- The towers after one is put in. -/
theorem getElem?_cells_insertIdx {r : ℕ} (hr : r ≤ row.length) (m : ℕ) :
    (cells head (row.insertIdx r e))[m]? =
      if m ≤ r then (cells head row)[m]? else if m = r + 1 then some e
      else (cells head row)[m - 1]? := by
  cases m with
  | zero => simp [cells]
  | succ m =>
    simp only [cells, List.getElem?_cons_succ, List.getElem?_insertIdx, Nat.add_right_cancel_iff,
      Nat.succ_le_iff, Nat.add_sub_cancel]
    split
    · rfl
    · split
      · next hm => subst hm; rw [if_pos hr]
      · obtain ⟨k, rfl⟩ : ∃ k, m = k + 1 := ⟨m - 1, by omega⟩
        simp

/-- The positions that reach a level, after a tower has been put in: those of before, shifted, and the new one if it
is high enough. -/
theorem tall_insertIdx {r : ℕ} (hr : r ≤ row.length) (i : ℕ) :
    Tall head (row.insertIdx r e) i = insertAt (Tall head row i) r (i < e.height) := by
  ext m
  simp only [Tall, insertAt, getElem?_cells_insertIdx hr]
  split
  · rfl
  · split
    · simp
    · rfl

/-- The old towers are at the shifted positions. -/
theorem addrAt_insertIdx_shift {r : ℕ} (hr : r ≤ row.length) (p : ℕ) :
    addrAt head (row.insertIdx r e) (shift r p) = addrAt head row p := by
  simp only [addrAt, getElem?_cells_insertIdx hr, shift]
  by_cases hp : p ≤ r
  · simp [hp]
  · simp [hp, show ¬ p + 1 ≤ r by omega, show p ≠ r by omega]

/-- The new one is behind the place where it was put in. -/
theorem addrAt_insertIdx_new {r : ℕ} (hr : r ≤ row.length) :
    addrAt head (row.insertIdx r e) (r + 1) = e.addr := by
  simp [addrAt, getElem?_cells_insertIdx hr]

/-- Before that place nothing shifts. -/
theorem addrAt_insertIdx_of_le {r p : ℕ} (hr : r ≤ row.length) (hp : p ≤ r) :
    addrAt head (row.insertIdx r e) p = addrAt head row p := by
  simp [addrAt, getElem?_cells_insertIdx hr, hp]

end Row

/-! ### The links of one level -/

section Linked

variable [Inhabited S]

/-- The link of level `i` at position `p` leads to the next tower that reaches the level. With
`counted`, the span is the number of level-0 steps on the way, or to the end of the row. -/
def LinkedAt (head : Addr) (row : List (Tower S)) (i : ℕ) (counted : Prop)
    (lv : Addr → SkipListLevel) (p : ℕ) : Prop :=
  ∃ o, IsNext (Tall head row i) row.length p o ∧
    (lv (addrAt head row p)).forward = o.map (addrAt head row) ∧
    (counted → (lv (addrAt head row p)).span = UInt32.ofNat (gap row.length p o))

/-- The links of level `i`. -/
def Linked (head : Addr) (row : List (Tower S)) (i : ℕ) (counted : Prop)
    (lv : Addr → SkipListLevel) : Prop :=
  ∀ p, Tall head row i p → LinkedAt head row i counted lv p

variable {head : Addr} {row : List (Tower S)} {e : Tower S} {i r q : ℕ} {counted : Prop}
  {lv : Addr → SkipListLevel}

/-- The next position, if there is one, leads to the same tower after the shift. -/
theorem map_addrAt_shift (hr : r ≤ row.length) (o : Option ℕ) :
    (o.map (shift r)).map (addrAt head (row.insertIdx r e)) = o.map (addrAt head row) := by
  rw [Option.map_map]
  exact congrArg (fun f => o.map f) (funext fun p => addrAt_insertIdx_shift hr p)

/-- The positions of the enlarged row that reach the level: the new one, or old ones. -/
theorem tall_insertIdx_cases (hr : r ≤ row.length) {m : ℕ}
    (hm : Tall head (row.insertIdx r e) i m) :
    (m = r + 1 ∧ i < e.height) ∨ ∃ p, m = shift r p ∧ Tall head row i p := by
  rw [tall_insertIdx hr] at hm
  rcases Chain.eq_new_or_shift r m with rfl | ⟨p, rfl⟩
  · exact Or.inl ⟨rfl, Chain.insertAt_new.mp hm⟩
  · exact Or.inr ⟨p, rfl, (Chain.insertAt_shift p).mp hm⟩

/-- The links away from the place where a tower is put in. -/
theorem LinkedAt.insert_other {p : ℕ} (h : LinkedAt head row i counted lv p) (hr : r ≤ row.length)
    (hq : IsLast (Tall head row i) r q) (hp : Tall head row i p) (hpq : p ≠ q)
    {lv' : Addr → SkipListLevel} (heq : lv' (addrAt head row p) = lv (addrAt head row p)) :
    LinkedAt head (row.insertIdx r e) i counted lv' (shift r p) := by
  obtain ⟨o, ho, hfwd, hspan⟩ := h
  obtain ⟨hnext, hgap⟩ := ho.insert_other (b := i < e.height) hr hp hq hpq
  refine ⟨o.map (shift r), ?_, ?_, fun hc => ?_⟩
  · rw [tall_insertIdx hr, List.length_insertIdx_of_le_length hr]; exact hnext
  · rw [addrAt_insertIdx_shift hr, heq, map_addrAt_shift hr]; exact hfwd
  · rw [addrAt_insertIdx_shift hr, heq, List.length_insertIdx_of_le_length hr, hgap]
    exact hspan hc

/-- The links of a level are a matter of what is read at its towers. -/
theorem Linked.congr (h : Linked head row i counted lv) {lv' : Addr → SkipListLevel}
    {counted' : Prop} (hc : counted' → counted)
    (heq : ∀ p, Tall head row i p → lv' (addrAt head row p) = lv (addrAt head row p)) :
    Linked head row i counted' lv' := by
  intro p hp
  obtain ⟨o, ho, hfwd, hspan⟩ := h p hp
  exact ⟨o, ho, by rw [heq p hp]; exact hfwd, fun h => by rw [heq p hp]; exact hspan (hc h)⟩

/-- Giving the head of a level that is not in use the whole row for its span. -/
theorem Linked.openLevel (h : Linked head row i counted lv)
    (hunused : ∀ p, Tall head row i p → p = 0) {lv' : Addr → SkipListLevel} {counted' : Prop}
    (hhead : lv' head = { lv head with span := UInt32.ofNat row.length }) :
    Linked head row i counted' lv' := by
  intro p hp
  obtain ⟨o, ho, hfwd, -⟩ := h p hp
  obtain rfl := hunused p hp
  have hnone : o = none := by
    cases o with
    | none => rfl
    | some q =>
      have hq := hunused q ho.2.2.1
      have hlt := ho.1
      omega
  refine ⟨o, ho, ?_, fun _ => ?_⟩
  · rw [addrAt_zero, hhead]; exact hfwd
  · rw [addrAt_zero, hhead, hnone]; rfl

/-- Linking a tower that reaches the level behind the last one before it. -/
theorem Linked.link (h : Linked head row i counted lv) (hr : r ≤ row.length)
    (hq : IsLast (Tall head row i) r q) (he : i < e.height) {lv' : Addr → SkipListLevel}
    (hother : ∀ p, Tall head row i p → p ≠ q → lv' (addrAt head row p) = lv (addrAt head row p))
    (hx : lv' e.addr = { forward := (lv (addrAt head row q)).forward
                         span := (lv (addrAt head row q)).span
                           - (UInt32.ofNat r - UInt32.ofNat q) })
    (hu : lv' (addrAt head row q) = { forward := some e.addr
                                      span := UInt32.ofNat r - UInt32.ofNat q + 1 }) :
    Linked head (row.insertIdx r e) i counted lv' := by
  have hqr := hq.1
  intro m hm
  rcases tall_insertIdx_cases hr hm with ⟨rfl, -⟩ | ⟨p, rfl, hp⟩
  · -- the new tower takes over the link of the one before it
    obtain ⟨o, ho, hfwd, hspan⟩ := h q hq.2.1
    refine ⟨o.map (shift r), ?_, ?_, fun hc => ?_⟩
    · rw [tall_insertIdx hr, List.length_insertIdx_of_le_length hr]; exact ho.insert_new hr hq
    · rw [addrAt_insertIdx_new hr, hx, map_addrAt_shift hr]; exact hfwd
    · rw [addrAt_insertIdx_new hr, hx, List.length_insertIdx_of_le_length hr]
      show (lv (addrAt head row q)).span - (UInt32.ofNat r - UInt32.ofNat q) = _
      rw [hspan hc, ← Chain.gap_insert_new ho hr hq, UInt32.ofNat_add, UInt32.ofNat_sub hqr,
        UInt32.add_sub_cancel]
  · -- the tower before the new one leads to it now, and every other link is as it was
    by_cases hpq : p = q
    · subst hpq
      refine ⟨some (r + 1), ?_, ?_, fun _ => ?_⟩
      · rw [tall_insertIdx hr, List.length_insertIdx_of_le_length hr, Chain.shift_of_le hqr]
        exact IsNext.insert_last hr hq he
      · rw [addrAt_insertIdx_shift hr, hu, Option.map_some, addrAt_insertIdx_new hr]
      · rw [addrAt_insertIdx_shift hr, hu, Chain.shift_of_le hqr]
        show UInt32.ofNat r - UInt32.ofNat p + 1 = UInt32.ofNat (r + 1 - p)
        rw [← UInt32.ofNat_sub hqr, show r + 1 - p = r - p + 1 by omega, UInt32.ofNat_add]
        rfl
    · exact (h p hp).insert_other hr hq hp hpq (hother p hp hpq)

/-- Passing over a tower that does not reach the level. -/
theorem Linked.widen (h : Linked head row i counted lv) (hr : r ≤ row.length)
    (hq : IsLast (Tall head row i) r q) (he : ¬ i < e.height) {lv' : Addr → SkipListLevel}
    (hother : ∀ p, Tall head row i p → p ≠ q → lv' (addrAt head row p) = lv (addrAt head row p))
    (hfu : (lv' (addrAt head row q)).forward = (lv (addrAt head row q)).forward)
    (hsu : counted → (lv' (addrAt head row q)).span = (lv (addrAt head row q)).span + 1) :
    Linked head (row.insertIdx r e) i counted lv' := by
  have hqr := hq.1
  intro m hm
  rcases tall_insertIdx_cases hr hm with ⟨-, hi⟩ | ⟨p, rfl, hp⟩
  · -- the new tower does not reach the level, so no position of it is new
    exact absurd hi he
  · by_cases hpq : p = q
    · -- the link that the tower stands under now counts one node more
      subst hpq
      obtain ⟨o, ho, hfwd, hspan⟩ := h p hp
      refine ⟨o.map (shift r), ?_, ?_, fun hc => ?_⟩
      · rw [tall_insertIdx hr, List.length_insertIdx_of_le_length hr, Chain.shift_of_le hqr]
        exact ho.insert_skip hr hq he
      · rw [addrAt_insertIdx_shift hr, hfu, map_addrAt_shift hr]; exact hfwd
      · rw [addrAt_insertIdx_shift hr, hsu hc, hspan hc, Chain.shift_of_le hqr,
          List.length_insertIdx_of_le_length hr, Chain.gap_insert_skip ho hr hq, UInt32.ofNat_add]
        rfl
    · exact (h p hp).insert_other hr hq hp hpq (hother p hp hpq)

/-- Taking a tower out: the last one before it that reaches the level takes over its link. -/
theorem Linked.unlink (h : Linked head (row.insertIdx r e) i counted lv) (hr : r ≤ row.length)
    (hq : IsLast (Tall head row i) r q) {lv' : Addr → SkipListLevel}
    (hother : ∀ p, Tall head row i p → p ≠ q → lv' (addrAt head row p) = lv (addrAt head row p))
    (hu : lv' (addrAt head row q) =
      if i < e.height then
        { forward := (lv e.addr).forward
          span := (lv (addrAt head row q)).span + ((lv e.addr).span - 1) }
      else { lv (addrAt head row q) with span := (lv (addrAt head row q)).span - 1 }) :
    Linked head row i counted lv' := by
  have hqr := hq.1
  -- the link found at an old position, compared with the one the position must have
  have hlink : ∀ p o, Tall head row i p →
      IsNext (insertAt (Tall head row i) r (i < e.height)) (row.length + 1) (shift r p) o →
      (lv (addrAt head row p)).forward = o.map (addrAt head (row.insertIdx r e)) ∧
        (counted → (lv (addrAt head row p)).span
          = UInt32.ofNat (gap (row.length + 1) (shift r p) o)) := by
    intro p o hp ho
    have hp' : Tall head (row.insertIdx r e) i (shift r p) := by
      rw [tall_insertIdx hr]; exact (Chain.insertAt_shift p).mpr hp
    obtain ⟨o', ho', hfwd, hspan⟩ := h (shift r p) hp'
    rw [tall_insertIdx hr, List.length_insertIdx_of_le_length hr] at ho'
    rw [addrAt_insertIdx_shift hr] at hfwd hspan
    rw [List.length_insertIdx_of_le_length hr] at hspan
    obtain rfl := ho'.unique ho
    exact ⟨hfwd, hspan⟩
  intro p hp
  obtain ⟨o, ho⟩ := Chain.exists_isNext (Tall head row i) row.length p
  by_cases hpq : p = q
  · subst hpq
    refine ⟨o, ho, ?_⟩
    -- where the tower reaches the level its links are taken over, and otherwise a step is taken back
    by_cases he : i < e.height
    · rw [hu, if_pos he]
      have hnew : Tall head (row.insertIdx r e) i (r + 1) := by
        rw [tall_insertIdx hr]; exact Chain.insertAt_new.mpr he
      obtain ⟨o', ho', hfwd', hspan'⟩ := h (r + 1) hnew
      rw [tall_insertIdx hr, List.length_insertIdx_of_le_length hr] at ho'
      rw [addrAt_insertIdx_new hr] at hfwd' hspan'
      obtain rfl := ho'.unique (ho.insert_new hr hq)
      obtain ⟨-, hspan⟩ := hlink p (some (r + 1)) hp
        (by rw [Chain.shift_of_le hqr]; exact IsNext.insert_last hr hq he)
      refine ⟨by rw [hfwd', map_addrAt_shift hr], fun hc => ?_⟩
      rw [hspan hc, hspan' hc, List.length_insertIdx_of_le_length hr, Chain.shift_of_le hqr,
        ← Chain.gap_insert_new ho hr hq]
      have hone : gap (row.length + 1) p (some (r + 1)) = 1 + (r - p) := by
        simp only [gap, Option.getD_some]; omega
      rw [hone, UInt32.ofNat_add, UInt32.ofNat_add, show UInt32.ofNat 1 = 1 from rfl]
      grind
    · rw [hu, if_neg he]
      obtain ⟨hfwd, hspan⟩ := hlink p (o.map (shift r)) hp
        (by rw [Chain.shift_of_le hqr]; exact ho.insert_skip hr hq he)
      refine ⟨by rw [hfwd, map_addrAt_shift hr], fun hc => ?_⟩
      show (lv (addrAt head row p)).span - 1 = _
      rw [hspan hc, Chain.shift_of_le hqr, Chain.gap_insert_skip ho hr hq, UInt32.ofNat_add,
        show UInt32.ofNat 1 = 1 from rfl, UInt32.add_sub_cancel]
  · -- the links of the other towers stay
    obtain ⟨hnext, hgap⟩ := ho.insert_other (b := i < e.height) hr hp hq hpq
    obtain ⟨hfwd, hspan⟩ := hlink p _ hp hnext
    refine ⟨o, ho, ?_, fun hc => ?_⟩
    · rw [hother p hp hpq, hfwd, map_addrAt_shift hr]
    · rw [hother p hp hpq, hspan hc, hgap]

/-- Every position reaches level 0. -/
theorem tall_of_heights (hh : ∀ e ∈ row, 1 ≤ e.height) {p : ℕ} (hp : p ≤ row.length) :
    Tall head row 0 p := by
  cases p with
  | zero => exact tall_zero (by decide)
  | succ p =>
    refine ⟨row[p], by simp [cells, List.getElem?_eq_getElem (show p < row.length by omega)], ?_⟩
    exact hh _ (List.getElem_mem _)

/-- At level 0 every position leads to the one after it. -/
theorem Linked.forward_zero (h : Linked head row 0 counted lv) (hh : ∀ e ∈ row, 1 ≤ e.height)
    {p : ℕ} (hp : p ≤ row.length) :
    (lv (addrAt head row p)).forward
      = if p < row.length then some (addrAt head row (p + 1)) else none := by
  obtain ⟨o, ho, hfwd, -⟩ := h p (tall_of_heights hh hp)
  rw [hfwd]
  split
  · next hlt =>
    have hnext : IsNext (Tall head row 0) row.length p (some (p + 1)) :=
      ⟨by omega, hlt, tall_of_heights hh hlt, fun m h1 h2 => by omega⟩
    rw [ho.unique hnext]; rfl
  · next hge =>
    have hnone : IsNext (Tall head row 0) row.length p none := fun m h1 h2 => by omega
    rw [ho.unique hnone]; rfl

end Linked

end SkipList
end RedisDb
