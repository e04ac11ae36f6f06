import RedisDb.Storage.SkipListInv

/-!
# `insert`, `deleteNode` and `clone` keep the invariant

`Held.insert` and `Held.deleteNode` say which row the operation leaves, given the rank of the pair. A pair that is
there already is put in front of its equals; where each pair stands once, as in a sorted set, `Inv.insert` and
`Inv.deleteNode` keep it so. `Inv.clone` follows from a run of insertions.

Both operations are a descent and then loops over the levels. The descent leaves in `update` the last tower of each
level among the first `r` (`Found`, `FoundBefore`), which `Held.search_spec` gives. Each loop changes one link per
level, so what it does to level `i` is what its turn at `i` does (`IsTurn`), and to the other levels nothing.

The invariant is proved in two steps. `Held.linked_placeHeap` and `Held.linked_unlink` give the links of every level,
one level at a time: for `insert` the cases are a level that the new tower reaches (its turn is in the loop that
links), a level in use that it does not reach (its turn is in the loop that widens the spans) and a level that is not
in use at all. `Held.place` and `Held.deleteNodeInternal` add the rest, field by field: the addresses, the heights,
the backward pointers, the tail and the length. The backward pointers change at two towers at most, at the one that
comes or goes and at the one behind it, and the proofs split accordingly: before position `r`, at it, behind it.
-/

namespace RedisDb

open Chain (IsNext IsLast gap shift insertAt)

variable {S : Type}

namespace SkipList

open NodeHeap

section Ops

variable [Inhabited S] {t : SkipList S} {row : List (Tower S)}

/-! ### `insert` -/

section Insert

variable {found : List (Addr × UInt32)} {r : ℕ} {e : Tower S}

/-- What the descent of `insert` found: at every level in use, the last tower that reaches it among
the first `r`, and its position. -/
def Found (t : SkipList S) (row : List (Tower S)) (r : ℕ) (found : List (Addr × UInt32)) : Prop :=
  found.length = t.level ∧ ∀ i < t.level, ∃ q, IsLast (Tall t.head row i) r q ∧
    found[i]? = some (addrAt t.head row q, UInt32.ofNat q)

/-- With the levels opened, every level up to the height of the new node has its entry. -/
theorem Found.update (hf : Found t row r found) (h : Held t row) (k : ℕ) {i : ℕ}
    (hi : i < t.level + k) (hi' : i < maxLevel) :
    ∃ q, IsLast (Tall t.head row i) r q ∧
      (found ++ List.replicate k (t.head, (0 : UInt32)))[i]?
        = some (addrAt t.head row q, UInt32.ofNat q) := by
  rcases Nat.lt_or_ge i t.level with hlt | hge
  · obtain ⟨q, hq, hget⟩ := hf.2 i hlt
    exact ⟨q, hq, by rw [List.getElem?_append_left (by rw [hf.1]; exact hlt)]; exact hget⟩
  · refine ⟨0, ⟨Nat.zero_le _, tall_zero hi', fun m hm _ ht => ?_⟩, ?_⟩
    · have := h.eq_zero_of_tall hge ht
      omega
    · rw [List.getElem?_append_right (by rw [hf.1]; exact hge), hf.1,
        List.getElem?_replicate_of_lt (by omega)]
      rfl

/-- The first entry of `update`, with levels opened or without, is the tower that the pair belongs behind: every tower
reaches level 0, so the last one among the first `r` is the one at position `r`. -/
theorem Found.head (hf : Found t row r found) (h : Held t row) (hr : r ≤ row.length) (k : ℕ) :
    (found ++ List.replicate k (t.head, (0 : UInt32))).headD (t.head, 0)
        = (addrAt t.head row r, UInt32.ofNat r) ∧
      found.headD (t.head, 0) = (addrAt t.head row r, UInt32.ofNat r) := by
  obtain ⟨q, hq, hget⟩ := hf.2 0 (by have := h.level.1; omega)
  obtain rfl := isLast_zero_level h hr hq
  cases found with
  | nil => cases hget
  | cons u us =>
    obtain rfl := Option.some.inj hget
    exact ⟨rfl, rfl⟩

/-- The levels opened by `insert` span the whole row from the head. -/
theorem Held.linked_openLevel (h : Held t row) (k : ℕ) {i : ℕ} (hi : i < maxLevel) :
    Linked t.head row i (i < t.level + k) fun a =>
      (forLevels (openLevel t.length) t.level (List.replicate k (t.head, (0 : UInt32)))
        t.heap).levelAt a i := by
  have hl := h.linked i hi
  -- levels in use are left alone, those that are opened get the whole length for their span, and the others
  -- are not looked at
  rcases Nat.lt_or_ge i t.level with hlt | hge
  · exact hl.congr (fun _ => hlt) fun p _ =>
      (isTurn_openLevel t.length).levelAt_of_not _ (Or.inl hlt) _ _
  · rcases Nat.lt_or_ge i (t.level + k) with hlt' | hge'
    · obtain ⟨j, rfl⟩ : ∃ j, i = t.level + j := ⟨i - t.level, by omega⟩
      have hturn := (isTurn_openLevel (S := S) t.length).levelAt (i := t.level) (j := j)
        (List.getElem?_replicate_of_lt (a := (t.head, (0 : UInt32))) (show j < k by omega)) t.heap
        (h.lt_height (tall_zero hi)) t.head
      rw [if_pos rfl] at hturn
      exact hl.openLevel (fun p hp => h.eq_zero_of_tall hge hp)
        (hturn.trans (by rw [h.length]))
    · exact hl.congr (fun hc => by omega) fun p _ =>
        (isTurn_openLevel t.length).levelAt_of_not _ (Or.inr (by simpa using hge')) _ _

/-- The addresses of the row are not the one of the next node. -/
theorem Held.addrAt_ne_fresh (h : Held t row) {i p : ℕ} (hp : Tall t.head row i p) :
    addrAt t.head row p ≠ t.fresh := by
  obtain ⟨e, he, -⟩ := hp
  rw [addrAt_eq he]
  exact (h.below e (List.mem_of_getElem? he)).ne

variable {level : ℕ} {score : S} {member : Bytes}

omit [Inhabited S] in
/-- The loops of `insert` change links, and the nodes stay what they were but for the one that is allocated. -/
theorem data_placeHeap :
    (t.placeHeap found level score member).data
      = Function.update t.heap.data t.fresh (some (score, member, level)) := by
  simp only [placeHeap, isTurn_widen.data_forLevels, (isTurn_link _).data_forLevels, data_update,
    (isTurn_openLevel _).data_forLevels, Option.map_some, List.length_replicate]

omit [Inhabited S] in
/-- No backward pointer changes in them, and the one of the new node is null as yet. -/
theorem backward_placeHeap :
    (t.placeHeap found level score member).backward
      = Function.update t.heap.backward t.fresh none := by
  simp only [placeHeap, isTurn_widen.backward_forLevels, (isTurn_link _).backward_forLevels,
    backward_update, (isTurn_openLevel _).backward_forLevels, Option.bind_some]

/-- The loops of `insert` link the new tower into every level. -/
theorem Held.linked_placeHeap (h : Held t row) (score : S) (member : Bytes) (hr : r ≤ row.length)
    (hf : Found t row r found) (haddr : e.addr = t.fresh) (hheight : e.height = level) {i : ℕ}
    (hi : i < maxLevel) :
    Linked t.head (row.insertIdx r e) i (i < max t.level level) fun a =>
      (t.placeHeap found level score member).levelAt a i := by
  have hk : t.level + (level - t.level) = max t.level level := by omega
  obtain ⟨hhead, -⟩ := hf.head h hr (level - t.level)
  have hlen : (found ++ List.replicate (level - t.level) (t.head, (0 : UInt32))).length
      = max t.level level := by
    rw [List.length_append, List.length_replicate, hf.1, hk]
  -- the levels that are opened have one link, from the head past the whole row
  have hopen := h.linked_openLevel (level - t.level) hi
  rw [hk] at hopen
  have hget := fun hlt : i < max t.level level => hf.update h (level - t.level) (hk ▸ hlt) hi
  unfold placeHeap
  simp only [hhead]
  generalize hup : found ++ List.replicate (level - t.level) (t.head, (0 : UInt32)) = update
    at hlen hget ⊢
  -- after the node is allocated the links are those of the levels opened
  obtain ⟨opened, hopened⟩ : ∃ g, g = forLevels (openLevel t.length) t.level
    (List.replicate (level - t.level) (t.head, (0 : UInt32))) t.heap := ⟨_, rfl⟩
  rw [← hopened] at hopen ⊢
  have hdata₀ : opened.data = t.heap.data := by
    rw [hopened, (isTurn_openLevel _).data_forLevels]
  obtain ⟨alloc, halloc⟩ : ∃ g : NodeHeap S, g = Function.update opened t.fresh
    (some { member := member, score := score, level := List.replicate level {} }) := ⟨_, rfl⟩
  rw [← halloc]
  have hstart : Linked t.head row i (i < max t.level level) fun a => alloc.levelAt a i :=
    hopen.congr id fun p hp => by
      rw [halloc]; exact levelAt_update_of_ne (h.addrAt_ne_fresh hp) _ _
  have hheight_alloc : ∀ {j p : ℕ}, Tall t.head row j p →
      j < alloc.height (addrAt t.head row p) := fun {j p} hp => by
    rw [height_apply, halloc, data_update, Function.update_of_ne (h.addrAt_ne_fresh hp), hdata₀]
    exact h.lt_height hp
  have hheight_fresh : alloc.height t.fresh = level := by
    rw [height_apply, halloc, data_update, Function.update_self]
    simp
  rcases Nat.lt_or_ge i (max t.level level) with hlt | hge
  · obtain ⟨q, hq, hget⟩ := hget hlt
    have hne := fun {p : ℕ} (hp : Tall t.head row i p) (hpq : p ≠ q) =>
      fun heq => hpq (h.addrAt_inj hp.le hq.2.1.le heq)
    have hfresh := fun {p : ℕ} (hp : Tall t.head row i p) => h.addrAt_ne_fresh hp
    rcases Nat.lt_or_ge i level with hlow | hhigh
    · -- the new tower reaches the level: it is linked by the first loop, the second is above it
      have hturn := fun a => (isTurn_link (x := t.fresh) (UInt32.ofNat r)).levelAt (i := 0) (j := i)
        ((List.getElem?_take_of_lt hlow).trans hget) alloc
        (by rw [Nat.zero_add]; exact ⟨hfresh hq.2.1, hheight_alloc hq.2.1, by omega⟩) a
      simp only [Nat.zero_add] at hturn
      have hskip := fun a => (isTurn_widen (S := S)).levelAt_of_not (update.drop level)
        (Or.inl hlow)
        (forLevels (SkipList.link t.fresh (UInt32.ofNat r)) 0 (update.take level) alloc) a
      refine hstart.link hr hq (by omega) (fun p hp hpq => ?_) ?_ ?_
      · rw [hskip, hturn, if_neg (hfresh hp), if_neg (hne hp hpq)]
      · rw [haddr, hskip, hturn, if_pos rfl]
      · rw [haddr, hskip, hturn, if_neg (hfresh hq.2.1), if_pos rfl]
    · -- it does not: the second loop counts it in
      obtain ⟨j, rfl⟩ : ∃ j, i = level + j := ⟨i - level, by omega⟩
      have hskip := fun a => (isTurn_link (x := t.fresh) (UInt32.ofNat r)).levelAt_of_not (i := 0)
        (j := level + j) (update.take level) (Or.inr (by simp)) alloc a
      have hdata : (forLevels (SkipList.link t.fresh (UInt32.ofNat r)) 0 (update.take level)
          alloc).height = alloc.height := by
        rw [height_def, height_def, (isTurn_link _).data_forLevels]
      have hturn := fun a => (isTurn_widen (S := S)).levelAt (i := level) (j := j)
        (List.getElem?_drop.trans hget)
        (forLevels (SkipList.link t.fresh (UInt32.ofNat r)) 0 (update.take level) alloc)
        (by rw [hdata]; exact hheight_alloc hq.2.1) a
      simp only [hskip] at hturn
      refine hstart.widen hr hq (by omega) (fun p hp hpq => ?_) ?_ fun _ => ?_
      · rw [hturn, if_neg (hne hp hpq)]
      · rw [hturn, if_pos rfl]
      · rw [hturn, if_pos rfl]
  · -- no loop reaches the level, and only the head has a link there
    have hsame : ∀ a, (forLevels SkipList.widen level (update.drop level)
        (forLevels (SkipList.link t.fresh (UInt32.ofNat r)) 0 (update.take level) alloc)).levelAt a i
          = alloc.levelAt a i := fun a => by
      rw [isTurn_widen.levelAt_of_not _ (Or.inr (by rw [List.length_drop]; omega)),
        (isTurn_link _).levelAt_of_not _ (Or.inr (by rw [List.length_take]; omega))]
    have hzero : IsLast (Tall t.head row i) r 0 :=
      ⟨Nat.zero_le _, tall_zero hi, fun m hm _ ht => by
        have := h.eq_zero_of_tall (by omega) ht
        omega⟩
    refine hstart.widen hr hzero (by omega) (fun p _ _ => hsame _) (by rw [hsame]) fun hc => ?_
    omega

/-- The pointers of level 0 after the loops of `insert`, at the new node. -/
theorem Held.forward_placeHeap (h : Held t row) (score : S) (member : Bytes) (hr : r ≤ row.length) (hf : Found t row r found)
    (hlevel : 1 ≤ level) :
    ((t.placeHeap found level score member).levelAt t.fresh 0).forward
      = if r < row.length then some (addrAt t.head row (r + 1)) else none := by
  obtain ⟨e, he⟩ : ∃ e : Tower S, e = ⟨t.fresh, score, member, level⟩ := ⟨_, rfl⟩
  have hlink : Linked _ _ _ _ fun a => (t.placeHeap found level score member).levelAt a 0 :=
    h.linked_placeHeap score member hr hf (show e.addr = t.fresh by rw [he]) (show e.height = level by rw [he])
      (by decide)
  have hlen := List.length_insertIdx_of_le_length hr e
  have hh : ∀ f ∈ row.insertIdx r e, 1 ≤ f.height := fun f hf => by
    rcases (List.mem_insertIdx hr).mp hf with rfl | hmem
    · rw [he]; exact hlevel
    · exact (h.heights f hmem).1
  -- the new tower stands behind `r` others, and is followed by the one that came next there
  have hfwd := hlink.forward_zero hh (show r + 1 ≤ (row.insertIdx r e).length by omega)
  rw [addrAt_insertIdx_new hr, he] at hfwd
  rw [hfwd, ← he, hlen]
  by_cases hlt : r < row.length
  · rw [if_pos (by omega), if_pos hlt, ← Chain.shift_of_lt (show r < r + 1 by omega),
      addrAt_insertIdx_shift hr]
  · rw [if_neg (by omega), if_neg hlt]

/-- The part of `insert` after the search puts the new tower into the row. The levels that the new tower opens get the
head as its predecessor; on the levels below, the search has found the last tower before it, and links and spans are
those of the row with the tower put in. -/
theorem Held.place (h : Held t row) (hr : r ≤ row.length) (hf : Found t row r found)
    (hlevel : 1 ≤ level ∧ level ≤ maxLevel) (he : e = ⟨t.fresh, score, member, level⟩) :
    Held (t.place found level score member).1 (row.insertIdx r e) := by
  obtain ⟨-, hhead⟩ := hf.head h hr 0
  have hlen := List.length_insertIdx_of_le_length hr e
  have hprev : (if addrAt t.head row r = t.head then none else some (addrAt t.head row r))
      = prevAt t.head row r := by
    rw [prevAt]
    exact if_congr ⟨fun heq => h.addrAt_inj hr (Nat.zero_le _) heq, fun hz => by rw [hz]; rfl⟩ rfl rfl
  have haddr : e.addr = t.fresh := by rw [he]
  obtain ⟨next, hnext⟩ : ∃ o : Option Addr,
      o = if r < row.length then some (addrAt t.head row (r + 1)) else none := ⟨_, rfl⟩
  obtain ⟨H, hH⟩ : ∃ g, g = t.placeHeap found level score member := ⟨_, rfl⟩
  have hdata : H.data = Function.update t.heap.data t.fresh (some (score, member, level)) := by
    rw [hH]; exact data_placeHeap
  -- the new node has no backward pointer yet
  have hback : H.backward = Function.update t.heap.backward t.fresh none := by
    rw [hH]; exact backward_placeHeap
  have hforward := h.forward_placeHeap score member hr hf hlevel.1
  -- the state `place` returns
  have hplace : (t.place found level score member).1 =
      { heap := (H.setBackward t.fresh (prevAt t.head row r)).setBackwardIf next (some t.fresh)
        fresh := t.fresh + 1
        head := t.head
        tail := if next.isSome then t.tail else some t.fresh
        length := t.length + 1
        level := max t.level level
        rng := fun k => t.rng (k + 1) } := by
    simp only [SkipList.place, hhead, hprev, levelAt_setBackward, hforward, hnext, hH]
  have hfresh : H.data t.fresh = some (score, member, level) := by
    rw [hdata, Function.update_self]
  have hold : ∀ f ∈ cells t.head row, H.data f.addr = some (f.score, f.member, f.height) :=
    fun f hf => by rw [hdata, Function.update_of_ne (h.below f hf).ne]; exact h.data f hf
  have hrow : ∀ f ∈ cells t.head (row.insertIdx r e), f = e ∨ f ∈ cells t.head row := fun f hf => by
    rcases List.mem_cons.mp hf with rfl | hmem
    · exact Or.inr List.mem_cons_self
    · exact ((List.mem_insertIdx hr).mp hmem).imp id (List.mem_cons_of_mem _)
  -- the tower behind the new one is allocated, so its backward pointer can be set
  have hnextSome : ∀ y, next = some y →
      ((H.setBackward t.fresh (prevAt t.head row r)).data y).isSome := fun y hy => by
    rw [hnext] at hy
    split at hy
    · next hlt =>
      obtain rfl := Option.some.inj hy
      obtain ⟨f, hf, -⟩ := h.tall_zero_level (show r + 1 ≤ row.length from hlt)
      rw [data_setBackward, addrAt_eq hf, hold f (List.mem_of_getElem? hf)]; rfl
    · cases hy
  -- the backward pointers of the new state
  have hbackward := fun b => backward_setBackwardIf hnextSome (some t.fresh) b
  simp only [backward_setBackward hfresh, hback] at hbackward
  rw [hplace]
  constructor
  · intro f hf
    simp only [data_setBackwardIf, data_setBackward]
    rcases hrow f hf with rfl | hmem
    · rw [haddr, hfresh, he]
    · exact hold f hmem
  -- no node is allocated but the new one and those that were
  · intro a ha
    simp only [data_setBackwardIf, data_setBackward, hdata] at ha
    by_cases hax : a = t.fresh
    · exact ⟨e, List.mem_cons_of_mem _ ((List.mem_insertIdx hr).mpr (Or.inl rfl)),
        haddr.trans hax.symm⟩
    · rw [Function.update_of_ne hax] at ha
      obtain ⟨f, hf, hfa⟩ := h.owned a ha
      refine ⟨f, ?_, hfa⟩
      rcases List.mem_cons.mp hf with rfl | hmem
      · exact List.mem_cons_self
      · exact List.mem_cons_of_mem _ ((List.mem_insertIdx hr).mpr (Or.inr hmem))
  · intro f hf
    -- the next address is behind the new one
    show f.addr < t.fresh + 1
    rcases hrow f hf with rfl | hmem
    · exact haddr ▸ Nat.lt_succ_self _
    · exact Nat.lt_succ_of_lt (h.below f hmem)
  · show (cells t.head (row.insertIdx r e)).Pairwise _
    -- the new address differs from all others, as it was not given out yet
    have hcells : cells t.head (row.insertIdx r e) = (cells t.head row).insertIdx (r + 1) e := rfl
    have hne := fun f (hf : f ∈ cells t.head row) => (h.below f hf).ne
    rw [hcells]
    refine pairwise_insertIdx h.distinct (by rw [length_cells]; omega) (fun p f hp _ => ?_)
      fun p f hp _ => ?_
    · rw [haddr]; exact hne f (List.mem_of_getElem? hp)
    · rw [haddr]; exact (hne f (List.mem_of_getElem? hp)).symm
  · intro f hf
    -- `level_` is raised to the new tower where that is higher
    show 1 ≤ f.height ∧ f.height ≤ max t.level level
    rcases (List.mem_insertIdx hr).mp hf with rfl | hmem
    · rw [he]; exact ⟨hlevel.1, le_max_right _ _⟩
    · have := h.heights f hmem
      exact ⟨this.1, by omega⟩
  · have := h.level
    show 1 ≤ max t.level level ∧ max t.level level ≤ maxLevel
    omega
  · intro i hi
    have hlink := h.linked_placeHeap score member hr hf haddr (show e.height = level by rw [he]) hi
    simp only [levelAt_setBackwardIf, levelAt_setBackward]
    rw [hH]
    exact hlink
  · intro p f hp
    -- the backward pointers: of a tower before the new one, of the new one, of one behind it
    show NodeHeap.backward _ f.addr = prevAt t.head (row.insertIdx r e) p
    rw [hbackward, hnext]
    rw [List.getElem?_insertIdx] at hp
    -- an old tower is not the new one, and is next to it only at position `r`
    have hof : ∀ {k}, row[k]? = some f → f.addr ≠ t.fresh ∧
        (f.addr = addrAt t.head row (r + 1) → r < row.length → k = r) := fun {k} hk => by
      refine ⟨(h.below f (List.mem_cons_of_mem _ (List.mem_of_getElem? hk))).ne, fun heq hlt => ?_⟩
      rw [← addrAt_succ hk] at heq
      have hkl := (List.getElem?_eq_some_iff.mp hk).1
      have := h.addrAt_inj (by omega) (by omega) heq
      omega
    rcases Nat.lt_trichotomy p r with hlt | rfl | hgt
    · rw [if_pos hlt] at hp
      obtain ⟨hfresh', hadj⟩ := hof hp
      rw [prevAt_insertIdx_of_le hr hlt.le, if_neg, if_neg hfresh', Function.update_of_ne hfresh',
        h.back p f hp]
      intro heq
      split at heq
      · next hrl => have := hadj (Option.some.inj heq).symm hrl; omega
      · cases heq
    · rw [if_neg (lt_irrefl _), if_pos rfl, if_pos hr] at hp
      obtain rfl := Option.some.inj hp
      rw [prevAt_insertIdx_of_le hr le_rfl, haddr, if_neg, if_pos rfl]
      intro heq
      split at heq
      · next hrl =>
        exact h.addrAt_ne_fresh (h.tall_zero_level (show p + 1 ≤ row.length from hrl))
          (Option.some.inj heq)
      · cases heq
    · rw [if_neg (by omega), if_neg (by omega)] at hp
      obtain ⟨hfresh', hadj⟩ := hof hp
      obtain ⟨k, rfl⟩ : ∃ k, p = k + 1 := ⟨p - 1, by omega⟩
      rw [Nat.add_sub_cancel] at hp hadj
      have hkl := (List.getElem?_eq_some_iff.mp hp).1
      by_cases hkr : k = r
      · subst hkr
        rw [if_pos (show k < row.length from hkl), if_pos, prevAt_insertIdx_new hr, haddr]
        rw [addrAt_succ hp]
      · rw [prevAt_insertIdx_of_lt hr (by omega), if_neg, if_neg hfresh',
          Function.update_of_ne hfresh', h.back k f hp]
        intro heq
        split at heq
        · next hrl => exact hkr (hadj (Option.some.inj heq).symm hrl)
        · cases heq
  -- the tail is the new tower where nothing comes behind it
  · show (if next.isSome then t.tail else some t.fresh) = _
    rw [hlen, hnext]
    by_cases hlt : r < row.length
    · rw [if_pos hlt, prevAt_insertIdx_of_lt hr hlt]; exact h.tail
    · obtain rfl : r = row.length := by omega
      rw [if_neg hlt, prevAt_insertIdx_new hr, haddr]; rfl
  · show t.length + 1 = _
    rw [hlen, h.length]

/-- The tower `insert` adds: a new node with the pair and the height drawn. -/
def newTower (t : SkipList S) (score : S) (member : Bytes) : Tower S where
  addr := t.fresh
  score := score
  member := member
  height := (t.rng 0).val

variable [LinearOrder S]

/-- **`insert`** puts a pair that is not there in its place. -/
theorem Held.insert (h : Held t row) {k : S ×ₗ Bytes} (hk : k = toLex (score, member))
    (hr : r ≤ row.length)
    (hrank : ∀ (p : ℕ) (f : Tower S), row[p]? = some f → (f.key < k ↔ p < r)) :
    Held (t.insert score member).1 (row.insertIdx r (newTower t score member)) := by
  subst hk
  have hlevel := h.level
  have hfound : Found t row r (t.search (fun rank l n => if precedes score member n
      then some (rank + l.span) else none) t.level (t.head, (0 : UInt32))) := by
    -- the descent passes the towers whose pair comes before the new one, and adds up their spans
    refine h.search_spec _ UInt32.ofNat hr hlevel.2 (fun j hj p q hpr htp ho => ?_) (Nat.zero_le r)
      fun j hj => tall_zero (by omega)
    have hpre := h.precedes_addrAt hrank ho
    by_cases hq : q ≤ r
    · obtain ⟨o, ho', -, hspan⟩ := h.linked j (by omega) p htp
      obtain rfl := ho'.unique ho
      have hlt := ho.1
      rw [if_pos (hpre.mpr hq), if_pos hq, hspan hj, ← UInt32.ofNat_add]
      simp only [gap, Option.getD_some, Nat.add_sub_cancel' hlt.le]
    · rw [if_neg (fun hc => hq (hpre.mp hc)), if_neg hq]
  exact h.place hr hfound (t.rng 0).property rfl

omit [Inhabited S] in
/-- A pair put at its rank keeps a row in order, whichever way equal pairs are ordered. -/
theorem pairwise_insertIdx_rank {R : S ×ₗ Bytes → S ×ₗ Bytes → Prop} {k : S ×ₗ Bytes}
    (hsorted : row.Pairwise fun f g => R f.key g.key) (hr : r ≤ row.length) (he : e.key = k)
    (hrank : ∀ (p : ℕ) (f : Tower S), row[p]? = some f → (f.key < k ↔ p < r))
    (hbefore : ∀ f ∈ row, f.key < k → R f.key k) (hbehind : ∀ f ∈ row, k ≤ f.key → R k f.key) :
    (row.insertIdx r e).Pairwise fun f g => R f.key g.key := by
  refine pairwise_insertIdx hsorted hr (fun p f hf hp => ?_) fun p f hf hp => ?_
  · rw [he]
    exact hbefore f (List.mem_of_getElem? hf) ((hrank p f hf).mpr hp)
  · rw [he]
    refine hbehind f (List.mem_of_getElem? hf) (not_lt.mp fun hlt => ?_)
    have := (hrank p f hf).mp hlt
    omega

/-- Where the pair is a new one, the row stays in order with each pair once. -/
theorem Inv.insert (h : Inv t row) {k : S ×ₗ Bytes} (hk : k = toLex (score, member))
    (hr : r ≤ row.length)
    (hrank : ∀ (p : ℕ) (f : Tower S), row[p]? = some f → (f.key < k ↔ p < r))
    (hnew : ∀ f ∈ row, f.key ≠ k) :
    Inv (t.insert score member).1 (row.insertIdx r (newTower t score member)) where
  toHeld := h.toHeld.insert hk hr hrank
  sorted := pairwise_insertIdx_rank h.sorted hr hk.symm hrank (fun _ _ hlt => hlt)
    fun f hf hle => lt_of_le_of_ne hle (hnew f hf).symm

end Insert

/-! ### `deleteNode` -/

section Delete

variable {update : List (Addr × Unit)} {r : ℕ} {e : Tower S}

omit [Inhabited S] in
/-- Dropping levels of the head that lead nowhere. -/
theorem trimLevel_spec (g : NodeHeap S) (head : Addr) {l : ℕ} (hl : 1 ≤ l) :
    1 ≤ trimLevel g head l ∧ trimLevel g head l ≤ l ∧
      ∀ i, trimLevel g head l ≤ i → i < l → (g.levelAt head i).forward = none := by
  induction l with
  | zero => omega
  | succ l ih =>
    unfold trimLevel
    -- the loop goes down while the head's link on the highest level is null
    split
    · next hc =>
      obtain ⟨h1, h2, h3⟩ := ih (by omega)
      refine ⟨h1, by omega, fun i hi hlt => ?_⟩
      rcases Nat.lt_succ_iff_lt_or_eq.mp hlt with hlt' | rfl
      · exact h3 i hi hlt'
      · exact hc.2
    · exact ⟨hl, le_rfl, fun i hi hlt => by omega⟩

/-- What the descent of `deleteNode` found. -/
def FoundBefore (t : SkipList S) (row : List (Tower S)) (r : ℕ) (update : List (Addr × Unit)) :
    Prop :=
  update.length = t.level ∧ ∀ i < t.level, ∃ q, IsLast (Tall t.head row i) r q ∧
    update[i]? = some (addrAt t.head row q, ())

/-- Up to position `r` the rows with and without the tower agree. -/
theorem isLast_insertIdx {head : Addr} {row : List (Tower S)} (hr : r ≤ row.length) {i q : ℕ} :
    IsLast (Tall head (row.insertIdx r e) i) r q ↔ IsLast (Tall head row i) r q := by
  have heq : ∀ m ≤ r, (Tall head (row.insertIdx r e) i m ↔ Tall head row i m) := fun m hm => by
    rw [tall_insertIdx hr, insertAt, if_pos hm]
  constructor
  · rintro ⟨h1, h2, h3⟩
    exact ⟨h1, (heq q h1).mp h2, fun m hm hle ht => h3 m hm hle ((heq m hle).mpr ht)⟩
  · rintro ⟨h1, h2, h3⟩
    exact ⟨h1, (heq q h1).mpr h2, fun m hm hle ht => h3 m hm hle ((heq m hle).mp ht)⟩

/-- The addresses of the row without the tower are distinct, and not the tower's. -/
theorem Held.addrAt_inj_without (h : Held t (row.insertIdx r e)) (hr : r ≤ row.length) {p q : ℕ}
    (hp : p ≤ row.length) (hq : q ≤ row.length)
    (heq : addrAt t.head row p = addrAt t.head row q) : p = q := by
  have hlen := List.length_insertIdx_of_le_length hr e
  rw [← addrAt_insertIdx_shift (e := e) hr, ← addrAt_insertIdx_shift (e := e) hr q] at heq
  exact Chain.shift_inj.mp
    (h.addrAt_inj (hlen ▸ Chain.shift_le hp) (hlen ▸ Chain.shift_le hq) heq)

/-- None of them is the tower's. -/
theorem Held.addrAt_ne (h : Held t (row.insertIdx r e)) (hr : r ≤ row.length) {p : ℕ}
    (hp : p ≤ row.length) : addrAt t.head row p ≠ e.addr := by
  intro heq
  have hlen := List.length_insertIdx_of_le_length hr e
  rw [← @addrAt_insertIdx_new S _ t.head row e r hr, ← addrAt_insertIdx_shift (e := e) hr] at heq
  exact Chain.shift_ne_new (h.addrAt_inj (hlen ▸ Chain.shift_le hp) (by omega) heq)

/-- The loop of `deleteNodeInternal` takes the tower out of every level. -/
theorem Held.linked_unlink (h : Held t (row.insertIdx r e)) (hr : r ≤ row.length)
    (hf : FoundBefore t (row.insertIdx r e) r update) {i : ℕ} (hi : i < maxLevel) :
    Linked t.head row i (i < t.level) fun a =>
      (forLevels (unlink e.addr) 0 update t.heap).levelAt a i := by
  have hlink := h.linked i hi
  rcases Nat.lt_or_ge i t.level with hlt | hge
  · obtain ⟨q, hq, hget⟩ := hf.2 i hlt
    have hq' : IsLast (Tall t.head row i) r q := (isLast_insertIdx hr).mp hq
    rw [addrAt_insertIdx_of_le hr hq.1] at hget
    have hturn := fun a => (isTurn_unlink (x := e.addr)).levelAt (i := 0) (j := i) hget t.heap
      (by
        have := h.lt_height hq.2.1
        rw [addrAt_insertIdx_of_le hr hq.1] at this
        rw [Nat.zero_add]; exact this) a
    simp only [Nat.zero_add] at hturn
    -- the tower is what `update[i]` points to exactly when it reaches the level
    have hiff : (t.heap.levelAt (addrAt t.head row q) i).forward = some e.addr ↔ i < e.height := by
      obtain ⟨o, ho, hfwd, -⟩ := hlink q hq.2.1
      rw [tall_insertIdx hr, List.length_insertIdx_of_le_length hr] at ho
      rw [addrAt_insertIdx_of_le hr hq.1] at hfwd
      constructor
      · intro heq
        by_contra he
        obtain ⟨o', ho'⟩ := Chain.exists_isNext (Tall t.head row i) row.length q
        obtain rfl := ho.unique (ho'.insert_skip hr hq' he)
        rw [hfwd, map_addrAt_shift hr] at heq
        obtain ⟨p, rfl, hp⟩ := Option.map_eq_some_iff.mp heq
        exact h.addrAt_ne hr ho'.2.1 hp
      · intro he
        obtain rfl := ho.unique (IsNext.insert_last hr hq' he)
        rw [hfwd, Option.map_some, addrAt_insertIdx_new hr]
    refine hlink.unlink hr hq' (fun p hp hpq => ?_) ?_
    · rw [hturn, if_neg]
      exact fun heq => hpq (h.addrAt_inj_without hr hp.le hq'.2.1.le heq)
    · rw [hturn, if_pos rfl]
      -- the turn of `unlink` takes the tower out, or counts it out of the span that crosses it
      by_cases he : i < e.height
      · rw [if_pos (hiff.mpr he), if_pos he]
      · rw [if_neg (fun hc => he (hiff.mp hc)), if_neg he]
  · -- above `level_` only the head has a link, and it leads nowhere
    have hzero : ∀ p, Tall t.head row i p → p = 0 := fun p hp => by
      refine Chain.shift_eq_zero.mp (h.eq_zero_of_tall (p := shift r p) hge ?_)
      rw [tall_insertIdx hr]
      exact (Chain.insertAt_shift p).mpr hp
    intro p hp
    obtain rfl := hzero p hp
    have hnone : ∀ {row' : List (Tower S)} {o}, (∀ p, Tall t.head row' i p → p = 0) →
        IsNext (Tall t.head row' i) row'.length 0 o → o = none := fun {row' o} hz ho => by
      cases o with
      | none => rfl
      | some q =>
        have h1 := hz q ho.2.2.1
        have h2 := ho.1
        omega
    obtain ⟨o, ho⟩ := Chain.exists_isNext (Tall t.head row i) row.length 0
    obtain ⟨o', ho', hfwd, -⟩ := hlink 0 (tall_zero hi)
    obtain rfl := hnone hzero ho
    obtain rfl := hnone (fun p hp => h.eq_zero_of_tall hge hp) ho'
    refine ⟨none, ho, ?_, fun hlt => by omega⟩
    have hskip := (isTurn_unlink (x := e.addr)).levelAt_of_not (i := 0) (j := i) update
      (Or.inr (by rw [hf.1]; omega)) t.heap t.head
    simp only [addrAt_zero, hskip]
    exact hfwd

/-- `deleteNodeInternal` takes the tower out of the row. On each level in use the predecessor takes the link over, and
levels that are empty at the end are given up. -/
theorem Held.deleteNodeInternal (h : Held t (row.insertIdx r e)) (hr : r ≤ row.length)
    (hf : FoundBefore t (row.insertIdx r e) r update) :
    Held (t.deleteNodeInternal e.addr update) row := by
  have hlen := List.length_insertIdx_of_le_length hr e
  have hin : e ∈ row.insertIdx r e := (List.mem_insertIdx hr).mpr (Or.inl rfl)
  have hsub : ∀ f ∈ cells t.head row, f ∈ cells t.head (row.insertIdx r e) := fun f hf => by
    rcases List.mem_cons.mp hf with rfl | hmem
    · exact List.mem_cons_self
    · exact List.mem_cons_of_mem _ ((List.mem_insertIdx hr).mpr (Or.inr hmem))
  -- the towers that stay have other addresses
  have hne : ∀ f ∈ cells t.head row, f.addr ≠ e.addr := fun f hf => by
    obtain ⟨p, hp⟩ := List.getElem?_of_mem hf
    have hpl := (List.getElem?_eq_some_iff.mp hp).1
    rw [length_cells] at hpl
    rw [← addrAt_eq hp]
    exact h.addrAt_ne hr (by omega)
  have hrow : ∀ {p f}, row[p]? = some f → f.addr = addrAt t.head row (p + 1) := fun hp =>
    (addrAt_succ hp).symm
  obtain ⟨G, hG⟩ : ∃ g, g = forLevels (unlink e.addr) 0 update t.heap := ⟨_, rfl⟩
  have hdata : G.data = t.heap.data := by rw [hG]; exact isTurn_unlink.data_forLevels _ _ _
  have hback : G.backward = t.heap.backward := by
    rw [hG]; exact isTurn_unlink.backward_forLevels _ _ _
  have hlinked : ∀ i < maxLevel, Linked t.head row i (i < t.level) fun a => G.levelAt a i :=
    fun i hi => by rw [hG]; exact h.linked_unlink hr hf hi
  -- what the node that goes leads to, and what leads back from it
  obtain ⟨next, hnext⟩ : ∃ o : Option Addr,
      o = if r < row.length then some (addrAt t.head row (r + 1)) else none := ⟨_, rfl⟩
  -- the turns of `unlink` leave the links of the node that goes
  have hforward : (G.levelAt e.addr 0).forward = next := by
    obtain ⟨q, hq, hget⟩ := hf.2 0 (by have := h.level.1; omega)
    have hturn := (isTurn_unlink (x := e.addr)).levelAt (i := 0) (j := 0) hget t.heap
      (h.lt_height hq.2.1) e.addr
    rw [← hG, if_neg (by rw [addrAt_insertIdx_of_le hr hq.1]
                         exact (h.addrAt_ne hr (le_trans hq.1 hr)).symm)] at hturn
    rw [hturn]
    have hfwd := h.forward_zero (show r + 1 ≤ (row.insertIdx r e).length by omega)
    rw [addrAt_insertIdx_new hr, hlen] at hfwd
    refine hfwd.trans ?_
    rw [hnext]
    by_cases hlt : r < row.length
    · rw [if_pos (by omega), if_pos hlt, ← Chain.shift_of_lt (show r < r + 1 by omega),
        addrAt_insertIdx_shift hr]
    · rw [if_neg (by omega), if_neg hlt]
  have hprev : G.backward e.addr = prevAt t.head row r := by
    rw [hback, h.back r e (by simp [List.getElem?_insertIdx, hr]), prevAt_insertIdx_of_le hr le_rfl]
  have hnextSome : ∀ y, next = some y → (G.data y).isSome := fun y hy => by
    rw [hnext] at hy
    split at hy
    · next hlt =>
      obtain rfl := Option.some.inj hy
      rw [addrAt_succ (List.getElem?_eq_getElem hlt), hdata,
        h.data _ (hsub _ (List.mem_cons_of_mem _ (List.getElem_mem hlt)))]
      rfl
    · cases hy
  have hbackward := fun b => backward_setBackwardIf hnextSome (prevAt t.head row r) b
  obtain ⟨level, hlevel⟩ : ∃ l, l = trimLevel (G.setBackwardIf next (prevAt t.head row r)) t.head
    t.level := ⟨_, rfl⟩
  -- the state `deleteNodeInternal` returns
  have hstate : t.deleteNodeInternal e.addr update =
      { heap := Function.update (G.setBackwardIf next (prevAt t.head row r)) e.addr none
        fresh := t.fresh
        head := t.head
        tail := if next.isSome then t.tail else prevAt t.head row r
        length := t.length - 1
        level := level
        rng := t.rng } := by
    simp only [SkipList.deleteNodeInternal, ← hG, hforward, hprev, hlevel]
  obtain ⟨hone, hle, htrim⟩ := trimLevel_spec (G.setBackwardIf next (prevAt t.head row r)) t.head
    h.level.1
  rw [← hlevel] at hone hle htrim
  rw [hstate]
  constructor
  -- a node that stays keeps its data
  · intro f hf
    show NodeHeap.data _ f.addr = _
    rw [data_update, data_setBackwardIf, Function.update_of_ne (hne f hf), hdata]
    exact h.data f (hsub f hf)
  · intro a ha
    simp only [data_update, data_setBackwardIf, hdata] at ha
    -- the node of the tower is freed, and no other
    by_cases hae : a = e.addr
    · rw [hae, Function.update_self] at ha
      cases ha
    · rw [Function.update_of_ne hae] at ha
      obtain ⟨f, hf, hfa⟩ := h.owned a ha
      refine ⟨f, ?_, hfa⟩
      rcases List.mem_cons.mp hf with rfl | hmem
      · exact List.mem_cons_self
      · rcases (List.mem_insertIdx hr).mp hmem with rfl | hmem
        · exact absurd hfa.symm hae
        · exact List.mem_cons_of_mem _ hmem
  · exact fun f hf => h.below f (hsub f hf)
  · have hcells : cells t.head (row.insertIdx r e) = (cells t.head row).insertIdx (r + 1) e := rfl
    exact (hcells ▸ h.distinct).sublist (List.sublist_insertIdx _ _ _)
  · intro f hf
    have hfh := h.heights f ((List.mem_insertIdx hr).mpr (Or.inr hf))
    refine ⟨hfh.1, ?_⟩
    show f.height ≤ level
    -- a taller tower would be a target of the head on a level given up
    by_contra hgt
    obtain ⟨p, hp⟩ := List.getElem?_of_mem hf
    have hlv := h.level.2
    have hnone := htrim (f.height - 1) (by omega) (by omega)
    rw [levelAt_setBackwardIf] at hnone
    obtain ⟨o, ho, hfwd, -⟩ := hlinked (f.height - 1) (by omega) 0 (tall_zero (by omega))
    rw [addrAt_zero] at hfwd
    rw [hnone] at hfwd
    cases o with
    | some q => cases hfwd
    | none =>
      have hpl := (List.getElem?_eq_some_iff.mp hp).1
      exact ho (p + 1) (by omega) hpl ⟨f, by simpa [cells] using hp, by omega⟩
  · have := h.level.2
    exact ⟨hone, by show level ≤ maxLevel; omega⟩
  · intro i hi
    refine (hlinked i hi).congr (fun hlt => ?_) fun p hp => ?_
    · have : i < level := hlt
      omega
    · show NodeHeap.levelAt _ _ i = _
      rw [levelAt_update_of_ne (h.addrAt_ne hr hp.le), levelAt_setBackwardIf]
  · intro p f hp
    have hpl := (List.getElem?_eq_some_iff.mp hp).1
    have hfe : f.addr ≠ e.addr := hne f (List.mem_cons_of_mem _ (List.mem_of_getElem? hp))
    show NodeHeap.backward _ f.addr = _
    -- only the tower behind the one that goes gets another backward pointer
    rw [backward_update, Function.update_of_ne hfe, hbackward, hback, hnext, hrow hp]
    -- next to the tower that went stands the one at index `r`
    have hadj : (if r < row.length then some (addrAt t.head row (r + 1)) else none)
        = some (addrAt t.head row (p + 1)) ↔ p = r := by
      constructor
      · intro heq
        split at heq
        · next hlt =>
          have := h.addrAt_inj_without hr hlt hpl (Option.some.inj heq)
          omega
        · cases heq
      · rintro rfl
        rw [if_pos hpl]
    rcases Nat.lt_trichotomy p r with hlt | rfl | hgt
    · rw [if_neg (fun hc => by have := hadj.mp hc; omega), ← hrow hp,
        h.back p f (by rw [List.getElem?_insertIdx, if_pos hlt]; exact hp),
        prevAt_insertIdx_of_le hr hlt.le]
    · rw [if_pos (hadj.mpr rfl)]
    · rw [if_neg (fun hc => by have := hadj.mp hc; omega), ← hrow hp,
        h.back (p + 1) f (by
          rw [List.getElem?_insertIdx, if_neg (by omega), if_neg (by omega)]; exact hp),
        prevAt_insertIdx_of_lt hr hgt]
  -- the tail is what stood before the tower where it was the last one
  · show (if next.isSome then t.tail else prevAt t.head row r) = _
    rw [hnext]
    by_cases hlt : r < row.length
    · rw [if_pos hlt]
      show t.tail = _
      rw [h.tail, hlen, prevAt_insertIdx_of_lt hr hlt]
    · obtain rfl : r = row.length := by omega
      rw [if_neg hlt]; rfl
  · show t.length - 1 = _
    rw [h.length, hlen, Nat.add_sub_cancel]

variable [LinearOrder S] {score : S} {member : Bytes}

/-- **`deleteNode`** takes out the tower of the pair, if there is one, and answers whether there
was. -/
theorem Held.deleteNode (h : Held t row) (hsorted : row.Pairwise fun e f => e.key ≤ f.key) {k : S ×ₗ Bytes} (hk : k = toLex (score, member))
    (hr : r ≤ row.length)
    (hrank : ∀ (p : ℕ) (f : Tower S), row[p]? = some f → (f.key < k ↔ p < r)) :
    (∃ e, row[r]? = some e ∧ e.key = k ∧ (t.deleteNode score member).2 = 1 ∧
      Held (t.deleteNode score member).1 (row.eraseIdx r)) ∨
    ((∀ f ∈ row, f.key ≠ k) ∧ t.deleteNode score member = (t, 0)) := by
  subst hk
  have hlevel := h.level
  have hfound : FoundBefore t row r (t.search (fun _ _ n => if precedes score member n
      then some () else none) t.level (t.head, ())) := by
    refine h.search_spec _ (fun _ => ()) hr hlevel.2 (fun j hj p q hpr htp ho => ?_)
      (Nat.zero_le r) fun j hj => tall_zero (by omega)
    simp only [h.precedes_addrAt hrank ho]
  obtain ⟨update, hupdate⟩ : ∃ u, u = t.search (fun _ _ n => if precedes score member n
      then some () else none) t.level (t.head, ()) := ⟨_, rfl⟩
  rw [← hupdate] at hfound
  have hfirst : update.headD (t.head, ()) = (addrAt t.head row r, ()) := by
    obtain ⟨q, hq, hget⟩ := hfound.2 0 (by omega)
    obtain rfl := isLast_zero_level h hr hq
    cases update with
    | nil => cases hget
    | cons u us => exact Option.some.inj hget
  have hfwd := h.forward_zero hr
  have hlt : ∀ {p f}, row[p]? = some f → f.key = toLex (score, member) → r ≤ p := fun hp hf => by
    by_contra hlt
    have := (hrank _ _ hp).mpr (by omega)
    rw [hf] at this
    exact lt_irrefl _ this
  unfold SkipList.deleteNode
  simp only [← hupdate, hfirst, hfwd]
  -- the candidate is the tower at index `r`, if there is one, and it is compared with the pair
  by_cases hin : r < row.length
  · have he := List.getElem?_eq_getElem hin
    obtain ⟨e, hee⟩ : ∃ e, e = row[r] := ⟨_, rfl⟩
    rw [← hee] at he
    have haddr : addrAt t.head row (r + 1) = e.addr := addrAt_succ he
    obtain ⟨hs, hm⟩ := node_eq (h.data e (List.mem_cons_of_mem _ (List.mem_of_getElem? he)))
    simp only [if_pos hin, haddr, hs, hm]
    by_cases hkey : e.key = toLex (score, member)
    · left
      obtain ⟨h1, h2⟩ := Prod.mk.inj (toLex.injective hkey)
      have hrow : (row.eraseIdx r).insertIdx r e = row := by
        rw [hee]; exact List.insertIdx_eraseIdx_getElem hin
      refine ⟨e, he, hkey, ?_⟩
      rw [if_pos (by simp [h1, h2])]
      refine ⟨rfl, ?_⟩
      rw [← hrow] at h hfound
      exact h.deleteNodeInternal (by rw [List.length_eraseIdx]; split <;> omega) hfound
    · right
      refine ⟨fun f hf hfk => ?_, ?_⟩
      · obtain ⟨p, hp⟩ := List.getElem?_of_mem hf
        have hrp := hlt hp hfk
        -- the tower at `r` does not come before the pair, and those after it come after it
        have hge := not_lt.mp fun hc => lt_irrefl r ((hrank r e he).mp hc)
        rcases Nat.eq_or_lt_of_le hrp with rfl | hgt
        · rw [he] at hp
          obtain rfl := Option.some.inj hp
          exact hkey hfk
        · have hpl := (List.getElem?_eq_some_iff.mp hp).1
          have hle := List.pairwise_iff_getElem.mp hsorted r p hin hpl hgt
          rw [← hee, (List.getElem?_eq_some_iff.mp hp).2, hfk] at hle
          exact hkey (le_antisymm hle hge)
      · rw [if_neg]
        intro hc
        simp only [Bool.and_eq_true, beq_iff_eq] at hc
        exact hkey (congrArg toLex (Prod.ext hc.1.symm hc.2))
  · right
    refine ⟨fun f hf hfk => ?_, by simp only [if_neg hin]⟩
    obtain ⟨p, hp⟩ := List.getElem?_of_mem hf
    have hpl := (List.getElem?_eq_some_iff.mp hp).1
    have := hlt hp hfk
    omega

/-- Taking a tower out keeps the rest in order. -/
theorem Inv.deleteNode (h : Inv t row) {k : S ×ₗ Bytes} (hk : k = toLex (score, member))
    (hr : r ≤ row.length)
    (hrank : ∀ (p : ℕ) (f : Tower S), row[p]? = some f → (f.key < k ↔ p < r)) :
    (∃ e, row[r]? = some e ∧ e.key = k ∧ (t.deleteNode score member).2 = 1 ∧
      Inv (t.deleteNode score member).1 (row.eraseIdx r)) ∨
    ((∀ f ∈ row, f.key ≠ k) ∧ t.deleteNode score member = (t, 0)) := by
  refine (h.toHeld.deleteNode (h.sorted.imp le_of_lt) hk hr hrank).imp_left ?_
  -- a row without one of its towers is a sublist
  rintro ⟨e, he, hkey, hone, hheld⟩
  exact ⟨e, he, hkey, hone, hheld, h.sorted.sublist (List.eraseIdx_sublist _ _)⟩

end Delete

/-! ### The constructor and `clone` -/

variable [LinearOrder S]

/-- The constructor leaves a head with 32 levels and no tower. -/
theorem inv_new (rng : ℕ → Height) : Inv (new rng : SkipList S) [] where
  data := fun e he => by
    obtain rfl := List.mem_singleton.mp he
    simp [new, NodeHeap.data]
  owned := fun a ha => by
    refine ⟨_, List.mem_singleton.mpr rfl, ?_⟩
    by_contra hne
    have hne' : a ≠ 0 := fun hz => hne hz.symm
    simp [new, NodeHeap.data, hne'] at ha
  below := fun e he => by
    obtain rfl := List.mem_singleton.mp he
    exact Nat.zero_lt_one
  distinct := List.pairwise_singleton _ _
  heights := fun e he => by cases he
  level := ⟨le_rfl, show 1 ≤ maxLevel by decide⟩
  sorted := List.Pairwise.nil
  -- on every level there is the head alone
  linked := fun i hi p hp => by
    obtain rfl : p = 0 := Nat.le_zero.mp hp.le
    refine ⟨none, fun m h1 h2 => by simp at h2; omega, ?_, fun _ => ?_⟩ <;>
      simp [new, NodeHeap.levelAt, hi, gap]
  back := fun p e he => by cases he
  tail := rfl
  length := rfl

/-- The loop of `clone`, from position `p` on: the copy, which holds smaller pairs only, gets the
rest of the row behind them. By induction on the nodes left. -/
theorem Inv.cloneLoop (h : Inv t row) (fuel : ℕ) : ∀ {p : ℕ} {copy : SkipList S}
    {copyRow : List (Tower S)}, p ≤ row.length → row.length - p ≤ fuel → Inv copy copyRow →
    (∀ f ∈ copyRow, ∀ g ∈ row.drop p, f.key < g.key) →
    ∃ row', Inv (t.cloneLoop fuel
        (if p < row.length then some (addrAt t.head row (p + 1)) else none) copy) row' ∧
      row'.map Tower.key = copyRow.map Tower.key ++ (row.drop p).map Tower.key := by
  induction fuel with
  | zero =>
    intro p copy copyRow hp hfuel hcopy _
    obtain rfl : p = row.length := by omega
    exact ⟨copyRow, by simpa [SkipList.cloneLoop] using hcopy, by simp⟩
  | succ fuel ih =>
    intro p copy copyRow hp hfuel hcopy hless
    by_cases hlt : p < row.length
    · have he := List.getElem?_eq_getElem hlt
      obtain ⟨e, hee⟩ : ∃ e, e = row[p] := ⟨_, rfl⟩
      rw [← hee] at he
      have hdrop : row.drop p = e :: row.drop (p + 1) := by
        rw [hee]; exact List.drop_eq_getElem_cons hlt
      obtain ⟨hs, hm⟩ := node_eq (h.data e (List.mem_cons_of_mem _ (List.mem_of_getElem? he)))
      have hfwd := h.forward_zero hlt
      rw [addrAt_succ he] at hfwd
      -- the pair goes to the end of the copy
      have hbelow : ∀ f ∈ copyRow, f.key < e.key := fun f hf =>
        hless f hf e (by rw [hdrop]; exact List.mem_cons_self)
      have hins := hcopy.insert (show e.key = toLex (e.score, e.member) from rfl)
        (le_refl copyRow.length) (fun q f hf => ⟨fun _ => (List.getElem?_eq_some_iff.mp hf).1,
          fun _ => hbelow f (List.mem_of_getElem? hf)⟩)
        (fun f hf => (hbelow f hf).ne)
      rw [List.insertIdx_length_self] at hins
      have hsorted := h.sorted.sublist (List.drop_sublist p row)
      rw [hdrop, List.pairwise_cons] at hsorted
      obtain ⟨row', hinv, hkeys⟩ := ih (show p + 1 ≤ row.length from hlt) (by omega) hins (by
        intro f hf g hg
        rcases List.mem_append.mp hf with hf | hf
        · exact (hbelow f hf).trans (hsorted.1 g hg)
        · obtain rfl := List.mem_singleton.mp hf
          exact hsorted.1 g hg)
      refine ⟨row', ?_, ?_⟩
      · rw [if_pos hlt, addrAt_succ he]
        simp only [SkipList.cloneLoop, hs, hm, hfwd]
        exact hinv
      · rw [hkeys, hdrop]
        simp [newTower, Tower.key]
    · obtain rfl : p = row.length := by omega
      exact ⟨copyRow, by simpa [SkipList.cloneLoop] using hcopy, by simp⟩

/-- **`clone`** holds the same pairs. -/
theorem Inv.clone (h : Inv t row) (rng : ℕ → Height) :
    ∃ row', Inv (t.clone rng) row' ∧ row'.map Tower.key = row.map Tower.key := by
  have hfwd := h.forward_zero (Nat.zero_le row.length)
  rw [addrAt_zero] at hfwd
  obtain ⟨row', hinv, hkeys⟩ := h.cloneLoop row.length (Nat.zero_le _) (by omega)
    (inv_new rng) (fun f hf => by cases hf)
  refine ⟨row', ?_, by simpa using hkeys⟩
  unfold SkipList.clone
  rw [h.length, hfwd]
  exact hinv

end Ops

end SkipList
end RedisDb
