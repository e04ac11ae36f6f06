import Mathlib.Data.List.Lex
import Mathlib.Data.Prod.Lex
import RedisDb.Storage.SkipListLinks

/-!
# The representation invariant of `SkipList`

`Held` says that the heap holds the links of a row of towers, on all levels, with the backward pointers, the tail and
the length that belong to it, and `Inv` that the row is sorted too, no pair standing in it twice.

The row is the abstract value of a skip list: a list of towers, each with an address, a pair and a height. Position 0
is the head and position `p + 1` the tower at index `p`, so that a rank is a position. The links of level `i` are
those of the towers of the row that reach it (`Tall`), which is the subject of `Lib.Chain`: the next one, the last one
before a position, and what an insertion does to both.

`Held.search_spec` says where a descent ends: at level `i`, on the last node that reaches it among the first `r`
nodes, if the descent passes exactly the first `r` nodes. Every search of the source is of this kind, with a rank for
each: the searches of `insert`, `deleteNode` and `getRank` pass the nodes before a pair, and the one of
`getElementByRank` passes those up to a rank. The induction is on the levels, and what carries it is that the walk on
a level ends on a tower that reaches the lower levels too.
-/

namespace RedisDb

open Chain (IsNext IsLast gap shift insertAt)

variable {S : Type}

namespace SkipList

open NodeHeap

/-! ### The invariant -/

/-- The pair of a tower, ordered by score and then by member. -/
def Tower.key (e : Tower S) : S ×ₗ Bytes := toLex (e.score, e.member)

/-- What stands before position `p` of the row, as a backward pointer says it: nothing before the
first tower. -/
def prevAt [Inhabited S] (head : Addr) (row : List (Tower S)) (p : ℕ) : Option Addr :=
  if p = 0 then none else some (addrAt head row p)

section Invariant

variable [Inhabited S]

/-- What stands before a position in front of the new tower, or before the new tower itself, stays. -/
theorem prevAt_insertIdx_of_le {head : Addr} {row : List (Tower S)} {e : Tower S} {r p : ℕ}
    (hr : r ≤ row.length) (hp : p ≤ r) :
    prevAt head (row.insertIdx r e) p = prevAt head row p := by
  rw [prevAt, addrAt_insertIdx_of_le hr hp]; rfl

/-- Before the position behind the new tower stands the new tower. -/
theorem prevAt_insertIdx_new {head : Addr} {row : List (Tower S)} {e : Tower S} {r : ℕ}
    (hr : r ≤ row.length) : prevAt head (row.insertIdx r e) (r + 1) = some e.addr := by
  rw [prevAt, if_neg (by omega), addrAt_insertIdx_new hr]

/-- What is further behind has moved by one position, with what stands before it. -/
theorem prevAt_insertIdx_of_lt {head : Addr} {row : List (Tower S)} {e : Tower S} {r p : ℕ}
    (hr : r ≤ row.length) (hp : r < p) :
    prevAt head (row.insertIdx r e) (p + 1) = prevAt head row p := by
  rw [prevAt, prevAt, if_neg (by omega), if_neg (by omega), ← Chain.shift_of_lt hp,
    addrAt_insertIdx_shift hr]

/-- The heap of `t` holds the links of the row. -/
structure Held (t : SkipList S) (row : List (Tower S)) : Prop where
  /-- The nodes of the row are where it says, the head with 32 levels before them. -/
  data : ∀ e ∈ cells t.head row, t.heap.data e.addr = some (e.score, e.member, e.height)
  /-- No other node is allocated. -/
  owned : ∀ a, (t.heap.data a).isSome → ∃ e ∈ cells t.head row, e.addr = a
  below : ∀ e ∈ cells t.head row, e.addr < t.fresh
  distinct : (cells t.head row).Pairwise fun e f => e.addr ≠ f.addr
  /-- No level at or above `level_` is in use. -/
  heights : ∀ e ∈ row, 1 ≤ e.height ∧ e.height ≤ t.level
  level : 1 ≤ t.level ∧ t.level ≤ maxLevel
  /-- Spans are kept up below `level_`; the head's spans above it are stale. -/
  linked : ∀ i < maxLevel, Linked t.head row i (i < t.level) fun a => t.heap.levelAt a i
  back : ∀ (p : ℕ) (e : Tower S), row[p]? = some e → t.heap.backward e.addr = prevAt t.head row p
  tail : t.tail = prevAt t.head row row.length
  length : t.length = row.length

variable {t : SkipList S} {row : List (Tower S)}

/-- Addresses determine positions. -/
theorem Held.addrAt_inj (h : Held t row) {p q : ℕ} (hp : p ≤ row.length) (hq : q ≤ row.length)
    (heq : addrAt t.head row p = addrAt t.head row q) : p = q := by
  have hp' : p < (cells t.head row).length := by rw [length_cells]; omega
  have hq' : q < (cells t.head row).length := by rw [length_cells]; omega
  rw [addrAt_eq (List.getElem?_eq_getElem hp'), addrAt_eq (List.getElem?_eq_getElem hq')] at heq
  -- two positions with one address would be two cells that `distinct` tells apart
  have hpair := List.pairwise_iff_getElem.mp h.distinct
  rcases Nat.lt_trichotomy p q with hlt | rfl | hgt
  · exact absurd heq (hpair p q hp' hq' hlt)
  · rfl
  · exact absurd heq.symm (hpair q p hq' hp' hgt)

/-- The node of a position has the pair and the height of the tower there. -/
theorem Held.data_addrAt (h : Held t row) {p : ℕ} {e : Tower S}
    (he : (cells t.head row)[p]? = some e) :
    t.heap.data (addrAt t.head row p) = some (e.score, e.member, e.height) := by
  rw [addrAt_eq he]; exact h.data e (List.mem_of_getElem? he)

/-- A tower that reaches a level has a link there. -/
theorem Held.lt_height (h : Held t row) {i p : ℕ} (ht : Tall t.head row i p) :
    i < t.heap.height (addrAt t.head row p) := by
  obtain ⟨e, he, hi⟩ := ht
  rw [height_eq (h.data_addrAt he)]; exact hi

/-- Every tower reaches level 0. -/
theorem Held.tall_zero_level (h : Held t row) {p : ℕ} (hp : p ≤ row.length) :
    Tall t.head row 0 p := tall_of_heights (fun e he => (h.heights e he).1) hp

/-- Level 0 leads to the next position. -/
theorem Held.forward_zero (h : Held t row) {p : ℕ} (hp : p ≤ row.length) :
    (t.heap.levelAt (addrAt t.head row p) 0).forward
      = if p < row.length then some (addrAt t.head row (p + 1)) else none :=
  (h.linked 0 (by decide)).forward_zero (fun e he => (h.heights e he).1) hp

/-- Above `level_` only the head has links. -/
theorem Held.eq_zero_of_tall (h : Held t row) {i p : ℕ} (hi : t.level ≤ i)
    (ht : Tall t.head row i p) : p = 0 := by
  cases p with
  | zero => rfl
  | succ p =>
    obtain ⟨e, he, hlt⟩ := ht
    have := (h.heights e (List.mem_of_getElem? he)).2
    omega

/-- So the last one among the first `r` at level 0 is the one at position `r`. -/
theorem isLast_zero_level (h : Held t row) {r q : ℕ} (hr : r ≤ row.length)
    (hq : IsLast (Tall t.head row 0) r q) : q = r :=
  hq.unique ⟨le_rfl, h.tall_zero_level hr, fun m h1 h2 => by omega⟩

/-! ### The search -/

section SearchSpec

variable {α : Type} (go : α → SkipListLevel → SkipListNode S → Option α) (acc : ℕ → α) {r : ℕ}

/-- The walk along one level ends on the last tower that reaches it among the first `r`, if `go`
lets pass exactly the towers up to position `r` and accumulates `acc`. -/
theorem Held.walk_spec (h : Held t row) (hr : r ≤ row.length) {i : ℕ} (hi : i < maxLevel)
    (hgo : ∀ p q, p ≤ r → Tall t.head row i p →
      IsNext (Tall t.head row i) row.length p (some q) →
      go (acc p) (t.heap.levelAt (addrAt t.head row p) i) (t.heap.node (addrAt t.head row q))
        = if q ≤ r then some (acc q) else none)
    {p : ℕ} (hp : p ≤ r) (ht : Tall t.head row i p) :
    ∃ q, p ≤ q ∧ IsLast (Tall t.head row i) r q ∧
      t.walk go i (addrAt t.head row p, acc p) = (addrAt t.head row q, acc q) := by
  refine Chain.chase_spec (fun p => (addrAt t.head row p, acc p)) hr ?_ hp ht
    (by rw [h.length]; omega)
  -- one step of the walk: along a link of the level, if `go` lets the tower there pass
  intro p o hpr htp ho
  obtain ⟨o', ho', hfwd, -⟩ := h.linked i hi p htp
  obtain rfl := ho'.unique ho
  simp only [advance, hfwd]
  cases o' with
  | none => rfl
  | some q =>
    simp only [Option.map_some, hgo p q hpr htp ho]
    by_cases hq : q ≤ r <;> simp [Option.filter, hq]

/-- The descent: at each level the last tower that reaches it among the first `r`. By induction on
the levels; the walk starts where the one above ended, on a tower that reaches the lower level too. -/
theorem Held.search_spec (h : Held t row) (hr : r ≤ row.length) {i : ℕ} (hi : i ≤ maxLevel)
    (hgo : ∀ j < i, ∀ p q, p ≤ r → Tall t.head row j p →
      IsNext (Tall t.head row j) row.length p (some q) →
      go (acc p) (t.heap.levelAt (addrAt t.head row p) j) (t.heap.node (addrAt t.head row q))
        = if q ≤ r then some (acc q) else none)
    {p : ℕ} (hp : p ≤ r) (ht : ∀ j < i, Tall t.head row j p) :
    (t.search go i (addrAt t.head row p, acc p)).length = i ∧
      ∀ j < i, ∃ q, IsLast (Tall t.head row j) r q ∧
        (t.search go i (addrAt t.head row p, acc p))[j]? = some (addrAt t.head row q, acc q) := by
  induction i generalizing p with
  | zero => exact ⟨rfl, fun j hj => by omega⟩
  | succ i ih =>
    obtain ⟨q, hpq, hlast, hwalk⟩ :=
      h.walk_spec go acc hr (by omega) (hgo i (by omega)) hp (ht i (by omega))
    obtain ⟨hlen, hrec⟩ := ih (by omega) (fun j hj => hgo j (by omega)) hlast.1
      fun j hj => hlast.2.1.mono (by omega)
    -- the entry of level `i` is appended behind those of the levels below it
    simp only [search, hwalk]
    refine ⟨by rw [List.length_append, hlen]; rfl, fun j hj => ?_⟩
    rcases Nat.lt_succ_iff_lt_or_eq.mp hj with hlt | rfl
    · obtain ⟨q', hq', hget⟩ := hrec j hlt
      exact ⟨q', hq', by rw [List.getElem?_append_left (by omega)]; exact hget⟩
    · exact ⟨q, hlast, by rw [List.getElem?_append_right (by omega), hlen]; simp⟩

/-- The descent ends at position `r` of level 0, where every position is reached. -/
theorem Held.search_headD (h : Held t row) (hr : r ≤ row.length)
    (hgo : ∀ j < t.level, ∀ p q, p ≤ r → Tall t.head row j p →
      IsNext (Tall t.head row j) row.length p (some q) →
      go (acc p) (t.heap.levelAt (addrAt t.head row p) j) (t.heap.node (addrAt t.head row q))
        = if q ≤ r then some (acc q) else none) :
    (t.search go t.level (t.head, acc 0)).headD (t.head, acc 0) = (addrAt t.head row r, acc r) := by
  have hlevel := h.level
  obtain ⟨-, hfound⟩ := h.search_spec go acc hr hlevel.2 hgo (Nat.zero_le r) fun j hj => tall_zero (by omega)
  obtain ⟨q, hq, hget⟩ := hfound 0 hlevel.1
  obtain rfl := isLast_zero_level h hr hq
  rw [addrAt_zero] at hget
  rw [← List.head?_eq_getElem?] at hget
  rw [List.headD_eq_head?_getD, hget, Option.getD_some]

end SearchSpec

/-! ### Where a pair belongs -/

/-- In a list in which what satisfies `q` comes first, it takes up the positions before some `r`. -/
theorem exists_cut {β : Type} {q : β → Prop} [DecidablePred q] : ∀ {l : List β},
    l.Pairwise (fun e f => q f → q e) →
    ∃ r ≤ l.length, ∀ (p : ℕ) (e : β), l[p]? = some e → (q e ↔ p < r)
  | [], _ => ⟨0, le_rfl, fun p e he => by cases he⟩
  | e₀ :: l, h => by
    rw [List.pairwise_cons] at h
    by_cases hq : q e₀
    · obtain ⟨r, hr, hiff⟩ := exists_cut h.2
      refine ⟨r + 1, Nat.succ_le_succ hr, fun p e he => ?_⟩
      cases p with
      | zero => obtain rfl := Option.some.inj he; exact ⟨fun _ => by omega, fun _ => hq⟩
      | succ p => rw [hiff p e (by simpa using he)]; omega
    · refine ⟨0, Nat.zero_le _, fun p e he => ⟨fun hqe => absurd ?_ hq, fun hlt => by omega⟩⟩
      cases p with
      | zero => obtain rfl := Option.some.inj he; exact hqe
      | succ p => exact h.1 e (List.mem_of_getElem? (by simpa using he)) hqe

variable [LinearOrder S]

/-- The row is in order, each pair once. -/
structure Inv (t : SkipList S) (row : List (Tower S)) : Prop extends Held t row where
  sorted : row.Pairwise fun e f => e.key < f.key

omit [Inhabited S] in
/-- The comparison of `insert` and `deleteNode` is the order of the pairs: by score, and by member where the scores
are equal. -/
theorem precedes_iff {score : S} {member : Bytes} {n : SkipListNode S} :
    precedes score member n = true ↔ toLex (n.score, n.member) < toLex (score, member) := by
  simp [precedes, Prod.Lex.toLex_lt_toLex]

omit [Inhabited S] in
/-- In a sorted row the towers before a pair come first. -/
theorem exists_rank {k : S ×ₗ Bytes} {row : List (Tower S)} (h : row.Pairwise fun e f => e.key ≤ f.key) :
    ∃ r ≤ row.length, ∀ (p : ℕ) (e : Tower S), row[p]? = some e → (e.key < k ↔ p < r) :=
  exists_cut (h.imp fun hle hlt => hle.trans_lt hlt)

/-- What the comparison of `insert` and `deleteNode` says of the next node. -/
theorem Held.precedes_addrAt (h : Held t row) {score : S} {member : Bytes} {r : ℕ}
    (hrank : ∀ (p : ℕ) (e : Tower S), row[p]? = some e → (e.key < toLex (score, member) ↔ p < r))
    {i p q : ℕ} (ho : IsNext (Tall t.head row i) row.length p (some q)) :
    precedes score member (t.heap.node (addrAt t.head row q)) = true ↔ q ≤ r := by
  obtain ⟨hpq, -, ⟨e, he, -⟩, -⟩ := ho
  obtain ⟨hs, hm⟩ := node_eq (h.data_addrAt he)
  -- position `q` is the tower at index `q - 1`
  obtain ⟨q, rfl⟩ : ∃ k, q = k + 1 := ⟨q - 1, by omega⟩
  rw [precedes_iff, hs, hm, show toLex (e.score, e.member) = e.key from rfl,
    hrank q e (by simpa [cells] using he)]
  omega

end Invariant

end SkipList
end RedisDb
