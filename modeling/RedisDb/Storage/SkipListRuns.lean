import Mathlib.Data.Finset.Card
import RedisDb.Storage.SkipListOps
import RedisDb.Storage.SkipListSearch

/-!
# Skip lists over whole runs

`Reachable t s` says that `t` is what a run of insertions, deletions and clones leaves, and `s` the
set of pairs the same run leaves. `Reachable.represents` carries the invariant along, and
`reachable_spec` reads off what is found by following the pointers: the chains, the spans, the
backward pointers and the answers of `deleteNode`.

Spans of levels not in use are stale, as `stale_span` shows: `insert` sets the head's span of a level
when it opens it.
-/

namespace RedisDb

open Chain (IsNext IsLast gap)

variable {S : Type}

namespace SkipList

open NodeHeap

/-! ### Following the pointers -/

/-- The nodes met from a pointer on, `fuel` of them at most. -/
def follow (next : Addr → Option Addr) : ℕ → Option Addr → List Addr
  | fuel + 1, some a => a :: follow next fuel (next a)
  | _, _ => []

/-- If one more step meets no further node, then the last node points nowhere. By induction on the steps. -/
theorem follow_ends {next : Addr → Option Addr} (fuel : ℕ) : ∀ {o : Option Addr},
    follow next (fuel + 1) o = follow next fuel o → ∀ a ∈ (follow next fuel o).getLast?, next a = none := by
  induction fuel with
  | zero => exact fun _ _ ha => absurd ha nofun
  | succ fuel ih =>
    intro o h a ha
    cases o with
    | none => cases ha
    | some b =>
      have hrest : follow next (fuel + 1) (next b) = follow next fuel (next b) := (List.cons.inj h).2
      replace ha : a ∈ (b :: follow next fuel (next b)).getLast? := ha
      cases hnodes : follow next fuel (next b) with
      | nil =>
        -- the node is the last one, so a step from it meets nothing
        obtain rfl : b = a := by rwa [hnodes, List.getLast?_singleton, Option.mem_some] at ha
        cases hb : next b with
        | none => rfl
        | some c =>
          rw [hnodes, hb] at hrest
          cases hrest
      | cons c nodes =>
        refine ih hrest a ?_
        rwa [hnodes, List.getLast?_cons_cons, ← hnodes] at ha

section Views

variable [Inhabited S]

/-- The chain of level `i` from the head. -/
def chain (t : SkipList S) (i : ℕ) : List Addr :=
  follow (fun a => (t.heap.levelAt a i).forward) t.length (t.heap.levelAt t.head i).forward

/-- The chain of the backward pointers from the tail. -/
def backChain (t : SkipList S) : List Addr := follow t.heap.backward t.length t.tail

/-- The pair of a node. -/
def pair (t : SkipList S) (a : Addr) : S × Bytes := ((t.heap.node a).score, (t.heap.node a).member)

/-- The span of level `i` at position `p` of the level-0 chain (0 for the head) is the number of
level-0 steps to the node the level points to, or to the end of the list. -/
def SpanExact (t : SkipList S) (p i : ℕ) : Prop :=
  let nodes := t.head :: t.chain 0
  ∀ a, nodes[p]? = some a → i < t.heap.height a →
    match (t.heap.levelAt a i).forward with
    | some b => nodes[p + (t.heap.levelAt a i).span.toNat]? = some b
    | none => p + (t.heap.levelAt a i).span.toNat = (t.chain 0).length

/-- No pointer of a level in use leads `2^32` or more nodes ahead. -/
def LinksShort (t : SkipList S) : Prop :=
  let nodes := t.head :: t.chain 0
  ∀ i < t.level, ∀ (p q : ℕ) (a b : Addr), nodes[p]? = some a → i < t.heap.height a →
    (t.heap.levelAt a i).forward = some b → nodes[q]? = some b → q < p + 2 ^ 32

end Views

section Chains

variable [Inhabited S] {t : SkipList S} {row : List (Tower S)}

/-- From position `p` on, level `i` visits the later towers that reach it. -/
theorem Held.follow_eq (h : Held t row) {i : ℕ} (hi : i < maxLevel) (fuel : ℕ) : ∀ {p : ℕ},
    Tall t.head row i p → row.length - p ≤ fuel →
    follow (fun a => (t.heap.levelAt a i).forward) fuel
        (t.heap.levelAt (addrAt t.head row p) i).forward
      = ((row.drop p).filter fun e => i < e.height).map Tower.addr := by
  -- a tower after `p` that reaches the level, as a position
  have htall : ∀ {m e}, row[m]? = some e → i < e.height → Tall t.head row i (m + 1) :=
    fun {m e} hm he => ⟨e, by simpa [cells] using hm, he⟩
  induction fuel with
  | zero =>
    intro p hp hfuel
    rw [List.drop_eq_nil_of_le (by omega)]; rfl
  | succ fuel ih =>
    intro p hp hfuel
    obtain ⟨o, ho, hfwd, -⟩ := h.linked i hi p hp
    simp only [hfwd]
    cases o with
    | none =>
      -- nothing behind `p` reaches the level
      have hnil : (row.drop p).filter (fun e => i < e.height) = [] := by
        refine List.filter_eq_nil_iff.mpr fun e he hlt => ?_
        obtain ⟨m, hm⟩ := List.getElem?_of_mem he
        rw [List.getElem?_drop] at hm
        have hml := (List.getElem?_eq_some_iff.mp hm).1
        exact ho (p + m + 1) (by omega) hml (htall hm (by simpa using hlt))
      rw [hnil]; rfl
    | some q =>
      obtain ⟨hpq, hqn, hq, hbetween⟩ := ho
      obtain ⟨q, rfl⟩ : ∃ k, q = k + 1 := ⟨q - 1, by omega⟩
      have hget := List.getElem?_eq_getElem hqn
      obtain ⟨e, he, hlt⟩ := hq
      have he' : row[q]? = some e := by simpa [cells] using he
      obtain rfl : row[q] = e := Option.some.inj (hget.symm.trans he')
      have hsplit : row.drop p = (row.drop p).take (q - p) ++ row[q] :: row.drop (q + 1) := by
        rw [← List.drop_eq_getElem_cons hqn]
        conv_lhs => rw [← List.take_append_drop (q - p) (row.drop p)]
        rw [List.drop_drop, show p + (q - p) = q by omega]
      -- the towers the link passes over do not reach the level
      have hskip : ((row.drop p).take (q - p)).filter (fun e => i < e.height) = [] := by
        refine List.filter_eq_nil_iff.mpr fun e he hlt => ?_
        obtain ⟨m, hm⟩ := List.getElem?_of_mem he
        have hmq : m < q - p := by
          have := (List.getElem?_eq_some_iff.mp hm).1
          rw [List.length_take] at this
          omega
        rw [List.getElem?_take_of_lt hmq, List.getElem?_drop] at hm
        exact hbetween (p + m + 1) (by omega) (by omega) (htall hm (by simpa using hlt))
      rw [hsplit, List.filter_append, hskip, List.nil_append,
        List.filter_cons_of_pos (by simpa using hlt), List.map_cons, Option.map_some, follow,
        ih (htall hget hlt) (by omega), addrAt_succ hget]

theorem Held.chain_eq (h : Held t row) {i : ℕ} (hi : i < maxLevel) :
    t.chain i = (row.filter fun e => i < e.height).map Tower.addr := by
  have := h.follow_eq hi t.length (tall_zero hi) (by rw [h.length]; omega)
  rwa [List.drop_zero] at this

theorem Held.chain_zero (h : Held t row) : t.chain 0 = row.map Tower.addr := by
  rw [h.chain_eq (by decide), List.filter_eq_self.mpr]
  exact fun e he => decide_eq_true (h.heights e he).1

theorem Held.height_eq (h : Held t row) {e : Tower S} (he : e ∈ row) :
    t.heap.height e.addr = e.height :=
  NodeHeap.height_eq (h.data e (List.mem_cons_of_mem _ he))

theorem Held.pair_eq (h : Held t row) {e : Tower S} (he : e ∈ row) :
    t.pair e.addr = (e.score, e.member) := by
  obtain ⟨hs, hm⟩ := node_eq (h.data e (List.mem_cons_of_mem _ he))
  rw [pair, hs, hm]

/-- The nodes of level 0, with the head in front, by position. -/
theorem Held.getElem?_nodes (h : Held t row) (p : ℕ) :
    (t.head :: t.chain 0)[p]? = ((cells t.head row)[p]?).map Tower.addr := by
  rw [h.chain_zero, ← List.getElem?_map]; rfl

/-- The backward pointers from position `p` back. By induction on the position. -/
theorem Held.follow_backward (h : Held t row) (fuel : ℕ) : ∀ {p : ℕ}, p ≤ row.length → p ≤ fuel →
    follow t.heap.backward fuel (prevAt t.head row p) = ((row.take p).map Tower.addr).reverse := by
  induction fuel with
  | zero =>
    intro p hp hfuel
    obtain rfl : p = 0 := by omega
    rfl
  | succ fuel ih =>
    intro p hp hfuel
    cases p with
    | zero => rfl
    | succ p =>
      have hget := List.getElem?_eq_getElem (show p < row.length from hp)
      -- one step back, and the induction hypothesis for the rest
      rw [prevAt, if_neg (by omega), addrAt_succ hget, follow, h.back p _ hget,
        ih (by omega) (by omega), List.take_add_one, hget]
      simp only [Option.toList_some, List.map_append, List.map_cons, List.map_nil,
        List.reverse_append, List.reverse_cons, List.reverse_nil, List.nil_append,
        List.singleton_append]

omit [Inhabited S] in
/-- A pointer of a list of fewer than `2^32` nodes leads fewer than `2^32` nodes ahead. -/
theorem linksShort_of_lt (hsize : (t.chain 0).length < 2 ^ 32) : t.LinksShort := by
  intro i _ p q a b _ _ _ hb
  have hq := (List.getElem?_eq_some_iff.mp hb).1
  rw [List.length_cons] at hq
  omega

/-- Positions of the row are positions of the level-0 chain. -/
theorem Held.linksShort_iff (h : Held t row) : t.LinksShort ↔ Fits t row := by
  have hlevel := h.level.2
  -- position and node are the same thing, with the head at 0
  have hnode : ∀ {p : ℕ}, p ≤ row.length → (t.head :: t.chain 0)[p]? = some (addrAt t.head row p) := by
    intro p hp
    have hget := List.getElem?_eq_getElem (show p < (cells t.head row).length by rw [length_cells]; omega)
    rw [h.getElem?_nodes, addrAt_eq hget, hget]
    rfl
  constructor
  · intro hshort i hi p q hp hq
    obtain ⟨o, ho, hforward, -⟩ := h.linked i (by omega) p hp
    obtain rfl := ho.unique hq
    exact hshort i hi p q _ _ (hnode hp.le) (h.lt_height hp) hforward (hnode hq.2.1)
  · intro hfits i hi p q a b ha hheight hforward hb
    have hle : ∀ {p : ℕ} {a : Addr}, (t.head :: t.chain 0)[p]? = some a → p ≤ row.length := fun {p a} hget => by
      have hlt := (List.getElem?_eq_some_iff.mp hget).1
      rw [List.length_cons, h.chain_zero, List.length_map] at hlt
      omega
    have hpa := Option.some.inj (ha.symm.trans (hnode (hle ha)))
    have hqb := Option.some.inj (hb.symm.trans (hnode (hle hb)))
    have hget := List.getElem?_eq_getElem (show p < (cells t.head row).length by
      rw [length_cells]; exact Nat.lt_succ_of_le (hle ha))
    have hp : Tall t.head row i p := by
      refine ⟨_, hget, ?_⟩
      rwa [hpa, NodeHeap.height_eq (h.data_addrAt hget)] at hheight
    obtain ⟨o, ho, hnext, -⟩ := h.linked i (by omega) p hp
    rw [hpa, hnext] at hforward
    -- the pointer leads to the next tower that is tall enough, and a node is at one position only
    obtain ⟨q', rfl, hq'⟩ := Option.map_eq_some_iff.mp hforward
    obtain rfl := h.addrAt_inj ho.2.1 (hle hb) (hq'.trans hqb)
    exact hfits i hi p q' hp ho

/-- The chain of a level ends where a forward pointer is null. -/
theorem Held.chain_ends (h : Held t row) {i : ℕ} (hi : i < maxLevel) {a : Addr}
    (ha : a ∈ (t.head :: t.chain i).getLast?) : (t.heap.levelAt a i).forward = none := by
  have hfollow (fuel : ℕ) (hfuel : row.length ≤ fuel) := h.follow_eq hi fuel (tall_zero hi) (by omega)
  have hfull : follow (fun a => (t.heap.levelAt a i).forward) (t.length + 1 + 1) (some t.head)
      = follow (fun a => (t.heap.levelAt a i).forward) (t.length + 1) (some t.head) :=
    congrArg (t.head :: ·) ((hfollow _ (by rw [h.length]; omega)).trans (hfollow _ h.length.ge).symm)
  exact follow_ends (t.length + 1) hfull a ha

/-- The chain of the backward pointers ends where one is null. -/
theorem Held.backChain_ends (h : Held t row) {a : Addr} (ha : a ∈ t.backChain.getLast?) :
    t.heap.backward a = none := by
  refine follow_ends t.length ?_ a ha
  rw [h.tail, h.follow_backward _ le_rfl (by rw [h.length]; omega), h.follow_backward _ le_rfl h.length.ge]

end Chains

/-! ### Runs -/

section Runs

variable [Inhabited S] [LinearOrder S]

/-- What a run of insertions of new pairs, deletions and clones leaves, and the set of pairs that
belongs to it. -/
inductive Reachable : SkipList S → Finset (S × Bytes) → Prop where
  | new (rng : ℕ → Height) : Reachable (new rng) ∅
  | insert {t s} (score : S) (member : Bytes) : Reachable t s → (score, member) ∉ s →
      Reachable (t.insert score member).1 (Insert.insert (score, member) s)
  | deleteNode {t s} (score : S) (member : Bytes) : Reachable t s →
      Reachable (t.deleteNode score member).1 (s.erase (score, member))
  | clone {t s} (rng : ℕ → Height) : Reachable t s → Reachable (t.clone rng) s

/-- The row holds the pairs of the set. -/
structure Represents (t : SkipList S) (row : List (Tower S)) (s : Finset (S × Bytes)) : Prop where
  inv : Inv t row
  mem_iff : ∀ x, toLex x ∈ row.map Tower.key ↔ x ∈ s

variable {t : SkipList S} {row : List (Tower S)} {s : Finset (S × Bytes)}

theorem Represents.insert (h : Represents t row s) {score : S} {member : Bytes}
    (hnew : (score, member) ∉ s) {r : ℕ} (hr : r ≤ row.length)
    (hrank : ∀ (p : ℕ) (f : Tower S), row[p]? = some f → (f.key < toLex (score, member) ↔ p < r)) :
    Represents (t.insert score member).1 (row.insertIdx r (newTower t score member))
      (Insert.insert (score, member) s) := by
  refine ⟨h.inv.insert rfl hr hrank fun f hf hk => hnew ?_, fun x => ?_⟩
  · rw [← h.mem_iff, ← hk]; exact List.mem_map_of_mem hf
  · simp only [List.mem_map, List.mem_insertIdx hr, Finset.mem_insert, ← h.mem_iff]
    constructor
    · rintro ⟨f, rfl | hf, hk⟩
      · exact Or.inl (toLex.injective hk).symm
      · exact Or.inr ⟨f, hf, hk⟩
    · rintro (rfl | ⟨f, hf, hk⟩)
      · exact ⟨_, Or.inl rfl, rfl⟩
      · exact ⟨f, Or.inr hf, hk⟩

theorem Represents.exists_insert (h : Represents t row s) {score : S} {member : Bytes}
    (hnew : (score, member) ∉ s) :
    ∃ row', Represents (t.insert score member).1 row' (Insert.insert (score, member) s) := by
  obtain ⟨r, hr, hrank⟩ := exists_rank (k := toLex (score, member)) (h.inv.sorted.imp le_of_lt)
  exact ⟨_, h.insert hnew hr hrank⟩

theorem Represents.deleteNode (h : Represents t row s) (score : S) (member : Bytes) :
    (∃ row', Represents (t.deleteNode score member).1 row' (s.erase (score, member))) ∧
      (t.deleteNode score member).2 = if (score, member) ∈ s then 1 else 0 := by
  obtain ⟨r, hr, hrank⟩ := exists_rank (k := toLex (score, member)) (h.inv.sorted.imp le_of_lt)
  rcases h.inv.deleteNode rfl hr hrank with ⟨e, he, hkey, hone, hinv⟩ | ⟨hno, heq⟩
  · have hmem : (score, member) ∈ s := by
      rw [← h.mem_iff, ← hkey]; exact List.mem_map_of_mem (List.mem_of_getElem? he)
    refine ⟨⟨_, hinv, fun x => ?_⟩, by rw [hone, if_pos hmem]⟩
    obtain ⟨hlt, hget⟩ := List.getElem?_eq_some_iff.mp he
    -- keys are distinct, so only the tower at `r` carries the pair
    have hperm := (List.getElem_cons_eraseIdx_perm hlt).map Tower.key
    have hnodup : (row.map Tower.key).Nodup := by
      rw [List.nodup_iff_pairwise_ne, List.pairwise_map]
      exact h.inv.sorted.imp fun hlt => hlt.ne
    rw [hget, List.map_cons, hkey] at hperm
    have hnd := List.nodup_cons.mp (hperm.nodup_iff.mpr hnodup)
    rw [Finset.mem_erase, ← h.mem_iff, ← hperm.mem_iff, List.mem_cons]
    constructor
    · intro hx
      refine ⟨?_, Or.inr hx⟩
      rintro rfl
      exact hnd.1 hx
    · rintro ⟨hne, hx | hx⟩
      · exact absurd (toLex.injective hx) hne
      · exact hx
  · -- no tower has the pair: nothing happens
    have hmem : (score, member) ∉ s := by
      rw [← h.mem_iff]
      intro hm
      obtain ⟨f, hf, hk⟩ := List.mem_map.mp hm
      exact hno f hf hk
    rw [heq, Finset.erase_eq_of_notMem hmem, if_neg hmem]
    exact ⟨⟨row, h⟩, rfl⟩

/-- By induction on the run. -/
theorem Reachable.represents (h : Reachable t s) : ∃ row, Represents t row s := by
  induction h with
  | new rng => exact ⟨[], inv_new rng, fun x => by simp⟩
  | insert score member _ hnew ih =>
    obtain ⟨row, hrow⟩ := ih
    exact hrow.exists_insert hnew
  | deleteNode score member _ ih =>
    obtain ⟨row, hrow⟩ := ih
    exact (hrow.deleteNode score member).1
  | clone rng _ ih =>
    obtain ⟨row, hrow⟩ := ih
    obtain ⟨row', hinv, hkeys⟩ := hrow.inv.clone rng
    exact ⟨row', hinv, fun x => by rw [hkeys]; exact hrow.mem_iff x⟩

theorem Represents.length_eq (h : Represents t row s) : row.length = s.card := by
  classical
  have hnodup : (row.map Tower.key).Nodup := by
    rw [List.nodup_iff_pairwise_ne, List.pairwise_map]
    exact h.inv.sorted.imp fun hlt => hlt.ne
  have hset : s = ((row.map Tower.key).map ofLex).toFinset := by
    ext x
    rw [List.mem_toFinset, ← h.mem_iff]
    exact ⟨fun hx => List.mem_map.mpr ⟨toLex x, hx, rfl⟩, fun hx => by
      obtain ⟨k, hk, rfl⟩ := List.mem_map.mp hx
      exact hk⟩
  rw [hset, List.toFinset_card_of_nodup (hnodup.map ofLex.injective), List.length_map,
    List.length_map]

omit [LinearOrder S] in
/-- Below `2^32` elements a span is the distance itself. -/
theorem Held.spanExact (h : Held t row) (hsize : row.length < 2 ^ 32) {i : ℕ} (hi : i < t.level)
    (p : ℕ) : t.SpanExact p i := by
  intro a ha hheight
  rw [h.getElem?_nodes] at ha
  obtain ⟨e, he, rfl⟩ := Option.map_eq_some_iff.mp ha
  have hpl := (List.getElem?_eq_some_iff.mp he).1
  rw [length_cells] at hpl
  have htall : Tall t.head row i p := by
    refine ⟨e, he, ?_⟩
    rwa [NodeHeap.height_eq (h.data e (List.mem_of_getElem? he))] at hheight
  have haddr := addrAt_eq he
  obtain ⟨o, ho, hfwd, hspan⟩ := h.linked i (by have := h.level.2; omega) p htall
  simp only [haddr] at hfwd hspan
  -- below 2^32 towers the span counts without wrapping
  have htoNat : (t.heap.levelAt e.addr i).span.toNat = gap row.length p o := by
    rw [hspan hi, UInt32.toNat_ofNat']
    refine Nat.mod_eq_of_lt ?_
    cases o with
    | none => simp only [gap, Option.getD_none]; omega
    | some q => have := ho.2.1; simp only [gap, Option.getD_some]; omega
  rw [hfwd, htoNat]
  cases o with
  | none =>
    show p + (row.length - p) = (t.chain 0).length
    rw [h.chain_zero, List.length_map]; omega
  | some q =>
    obtain ⟨hpq, hqn, -⟩ := ho
    show (t.head :: t.chain 0)[p + (q - p)]? = some (addrAt t.head row q)
    have hql : q < (cells t.head row).length := by rw [length_cells]; omega
    rw [show p + (q - p) = q by omega, h.getElem?_nodes, List.getElem?_eq_getElem hql,
      addrAt_eq (List.getElem?_eq_getElem hql)]
    rfl

/-- **The skip list invariant.** Whatever heights are drawn, in every skip list a run leaves: the level-0 chain is
sorted and holds the pairs of the set; the chain of each level is the sub-chain of the taller nodes, and ends in a
null pointer; the spans of the levels in use count level-0 steps; the backward pointers run the chain in reverse, and
end in one too; no level from `level_` on is in use; and `deleteNode` answers whether the pair is there. A run keeps
the list of towers that the heap represents (`Represents`, with the invariant `Inv`), and every part is read off this
list, which is sorted along level 0. -/
theorem reachable_spec (h : Reachable t s) (hsize : s.card < 2 ^ 32) :
    ((t.chain 0).map fun a => toLex (t.pair a)).Pairwise (· < ·) ∧
    (∀ x, x ∈ (t.chain 0).map t.pair ↔ x ∈ s) ∧
    (∀ i < maxLevel, t.chain i = (t.chain 0).filter fun a => i < t.heap.height a) ∧
    (∀ i < t.level, ∀ p, t.SpanExact p i) ∧
    t.backChain = (t.chain 0).reverse ∧
    t.tail = (t.chain 0).getLast? ∧
    t.length = s.card ∧
    (∀ a ∈ t.chain 0, t.heap.height a ≤ t.level) ∧
    (∀ i, t.level ≤ i → i < maxLevel → (t.heap.levelAt t.head i).forward = none) ∧
    (∀ i < maxLevel, ∀ a ∈ (t.head :: t.chain i).getLast?, (t.heap.levelAt a i).forward = none) ∧
    (∀ a ∈ t.backChain.getLast?, t.heap.backward a = none) ∧
    ∀ score member, (t.deleteNode score member).2 = if (score, member) ∈ s then 1 else 0 := by
  obtain ⟨row, hrow⟩ := h.represents
  have hinv := hrow.inv
  have hchain := hinv.chain_zero
  refine ⟨?_, fun x => ?_, fun i hi => ?_, fun i hi p => ?_, ?_, ?_, ?_, fun a ha => ?_,
    fun i hi hlt => ?_, fun i hi a => hinv.chain_ends hi, fun a => hinv.backChain_ends,
    fun score member => (hrow.deleteNode score member).2⟩
  · -- the keys along level 0 rise
    rw [hchain, List.map_map, List.pairwise_map]
    refine (List.pairwise_iff_forall_sublist.mpr fun {e f} hef => ?_)
    have he := hef.subset (List.mem_cons_self)
    have hf := hef.subset (List.mem_cons_of_mem _ List.mem_cons_self)
    have hlt := List.pairwise_iff_forall_sublist.mp hinv.sorted hef
    rw [Function.comp_apply, Function.comp_apply, hinv.pair_eq he, hinv.pair_eq hf]
    exact hlt
  · -- they are the pairs inserted and not deleted
    rw [hchain, List.map_map, ← hrow.mem_iff, List.mem_map, List.mem_map]
    refine exists_congr fun e => and_congr_right fun he => ?_
    rw [Function.comp_apply, hinv.pair_eq he]
    exact (toLex.injective.eq_iff).symm
  · -- a higher level links the towers that reach it
    rw [hinv.chain_eq hi, hchain, List.filter_map]
    refine congrArg (List.map Tower.addr) (List.filter_congr fun e he => ?_)
    rw [Function.comp_apply, hinv.height_eq he]
  · exact hinv.spanExact (by rw [hrow.length_eq]; exact hsize) hi p
  · -- the backward pointers spell level 0 from its end
    have hback := hinv.follow_backward t.length le_rfl (by rw [hinv.length])
    rw [List.take_length, ← hinv.tail, ← hchain] at hback
    exact hback
  · rw [hinv.tail, hchain, prevAt, List.getLast?_map, List.getLast?_eq_getElem?]
    split
    · next hz => rw [List.length_eq_zero_iff.mp hz]; rfl
    · next hz =>
      obtain ⟨p, hp⟩ : ∃ p, row.length = p + 1 := ⟨row.length - 1, by omega⟩
      have hget := List.getElem?_eq_getElem (show p < row.length by omega)
      rw [hp, addrAt_succ hget, Nat.add_sub_cancel, hget]; rfl
  · rw [hinv.length, hrow.length_eq]
  · rw [hchain] at ha
    obtain ⟨e, he, rfl⟩ := List.mem_map.mp ha
    rw [hinv.height_eq he]
    exact (hinv.heights e he).2
  · -- a level not in use leads from the head to nothing
    obtain ⟨o, ho, hfwd, -⟩ := hinv.linked i hlt 0 (tall_zero hlt)
    cases o with
    | none => exact hfwd
    | some q =>
      have h1 := hinv.eq_zero_of_tall hi ho.2.2.1
      have h2 := ho.1
      omega

/-- A run that opens a level, puts a pair in front of another and deletes that one. -/
theorem reachable_spec_sample : ∃ (t : SkipList ℕ) (s : Finset (ℕ × Bytes)),
    Reachable t s ∧ (3, [2]) ∈ s ∧ (5, [1]) ∉ s ∧ t.length = s.card ∧
      t.backChain = (t.chain 0).reverse ∧ ∀ i < t.level, ∀ p, t.SpanExact p i := by
  have hreach := Reachable.deleteNode 5 [1] (.insert 3 [2] (.insert 5 [1]
    (.new (S := ℕ) fun n => if n = 0 then ⟨2, by decide⟩ else ⟨1, by decide⟩) (by simp)) (by simp))
  obtain ⟨-, -, -, hspan, hback, -, hlength, -⟩ := reachable_spec hreach (by simp)
  exact ⟨_, _, hreach, by simp, by simp, hlength, hback, hspan⟩

/-- The head's span of a level that was never opened stays at zero, whatever the list holds. -/
theorem stale_span :
    let t := ((new fun _ => ⟨1, by decide⟩ : SkipList ℕ).insert 5 [1]).1
    Reachable t {(5, [1])} ∧ ¬ ∀ i < maxLevel, ∀ p, t.SpanExact p i := by
  intro t
  refine ⟨.insert 5 [1] (.new _) (by decide), fun h => ?_⟩
  have hspan : (0 : ℕ) + 0 = 1 := h 1 (by decide) 0 t.head rfl (by decide)
  omega

end Runs

end SkipList
end RedisDb
