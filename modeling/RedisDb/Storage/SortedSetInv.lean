import RedisDb.Lib.Slice
import RedisDb.Storage.HashTableRefine
import RedisDb.Storage.SkipListRuns
import RedisDb.Storage.SkipListSearch
import RedisDb.Storage.SortedSet

/-!
# The two indexes of `SortedSet` agree

`Represents` says that the dictionary and the skip list hold the same pairs, those of a map from
members to scores. `Represents.add` and `Represents.remove` follow from what the two structures do
each; `Listed.rangeByRank` says that a range by rank is a slice of the members in order, where no
pointer of the skip list leads `2^32` nodes ahead, as none does below `2^32` members. A longer one has
a span that has wrapped around, an `unsigned int`, and then some range that is not empty comes out
otherwise (`Listed.ranges_iff`, and `rangeByRank_wrapped` for a run that gets there).
-/

namespace RedisDb
namespace SortedSet

variable {S : Type} [Inhabited S] [LinearOrder S] {hash : Bytes → ℕ}

/-- The pair of a tower, member first. -/
def entry (e : SkipList.Tower S) : Bytes × S := (e.member, e.score)

/-- Both indexes hold the pairs of the map. -/
structure Represents (hash : Bytes → ℕ) (z : SortedSet S) (m : Bytes → Option S)
    (row : List (SkipList.Tower S)) (s : Finset (S × Bytes)) : Prop where
  dict : HashTable.Represents hash z.dict m
  zsl : SkipList.Represents z.zsl row s
  mem_iff : ∀ score member, (score, member) ∈ s ↔ m member = some score

variable {z : SortedSet S} {m : Bytes → Option S} {row : List (SkipList.Tower S)}
  {s : Finset (S × Bytes)}

theorem represents_new (rng : ℕ → Height) :
    Represents hash (new rng : SortedSet S) (fun _ => none) [] ∅ where
  dict := HashTable.represents_run []
  zsl := ⟨SkipList.inv_new rng, fun x => by simp⟩
  mem_iff := fun score member => by simp

/-- `add` sets the score of the member in both indexes. A member that is there is taken out of the skip list first,
unless its score is the same. -/
theorem Represents.add (h : Represents hash z m row s) (member : Bytes) (score : S) :
    (∃ row' s', Represents hash (z.add hash member score).1
      (Function.update m member (some score)) row' s') ∧
      (z.add hash member score).2 = if (m member).isNone then 1 else 0 := by
  have hget := h.dict.get_eq member
  have hdict := h.dict.apply (.set member score)
  cases hm : m member with
  | none =>
    -- a new member: an entry in the dictionary, and one in the skip list
    have hnew : (score, member) ∉ s := by rw [h.mem_iff, hm]; simp
    obtain ⟨row', hrow'⟩ := h.zsl.exists_insert hnew
    simp only [SortedSet.add, hget, hm]
    refine ⟨⟨row', _, hdict, hrow', fun sc mem => ?_⟩, rfl⟩
    rw [Finset.mem_insert, h.mem_iff, Function.update_apply]
    by_cases hmem : mem = member
    · subst hmem; simp [hm, eq_comm]
    · simp [hmem]
  | some oldScore =>
    by_cases hsc : oldScore = score
    · -- the score is the old one, so the map stays as it is
      subst hsc
      have hupd : Function.update m member (some oldScore) = m := by
        rw [← hm]; exact Function.update_eq_self member m
      simp only [SortedSet.add, hget, hm, beq_self_eq_true, if_true, hupd]
      exact ⟨⟨row, s, h⟩, rfl⟩
    · -- the score changes: the old pair is taken out, the new one inserted
      have hold : (oldScore, member) ∈ s := (h.mem_iff _ _).mpr hm
      obtain ⟨⟨row₁, hrow₁⟩, -⟩ := h.zsl.deleteNode oldScore member
      have hnew : (score, member) ∉ s.erase (oldScore, member) := by
        rw [Finset.mem_erase, h.mem_iff, hm]
        simp [hsc]
      obtain ⟨row', hrow'⟩ := hrow₁.exists_insert hnew
      simp only [SortedSet.add, hget, hm, beq_iff_eq, if_neg hsc]
      refine ⟨⟨row', _, hdict, hrow', fun sc mem => ?_⟩, rfl⟩
      rw [Finset.mem_insert, Finset.mem_erase, h.mem_iff, Function.update_apply]
      by_cases hmem : mem = member
      · subst hmem
        simp only [hm, Prod.mk.injEq, and_true, ne_eq, if_true, Option.some.injEq]
        constructor
        · rintro (rfl | ⟨hne, rfl⟩)
          · rfl
          · exact absurd rfl hne
        · rintro rfl; exact Or.inl rfl
      · simp [hmem]

/-- `remove` takes the member out of both indexes. -/
theorem Represents.remove (h : Represents hash z m row s) (member : Bytes) :
    (∃ row' s', Represents hash (z.remove hash member).1 (Function.update m member none) row' s') ∧
      (z.remove hash member).2 = if (m member).isSome then 1 else 0 := by
  have hget := h.dict.get_eq member
  have hdict := h.dict.apply (.del member)
  cases hm : m member with
  | none =>
    -- a member that is not there
    have hupd : Function.update m member none = m := by
      rw [← hm]; exact Function.update_eq_self member m
    simp only [SortedSet.remove, hget, hm, hupd]
    exact ⟨⟨row, s, h⟩, rfl⟩
  | some score =>
    obtain ⟨⟨row', hrow'⟩, -⟩ := h.zsl.deleteNode score member
    simp only [SortedSet.remove, hget, hm]
    refine ⟨⟨row', _, hdict, hrow', fun sc mem => ?_⟩, rfl⟩
    rw [Finset.mem_erase, h.mem_iff, Function.update_apply]
    -- the pair of the member goes, whatever its score was, and the others stay
    by_cases hmem : mem = member
    · subst hmem
      simp only [hm, Prod.mk.injEq, and_true, ne_eq, if_true, Option.some.injEq, reduceCtorEq,
        iff_false, not_and]
      exact fun hne heq => hne heq.symm
    · simp [hmem]

/-- `size` is the number of towers. -/
theorem Represents.size_eq (h : Represents hash z m row s) : z.size = row.length := by
  have hpairs : s = (z.dict.toList.map Prod.swap).toFinset := by
    ext ⟨score, member⟩
    rw [h.mem_iff, ← h.dict.maps_iff, ← HashTable.Inv.mem_toList_iff, List.mem_toFinset]
    exact ⟨fun hx => List.mem_map.mpr ⟨_, hx, rfl⟩, fun hx => by
      obtain ⟨⟨k, v⟩, hkv, heq⟩ := List.mem_map.mp hx
      obtain ⟨rfl, rfl⟩ := Prod.mk.inj heq
      exact hkv⟩
  have hnodup : (z.dict.toList.map Prod.swap).Nodup :=
    (h.dict.inv.nodup_toList.of_map).map Prod.swap_injective
  rw [h.zsl.length_eq, hpairs, List.toFinset_card_of_nodup hnodup, List.length_map]
  exact h.dict.inv.size_eq_length

/-! ### Ranges -/

/-- What a range by rank reads: a skip list whose row is the pairs of the map in order, as many as
`size` says. -/
structure Listed (z : SortedSet S) (m : Bytes → Option S) (row : List (SkipList.Tower S)) :
    Prop where
  zsl : SkipList.Inv z.zsl row
  size : z.size = row.length
  mem_iff : ∀ member score, (member, score) ∈ row.map entry ↔ m member = some score

theorem Represents.listed (h : Represents hash z m row s) : Listed z m row where
  zsl := h.zsl.inv
  size := h.size_eq
  mem_iff member score := by
    rw [← h.mem_iff, ← h.zsl.mem_iff, List.mem_map, List.mem_map]
    refine exists_congr fun e => and_congr_right fun _ => ?_
    constructor
    · intro heq
      obtain ⟨rfl, rfl⟩ := Prod.mk.inj heq
      rfl
    · intro heq
      obtain ⟨hs, hm⟩ := Prod.mk.inj (toLex.injective heq)
      rw [entry, hs, hm]

/-- No member is listed twice: two pairs of one member have one score, so they are the same pair. -/
theorem Listed.nodup_members (h : Listed z m row) : ((row.map entry).map Prod.fst).Nodup := by
  rw [List.nodup_iff_pairwise_ne, List.pairwise_map]
  have hsorted : (row.map entry).Pairwise fun x y => toLex (x.2, x.1) < toLex (y.2, y.1) := by
    rw [List.pairwise_map]; exact h.zsl.sorted
  refine hsorted.imp_of_mem fun {x y} hx hy hlt heq => ?_
  have h1 := (h.mem_iff x.1 x.2).mp hx
  rw [heq, (h.mem_iff y.1 y.2).mp hy] at h1
  rw [heq, Option.some.inj h1] at hlt
  exact lt_irrefl _ hlt

/-- A copy lists the same pairs, on towers of other heights. -/
theorem Listed.clone (h : Listed z m row) (rng : ℕ → Height) :
    ∃ row', Listed (z.clone rng) m row' := by
  obtain ⟨row', hinv, hkeys⟩ := h.zsl.clone rng
  have hentries : row'.map entry = row.map entry := by
    have := congrArg (List.map fun k : S ×ₗ Bytes => ((ofLex k).2, (ofLex k).1)) hkeys
    rwa [List.map_map, List.map_map] at this
  refine ⟨row', hinv, ?_, fun member score => by rw [hentries]; exact h.mem_iff member score⟩
  have := congrArg List.length hkeys
  rw [List.length_map, List.length_map] at this
  rw [this]
  exact h.size

/-- The loop of `rangeByRank` from position `p + 1` on. By induction on the length of the range. -/
theorem Listed.collect_eq (h : Listed z m row) (rangeLen : ℕ) : ∀ {p : ℕ}, p < row.length →
    collect z.zsl rangeLen (some (SkipList.addrAt z.zsl.head row (p + 1)))
      = ((row.drop p).take rangeLen).map entry := by
  have hinv := h.zsl
  induction rangeLen with
  | zero => intro p hp; rfl
  | succ k ih =>
    intro p hp
    have hget := List.getElem?_eq_getElem hp
    obtain ⟨hs, hm⟩ := NodeHeap.node_eq (hinv.data row[p]
      (List.mem_cons_of_mem _ (List.getElem_mem hp)))
    -- level 0 leads from each tower to the next
    have hfwd := (hinv.linked 0 (by decide)).forward_zero
      (fun f hf => (hinv.heights f hf).1) (show p + 1 ≤ row.length from hp)
    rw [SkipList.addrAt_succ hget] at hfwd ⊢
    rw [List.drop_eq_getElem_cons hp, List.take_succ_cons, List.map_cons]
    simp only [collect, hs, hm, hfwd]
    congr 1
    by_cases hlt : p + 1 < row.length
    · rw [if_pos hlt]; exact ih hlt
    · rw [if_neg hlt, List.drop_eq_nil_of_le (by omega)]
      cases k <;> rfl

omit [LinearOrder S] in
/-- The range of one rank. -/
theorem rangeByRank_self {z : SortedSet S} {p : ℕ} (hp : p < z.size) :
    z.rangeByRank p p = collect z.zsl 1 (z.zsl.getElementByRank (p + 1)) := by
  have hneg : ¬(p : ℤ) < 0 := by omega
  have hle : ¬(z.size : ℤ) ≤ p := by omega
  simp only [SortedSet.rangeByRank, if_neg hneg, if_neg hle, lt_irrefl, false_or]
  rw [show ((p : ℤ) - p + 1).toNat = 1 by omega, show ((p : ℤ) + 1).toNat = p + 1 by omega]

/-- **Ranges by rank** are slices of the members in order, where the spans are exact. The bounds are clamped as those
of the slice are, and the first element is found by its rank; the others are those behind it along level 0. -/
theorem Listed.rangeByRank (h : Listed z m row) (hfits : SkipList.Fits z.zsl row) (start stop : ℤ) :
    z.rangeByRank start stop = Slice.slice (row.map entry) start stop := by
  have hlen : (row.map entry).length = row.length := List.length_map ..
  -- the first position of the slice, and the one behind its last
  obtain ⟨a, ha⟩ : ∃ a, a = (max 0 (Slice.position row.length start)).toNat := ⟨_, rfl⟩
  obtain ⟨b, hb⟩ : ∃ b, b = (min (Slice.position row.length stop) (row.length - 1) + 1).toNat :=
    ⟨_, rfl⟩
  rw [Slice.slice_eq (a := a) (b := b) (row.map entry)
    (fun i hi => by rw [hlen]; omega) (fun i hi => by rw [hlen] at hi ⊢; omega)]
  have hpos : ∀ i : ℤ, (if i < 0 then (row.length : ℤ) + i else i)
      = Slice.position row.length i := fun i => rfl
  have hclamp : (if Slice.position row.length start < 0 then 0
      else Slice.position row.length start) = max 0 (Slice.position row.length start) := by
    split <;> omega
  simp only [SortedSet.rangeByRank, h.size, hpos, hclamp]
  split
  · -- the range is crossed or starts behind the end
    next hc =>
    refine (List.drop_eq_nil_of_le ?_).symm
    rw [List.length_take, List.length_map]
    omega
  · next hc =>
    have hstop : (if (row.length : ℤ) ≤ Slice.position row.length stop then (row.length : ℤ) - 1
        else Slice.position row.length stop)
          = min (Slice.position row.length stop) (row.length - 1) := by
      split <;> omega
    have ha' : a < row.length := by omega
    rw [hstop, h.zsl.getElementByRank_of_fits hfits, if_pos (by omega),
      show (max 0 (Slice.position row.length start) + 1).toNat = a + 1 by omega,
      h.collect_eq _ ha', ← List.map_take, ← List.map_drop, List.drop_take]
    congr 2
    omega

/-- **All ranges by rank are exact** just where the spans are: otherwise some rank is missed, and the range of this
rank alone is not that of its member. -/
theorem Listed.ranges_iff (h : Listed z m row) :
    (∀ start stop, z.rangeByRank start stop = Slice.slice (row.map entry) start stop) ↔ z.zsl.LinksShort := by
  rw [h.zsl.linksShort_iff]
  refine ⟨fun hranges => ?_, fun hfits => h.rangeByRank hfits⟩
  by_contra hfits
  obtain ⟨rank, hpos, hle, hmiss⟩ := h.zsl.getElementByRank_of_not_fits hfits
  obtain ⟨p, rfl⟩ : ∃ p, rank = p + 1 := ⟨rank - 1, by omega⟩
  have hget : (row.map entry)[p]? = some (entry row[p]) := by
    rw [List.getElem?_map, List.getElem?_eq_getElem hle, Option.map_some]
  have hsingle : collect z.zsl 1 (z.zsl.getElementByRank (p + 1)) = [entry row[p]] := by
    rw [← rangeByRank_self (by rw [h.size]; exact hle), hranges, Slice.slice_self hget]
  cases hfound : z.zsl.getElementByRank (p + 1) with
  | none =>
    rw [hfound] at hsingle
    cases hsingle
  | some a =>
    -- another node of the row is found, and its pair is another one
    obtain ⟨q, hq, rfl⟩ := h.zsl.getElementByRank_position hpos hfound
    have hother : (row.map entry)[q]? = some (entry row[p]) := by
      rw [hfound, h.collect_eq 1 hq, List.drop_eq_getElem_cons hq, List.take_succ_cons, List.take_zero] at hsingle
      rw [List.getElem?_map, List.getElem?_eq_getElem hq, Option.map_some]
      exact congrArg some (List.cons.inj hsingle).1
    obtain rfl : q = p := (List.getElem?_inj (by rwa [List.length_map]) h.nodup_members.of_map).mp
      (hother.trans hget.symm)
    exact hmiss hfound

omit [LinearOrder S] in
/-- The range of all members, whatever their number. -/
theorem rangeByRank_all (z : SortedSet S) :
    z.rangeByRank 0 (-1) = if z.size = 0 then []
      else collect z.zsl z.size (z.zsl.getElementByRank 1) := by
  unfold SortedSet.rangeByRank
  by_cases hz : z.size = 0
  · rw [if_pos hz]; simp [hz]
  · rw [if_neg hz]
    dsimp only
    rw [if_neg (by simp; omega)]
    have hcount : ((if (z.size : ℤ) ≤ (if (-1 : ℤ) < 0 then (z.size : ℤ) + -1 else -1)
        then (z.size : ℤ) - 1 else (if (-1 : ℤ) < 0 then (z.size : ℤ) + -1 else -1))
          - (if (if (0 : ℤ) < 0 then (z.size : ℤ) + 0 else 0) < 0 then 0
            else (if (0 : ℤ) < 0 then (z.size : ℤ) + 0 else 0)) + 1).toNat = z.size := by
      split_ifs <;> omega
    rw [hcount]
    rfl

/-- If the range of all members has as many pairs as there are members, it is all of them, with any
spans. -/
theorem Listed.rangeByRank_all (h : Listed z m row)
    (hcount : (z.rangeByRank 0 (-1)).length = z.size) :
    z.rangeByRank 0 (-1) = row.map entry := by
  rw [SortedSet.rangeByRank_all] at hcount ⊢
  by_cases hz : z.size = 0
  · rw [if_pos hz]
    rw [h.size] at hz
    rw [List.eq_nil_of_length_eq_zero hz]
    rfl
  · rw [if_neg hz] at hcount ⊢
    cases hget : z.zsl.getElementByRank 1 with
    | none =>
      have hnil : collect z.zsl z.size none = [] := by cases z.size <;> rfl
      rw [hget, hnil] at hcount
      exact absurd hcount.symm hz
    | some a =>
      obtain ⟨q, hq, rfl⟩ := h.zsl.getElementByRank_position Nat.one_pos hget
      rw [hget, h.collect_eq _ hq, List.length_map, List.length_take, List.length_drop,
        h.size] at hcount
      -- as many are collected as there are, so it starts at the first one
      obtain rfl : q = 0 := by omega
      rw [h.collect_eq _ hq, h.size, List.drop_zero, List.take_length]

/-! ### Runs -/

variable (S) in
/-- The operations that change a sorted set. -/
inductive Op where
  | add (member : Bytes) (score : S)
  | remove (member : Bytes)

/-- One operation. -/
def Op.apply (hash : Bytes → ℕ) (z : SortedSet S) : Op S → SortedSet S
  | .add member score => (z.add hash member score).1
  | .remove member => (z.remove hash member).1

omit [Inhabited S] [LinearOrder S] in
/-- The same operation on a map from members to scores. -/
def Op.applyMap (m : Bytes → Option S) : Op S → Bytes → Option S
  | .add member score => Function.update m member (some score)
  | .remove member => Function.update m member none

/-- The sorted set a run of operations builds from the empty one. -/
def run (hash : Bytes → ℕ) (rng : ℕ → Height) (ops : List (Op S)) : SortedSet S :=
  ops.foldl (Op.apply hash) (new rng)

omit [Inhabited S] [LinearOrder S] in
/-- The last scores given by the same run. -/
def runMap (ops : List (Op S)) : Bytes → Option S := ops.foldl Op.applyMap fun _ => none

theorem Represents.apply (h : Represents hash z m row s) (op : Op S) :
    ∃ row' s', Represents hash (op.apply hash z) (op.applyMap m) row' s' := by
  cases op with
  | add member score => exact (h.add member score).1
  | remove member => exact (h.remove member).1

/-- By induction on the run, from any sorted set. -/
theorem Represents.foldl (ops : List (Op S)) (h : Represents hash z m row s) :
    ∃ row' s', Represents hash (ops.foldl (Op.apply hash) z) (ops.foldl Op.applyMap m) row' s' := by
  induction ops generalizing z m row s with
  | nil => exact ⟨row, s, h⟩
  | cons op ops ih =>
    obtain ⟨row', s', h'⟩ := h.apply op
    exact ih h'

theorem represents_run (rng : ℕ → Height) (ops : List (Op S)) :
    ∃ row s, Represents hash (run hash rng ops) (runMap ops) row s :=
  (represents_new rng).foldl ops

/-- The members in order: sorted by score and then by member, each with its score. -/
structure InOrder (m : Bytes → Option S) (xs : List (Bytes × S)) : Prop where
  sorted : xs.Pairwise fun x y => toLex (x.2, x.1) < toLex (y.2, y.1)
  mem_iff : ∀ member score, (member, score) ∈ xs ↔ m member = some score

theorem Represents.inOrder (h : Represents hash z m row s) : InOrder m (row.map entry) where
  sorted := by rw [List.pairwise_map]; exact h.zsl.inv.sorted
  mem_iff := h.listed.mem_iff

/-- **The two indexes agree.** After any run of `add` and `remove`, whatever heights are drawn: the skip list holds
the pairs of the dictionary, each member once; `add` answers whether the member is new; `getScore` is the last score
given; and every range by rank is the slice of the members in order, if and only if no pointer of a level in use leads
`2^32` or more nodes ahead. The run keeps `Represents`: one row of towers is both the skip list and, without its
order, the dictionary. -/
theorem run_spec (hash : Bytes → ℕ) (rng : ℕ → Height) (ops : List (Op S)) :
    let z := run hash rng ops
    let m := runMap ops
    (∀ member score, (score, member) ∈ (z.zsl.chain 0).map z.zsl.pair ↔
      z.dict.get hash member = some score) ∧
    ((z.zsl.chain 0).map fun a => (z.zsl.pair a).2).Nodup ∧
    (∀ member score, (z.add hash member score).2 = if (m member).isNone then 1 else 0) ∧
    (∀ member, z.getScore hash member = m member) ∧
    ∃ xs, InOrder m xs ∧
      ((∀ start stop, z.rangeByRank start stop = Slice.slice xs start stop) ↔ z.zsl.LinksShort) := by
  intro z m
  obtain ⟨row, s, h⟩ : ∃ row s, Represents hash z m row s := represents_run rng ops
  have hchain := h.zsl.inv.chain_zero
  have hget := h.dict.get_eq
  -- the skip list and the dictionary hold the same pairs
  have hpairs : (z.zsl.chain 0).map z.zsl.pair = row.map fun e => (e.score, e.member) := by
    rw [hchain, List.map_map]
    exact List.map_congr_left fun e he => h.zsl.inv.pair_eq he
  refine ⟨fun member score => ?_, ?_, fun member score => (h.add member score).2,
    fun member => hget member, row.map entry, h.inOrder, h.listed.ranges_iff⟩
  · rw [hget, ← h.inOrder.mem_iff, hpairs, List.mem_map, List.mem_map]
    refine exists_congr fun e => and_congr_right fun _ => ?_
    rw [entry, Prod.mk.injEq, Prod.mk.injEq, and_comm]
  · have hmembers : (z.zsl.chain 0).map (fun a => (z.zsl.pair a).2)
        = (row.map entry).map Prod.fst := by
      have := congrArg (List.map Prod.snd) hpairs
      rw [List.map_map, List.map_map] at this
      rw [List.map_map]
      exact this
    rw [hmembers]
    exact h.listed.nodup_members

/-! ### Where spans wrap around -/

section Wrapped

/-- Adding members with growing scores. -/
def growing (n : ℕ) : List (Op ℕ) := (List.range n).map fun k => .add (Decimal.natText k) k

/-- The pairs the growing run has added. -/
structure Grown (hash : Bytes → ℕ) (rng : ℕ → Height) (n : ℕ) (row : List (SkipList.Tower ℕ))
    (s : Finset (ℕ × Bytes)) : Prop where
  rep : Represents hash (run hash rng (growing n)) (runMap (growing n)) row s
  towers : row.map (fun e => (e.score, e.member, e.height))
    = (List.range n).map fun k => (k, Decimal.natText k, (rng k).val)
  drawn : (run hash rng (growing n)).zsl.rng = fun k => rng (n + k)
  level : ∀ l, 1 ≤ l → (∀ k < n, (rng k).val ≤ l) → (run hash rng (growing n)).zsl.level ≤ l

theorem Grown.getElem? {rng : ℕ → Height} {n : ℕ} {row : List (SkipList.Tower ℕ)}
    {s : Finset (ℕ × Bytes)} (h : Grown hash rng n row s) {p : ℕ} {e : SkipList.Tower ℕ}
    (he : row[p]? = some e) :
    p < n ∧ e.score = p ∧ e.member = Decimal.natText p ∧ e.height = (rng p).val := by
  have hmap := congrArg (fun l => l[p]?) h.towers
  simp only [List.getElem?_map, he, Option.map_some] at hmap
  rcases Nat.lt_or_ge p n with hlt | hge
  · rw [List.getElem?_range hlt, Option.map_some, Option.some.injEq, Prod.mk.injEq,
      Prod.mk.injEq] at hmap
    exact ⟨hlt, hmap.1, hmap.2.1, hmap.2.2⟩
  · rw [List.getElem?_eq_none (by simpa using hge)] at hmap
    cases hmap

theorem Grown.length {rng : ℕ → Height} {n : ℕ} {row : List (SkipList.Tower ℕ)}
    {s : Finset (ℕ × Bytes)} (h : Grown hash rng n row s) : row.length = n := by
  simpa using congrArg List.length h.towers

/-- By induction on the run: each new pair goes to the end of the row. -/
theorem exists_grown (hash : Bytes → ℕ) (rng : ℕ → Height) (n : ℕ) :
    ∃ row s, Grown hash rng n row s := by
  induction n with
  | zero => exact ⟨[], ∅, represents_new rng, rfl, by simp [growing, run, new, SkipList.new],
      fun l hl _ => hl⟩
  | succ n ih =>
    obtain ⟨row, s, h⟩ := ih
    have hgrow : growing (n + 1) = growing n ++ [.add (Decimal.natText n) n] := by
      simp [growing, List.range_succ]
    have hrun : run hash rng (growing (n + 1))
        = ((run hash rng (growing n)).add hash (Decimal.natText n) n).1 := by
      simp [run, hgrow, Op.apply]
    have hmap : runMap (growing (n + 1))
        = Function.update (runMap (growing n)) (Decimal.natText n) (some n) := by
      simp [runMap, hgrow, Op.applyMap]
    -- no smaller number has the text of `n`
    have hno : runMap (growing n) (Decimal.natText n) = none := by
      by_contra hne
      obtain ⟨sc, hsc⟩ := Option.ne_none_iff_exists'.mp hne
      obtain ⟨e, he, hkey⟩ := List.mem_map.mp
        ((h.rep.zsl.mem_iff _).mpr ((h.rep.mem_iff _ _).mpr hsc))
      obtain ⟨p, hp⟩ := List.getElem?_of_mem he
      obtain ⟨hpn, -, hm, -⟩ := h.getElem? hp
      have hmem := congrArg Prod.snd (toLex.injective hkey)
      simp only [hm] at hmem
      have := Decimal.natText_injective hmem
      omega
    obtain ⟨z, hz⟩ : ∃ z, z = run hash rng (growing n) := ⟨_, rfl⟩
    have hget : z.dict.get hash (Decimal.natText n) = none := by
      rw [hz, h.rep.dict.get_eq]; exact hno
    have hadd : run hash rng (growing (n + 1))
        = { dict := (z.dict.set hash (Decimal.natText n) n).1
            zsl := (z.zsl.insert n (Decimal.natText n)).1 } := by
      rw [hrun, ← hz]; simp only [add, hget]
    have hnew : (n, Decimal.natText n) ∉ s := by rw [h.rep.mem_iff, hno]; simp
    -- the new score is the highest, so the new tower comes last
    have hins := h.rep.zsl.insert hnew le_rfl fun p e he => by
      obtain ⟨hpn, hs, -, -⟩ := h.getElem? he
      refine ⟨fun _ => (List.getElem?_eq_some_iff.mp he).1, fun _ => ?_⟩
      rw [SkipList.Tower.key, hs]
      exact Prod.Lex.toLex_lt_toLex.mpr (Or.inl hpn)
    rw [List.insertIdx_length_self, ← hz] at hins
    have hrng : z.zsl.rng = fun k => rng (n + k) := by rw [hz]; exact h.drawn
    refine ⟨row ++ [z.zsl.newTower n (Decimal.natText n)], insert (n, Decimal.natText n) s,
      ⟨?_, ?_, fun sc mem => ?_⟩, ?_, ?_, fun l hl hk => ?_⟩
    · rw [hadd, hmap, hz]; exact h.rep.dict.apply (.set (Decimal.natText n) n)
    · rw [hadd]; exact hins
    · rw [Finset.mem_insert, h.rep.mem_iff, hmap, Function.update_apply]
      by_cases hmem : mem = Decimal.natText n
      · subst hmem; simp [hno, eq_comm]
      · simp [hmem]
    · rw [List.map_append, h.towers, List.range_succ, List.map_append]
      simp [SkipList.newTower, hrng]
    · rw [hadd]
      show (fun k => z.zsl.rng (k + 1)) = _
      rw [hrng]
      funext k
      rw [show n + 1 + k = n + (k + 1) by omega]
    · rw [hadd]
      show max z.zsl.level (z.zsl.rng 0).val ≤ l
      have := h.level l hl fun k hkn => hk k (by omega)
      rw [← hz] at this
      rw [hrng]
      exact max_le this (hk n (by omega))

/-- The range of the first member alone. -/
theorem rangeByRank_zero (z : SortedSet ℕ) :
    z.rangeByRank 0 0 = if z.size = 0 then [] else collect z.zsl 1 (z.zsl.getElementByRank 1) := by
  unfold rangeByRank
  by_cases hz : z.size = 0
  · rw [if_pos hz]; simp [hz]
  · rw [if_neg hz]; simp [hz]

/-- `2^32` members, all but the last of height 1: the head's span at level 1 has wrapped around to
zero, and the range of the first member comes out empty. -/
theorem rangeByRank_wrapped :
    ¬ ∀ (rng : ℕ → Height) (ops : List (Op ℕ)), ∃ xs, InOrder (runMap ops) xs ∧
      ∀ start stop, InRange 64 start → InRange 64 stop →
        (run (fun _ => 0) rng ops).rangeByRank start stop = Slice.slice xs start stop := by
  intro hclaim
  obtain ⟨N, hN⟩ : ∃ N, N = 2 ^ 32 := ⟨_, rfl⟩
  obtain ⟨rng, hrng⟩ : ∃ rng : ℕ → Height,
      rng = fun k => if k + 1 = N then ⟨2, by decide⟩ else ⟨1, by decide⟩ := ⟨_, rfl⟩
  have hheight : ∀ k, (rng k).val = if k + 1 = N then 2 else 1 := fun k => by
    rw [hrng]; dsimp only; split <;> rfl
  obtain ⟨row, s, h⟩ := exists_grown (fun _ => 0) rng N
  have hinv := h.rep.zsl.inv
  have hlen := h.length
  obtain ⟨xs, hxs, hrange⟩ := hclaim rng (growing N)
  -- the first element is not found: the span of the head's link has wrapped
  have hempty : (run (fun _ => 0) rng (growing N)).rangeByRank 0 0 = [] := by
    have hlast := List.getElem?_eq_getElem (show N - 1 < row.length by omega)
    have hlevel : (run (fun _ => 0) rng (growing N)).zsl.level = 2 := by
      have hle := h.level 2 (by omega) fun k _ => by rw [hheight]; split <;> omega
      have hge := (hinv.heights _ (List.mem_of_getElem? hlast)).2
      rw [(h.getElem? hlast).2.2.2, hheight, if_pos (by omega)] at hge
      omega
    have htall : ∀ p, SkipList.Tall (run (fun _ => 0) rng (growing N)).zsl.head row 1 p ↔
        p = 0 ∨ p = row.length := fun p => by
      cases p with
      | zero => exact ⟨fun _ => Or.inl rfl, fun _ => SkipList.tall_zero (by decide)⟩
      | succ p =>
        constructor
        · rintro ⟨e, he, hlt⟩
          obtain ⟨-, -, -, hh⟩ := h.getElem? (show row[p]? = some e from he)
          rw [hh, hheight] at hlt
          split at hlt <;> omega
        · intro hp
          have hp' : p + 1 = row.length := by omega
          have hget := List.getElem?_eq_getElem (show p < row.length by omega)
          refine ⟨_, hget, ?_⟩
          rw [(h.getElem? hget).2.2.2, hheight, if_pos (by omega)]
          omega
    have hnone := hinv.getElementByRank_wrapped (by omega) hlevel htall
    have hsize := h.rep.size_eq
    rw [rangeByRank_zero, hnone]
    split <;> rfl
  -- but the members in order are not none
  have hmem : (Decimal.natText 0, 0) ∈ xs := by
    rw [hxs.mem_iff, ← h.rep.inOrder.mem_iff]
    have hget := List.getElem?_eq_getElem (show 0 < row.length by omega)
    obtain ⟨-, hs, hm, -⟩ := h.getElem? hget
    exact List.mem_map.mpr ⟨_, List.mem_of_getElem? hget, by rw [entry, hs, hm]⟩
  cases xs with
  | nil => cases hmem
  | cons x xs =>
    have hzero := hrange 0 0 (by decide) (by decide)
    rw [hempty, Slice.slice_eq (a := 0) (b := 1) (x :: xs)
      (fun i _ => by simp [Slice.position]) (fun i _ => by simp [Slice.position])] at hzero
    cases hzero

end Wrapped

end SortedSet
end RedisDb
