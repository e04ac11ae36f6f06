import RedisDb.Storage.LinkedListInv
import RedisDb.Storage.SortedSetInv

/-!
# Ranges and ranks

The two range queries of the server, `LinkedList::range` and `SortedSet::rangeByRank`, turn their indexes
into positions independently of each other. `LinkedList.Holds.range_eq` says what the first makes of them:
it clamps a `stop` that lies before the first element to the first element, where the second finds the
range crossed. `range_agrees_iff` is what this comes to.
-/

/-- In a sorted list, the position of an element is the number of elements before it. By induction on the
list. -/
theorem List.countP_lt_of_pairwise {α β : Type*} [LinearOrder β] (f : α → β) {xs : List α} {k : ℕ} {x : α}
    (hsorted : xs.Pairwise fun y z => f y < f z) (hk : xs[k]? = some x) :
    xs.countP (fun y => f y < f x) = k := by
  induction xs generalizing k with
  | nil => cases hk
  | cons y ys ih =>
    obtain ⟨hfirst, hrest⟩ := List.pairwise_cons.mp hsorted
    cases k with
    | zero =>
      obtain rfl := Option.some.inj hk
      rw [List.countP_cons_of_neg (by simp), List.countP_eq_zero]
      exact fun z hz => by simpa using (hfirst z hz).le
    | succ k =>
      have hk : ys[k]? = some x := by simpa using hk
      rw [List.countP_cons_of_pos (by simpa using hfirst x (List.mem_of_getElem? hk)), ih hrest hk]

namespace RedisDb
namespace LinkedList

variable {l : LinkedList} {xs : List Bytes}

/-- **`range`**, with all its clamping. The bounds are clamped one after the other, and a stop before the first
element is set to the first, which is where it differs from a slice. -/
theorem Holds.range_eq (h : l.Holds xs) (hsize : xs.length < 2 ^ 31) (start stop : ℤ) :
    l.range start stop =
      if Slice.position xs.length start ≤ 0 ∧ Slice.position xs.length stop < 0 then xs.take 1
      else Slice.slice xs start stop := by
  have hlen := h.length
  obtain ⟨row, hrow, rfl⟩ := h
  have hrows : (row.map Prod.snd).length = row.length := List.length_map ..
  rw [hrows] at hlen hsize ⊢
  obtain ⟨p, hp⟩ : ∃ p, p = Slice.position row.length start := ⟨_, rfl⟩
  obtain ⟨q, hq⟩ : ∃ q, q = Slice.position row.length stop := ⟨_, rfl⟩
  have hstart : (if start < 0 then (row.length : ℤ) + start else start) = p := hp.symm
  have hstop : (if stop < 0 then (row.length : ℤ) + stop else stop) = q := hq.symm
  -- a slice of the positions from `p` to `q`, of those that there are
  have hslice : Slice.slice (row.map Prod.snd) start stop
      = ((row.map Prod.snd).take (q + 1).toNat).drop p.toNat :=
    Slice.slice_eq _ (fun i _ => by rw [hrows, ← hp]; omega) (fun i _ => by rw [hrows, ← hq]; omega)
  rw [hslice, ← hp, ← hq, LinkedList.range]
  simp only [hlen, asInt_of_lt hsize, hstart, hstop]
  by_cases h0 : row.length = 0
  · rw [if_pos h0]
    have hnil : row = [] := List.eq_nil_of_length_eq_zero h0
    simp [hnil]
  · rw [if_neg h0]
    -- collecting from position `a` gives what stands from there on
    have hcollect (a b : ℤ) (ha : a ≤ row.length) :
        collect l.heap (b - a + 1).toNat (l.heap.next^[a.toNat] l.head)
          = ((row.map Prod.snd).drop a.toNat).take (b - a + 1).toNat := by
      rw [hrow.iterate_next _ (by omega), hrow.collect]
    obtain ⟨a, ha⟩ : ∃ a, a = if p < 0 then 0 else p := ⟨_, rfl⟩
    obtain ⟨b, hb⟩ : ∃ b, b = if q < 0 then 0 else q := ⟨_, rfl⟩
    rw [← ha, ← hb]
    have ha' : a = max 0 p := by rw [ha]; split <;> omega
    have hb' : b = max 0 q := by rw [hb]; split <;> omega
    by_cases hfirst : p ≤ 0 ∧ q < 0
    · -- both indexes are clamped to the first element
      rw [if_pos hfirst, if_neg (by omega), if_neg (by omega), if_neg (by omega), hcollect _ _ (by omega)]
      rw [show a = 0 by omega, show b = 0 by omega]
      rfl
    · rw [if_neg hfirst]
      split
      · -- the range starts behind the end
        rw [List.drop_eq_nil_of_le (by rw [List.length_take, hrows]; omega)]
      · have hclamp : (if (row.length : ℤ) ≤ b then (row.length : ℤ) - 1 else b) = min b (row.length - 1) := by
          split <;> omega
        rw [hclamp]
        split
        · -- the range is crossed
          rw [List.drop_eq_nil_of_le (by rw [List.length_take, hrows]; omega)]
        · rw [hcollect _ _ (by omega), List.drop_take, show a.toNat = p.toNat by omega,
            List.take_eq_take_iff, List.length_drop, hrows]
          omega

end LinkedList

namespace SortedSet

variable {S : Type} [Inhabited S] [LinearOrder S]

omit [Inhabited S] in
/-- There is one list of the members in order. -/
theorem InOrder.unique {m : Bytes → Option S} {xs ys : List (Bytes × S)} (hxs : InOrder m xs)
    (hys : InOrder m ys) : xs = ys := by
  have hnodup {zs : List (Bytes × S)} (h : InOrder m zs) : zs.Nodup :=
    h.sorted.imp fun hlt heq => by rw [heq] at hlt; exact lt_irrefl _ hlt
  have hperm : xs.Perm ys := (List.perm_ext_iff_of_nodup (hnodup hxs) (hnodup hys)).mpr fun x => by
    rw [hxs.mem_iff, hys.mem_iff]
  exact hperm.eq_of_pairwise (fun x y _ _ h h' => absurd (h.trans h') (lt_irrefl _)) hxs.sorted hys.sorted

/-- Where fewer than `2^32` members are left, no pointer can be that long. -/
theorem linksShort_run (hash : Bytes → ℕ) (rng : ℕ → Height) {ops : List (Op S)} {xs : List (Bytes × S)}
    (hxs : InOrder (runMap ops) xs) (hsize : xs.length < 2 ^ 32) : (run hash rng ops).zsl.LinksShort := by
  obtain ⟨row, s, h⟩ : ∃ row s, Represents hash (run hash rng ops) (runMap ops) row s :=
    represents_run rng ops
  obtain rfl := hxs.unique h.inOrder
  refine SkipList.linksShort_of_lt ?_
  rwa [h.zsl.inv.chain_zero, List.length_map, ← List.length_map (f := entry)]

/-- The ranges of a run. -/
theorem rangeByRank_run (hash : Bytes → ℕ) (rng : ℕ → Height) {ops : List (Op S)} {xs : List (Bytes × S)}
    (hxs : InOrder (runMap ops) xs) (hshort : (run hash rng ops).zsl.LinksShort) (start stop : ℤ) :
    (run hash rng ops).rangeByRank start stop = Slice.slice xs start stop := by
  obtain ⟨row, s, h⟩ : ∃ row s, Represents hash (run hash rng ops) (runMap ops) row s :=
    represents_run rng ops
  obtain rfl := hxs.unique h.inOrder
  exact h.listed.ranges_iff.mpr hshort start stop

end SortedSet

/-! ### Ranks -/

namespace SortedSet

variable {S : Type} [Inhabited S] [LinearOrder S] {hash : Bytes → ℕ} {z : SortedSet S} {m : Bytes → Option S}
  {row : List (SkipList.Tower S)} {s : Finset (S × Bytes)}

/-- The number of members that precede a pair. -/
def preceding (xs : List (Bytes × S)) (member : Bytes) (score : S) : ℕ :=
  xs.countP fun x => toLex (x.2, x.1) < toLex (score, member)

/-- **`getRank`** is the number of the members before, where the empty member does not make the search end
at the head. -/
theorem Represents.getRank (h : Represents hash z m row s) (hshort : z.zsl.LinksShort) {member : Bytes}
    {score : S} (hmember : m member = some score) :
    ∃ k, (row.map entry)[k]? = some (member, score) ∧ preceding (row.map entry) member score = k ∧
      z.getRank hash member =
        if member = [] ∧ z.zsl.leavesHead score member = false then 0 else k := by
  obtain ⟨k, hk⟩ := List.getElem?_of_mem ((h.listed.mem_iff member score).mpr hmember)
  -- as the row is sorted, as many pairs are smaller as stand before it
  have hcount : preceding (row.map entry) member score = k :=
    List.countP_lt_of_pairwise (fun x : Bytes × S => toLex (x.2, x.1)) h.inOrder.sorted hk
  refine ⟨k, hk, hcount, ?_⟩
  obtain ⟨e, he, heq⟩ := Option.map_eq_some_iff.mp ((List.getElem?_map ..).symm.trans hk)
  obtain ⟨rfl, rfl⟩ := Prod.mk.inj heq
  -- no other tower has the member, so `getRank` cannot take one for it
  have hunique (j : ℕ) (f : SkipList.Tower S) (hf : row[j]? = some f) (hmem : f.member = e.member) : j = k := by
    have hmembers {i : ℕ} {g : SkipList.Tower S} (hg : row[i]? = some g) :
        ((row.map entry).map Prod.fst)[i]? = some g.member := by
      simp [hg, entry]
    obtain ⟨hj, -⟩ := List.getElem?_eq_some_iff.mp (hmembers hf)
    exact (List.getElem?_inj hj h.listed.nodup_members).mp
      ((hmembers hf).trans ((congrArg some hmem).trans (hmembers he).symm))
  rw [SortedSet.getRank, h.dict.get_eq, hmember]
  simp only [h.zsl.inv.getRank (h.zsl.inv.linksShort_iff.mp hshort) he hunique]
  split
  · rfl
  · rw [if_pos (Nat.succ_pos k), Nat.add_sub_cancel]

/-- **Rank and range agree**, where no pointer of a level in use leads `2^32` nodes ahead, for every member but the
empty one. They do so for the empty member if it is the first one, or if the top level of the skip list has a node not
behind it. `getRank` adds up the spans on the way to the member, and on each level compares the node it stands at: the
head has the empty member, and is taken for it. -/
theorem getRank_exact_iff (hash : Bytes → ℕ) (rng : ℕ → Height) {ops : List (Op S)} {xs : List (Bytes × S)}
    (hxs : InOrder (runMap ops) xs) (hshort : (run hash rng ops).zsl.LinksShort) {member : Bytes} {score : S}
    (hmember : runMap ops member = some score) :
    (run hash rng ops).getRank hash member = preceding xs member score ∧
      (run hash rng ops).rangeByRank ((run hash rng ops).getRank hash member)
        ((run hash rng ops).getRank hash member) = [(member, score)] ↔
      member ≠ [] ∨ preceding xs member score = 0 ∨
        (run hash rng ops).zsl.leavesHead score member = true := by
  obtain ⟨row, s, h⟩ : ∃ row s, Represents hash (run hash rng ops) (runMap ops) row s :=
    represents_run rng ops
  obtain rfl := hxs.unique h.inOrder
  obtain ⟨k, hk, hpreceding, hrank⟩ := h.getRank hshort hmember
  have hrange : (run hash rng ops).rangeByRank k k = [(member, score)] := by
    rw [h.listed.ranges_iff.mpr hshort, Slice.slice_self hk]
  rw [hpreceding, hrank]
  by_cases hhead : member = [] ∧ (run hash rng ops).zsl.leavesHead score member = false
  · -- the rank is 0, so it is right for the first member only
    rw [if_pos hhead]
    constructor
    · exact fun hright => .inr (.inl hright.1.symm)
    · rintro (hne | rfl | hleaves)
      · exact absurd hhead.1 hne
      · exact ⟨rfl, hrange⟩
      · exact absurd (hleaves.symm.trans hhead.2) Bool.noConfusion
  · rw [if_neg hhead]
    refine iff_of_true ⟨rfl, hrange⟩ ?_
    by_cases hnil : member = []
    · exact .inr (.inr (Bool.eq_true_of_not_eq_false fun hfalse => hhead ⟨hnil, hfalse⟩))
    · exact .inl hnil

/-- Three members, of which the last alone reaches level 1. -/
def sampleOps : List (Op ℕ) := [.add [98] 3, .add [97] 1, .add [] 2]

/-- The heights that go with them. -/
def sampleRng (k : ℕ) : Height := if k = 0 then ⟨2, two_inLevels⟩ else ⟨1, one_inLevels⟩

theorem inOrder_sampleOps : InOrder (runMap sampleOps) [([97], 1), ([], 2), ([98], 3)] where
  sorted := by decide
  mem_iff member score := by
    simp only [sampleOps, runMap, List.foldl_cons, List.foldl_nil, Op.applyMap, Function.update_apply,
      List.mem_cons, List.not_mem_nil, Prod.mk.injEq, or_false]
    by_cases hnil : member = []
    · simp [hnil, eq_comm]
    · by_cases hfirst : member = [97]
      · simp [hfirst, eq_comm]
      · by_cases hlast : member = [98]
        · simp [hlast, eq_comm]
        · simp [hnil, hfirst, hlast]

theorem getRank_exact_iff_first :
    (run (fun _ => 0) sampleRng sampleOps).getRank (fun _ => 0) [97]
        = preceding [([97], 1), ([], 2), ([98], 3)] [97] 1 ∧
      (run (fun _ => 0) sampleRng sampleOps).rangeByRank
        ((run (fun _ => 0) sampleRng sampleOps).getRank (fun _ => 0) [97])
        ((run (fun _ => 0) sampleRng sampleOps).getRank (fun _ => 0) [97]) = [([97], 1)] ↔
      ([97] : Bytes) ≠ [] ∨ preceding [([97], 1), ([], 2), ([98], 3)] [97] 1 = 0 ∨
        (run (fun _ => 0) sampleRng sampleOps).zsl.leavesHead 1 [97] = true :=
  getRank_exact_iff _ _ inOrder_sampleOps (linksShort_run _ _ inOrder_sampleOps (by decide)) (by decide)

/-- The empty member is the second of three, and has rank 0. -/
theorem rank_of_empty_member : ¬∀ (rng : ℕ → Height) (ops : List (Op ℕ)) (xs : List (Bytes × ℕ))
    (member : Bytes) (score : ℕ), InOrder (runMap ops) xs → runMap ops member = some score →
    (run (fun _ => 0) rng ops).getRank (fun _ => 0) member = preceding xs member score ∧
      (run (fun _ => 0) rng ops).rangeByRank ((run (fun _ => 0) rng ops).getRank (fun _ => 0) member)
        ((run (fun _ => 0) rng ops).getRank (fun _ => 0) member) = [(member, score)] := by
  intro hall
  have hrank := (hall sampleRng sampleOps _ [] 2 inOrder_sampleOps (by decide)).1
  have hzero : (run (fun _ => 0) sampleRng sampleOps).getRank (fun _ => 0) [] = 0 := by decide +kernel
  have hsecond : preceding [([97], 1), ([], 2), ([98], 3)] [] 2 = 1 := by decide
  rw [hzero, hsecond] at hrank
  cases hrank

end SortedSet

/-! ### Two queries for ranges -/

/-- **The two range queries agree** where the range does not lie before the first element. Otherwise
`LinkedList::range` returns the first element, and `SortedSet::rangeByRank` none. Each of the two is compared with the
slice of the elements in order. -/
theorem range_agrees_iff {S : Type} [Inhabited S] [LinearOrder S] {l : LinkedList} {xs : List Bytes}
    (hl : l.Holds xs) (hsize : xs.length < 2 ^ 31) {hash : Bytes → ℕ} {rng : ℕ → Height}
    {ops : List (SortedSet.Op S)} {pairs : List (Bytes × S)}
    (hpairs : SortedSet.InOrder (SortedSet.runMap ops) pairs) (hxs : pairs.map Prod.fst = xs) (start stop : ℤ) :
    l.range start stop = ((SortedSet.run hash rng ops).rangeByRank start stop).map Prod.fst ∧
      l.range start stop = Slice.slice xs start stop ↔
      xs = [] ∨ 0 < Slice.position xs.length start ∨ 0 ≤ Slice.position xs.length stop := by
  have hlength : pairs.length = xs.length := by rw [← hxs, List.length_map]
  have hzset : ((SortedSet.run hash rng ops).rangeByRank start stop).map Prod.fst
      = Slice.slice xs start stop := by
    have hshort := SortedSet.linksShort_run hash rng hpairs (by omega)
    rw [SortedSet.rangeByRank_run hash rng hpairs hshort, ← Slice.slice_map, hxs]
  rw [hzset, and_self, hl.range_eq hsize]
  by_cases hfirst : Slice.position xs.length start ≤ 0 ∧ Slice.position xs.length stop < 0
  · -- the list returns its first element, and there is no position that the claimed slice may have
    rw [if_pos hfirst, Slice.slice_eq (a := 0) (b := 0) xs (fun i _ => by omega) (fun i _ => by omega)]
    simp only [List.take_zero, List.drop_nil, List.take_eq_nil_iff, Nat.one_ne_zero, false_or]
    exact ⟨.inl, fun h => h.resolve_right fun h => by omega⟩
  · rw [if_neg hfirst]
    exact iff_of_true rfl (.inr (by omega))

/-- The members of a set to which one has been added. -/
theorem SortedSet.inOrder_single (member : Bytes) (score : ℕ) :
    SortedSet.InOrder (SortedSet.runMap [.add member score]) [(member, score)] where
  sorted := List.pairwise_singleton _ _
  mem_iff member' score' := by
    simp only [runMap, List.foldl_cons, List.foldl_nil, Op.applyMap, Function.update_apply,
      List.mem_singleton, Prod.mk.injEq]
    split
    · next h => simp [h, eq_comm]
    · next h => simp [h]

/-- The members of three, as a list. -/
def sampleList : LinkedList := ((LinkedList.new.pushBack [97]).pushBack []).pushBack [98]

/-- The second of three, by a negative index and a positive one. -/
theorem range_agrees_iff_middle :
    (sampleList.range (-2) 1 = ((SortedSet.run (fun _ => 0) SortedSet.sampleRng SortedSet.sampleOps).rangeByRank
          (-2) 1).map Prod.fst ∧
        sampleList.range (-2) 1 = Slice.slice [[97], [], [98]] (-2) 1 ↔
      ([[97], [], [98]] : List Bytes) = [] ∨ 0 < Slice.position 3 (-2) ∨ 0 ≤ Slice.position 3 1) ∧
    sampleList.range (-2) 1 = [[]] :=
  ⟨range_agrees_iff (((LinkedList.holds_new.pushBack [97]).pushBack []).pushBack [98]) (by decide)
    SortedSet.inOrder_sampleOps rfl (-2) 1, by decide +kernel⟩

/-- The range from 0 to −2 of one element. -/
theorem range_before_first : ¬∀ (l : LinkedList) (xs : List Bytes) (ops : List (SortedSet.Op ℕ))
    (pairs : List (Bytes × ℕ)) (start stop : ℤ), l.Holds xs → xs.length < 2 ^ 31 → InRange 32 start →
    InRange 32 stop → SortedSet.InOrder (SortedSet.runMap ops) pairs → pairs.map Prod.fst = xs →
    l.range start stop = ((SortedSet.run (fun _ => 0) (fun _ => ⟨1, by decide⟩) ops).rangeByRank start
      stop).map Prod.fst ∧ l.range start stop = Slice.slice xs start stop := by
  intro hall
  have hlist := (hall _ _ _ _ 0 (-2) (LinkedList.holds_new.pushBack [97]) (by decide) (by decide) (by decide)
    (SortedSet.inOrder_single [97] 5) rfl).2
  have hfirst : (LinkedList.new.pushBack [97]).range 0 (-2) = [[97]] := by decide
  have hnone : Slice.slice ([[97]] : List Bytes) 0 (-2) = [] := by decide
  rw [hfirst] at hlist
  cases hlist.trans hnone

end RedisDb
