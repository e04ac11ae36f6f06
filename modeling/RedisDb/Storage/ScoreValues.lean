import RedisDb.Storage.SortedSetInv

/-!
# Scores and the numbers they stand for

A skip list copies scores and compares them, and does nothing else with them. A score that is no NaN stands for a
number, zeros of both signs for the same one, and scores are compared as their numbers are; a NaN compares false with
every score (`Compares`). So a skip list in which every score stands for a number does what the skip list of the
numbers does (`SkipList.Stands`), and what is known of structures over a linear order holds of it.

The two skip lists have the same nodes at the same addresses, with the same links and heights. Whatever walks along
links goes the same way in both where it asks the same of the nodes, and to ask whether a node precedes a pair is to
compare scores (`Compares.precedes`). So a search finds the same places, and what is written at them is the same but
for scores. A sorted set has a dictionary besides, whose scores are kept as they are: `Numbers` says that the skip
list is one of a sorted set of the numbers that these scores stand for.
-/

namespace RedisDb

variable {S L : Type}

/-- The comparisons of scores: those of the numbers, and false for a score that stands for none. -/
structure Compares [LT S] [BEq S] [LinearOrder L] (value : S → Option L) : Prop where
  lt_iff : ∀ x y : S, x < y ↔ ∃ a b, value x = some a ∧ value y = some b ∧ a < b
  beq_iff : ∀ x y : S, (x == y) = true ↔ ∃ a, value x = some a ∧ value y = some a

namespace Compares

variable [LT S] [BEq S] [LinearOrder L] {value : S → Option L} (h : Compares value) {x y : S} {a b : L}

include h

/-- Two scores that stand for numbers compare as these. -/
theorem lt_iff_lt (hx : value x = some a) (hy : value y = some b) : x < y ↔ a < b := by
  rw [h.lt_iff, hx, hy]
  constructor
  · rintro ⟨a', b', ha, hb, hlt⟩
    rw [Option.some.inj ha, Option.some.inj hb]
    exact hlt
  · exact fun hlt => ⟨a, b, rfl, rfl, hlt⟩

/-- They are equal if the numbers are. -/
theorem beq_eq_decide (hx : value x = some a) (hy : value y = some b) : (x == y) = decide (a = b) := by
  rw [Bool.eq_iff_iff, h.beq_iff, decide_eq_true_iff, hx, hy]
  constructor
  · rintro ⟨a', ha, hb⟩
    rw [Option.some.inj ha, Option.some.inj hb]
  · rintro rfl
    exact ⟨a, rfl, rfl⟩

end Compares

variable {value : S → Option L}

/-! ### Nodes -/

/-- The node is the same, but for its score, which stands for a number. -/
structure SkipListNode.Stands (value : S → Option L) (n : SkipListNode S) (n' : SkipListNode L) : Prop where
  member : n.member = n'.member
  score : value n.score = some n'.score
  backward : n.backward = n'.backward
  level : n.level = n'.level

/-- There are the same nodes at the same addresses. -/
def NodeHeap.Stands (value : S → Option L) (h : NodeHeap S) (h' : NodeHeap L) : Prop :=
  ∀ a, (h a = none ∧ h' a = none) ∨ ∃ n n', h a = some n ∧ h' a = some n' ∧ n.Stands value n'

namespace NodeHeap.Stands

variable {h : NodeHeap S} {h' : NodeHeap L} (hs : NodeHeap.Stands value h h')

include hs

/-- A node is allocated in both heaps. -/
theorem alloc {n : SkipListNode S} {n' : SkipListNode L} (hn : n.Stands value n') (a : Addr) :
    NodeHeap.Stands value (Function.update h a (some n)) (Function.update h' a (some n')) := by
  intro b
  by_cases hb : b = a
  · rw [hb, Function.update_self, Function.update_self]
    exact .inr ⟨n, n', rfl, rfl, hn⟩
  · rw [Function.update_of_ne hb, Function.update_of_ne hb]
    exact hs b

/-- It is freed in both. -/
theorem free (a : Addr) : NodeHeap.Stands value (Function.update h a none) (Function.update h' a none) := by
  intro b
  by_cases hb : b = a
  · rw [hb, Function.update_self, Function.update_self]
    exact .inl ⟨rfl, rfl⟩
  · rw [Function.update_of_ne hb, Function.update_of_ne hb]
    exact hs b

/-- A change of a node, which leaves its score alone. -/
theorem change (f : SkipListNode S → SkipListNode S) (f' : SkipListNode L → SkipListNode L)
    (hf : ∀ n n', n.Stands value n' → (f n).Stands value (f' n')) (a : Addr) :
    NodeHeap.Stands value (Function.update h a ((h a).map f)) (Function.update h' a ((h' a).map f')) := by
  rcases hs a with ⟨ha, ha'⟩ | ⟨n, n', ha, ha', hn⟩
  · rw [ha, ha']
    exact hs.free a
  · rw [ha, ha']
    exact hs.alloc (hf n n' hn) a

/-- A link is no score. -/
theorem setLevel (a : Addr) (i : ℕ) (l : SkipListLevel) :
    NodeHeap.Stands value (h.setLevel a i l) (h'.setLevel a i l) :=
  hs.change (fun n => { n with level := n.level.set i l }) (fun n => { n with level := n.level.set i l })
    (fun _ _ hn => ⟨hn.member, hn.score, hn.backward, congrArg (·.set i l) hn.level⟩) a

/-- Nor is a backward link. -/
theorem setBackward (a : Addr) (b : Option Addr) :
    NodeHeap.Stands value (h.setBackward a b) (h'.setBackward a b) :=
  hs.change (fun n => { n with backward := b }) (fun n => { n with backward := b })
    (fun _ _ hn => ⟨hn.member, hn.score, rfl, hn.level⟩) a

/-- There is a node to be written to in both heaps, or in neither. -/
theorem setBackwardIf (a b : Option Addr) :
    NodeHeap.Stands value (h.setBackwardIf a b) (h'.setBackwardIf a b) := by
  cases a with
  | some a => exact hs.setBackward a b
  | none => exact hs

/-- The links are the same. -/
theorem levelAt (a : Addr) (i : ℕ) : h.levelAt a i = h'.levelAt a i := by
  rcases hs a with ⟨ha, ha'⟩ | ⟨n, n', ha, ha', hn⟩
  · rw [NodeHeap.levelAt, NodeHeap.levelAt, ha, ha']
    rfl
  · rw [NodeHeap.levelAt, NodeHeap.levelAt, ha, ha', Option.bind_some, Option.bind_some, hn.level]

/-- So are the backward links. -/
theorem backward (a : Addr) : h.backward a = h'.backward a := by
  rcases hs a with ⟨ha, ha'⟩ | ⟨n, n', ha, ha', hn⟩
  · rw [NodeHeap.backward, NodeHeap.backward, ha, ha']
    rfl
  · rw [NodeHeap.backward, NodeHeap.backward, ha, ha', Option.bind_some, Option.bind_some, hn.backward]

/-- What is found where there is no node stands for the number that is found there. -/
theorem node [Inhabited S] [Inhabited L] (hdefault : value default = some default) (a : Addr) :
    (h.node a).Stands value (h'.node a) := by
  rcases hs a with ⟨ha, ha'⟩ | ⟨n, n', ha, ha', hn⟩
  · rw [NodeHeap.node, NodeHeap.node, ha, ha']
    exact ⟨rfl, hdefault, rfl, rfl⟩
  · rw [NodeHeap.node, NodeHeap.node, ha, ha']
    exact hn

end NodeHeap.Stands

/-- A loop over the levels whose turns take the same nodes to the same nodes. By induction on the levels. -/
theorem stands_forLevels {α : Type} {body : ℕ → α → NodeHeap S → NodeHeap S} {body' : ℕ → α → NodeHeap L → NodeHeap L}
    (hbody : ∀ i u h h', NodeHeap.Stands value h h' → NodeHeap.Stands value (body i u h) (body' i u h')) (us : List α) :
    ∀ i h h', NodeHeap.Stands value h h' →
      NodeHeap.Stands value (SkipList.forLevels body i us h) (SkipList.forLevels body' i us h') := by
  induction us with
  | nil => exact fun _ _ _ hs => hs
  | cons u us ih => exact fun i h h' hs => ih (i + 1) _ _ (hbody i u h h' hs)

/-! ### Skip lists -/

/-- The skip list is the same, but for its scores. -/
structure SkipList.Stands (value : S → Option L) (t : SkipList S) (u : SkipList L) : Prop where
  heap : NodeHeap.Stands value t.heap u.heap
  fresh : t.fresh = u.fresh
  head : t.head = u.head
  tail : t.tail = u.tail
  length : t.length = u.length
  level : t.level = u.level
  rng : t.rng = u.rng

namespace SkipList.Stands

variable [Inhabited S] [Inhabited L] {t : SkipList S} {u : SkipList L}

/-- A new skip list has a head with the default score. -/
theorem new (hdefault : value default = some default) (rng : ℕ → Height) :
    SkipList.Stands value (SkipList.new rng) (SkipList.new rng) where
  heap := by
    have hempty : NodeHeap.Stands value (fun _ => none) fun _ => none := fun _ => .inl ⟨rfl, rfl⟩
    unfold SkipList.new
    exact hempty.alloc ⟨rfl, hdefault, rfl, rfl⟩ 0
  fresh := rfl
  head := rfl
  tail := rfl
  length := rfl
  level := rfl
  rng := rfl

variable (hs : SkipList.Stands value t u) (hdefault : value default = some default)

include hs hdefault

/-- A walk goes the same way where it decides so of nodes that differ in their scores only. -/
theorem walk {α : Type} (go : α → SkipListLevel → SkipListNode S → Option α)
    (go' : α → SkipListLevel → SkipListNode L → Option α)
    (hgo : ∀ acc l n n', n.Stands value n' → go acc l n = go' acc l n') (i : ℕ) (s : Addr × α) :
    t.walk go i s = u.walk go' i s := by
  have hadvance : t.advance go i = u.advance go' i := by
    funext ⟨x, acc⟩
    simp only [SkipList.advance, hs.heap.levelAt]
    split
    · rfl
    · next y _ => rw [hgo _ _ _ _ (hs.heap.node hdefault y)]
  rw [SkipList.walk, SkipList.walk, hadvance, hs.length]

/-- By induction on the levels. -/
theorem search {α : Type} {go : α → SkipListLevel → SkipListNode S → Option α}
    {go' : α → SkipListLevel → SkipListNode L → Option α}
    (hgo : ∀ acc l n n', n.Stands value n' → go acc l n = go' acc l n') (i : ℕ) (s : Addr × α) :
    t.search go i s = u.search go' i s := by
  induction i generalizing s with
  | zero => rfl
  | succ i ih => rw [SkipList.search, SkipList.search, hs.walk hdefault go go' hgo, ih]

/-- Ranks count nodes. -/
theorem getElementByRank (rank : ℕ) : t.getElementByRank rank = u.getElementByRank rank := by
  have hloop (i : ℕ) : ∀ s : Addr × ℕ, t.getElementByRankLoop rank i s = u.getElementByRankLoop rank i s := by
    induction i with
    | zero => exact fun _ => rfl
    | succ i ih =>
      intro s
      have hwalk := hs.walk hdefault (fun (traversed : ℕ) l _ => if traversed + l.span.toNat ≤ rank then
        some (traversed + l.span.toNat) else none) _ (fun _ _ _ _ _ => rfl) i s
      rw [SkipList.getElementByRankLoop, SkipList.getElementByRankLoop, hwalk, ih]
  rw [SkipList.getElementByRank, SkipList.getElementByRank, hs.level, hs.head, hloop]

/-- The members that a range lists. By induction on the length of the range. -/
theorem collect (rangeLen : ℕ) (a : Option Addr) :
    (SortedSet.collect t rangeLen a).map Prod.fst = (SortedSet.collect u rangeLen a).map Prod.fst := by
  induction rangeLen generalizing a with
  | zero => rfl
  | succ rangeLen ih =>
    cases a with
    | none => rfl
    | some a =>
      rw [SortedSet.collect, SortedSet.collect, List.map_cons, List.map_cons, ih, hs.heap.levelAt]
      exact congrArg (· :: _) (hs.heap.node hdefault a).member

end SkipList.Stands

section Updates

variable [Inhabited S] [LT S] [DecidableLT S] [BEq S] [Inhabited L] [LinearOrder L] {x : S} {a : L}

omit [Inhabited S] [Inhabited L] in
/-- **A node precedes a pair in both, or in neither.** -/
theorem Compares.precedes (h : Compares value) (hx : value x = some a) (member : Bytes) {n : SkipListNode S}
    {n' : SkipListNode L} (hn : n.Stands value n') :
    SkipList.precedes x member n = SkipList.precedes a member n' := by
  have hlt : (decide (n.score < x)) = decide (n'.score < a) := decide_eq_decide.mpr (h.lt_iff_lt hn.score hx)
  have heq : (n.score == x) = (n'.score == a) := h.beq_eq_decide hn.score hx
  rw [SkipList.precedes, SkipList.precedes, hlt, heq, hn.member]

namespace SkipList.Stands

variable {t : SkipList S} {u : SkipList L} (hs : SkipList.Stands value t u)

include hs

omit [Inhabited S] [LT S] [DecidableLT S] [BEq S] [Inhabited L] [LinearOrder L] in
/-- A node is placed in both heaps. -/
theorem placeHeap (hx : value x = some a) (found : List (Addr × UInt32)) (level : ℕ) (member : Bytes) :
    NodeHeap.Stands value (t.placeHeap found level x member) (u.placeHeap found level a member) := by
  unfold SkipList.placeHeap
  rw [hs.fresh, hs.level, hs.head, hs.length]
  dsimp only
  refine stands_forLevels (fun i v h h' hh => ?_) _ _ _ _ (stands_forLevels (fun i v h h' hh => ?_) _ _ _ _ ?_)
  · rw [widen, widen, hh.levelAt]
    exact hh.setLevel _ _ _
  · rw [link, link, hh.levelAt]
    exact (hh.setLevel _ _ _).setLevel _ _ _
  · refine NodeHeap.Stands.alloc (stands_forLevels (fun i v h h' hh => ?_) _ _ _ _ hs.heap) ⟨rfl, hx, rfl, rfl⟩ _
    rw [openLevel, openLevel, hh.levelAt]
    exact hh.setLevel _ _ _

omit [Inhabited S] [LT S] [DecidableLT S] [BEq S] [Inhabited L] [LinearOrder L] in
/-- It is placed in both lists. -/
theorem place (hx : value x = some a) (found : List (Addr × UInt32)) (level : ℕ) (member : Bytes) :
    SkipList.Stands value (t.place found level x member).1 (u.place found level a member).1 := by
  have hheap := hs.placeHeap hx found level member
  have hprev := hheap.setBackward t.fresh
    (if (found.headD (t.head, 0)).1 = t.head then none else some (found.headD (t.head, 0)).1)
  have hnext := hprev.levelAt t.fresh 0
  unfold SkipList.place
  rw [← hs.fresh, ← hs.head]
  dsimp only
  rw [← hnext]
  refine ⟨hprev.setBackwardIf _ _, rfl, rfl, ?_, ?_, ?_, ?_⟩
  · rw [hs.tail]
  · rw [hs.length]
  · rw [hs.level]
  · rw [hs.rng]

omit [Inhabited S] [LT S] [DecidableLT S] [BEq S] [Inhabited L] [LinearOrder L] in
/-- A node is taken out of both. -/
theorem deleteNodeInternal (y : Addr) (update : List (Addr × Unit)) :
    SkipList.Stands value (t.deleteNodeInternal y update) (u.deleteNodeInternal y update) := by
  have hheap : NodeHeap.Stands value (forLevels (unlink y) 0 update t.heap) (forLevels (unlink y) 0 update u.heap) :=
    stands_forLevels (fun i v h h' hh => by
      rw [unlink, unlink, hh.levelAt, hh.levelAt]
      exact hh.setLevel _ _ _) _ _ _ _ hs.heap
  have hlinked := hheap.setBackwardIf (((forLevels (unlink y) 0 update t.heap).levelAt y 0).forward)
    ((forLevels (unlink y) 0 update t.heap).backward y)
  -- the trimming of the level goes by the links alone
  have htrim (l : ℕ) : ∀ {h : NodeHeap S} {h' : NodeHeap L}, NodeHeap.Stands value h h' →
      trimLevel h t.head l = trimLevel h' t.head l := by
    induction l with
    | zero => exact fun _ => rfl
    | succ l ih =>
      intro h h' hh
      rw [trimLevel, trimLevel, hh.levelAt, ih hh]
  unfold SkipList.deleteNodeInternal
  rw [← hs.head]
  dsimp only
  rw [← hheap.levelAt, ← hheap.backward]
  refine ⟨hlinked.free y, hs.fresh, rfl, ?_, ?_, ?_, hs.rng⟩
  · rw [hs.tail]
  · rw [hs.length]
  · rw [← hs.level]
    exact htrim _ hlinked

variable (h : Compares value) (hdefault : value default = some default) (hx : value x = some a)

include h hdefault hx

/-- `insert` finds the same place. -/
theorem insert (member : Bytes) : SkipList.Stands value (t.insert x member).1 (u.insert a member).1 := by
  have hfound : t.search (fun rank l n => if precedes x member n then some (rank + l.span) else none) t.level
      (t.head, (0 : UInt32)) = u.search (fun rank l n => if precedes a member n then some (rank + l.span) else none)
        u.level (u.head, (0 : UInt32)) := by
    rw [hs.level, hs.head]
    exact hs.search hdefault (fun _ _ _ _ hn => by rw [h.precedes hx member hn]) _ _
  rw [SkipList.insert, SkipList.insert, hfound, hs.rng]
  exact hs.place hx _ _ member

/-- `deleteNode` finds the same node, or none. -/
theorem deleteNode (member : Bytes) :
    SkipList.Stands value (t.deleteNode x member).1 (u.deleteNode a member).1 := by
  have hupdate : t.search (fun _ _ n => if precedes x member n then some () else none) t.level (t.head, ())
      = u.search (fun _ _ n => if precedes a member n then some () else none) u.level (u.head, ()) := by
    rw [hs.level, hs.head]
    exact hs.search hdefault (fun _ _ _ _ hn => by rw [h.precedes hx member hn]) _ _
  unfold SkipList.deleteNode
  rw [hupdate, hs.head]
  dsimp only
  rw [hs.heap.levelAt]
  split
  · exact hs
  · next y _ =>
    have hy := hs.heap.node hdefault y
    -- the two comparisons of scores agree, since both scores are numbers
    have heq : (x == (t.heap.node y).score) = (a == (u.heap.node y).score) := h.beq_eq_decide hx hy.score
    rw [heq, hy.member]
    split
    · exact hs.deleteNodeInternal y _
    · exact hs

end SkipList.Stands

end Updates

/-! ### Sorted sets -/

namespace SortedSet

variable [Inhabited S] [LT S] [DecidableLT S] [BEq S] [Inhabited L] [LinearOrder L] {hash : Bytes → ℕ} {z : SortedSet S}
  {m : Bytes → Option S}

/-- **The sorted set of some numbers**: its dictionary has the scores of the map, which stand for numbers, and its skip
list is the one of a sorted set that has these. -/
structure Numbers (hash : Bytes → ℕ) (value : S → Option L) (z : SortedSet S) (m : Bytes → Option S) : Prop where
  dict : HashTable.Represents hash z.dict m
  number : ∀ member x, m member = some x → ∃ a, value x = some a
  zsl : ∃ (w : SortedSet L) (row : List (SkipList.Tower L)) (pairs : Finset (L × Bytes)),
    SkipList.Stands value z.zsl w.zsl ∧ Represents hash w (fun member => (m member).bind value) row pairs

omit [LT S] [DecidableLT S] [BEq S] in
/-- A new sorted set has no scores. -/
theorem numbers_new (hdefault : value default = some default) (rng : ℕ → Height) :
    Numbers hash value (new rng : SortedSet S) fun _ => none where
  dict := HashTable.represents_run []
  number := nofun
  zsl := ⟨new rng, [], ∅, .new hdefault rng, represents_new rng⟩

omit [Inhabited S] [LT S] [DecidableLT S] [BEq S] [Inhabited L] [LinearOrder L] in
/-- The map of the numbers after a score has been set or taken away. -/
theorem bind_update (value : S → Option L) (m : Bytes → Option S) (member : Bytes) (o : Option S) :
    (fun k => (Function.update m member o k).bind value)
      = Function.update (fun k => (m k).bind value) member (o.bind value) := by
  funext k
  by_cases hk : k = member
  · rw [hk, Function.update_self, Function.update_self]
  · rw [Function.update_of_ne hk, Function.update_of_ne hk]

variable (h : Compares value) (hdefault : value default = some default)

include h hdefault

/-- **`add`**, of a score that stands for a number. -/
theorem Numbers.add (hz : Numbers hash value z m) (member : Bytes) {x : S} {a : L} (hx : value x = some a) :
    ∃ m', Numbers hash value (z.add hash member x).1 m' ∧ ∀ k, k ≠ member → m' k = m k := by
  -- the skip list with the values of the scores in their place, where the order is linear
  obtain ⟨w, row, pairs, hstands, hw⟩ := hz.zsl
  obtain ⟨⟨row', pairs', hadded⟩, -⟩ := hw.add member a
  have hget := hz.dict.get_eq member
  have hwget := hw.dict.get_eq member
  have hset : HashTable.Represents hash (z.dict.set hash member x).1 (Function.update m member (some x)) :=
    hz.dict.apply (.set member x)
  have hnumber : ∀ k y, Function.update m member (some x) k = some y → ∃ b, value y = some b := by
    intro k y hy
    by_cases hk : k = member
    · rw [hk, Function.update_self] at hy
      obtain rfl := Option.some.inj hy
      exact ⟨a, hx⟩
    · rw [Function.update_of_ne hk] at hy
      exact hz.number k y hy
  have hothers (k : Bytes) (hk : k ≠ member) : Function.update m member (some x) k = m k := Function.update_of_ne hk ..
  have hmap := bind_update value m member (some x)
  rw [Option.bind_some, hx] at hmap
  unfold SortedSet.add at hadded ⊢
  rw [hget]
  rw [hwget] at hadded
  cases hm : m member with
  | none =>
    -- a new member is inserted into both
    rw [hm, Option.bind_none] at hadded
    exact ⟨_, ⟨hset, hnumber, _, row', pairs', hstands.insert h hdefault hx member, hmap ▸ hadded⟩, hothers⟩
  | some old =>
    obtain ⟨b, hb⟩ := hz.number member old hm
    rw [hm, Option.bind_some, hb] at hadded
    have heq : (old == x) = (b == a) := h.beq_eq_decide hb hx
    dsimp only at hadded ⊢
    rw [heq]
    split
    · exact ⟨m, hz, fun _ _ => rfl⟩
    · next hne =>
      -- a member whose score changes is taken out and inserted again
      rw [if_neg hne] at hadded
      have hmoved := (hstands.deleteNode h hdefault hb member).insert h hdefault hx member
      exact ⟨_, ⟨hset, hnumber, _, row', pairs', hmoved, hmap ▸ hadded⟩, hothers⟩

/-- **`remove`**. -/
theorem Numbers.remove (hz : Numbers hash value z m) (member : Bytes) :
    Numbers hash value (z.remove hash member).1 (Function.update m member none) := by
  obtain ⟨w, row, pairs, hstands, hw⟩ := hz.zsl
  obtain ⟨⟨row', pairs', hremoved⟩, -⟩ := hw.remove member
  have hget := hz.dict.get_eq member
  have hwget := hw.dict.get_eq member
  have hdel : HashTable.Represents hash (z.dict.del hash member).1 (Function.update m member none) :=
    hz.dict.apply (.del member)
  have hmap := bind_update value m member none
  rw [Option.bind_none] at hmap
  unfold SortedSet.remove at hremoved ⊢
  rw [hget]
  rw [hwget] at hremoved
  cases hm : m member with
  | none =>
    -- a member that is not there
    have hsame : Function.update m member none = m := by
      rw [← hm]
      exact Function.update_eq_self member m
    rw [hsame]
    exact hz
  | some x =>
    obtain ⟨b, hb⟩ := hz.number member x hm
    rw [hm, Option.bind_some, hb] at hremoved
    refine ⟨hdel, fun k y hy => ?_, _, row', pairs', hstands.deleteNode h hdefault hb member, hmap ▸ hremoved⟩
    by_cases hk : k = member
    · rw [hk, Function.update_self] at hy
      cases hy
    · rw [Function.update_of_ne hk] at hy
      exact hz.number k y hy

omit h hdefault
omit [LT S] [DecidableLT S] [BEq S]

omit [Inhabited S] in
/-- The score of a member is the one in the dictionary. -/
theorem Numbers.getScore (hz : Numbers hash value z m) (member : Bytes) : z.getScore hash member = m member :=
  hz.dict.get_eq member

omit [Inhabited S] in
/-- The members of the skip list are those of the dictionary, each once. -/
theorem Numbers.mem_row (hz : Numbers hash value z m) {w : SortedSet L} {row : List (SkipList.Tower L)}
    {pairs : Finset (L × Bytes)} (hw : Represents hash w (fun member => (m member).bind value) row pairs)
    (member : Bytes) : member ∈ (row.map entry).map Prod.fst ↔ ∃ x, m member = some x := by
  rw [List.mem_map]
  constructor
  · rintro ⟨⟨k, b⟩, hin, rfl⟩
    have hb := (hw.listed.mem_iff k b).mp hin
    obtain ⟨x, hx, -⟩ := Option.bind_eq_some_iff.mp hb
    exact ⟨x, hx⟩
  · rintro ⟨x, hx⟩
    obtain ⟨b, hb⟩ := hz.number member x hx
    exact ⟨(member, b), (hw.listed.mem_iff member b).mpr (by rw [hx, Option.bind_some, hb]), rfl⟩

omit [Inhabited S] in
/-- There are as many of them as the set says. -/
theorem Numbers.size_eq (hz : Numbers hash value z m) {w : SortedSet L} {row : List (SkipList.Tower L)}
    {pairs : Finset (L × Bytes)} (hw : Represents hash w (fun member => (m member).bind value) row pairs) :
    z.size = row.length := by
  have hperm : (z.dict.toList.map Prod.fst).Perm ((row.map entry).map Prod.fst) := by
    refine (List.perm_ext_iff_of_nodup hz.dict.inv.nodup_toList hw.listed.nodup_members).mpr fun member => ?_
    rw [hz.mem_row hw, List.mem_map]
    constructor
    · rintro ⟨⟨k, x⟩, hin, rfl⟩
      exact ⟨x, (hz.dict.maps_iff k x).mp (HashTable.Inv.mem_toList_iff.mp hin)⟩
    · rintro ⟨x, hx⟩
      exact ⟨(member, x), HashTable.Inv.mem_toList_iff.mpr ((hz.dict.maps_iff member x).mpr hx), rfl⟩
  calc z.size = z.dict.toList.length := hz.dict.inv.size_eq_length
    _ = (z.dict.toList.map Prod.fst).length := (List.length_map ..).symm
    _ = ((row.map entry).map Prod.fst).length := hperm.length_eq
    _ = row.length := by rw [List.length_map, List.length_map]

/-- **What a range over everything lists**: the members of the set, each once, as long as there are fewer than `2^32`
of them. -/
theorem Numbers.members (hz : Numbers hash value z m) (hdefault : value default = some default)
    (hsize : z.size < 2 ^ 32) :
    ((z.rangeByRank 0 (-1)).map Prod.fst).Nodup ∧
      ∀ member, member ∈ (z.rangeByRank 0 (-1)).map Prod.fst ↔ ∃ x, m member = some x := by
  obtain ⟨w, row, pairs, hstands, hw⟩ := hz.zsl
  have hrow := hz.size_eq hw
  have hrange : (z.rangeByRank 0 (-1)).map Prod.fst = (w.rangeByRank 0 (-1)).map Prod.fst := by
    have hsame : z.size = w.size := hrow.trans hw.size_eq.symm
    rw [rangeByRank_all, rangeByRank_all, hsame, hstands.getElementByRank hdefault]
    split
    · rfl
    · exact hstands.collect hdefault _ _
  rw [hrange, hw.listed.rangeByRank (SkipList.fits_of_lt (hrow ▸ hsize)), Slice.slice_all]
  exact ⟨hw.listed.nodup_members, hz.mem_row hw⟩

end SortedSet

end RedisDb
