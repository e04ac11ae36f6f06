import RedisDb.Cpp
import RedisDb.Lib.Chain

/-!
# `SkipList`

The skip list with its nodes in a heap: `forward`, `backward`, `head_` and `tail_` are addresses,
spans and ranks are `unsigned int`s, and every loop of the source follows the pointers stored. The
comparisons of scores are those of the score type, whatever they are.

`rng_` and `dist_` are seen through what they are used for: the heights that successive calls of
`randomLevel` draw. A walk along one level takes at most `length_` steps, which is the fuel given
to it.
-/

namespace RedisDb

/-- The address of a node. -/
abbrev Addr := ℕ

/-- `SKIPLIST_MAXLEVEL`. -/
def maxLevel : ℕ := 32

/-- What `randomLevel` returns. -/
abbrev Height := { l : ℕ // 1 ≤ l ∧ l ≤ maxLevel }

/-- The least that it returns. -/
theorem one_inLevels : 1 ≤ 1 ∧ 1 ≤ maxLevel := by decide

theorem two_inLevels : 1 ≤ 2 ∧ 2 ≤ maxLevel := by decide

/-- `SkipListLevel`. -/
structure SkipListLevel where
  forward : Option Addr := none
  span : UInt32 := 0
  deriving DecidableEq

/-- `SkipListNode`. -/
structure SkipListNode (S : Type) where
  member : Bytes
  score : S
  backward : Option Addr := none
  level : List SkipListLevel

variable {S : Type}

/-- The nodes allocated and not yet deleted. -/
abbrev NodeHeap (S : Type) := Addr → Option (SkipListNode S)

namespace NodeHeap

variable (h : NodeHeap S)

/-- The node at an address. -/
def node [Inhabited S] (a : Addr) : SkipListNode S :=
  (h a).getD { member := [], score := default, level := [] }

/-- `a->level[i]`. -/
def levelAt (a : Addr) (i : ℕ) : SkipListLevel := ((h a).bind fun n => n.level[i]?).getD {}

/-- `a->backward`. -/
def backward (a : Addr) : Option Addr := (h a).bind SkipListNode.backward

/-- `a->level[i] = l`. -/
def setLevel (a : Addr) (i : ℕ) (l : SkipListLevel) : NodeHeap S :=
  Function.update h a ((h a).map fun n => { n with level := n.level.set i l })

/-- `a->backward = b`. -/
def setBackward (a : Addr) (b : Option Addr) : NodeHeap S :=
  Function.update h a ((h a).map fun n => { n with backward := b })

/-- `if (a) a->backward = b`. -/
def setBackwardIf (a b : Option Addr) : NodeHeap S :=
  match a with
  | some a => h.setBackward a b
  | none => h

end NodeHeap

/-- `SkipList`. -/
structure SkipList (S : Type) where
  heap : NodeHeap S
  /-- Where the next node is allocated. -/
  fresh : Addr
  head : Addr
  tail : Option Addr
  length : ℕ
  level : ℕ
  /-- The heights still to be drawn. -/
  rng : ℕ → Height

namespace SkipList

/-- The constructor. -/
def new [Inhabited S] (rng : ℕ → Height) : SkipList S where
  heap := Function.update (fun _ => none) 0
    (some { member := [], score := default, level := List.replicate maxLevel {} })
  fresh := 1
  head := 0
  tail := none
  length := 0
  level := 1
  rng := rng

section Search

variable [Inhabited S] {α : Type}

/-- One turn of a walk along level `i`: move to the next node if `go` lets the accumulated value
pass. -/
def advance (t : SkipList S) (go : α → SkipListLevel → SkipListNode S → Option α) (i : ℕ) :
    Addr × α → Option (Addr × α)
  | (x, acc) =>
    let l := t.heap.levelAt x i
    match l.forward with
    | none => none
    | some y => (go acc l (t.heap.node y)).map fun acc => (y, acc)

/-- The walk along level `i`. -/
def walk (t : SkipList S) (go : α → SkipListLevel → SkipListNode S → Option α) (i : ℕ)
    (s : Addr × α) : Addr × α :=
  Chain.chase (t.advance go i) t.length s

/-- The descent through the levels below `i`: where the walk along each of them ends. -/
def search (t : SkipList S) (go : α → SkipListLevel → SkipListNode S → Option α) :
    ℕ → Addr × α → List (Addr × α)
  | 0, _ => []
  | i + 1, s => let s' := t.walk go i s; t.search go i s' ++ [s']

end Search

/-- A loop over the levels from `i` on, one entry of `update` for each. -/
def forLevels {α : Type} (body : ℕ → α → NodeHeap S → NodeHeap S) :
    ℕ → List α → NodeHeap S → NodeHeap S
  | _, [], h => h
  | i, u :: us, h => forLevels body (i + 1) us (body i u h)

section Update

variable [Inhabited S] [LT S] [DecidableLT S] [BEq S]

/-- The comparison of `insert` and `deleteNode`: the node comes before `(score, member)`. -/
def precedes (score : S) (member : Bytes) (n : SkipListNode S) : Bool :=
  n.score < score || (n.score == score && decide (n.member < member))

/-- The turn for level `i` of the loop that opens levels: the head, with the whole list as span. -/
def openLevel (length : ℕ) (i : ℕ) (u : Addr × UInt32) (h : NodeHeap S) : NodeHeap S :=
  h.setLevel u.1 i { h.levelAt u.1 i with span := UInt32.ofNat length }

/-- The turn for level `i` of the loop that links `x` behind `update[i]`. -/
def link (x : Addr) (rank0 : UInt32) (i : ℕ) (u : Addr × UInt32) (h : NodeHeap S) : NodeHeap S :=
  let l := h.levelAt u.1 i
  (h.setLevel x i { forward := l.forward, span := l.span - (rank0 - u.2) }).setLevel u.1 i
    { forward := some x, span := (rank0 - u.2) + 1 }

/-- The turn for level `i`, above the new node, of the loop that counts it in. -/
def widen (i : ℕ) (u : Addr × UInt32) (h : NodeHeap S) : NodeHeap S :=
  let l := h.levelAt u.1 i
  h.setLevel u.1 i { l with span := l.span + 1 }

/-- The heap after the loops of `insert`, without the backward pointers: the levels from `level_` on
are opened, the node `x` is allocated and linked. -/
def placeHeap (t : SkipList S) (found : List (Addr × UInt32)) (level : ℕ) (score : S)
    (member : Bytes) : NodeHeap S :=
  let x := t.fresh
  let opened := List.replicate (level - t.level) (t.head, 0)
  let update := found ++ opened
  let heap := forLevels (openLevel t.length) t.level opened t.heap
  let heap := Function.update heap x
    (some { member := member, score := score, level := List.replicate level {} })
  let heap := forLevels (link x (update.headD (t.head, 0)).2) 0 (update.take level) heap
  forLevels widen level (update.drop level) heap

/-- `insert` from the call of `randomLevel` on. -/
def place (t : SkipList S) (found : List (Addr × UInt32)) (level : ℕ) (score : S)
    (member : Bytes) : SkipList S × Addr :=
  let x := t.fresh
  let heap := t.placeHeap found level score member
  let prev := (found.headD (t.head, 0)).1
  let heap := heap.setBackward x (if prev = t.head then none else some prev)
  let next := (heap.levelAt x 0).forward
  ({ heap := heap.setBackwardIf next (some x)
     fresh := t.fresh + 1
     head := t.head
     tail := if next.isSome then t.tail else some x
     length := t.length + 1
     level := max t.level level
     rng := fun k => t.rng (k + 1) }, x)

/-- `insert`. -/
def insert (t : SkipList S) (score : S) (member : Bytes) : SkipList S × Addr :=
  let found := t.search (fun rank l n => if precedes score member n then some (rank + l.span)
    else none) t.level (t.head, (0 : UInt32))
  t.place found (t.rng 0).val score member

/-- The turn for level `i` of the loop of `deleteNodeInternal`. -/
def unlink (x : Addr) (i : ℕ) (u : Addr × Unit) (h : NodeHeap S) : NodeHeap S :=
  let l := h.levelAt u.1 i
  let lx := h.levelAt x i
  h.setLevel u.1 i
    (if l.forward = some x then { forward := lx.forward, span := l.span + (lx.span - 1) }
     else { l with span := l.span - 1 })

/-- The loop of `deleteNodeInternal` that gives up the levels left empty. -/
def trimLevel (h : NodeHeap S) (head : Addr) : ℕ → ℕ
  | 0 => 0
  | l + 1 => if 1 < l + 1 ∧ (h.levelAt head l).forward = none then trimLevel h head l else l + 1

/-- `deleteNodeInternal`, and the `delete` that follows it. -/
def deleteNodeInternal (t : SkipList S) (x : Addr) (update : List (Addr × Unit)) : SkipList S :=
  let heap := forLevels (unlink x) 0 update t.heap
  let next := (heap.levelAt x 0).forward
  let back := heap.backward x
  let heap := heap.setBackwardIf next back
  { heap := Function.update heap x none
    fresh := t.fresh
    head := t.head
    tail := if next.isSome then t.tail else back
    length := t.length - 1
    level := trimLevel heap t.head t.level
    rng := t.rng }

/-- `deleteNode`. -/
def deleteNode (t : SkipList S) (score : S) (member : Bytes) : SkipList S × ℕ :=
  let update := t.search (fun _ _ n => if precedes score member n then some () else none)
    t.level (t.head, ())
  let first := update.headD (t.head, ())
  match (t.heap.levelAt first.1 0).forward with
  | none => (t, 0)
  | some x =>
    let n := t.heap.node x
    if score == n.score && n.member == member then (t.deleteNodeInternal x update, 1) else (t, 0)

/-- The loop of `clone`. -/
def cloneLoop (t : SkipList S) : ℕ → Option Addr → SkipList S → SkipList S
  | fuel + 1, some curr, copy =>
    let n := t.heap.node curr
    t.cloneLoop fuel (t.heap.levelAt curr 0).forward (copy.insert n.score n.member).1
  | _, _, copy => copy

/-- `clone`; the copy draws heights of its own. -/
def clone (t : SkipList S) (rng : ℕ → Height) : SkipList S :=
  t.cloneLoop t.length (t.heap.levelAt t.head 0).forward (new rng)

end Update

section Query

variable [Inhabited S] [LT S] [DecidableLT S] [BEq S]

/-- The comparison of `getRank`: the node does not come after `(score, member)`. -/
def notAfter (score : S) (member : Bytes) (n : SkipListNode S) : Bool :=
  n.score < score || (n.score == score && decide (n.member ≤ member))

/-- The descent of `getRank` through the levels below `i`. -/
def getRankLoop (t : SkipList S) (score : S) (member : Bytes) : ℕ → Addr × ℕ → ℕ
  | 0, _ => 0
  | i + 1, s =>
    let s' := t.walk (fun rank l n => if notAfter score member n then some (rank + l.span.toNat)
      else none) i s
    if (t.heap.node s'.1).member = member then s'.2 else t.getRankLoop score member i s'

/-- `getRank`. -/
def getRank (t : SkipList S) (score : S) (member : Bytes) : ℕ :=
  t.getRankLoop score member t.level (t.head, 0)

omit [LT S] [DecidableLT S] [BEq S] in
/-- The descent of `getElementByRank` through the levels below `i`. -/
def getElementByRankLoop (t : SkipList S) (rank : ℕ) : ℕ → Addr × ℕ → Option Addr
  | 0, _ => none
  | i + 1, s =>
    let s' := t.walk (fun traversed l _ =>
      if traversed + l.span.toNat ≤ rank then some (traversed + l.span.toNat) else none) i s
    if s'.2 = rank then some s'.1 else t.getElementByRankLoop rank i s'

omit [LT S] [DecidableLT S] [BEq S] in
/-- `getElementByRank`. -/
def getElementByRank (t : SkipList S) (rank : ℕ) : Option Addr :=
  t.getElementByRankLoop rank t.level (t.head, 0)

omit [BEq S] in
/-- `getFirstInRange`. -/
def getFirstInRange (t : SkipList S) (min max : S) : Option Addr :=
  let found := t.search (fun _ _ n => if n.score < min then some () else none) t.level (t.head, ())
  match (t.heap.levelAt (found.headD (t.head, ())).1 0).forward with
  | none => none
  | some x => if max < (t.heap.node x).score then none else some x

omit [BEq S] in
/-- `getLastInRange`. -/
def getLastInRange [LE S] [DecidableLE S] (t : SkipList S) (min max : S) : Option Addr :=
  let found := t.search (fun _ _ n => if n.score ≤ max then some () else none) t.level (t.head, ())
  let x := (found.headD (t.head, ())).1
  if x = t.head ∨ (t.heap.node x).score < min then none else some x

end Query

end SkipList

end RedisDb
