import RedisDb.Cpp

/-!
# `LinkedList`

The doubly linked list behind the list type, with its nodes in a heap: `prev`, `next`, `head_` and
`tail_` are addresses, and every loop of the source follows the pointers stored. The loops that the
source ends on a null pointer take at most `length_` steps, which is the fuel given to them.

`get` and `range` take `int`s and cast `length_` to `int` (`asInt`), as the source does.
-/

namespace RedisDb

/-- The address of a node. -/
abbrev ListAddr := ℕ

/-- `ListNode`. -/
structure ListNode where
  value : Bytes
  prev : Option ListAddr := none
  next : Option ListAddr := none
deriving DecidableEq, Repr

/-- The nodes allocated and not yet deleted. -/
abbrev ListHeap := ListAddr → Option ListNode

namespace ListHeap

variable (h : ListHeap)

/-- `a->prev`, for a pointer that may be null. -/
def prev (a : Option ListAddr) : Option ListAddr := (a.bind h).bind ListNode.prev

/-- `a->next`, for a pointer that may be null. -/
def next (a : Option ListAddr) : Option ListAddr := (a.bind h).bind ListNode.next

/-- `a->value`, for a pointer that may be null. -/
def value (a : Option ListAddr) : Option Bytes := (a.bind h).map ListNode.value

/-- `a->prev = p`. -/
def setPrev (a : Option ListAddr) (p : Option ListAddr) : ListHeap :=
  match a with
  | none => h
  | some a => Function.update h a ((h a).map fun n => { n with prev := p })

/-- `a->next = p`. -/
def setNext (a : Option ListAddr) (p : Option ListAddr) : ListHeap :=
  match a with
  | none => h
  | some a => Function.update h a ((h a).map fun n => { n with next := p })

/-- `delete a`. -/
def free (a : Option ListAddr) : ListHeap :=
  match a with
  | none => h
  | some a => Function.update h a none

end ListHeap

/-- `LinkedList`. -/
structure LinkedList where
  heap : ListHeap
  /-- Where the next node is allocated. -/
  fresh : ListAddr
  head : Option ListAddr
  tail : Option ListAddr
  length : ℕ

namespace LinkedList

/-- The default constructor. -/
def new : LinkedList := { heap := fun _ => none, fresh := 0, head := none, tail := none, length := 0 }

/-- `size`. -/
def size (l : LinkedList) : ℕ := l.length

/-- `empty`. -/
def isEmpty (l : LinkedList) : Bool := l.length = 0

/-- `pushFront`. -/
def pushFront (l : LinkedList) (value : Bytes) : LinkedList :=
  let node := l.fresh
  if l.length = 0 then
    { heap := Function.update l.heap node (some { value := value })
      fresh := l.fresh + 1, head := some node, tail := some node, length := l.length + 1 }
  else
    let heap : ListHeap := Function.update l.heap node (some { value := value, next := l.head })
    { l with heap := heap.setPrev l.head (some node), fresh := l.fresh + 1, head := some node
             length := l.length + 1 }

/-- `pushBack`. -/
def pushBack (l : LinkedList) (value : Bytes) : LinkedList :=
  let node := l.fresh
  if l.length = 0 then
    { heap := Function.update l.heap node (some { value := value })
      fresh := l.fresh + 1, head := some node, tail := some node, length := l.length + 1 }
  else
    let heap : ListHeap := Function.update l.heap node (some { value := value, prev := l.tail })
    { l with heap := heap.setNext l.tail (some node), fresh := l.fresh + 1, tail := some node
             length := l.length + 1 }

/-- `popFront`. -/
def popFront (l : LinkedList) : Option Bytes × LinkedList :=
  if l.length = 0 then (none, l)
  else
    let node := l.head
    let head := l.heap.next node
    -- the new head's back link is cut, and with no new head the list is empty
    (l.heap.value node,
      { l with heap := (l.heap.setPrev head none).free node
               head := head
               tail := if head.isSome then l.tail else none
               length := l.length - 1 })

/-- `popBack`. -/
def popBack (l : LinkedList) : Option Bytes × LinkedList :=
  if l.length = 0 then (none, l)
  else
    let node := l.tail
    let tail := l.heap.prev node
    (l.heap.value node,
      { l with heap := (l.heap.setNext tail none).free node
               head := if tail.isSome then l.head else none
               tail := tail
               length := l.length - 1 })

/-- The loop of `clear`. -/
def freeLoop : ℕ → Option ListAddr → ListHeap → ListHeap
  | fuel + 1, some current, h => freeLoop fuel (h.next (some current)) (h.free (some current))
  | _, _, h => h

/-- `clear`. -/
def clear (l : LinkedList) : LinkedList :=
  { l with heap := freeLoop l.length l.head l.heap, head := none, tail := none, length := 0 }

/-- The loop of `clone`. -/
def cloneLoop (h : ListHeap) : ℕ → Option ListAddr → LinkedList → LinkedList
  | fuel + 1, some curr, copy =>
    cloneLoop h fuel (h.next (some curr)) (copy.pushBack ((h.value (some curr)).getD []))
  | _, _, copy => copy

/-- `clone`. -/
def clone (l : LinkedList) : LinkedList := cloneLoop l.heap l.length l.head new

/-- `get`. -/
def get (l : LinkedList) (index : ℤ) : Option Bytes :=
  if l.length = 0 then none
  else
    let index := if index < 0 then asInt l.length + index else index
    if index < 0 ∨ asInt l.length ≤ index then none
    else if asInt (l.length / 2) < index then
      l.heap.value (l.heap.prev^[(asInt l.length - 1 - index).toNat] l.tail)
    else l.heap.value (l.heap.next^[index.toNat] l.head)

/-- The loop of `range`. -/
def collect (h : ListHeap) : ℕ → Option ListAddr → List Bytes
  | count + 1, some current =>
    (h.value (some current)).getD [] :: collect h count (h.next (some current))
  | _, _ => []

/-- `range`. -/
def range (l : LinkedList) (start stop : ℤ) : List Bytes :=
  if l.length = 0 then []
  else
    let start := if start < 0 then asInt l.length + start else start
    let stop := if stop < 0 then asInt l.length + stop else stop
    let start := if start < 0 then 0 else start
    let stop := if stop < 0 then 0 else stop
    if asInt l.length ≤ start then []
    else
      let stop := if asInt l.length ≤ stop then asInt l.length - 1 else stop
      if stop < start then []
      else collect l.heap (stop - start + 1).toNat (l.heap.next^[start.toNat] l.head)

/-- The values along the forward links. -/
def toList (l : LinkedList) : List Bytes := collect l.heap l.length l.head

end LinkedList

end RedisDb
