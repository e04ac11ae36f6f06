import RedisDb.Storage.HashTable
import RedisDb.Storage.SkipList

/-!
# `SortedSet`

A dictionary from members to scores next to a skip list of the pairs. The hash of the dictionary is
a parameter, as are the comparisons of scores.
-/

namespace RedisDb

variable {S : Type}

/-- `SortedSet`. -/
structure SortedSet (S : Type) where
  dict : HashTable Bytes S
  zsl : SkipList S

namespace SortedSet

variable [Inhabited S]

/-- The default constructor; the skip list draws its heights from `rng`. -/
def new (rng : ℕ → Height) : SortedSet S := { dict := .empty, zsl := .new rng }

/-- `size`. -/
def size (z : SortedSet S) : ℕ := z.dict.size

/-- `empty`. -/
def isEmpty (z : SortedSet S) : Bool := z.dict.isEmpty

variable (hash : Bytes → ℕ)

/-- `getScore`. -/
def getScore (z : SortedSet S) (member : Bytes) : Option S := z.dict.get hash member

section Update

variable [LT S] [DecidableLT S] [BEq S]

/-- `clone`. -/
def clone (z : SortedSet S) (rng : ℕ → Height) : SortedSet S :=
  { dict := z.dict.clone, zsl := z.zsl.clone rng }

/-- `add`: the set, and 1 for a new member. -/
def add (z : SortedSet S) (member : Bytes) (score : S) : SortedSet S × ℕ :=
  match z.dict.get hash member with
  | some oldScore =>
    if oldScore == score then (z, 0)
    else
      ({ dict := (z.dict.set hash member score).1
         zsl := ((z.zsl.deleteNode oldScore member).1.insert score member).1 }, 0)
  | none =>
    ({ dict := (z.dict.set hash member score).1, zsl := (z.zsl.insert score member).1 }, 1)

/-- `remove`: the set, and 1 if the member was there. -/
def remove (z : SortedSet S) (member : Bytes) : SortedSet S × ℕ :=
  match z.dict.get hash member with
  | none => (z, 0)
  | some score =>
    ({ dict := (z.dict.del hash member).1, zsl := (z.zsl.deleteNode score member).1 }, 1)

/-- `getRank`. -/
def getRank (z : SortedSet S) (member : Bytes) : ℕ :=
  match z.dict.get hash member with
  | none => 0
  | some score =>
    let rank := z.zsl.getRank score member
    if 0 < rank then rank - 1 else 0

end Update

/-- The loop of `rangeByRank`: at most `rangeLen` pairs along level 0. -/
def collect (zsl : SkipList S) : ℕ → Option Addr → List (Bytes × S)
  | rangeLen + 1, some a =>
    let n := zsl.heap.node a
    (n.member, n.score) :: collect zsl rangeLen (zsl.heap.levelAt a 0).forward
  | _, _ => []

/-- `rangeByRank`. -/
def rangeByRank (z : SortedSet S) (start stop : ℤ) : List (Bytes × S) :=
  let len : ℤ := z.size
  let start := if start < 0 then len + start else start
  let stop := if stop < 0 then len + stop else stop
  let start := if start < 0 then 0 else start
  if stop < start ∨ len ≤ start then []
  else
    let stop := if len ≤ stop then len - 1 else stop
    collect z.zsl (stop - start + 1).toNat (z.zsl.getElementByRank (start + 1).toNat)

end SortedSet

end RedisDb
