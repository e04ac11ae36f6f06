import RedisDb.Storage.HashTable
import RedisDb.Storage.LinkedList
import RedisDb.Storage.SortedSet

/-!
# Stored objects

`HashSet`, a hash table from members to nothing, and `RedisObject`, the value stored under a key.
The `type_` of an object and the alternative its `value_` holds are set together by every
constructor, so the model keeps the alternative only.

`Platform` gathers what the sources take from the standard library's implementation and the
compiler, and `Double` what they use of `double` besides its comparisons.
-/

namespace RedisDb

/-- What the implementation decides. -/
class Platform where
  /-- `std::hash<std::string>`. -/
  hash : Bytes → ℕ
  /-- The capacity of a string of a given length. -/
  capacity : ℕ → ℕ
  /-- `std::string::max_size()`, which a difference of two pointers can hold. -/
  maxString : ℕ
  maxString_lt : maxString < 2 ^ 63
  sizeofRedisObject : ℕ
  sizeofLinkedList : ℕ
  sizeofHashTable : ℕ
  sizeofHashSet : ℕ
  sizeofSortedSet : ℕ

/-- A `double`: eight bytes in memory, read from a text by `std::stod` and written by
`std::to_string`. -/
class Double (S : Type) where
  toBits : S → UInt64
  ofBits : UInt64 → S
  ofBits_toBits : ∀ x, ofBits (toBits x) = x
  stod : Bytes → Except Exn S
  toText : S → Bytes

/-! ### A platform to compute with -/

namespace Sample

/-- A platform whose strings of up to 15 bytes need no memory of their own. -/
scoped instance : Platform where
  hash s := s.foldl (fun h b => 31 * h + b.toNat) 7
  capacity n := max 15 n
  maxString := 2 ^ 62 - 1
  maxString_lt := by norm_num
  sizeofRedisObject := 40
  sizeofLinkedList := 24
  sizeofHashTable := 56
  sizeofHashSet := 56
  sizeofSortedSet := 88

/-- Scores that are whole numbers. -/
abbrev Score := Fin (2 ^ 64)

scoped instance : Inhabited Score := ⟨0⟩

scoped instance : Double Score where
  toBits x := UInt64.ofNat x
  ofBits b := ⟨b.toNat, b.toNat_lt⟩
  ofBits_toBits x := Fin.ext (Nat.mod_eq_of_lt x.isLt)
  stod s := match fromChars s with
    | .ok (i, _) => .ok (Fin.ofNat (2 ^ 64) i.toNat)
    | .error _ => .error .invalidArgument
  toText x := toText (x : ℕ) ++ str ".000000"

end Sample

/-! ### `HashSet` -/

/-- `HashSet`. -/
structure HashSet where
  table : HashTable Bytes Unit

namespace HashSet

variable [Platform]

/-- The default constructor. -/
def new : HashSet := { table := .empty }

/-- `clone`. -/
def clone (s : HashSet) : HashSet := { table := s.table.clone }

/-- `add`: the set, and whether the member is new. -/
def add (s : HashSet) (member : Bytes) : HashSet × Bool :=
  let r := s.table.set Platform.hash member ()
  ({ table := r.1 }, r.2)

/-- `remove`: the set, and whether the member was there. -/
def remove (s : HashSet) (member : Bytes) : HashSet × Bool :=
  let r := s.table.del Platform.hash member
  ({ table := r.1 }, r.2)

/-- `contains`. -/
def contains (s : HashSet) (member : Bytes) : Bool := s.table.contains Platform.hash member

/-- `size`. -/
def size (s : HashSet) : ℕ := s.table.size

/-- `empty`. -/
def isEmpty (s : HashSet) : Bool := s.table.isEmpty

/-- `members`. -/
def members (s : HashSet) : List Bytes := s.table.toList.map Prod.fst

end HashSet

/-! ### `RedisObject` -/

/-- `ObjectType`. -/
inductive ObjectType where
  | string | list | hash | set | sortedSet | none
deriving DecidableEq, Repr

variable {S : Type}

/-- The alternatives of `value_`. -/
inductive Value (S : Type) where
  | none
  | string (str : Bytes)
  | list (list : LinkedList)
  | hash (hash : HashTable Bytes Bytes)
  | set (set : HashSet)
  | zset (zset : SortedSet S)

/-- `RedisObject`. -/
structure RedisObject (S : Type) where
  value : Value S
  lruClock : UInt32 := 0

namespace RedisObject

/-- `type`. -/
def type (obj : RedisObject S) : ObjectType :=
  match obj.value with
  | .none => .none
  | .string _ => .string
  | .list _ => .list
  | .hash _ => .hash
  | .set _ => .set
  | .zset _ => .sortedSet

/-- `typeString`. -/
def typeString (obj : RedisObject S) : Bytes :=
  match obj.type with
  | .string => str "string"
  | .list => str "list"
  | .hash => str "hash"
  | .set => str "set"
  | .sortedSet => str "zset"
  | .none => str "none"

/-- `updateLruClock`. -/
def updateLruClock (obj : RedisObject S) (clock : UInt32) : RedisObject S :=
  { obj with lruClock := clock }

/-- `clone`. The copy is a new object, with an LRU clock at zero; the skip list of a sorted set draws
its heights from `rng`. -/
def clone [Inhabited S] [LT S] [DecidableLT S] [BEq S] (obj : RedisObject S) (rng : ℕ → Height) :
    RedisObject S :=
  match obj.value with
  | .none => { value := .none }
  | .string s => { value := .string s }
  | .list l => { value := .list l.clone }
  | .hash t => { value := .hash t.clone }
  | .set s => { value := .set s.clone }
  | .zset z => { value := .zset (z.clone rng) }

end RedisObject

end RedisDb
