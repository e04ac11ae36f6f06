import RedisDb.Lib.Probe

/-!
# `HashTable`

The open-addressing table: linear probing, tombstones that no insertion reuses, a rehash before an
insertion that would exceed half the capacity. The hash function is a parameter.

`insertInternal` and `findIndex` walk the buckets with the same loop, which ends at the first bucket
that was never used or that holds the key (`findSlot`).
-/

namespace RedisDb

variable {K V : Type}

/-- A bucket. -/
structure Bucket (K V : Type) where
  key : K
  value : V
  active : Bool := false
  tombstone : Bool := false

namespace Bucket

/-- A bucket no insertion has touched since the buckets were allocated. -/
def neverUsed (b : Bucket K V) : Bool := !b.active && !b.tombstone

/-- The bucket of a live entry for `key`. -/
def holds [DecidableEq K] (key : K) (b : Bucket K V) : Bool := b.active && (b.key = key : Bool)

end Bucket

/-- `HashTable`. -/
structure HashTable (K V : Type) where
  buckets : List (Bucket K V)
  size : ℕ
  tombstoneCount : ℕ

namespace HashTable

/-- `std::vector<Bucket>(n)`: value-initialised buckets. -/
def freshBuckets [Inhabited K] [Inhabited V] (n : ℕ) : List (Bucket K V) :=
  List.replicate n { key := default, value := default }

/-- The default constructor. -/
def empty [Inhabited K] [Inhabited V] : HashTable K V where
  buckets := freshBuckets 16
  size := 0
  tombstoneCount := 0

variable [DecidableEq K] (hash : K → ℕ)

/-- The probe loop of `insertInternal` and `findIndex`: the first bucket, from the home of `key` on,
that was never used or holds `key`; `none` when the loop comes round to its start. -/
def findSlot (buckets : List (Bucket K V)) (key : K) : Option ℕ :=
  Probe.probe buckets.length
    (fun i => match buckets[i]? with
      | some b => b.neverUsed || b.holds key
      | none => false)
    (hash key % buckets.length)

/-- `insertInternal`: the buckets, the size, and whether the key is new. -/
def insertInternal (key : K) (value : V) (buckets : List (Bucket K V)) (size : ℕ) :
    List (Bucket K V) × ℕ × Bool :=
  match findSlot hash buckets key with
  | none => (buckets, size, false)
  | some i =>
    match buckets[i]? with
    | none => (buckets, size, false)
    | some b =>
      if b.neverUsed then
        (buckets.set i { b with key := key, value := value, active := true }, size + 1, true)
      else (buckets.set i { b with value := value }, size, false)

/-- `findIndex`, with `none` for `NPOS`. -/
def findIndex (key : K) (buckets : List (Bucket K V)) : Option ℕ :=
  match findSlot hash buckets key with
  | none => none
  | some i =>
    match buckets[i]? with
    | none => none
    | some b => if b.neverUsed then none else some i

/-- The loop of `rehash`: the active buckets, inserted one after another. -/
def reinsert : List (Bucket K V) → List (Bucket K V) → ℕ → List (Bucket K V) × ℕ
  | [], newBuckets, newSize => (newBuckets, newSize)
  | b :: bs, newBuckets, newSize =>
    if b.active then
      let r := insertInternal hash b.key b.value newBuckets newSize
      reinsert bs r.1 r.2.1
    else reinsert bs newBuckets newSize

/-- `rehash`. -/
def rehash [Inhabited K] [Inhabited V] (t : HashTable K V) (newCapacity : ℕ) : HashTable K V :=
  let r := reinsert hash t.buckets (freshBuckets newCapacity) 0
  { buckets := r.1, size := r.2, tombstoneCount := 0 }

/-- `checkRehash`. -/
def checkRehash [Inhabited K] [Inhabited V] (t : HashTable K V) : HashTable K V :=
  if t.buckets.length / 2 ≤ t.size then t.rehash hash (t.buckets.length * 2)
  else if t.buckets.length / 2 ≤ t.size + t.tombstoneCount then t.rehash hash t.buckets.length
  else t

/-- `set`: the table, and whether the key is new. -/
def set [Inhabited K] [Inhabited V] (t : HashTable K V) (key : K) (value : V) :
    HashTable K V × Bool :=
  let t' := t.checkRehash hash
  let r := insertInternal hash key value t'.buckets t'.size
  ({ t' with buckets := r.1, size := r.2.1 }, r.2.2)

/-- `del`: the table, and whether the key was there. -/
def del [Inhabited K] [Inhabited V] (t : HashTable K V) (key : K) : HashTable K V × Bool :=
  match findIndex hash key t.buckets with
  | none => (t, false)
  | some i =>
    ({ buckets := t.buckets.set i
        { key := default, value := default, active := false, tombstone := true }
       size := t.size - 1
       tombstoneCount := t.tombstoneCount + 1 }, true)

/-- `clear`: the counter of the tombstones is left as it is. -/
def clear [Inhabited K] [Inhabited V] (t : HashTable K V) : HashTable K V :=
  { t with buckets := freshBuckets 16, size := 0 }

/-- `clone`: the buckets and the size are copied, the counter of the tombstones starts at zero. -/
def clone (t : HashTable K V) : HashTable K V :=
  { buckets := t.buckets, size := t.size, tombstoneCount := 0 }

/-- `get`. -/
def get (t : HashTable K V) (key : K) : Option V :=
  match findIndex hash key t.buckets with
  | none => none
  | some i => (t.buckets[i]?).map Bucket.value

/-- `exists`. -/
def contains (t : HashTable K V) (key : K) : Bool := (findIndex hash key t.buckets).isSome

/-- `empty()`. -/
def isEmpty (t : HashTable K V) : Bool := t.size = 0

omit [DecidableEq K] in
/-- What the iterator visits: the active buckets in storage order. -/
def toList (t : HashTable K V) : List (K × V) :=
  (t.buckets.filter Bucket.active).map fun b => (b.key, b.value)

end HashTable

end RedisDb
