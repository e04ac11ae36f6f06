import RedisDb.Storage.RedisObject

/-!
# `MemoryManager`

The estimate of the memory in use, and the clock of the LRU policy.
-/

namespace RedisDb

/-- `MemoryManager`. That `freeMemory` has had to stop at zero is kept as a history variable. -/
structure MemoryManager where
  usedMemory : ℕ := 0
  lruClock : UInt32 := 0
  clamped : Bool := false

namespace MemoryManager

/-- `addMemory`. -/
def addMemory (m : MemoryManager) (bytes : ℕ) : MemoryManager :=
  { m with usedMemory := m.usedMemory + bytes }

/-- `freeMemory`, which stops at zero. -/
def freeMemory (m : MemoryManager) (bytes : ℕ) : MemoryManager :=
  { m with usedMemory := m.usedMemory - bytes
           clamped := m.clamped || decide (m.usedMemory < bytes) }

variable {S : Type} [Platform]

/-- `estimateStringSize`. -/
def estimateStringSize (s : Bytes) : ℕ := 32 + Platform.capacity s.length

/-- `estimateObjectSize`. A pointer has eight bytes. -/
def estimateObjectSize (obj : RedisObject S) : ℕ :=
  Platform.sizeofRedisObject +
    match obj.value with
    | .string s => estimateStringSize s
    | .list l => Platform.sizeofLinkedList + l.size * (8 * 2 + 32)
    | .hash t => Platform.sizeofHashTable + t.size * 64
    | .set s => Platform.sizeofHashSet + s.size * 48
    | .zset z => Platform.sizeofSortedSet + z.size * 128
    | .none => 0

/-- What the estimates give for a key with its object. -/
def entrySize (key : Bytes) (obj : RedisObject S) : ℕ :=
  estimateStringSize key + estimateObjectSize obj

end MemoryManager

/-- A change of an object through a pointer to it: what the estimates give for it with its key before and after. -/
structure InPlace where
  key : Bytes
  before : ℕ
  after : ℕ

end RedisDb
