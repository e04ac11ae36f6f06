import RedisDb.Storage.DatabaseInv
import RedisDb.Storage.RdbPersistence

/-!
# What a snapshot file says

A file is a sequence of items: the choice of a database, its sizes, a deadline, a key with its value.
`Item.bytes` is the encoding, `saveKeys_eq` and `saveDatabases_eq` say which items the writer writes at
a fixed clock reading, and `Value.Shows` what has to hold of a stored value for its item to carry its
content: above all that the number of elements announced is the number of elements written
(`Value.Counted`), which the writer takes from different places.
-/

namespace RedisDb

variable {S : Type}

/-! ### Items -/

/-- The elements of a value in the order they are written. -/
inductive Payload (S : Type) where
  | none
  | string (s : Bytes)
  | list (xs : List Bytes)
  | hash (kvs : List (Bytes × Bytes))
  | set (members : List Bytes)
  | zset (pairs : List (Bytes × S))

namespace Payload

/-- A string, behind its length. -/
def stringBytes (s : Bytes) : Bytes := LittleEndian.bytes 8 s.length ++ s

/-- A sequence, behind its length. -/
def manyBytes {α : Type} (f : α → Bytes) (xs : List α) : Bytes :=
  LittleEndian.bytes 8 xs.length ++ xs.flatMap f

/-- A field and its value. -/
def fieldBytes (kv : Bytes × Bytes) : Bytes := stringBytes kv.1 ++ stringBytes kv.2

variable [Double S]

/-- A member and its score. -/
def scoreBytes (pair : Bytes × S) : Bytes :=
  stringBytes pair.1 ++ LittleEndian.bytes 8 (Double.toBits pair.2).toNat

/-- The encoding of the elements. -/
def bytes : Payload S → Bytes
  | .none => []
  | .string s => stringBytes s
  | .list xs => manyBytes stringBytes xs
  | .hash kvs => manyBytes fieldBytes kvs
  | .set members => manyBytes stringBytes members
  | .zset pairs => manyBytes scoreBytes pairs

omit [Double S] in
/-- The opcode of the type. -/
def opcode : Payload S → UInt8
  | .none => 0
  | .string _ => Rdb.typeString
  | .list _ => Rdb.typeList
  | .hash _ => Rdb.typeHash
  | .set _ => Rdb.typeSet
  | .zset _ => Rdb.typeZset

omit [Double S] in
/-- The elements are those of the content, each once. -/
def Means : Payload S → Content S → Prop
  | .string s, .string s' => s = s'
  | .list xs, .list xs' => xs = xs'
  | .hash kvs, .hash m => (kvs.map Prod.fst).Nodup ∧ ∀ k v, (k, v) ∈ kvs ↔ m k = some v
  | .set members, .set m => members.Nodup ∧ ∀ x, x ∈ members ↔ m x = true
  | .zset pairs, .zset m => (pairs.map Prod.fst).Nodup ∧ ∀ k v, (k, v) ∈ pairs ↔ m k = some v
  | _, _ => False

omit [Double S] in
/-- The strings are no longer than a `std::string` can be, and there are no more elements than a
`size_t` can count. -/
def Fits [Platform] : Payload S → Prop
  | .none => True
  | .string s => s.length ≤ Platform.maxString
  | .list xs => xs.length < 2 ^ 64 ∧ ∀ x ∈ xs, x.length ≤ Platform.maxString
  | .hash kvs => kvs.length < 2 ^ 64 ∧
    ∀ kv ∈ kvs, kv.1.length ≤ Platform.maxString ∧ kv.2.length ≤ Platform.maxString
  | .set members => members.length < 2 ^ 64 ∧ ∀ x ∈ members, x.length ≤ Platform.maxString
  | .zset pairs => pairs.length < 2 ^ 64 ∧ ∀ p ∈ pairs, p.1.length ≤ Platform.maxString

instance [Platform] : DecidablePred (Fits (S := S))
  | .none => .isTrue trivial
  | .string _ => inferInstanceAs (Decidable (_ ≤ _))
  | .list _ | .hash _ | .set _ | .zset _ => inferInstanceAs (Decidable (_ ∧ ∀ _ ∈ _, _))

end Payload

/-- The parts of a file between the magic and the end. -/
inductive Item (S : Type) where
  | selectDb (i : ℕ)
  | resizeDb (size expiresSize : ℕ)
  | expireTimeMs (ms : ℕ)
  | value (key : Bytes) (payload : Payload S)

/-- The encoding of an item. -/
def Item.bytes [Double S] : Item S → Bytes
  | .selectDb i => Rdb.opcodeSelectDb :: LittleEndian.bytes 8 i
  | .resizeDb size expiresSize =>
    Rdb.opcodeResizeDb :: (LittleEndian.bytes 8 size ++ LittleEndian.bytes 8 expiresSize)
  | .expireTimeMs ms => Rdb.opcodeExpireTimeMs :: LittleEndian.bytes 8 ms
  | .value key payload => payload.opcode :: (Payload.stringBytes key ++ payload.bytes)

/-! ### Values as the writer sees them -/

section Show

variable [Platform] [Inhabited S]

omit [Platform] in
/-- The elements `saveObject` writes. -/
def Value.payload : Value S → Payload S
  | .none => .none
  | .string s => .string s
  | .list l => .list ((List.range (asInt l.size).toNat).filterMap fun j : ℕ => l.get j)
  | .hash t => .hash t.toList
  | .set s => .set s.members
  | .zset z => .zset (z.rangeByRank 0 (-1))

omit [Platform] in
/-- As many elements are written as are announced: the length of a list survives the cast to `int`,
and the range of all members of a sorted set has them all. -/
def Value.Counted : Value S → Prop
  | .list l => asInt l.size = l.size
  | .zset z => (z.rangeByRank 0 (-1)).length = z.size
  | _ => True

omit [Platform] in
instance : DecidablePred (Value.Counted (S := S))
  | .list _ | .zset _ => inferInstanceAs (Decidable (_ = _))
  | .none | .string _ | .hash _ | .set _ => .isTrue trivial

omit [Platform] in
/-- The number of elements announced. -/
def Value.announced : Value S → ℕ
  | .list l => l.size
  | .hash t => t.size
  | .set s => s.size
  | .zset z => z.size
  | _ => 0

omit [Inhabited S] in
/-- The number of elements written. -/
def Payload.count : Payload S → ℕ
  | .list xs => xs.length
  | .hash kvs => kvs.length
  | .set members => members.length
  | .zset pairs => pairs.length
  | _ => 0

omit [Platform] in
/-- What is written of the value carries this content. -/
structure Value.Shows (v : Value S) (c : Content S) : Prop where
  announced : v.announced = v.payload.count
  means : v.payload.Means c

omit [Platform] [Inhabited S] in
theorem filterMap_range_getElem? {α : Type} : ∀ xs : List α,
    ((List.range xs.length).filterMap fun j => xs[j]?) = xs
  | [] => rfl
  | x :: xs => by
    rw [List.length_cons, List.range_succ_eq_map, List.filterMap_cons, List.filterMap_map]
    simp only [List.getElem?_cons_zero, Function.comp_def, List.getElem?_cons_succ,
      filterMap_range_getElem? xs]

variable [LinearOrder S]

omit [Platform] [LinearOrder S] in
theorem shows_list {l : LinkedList} {xs : List Bytes} (h : l.Holds xs)
    (hcount : (Value.list l : Value S).Counted) : (Value.list l : Value S).Shows (.list xs) := by
  have hlen : l.size = xs.length := h.length
  have hsize : xs.length < 2 ^ 31 := hlen ▸ asInt_eq_iff.mp hcount
  have hget : ∀ j : ℕ, l.get j = xs[j]? := fun j => by
    rw [h.get hsize]
    have hpos : Slice.position xs.length (j : ℤ) = j := if_neg (by omega)
    rw [hpos, if_neg (by omega), Int.toNat_natCast]
  have hwritten : (Value.list l : Value S).payload = .list xs := by
    rw [Value.payload, hlen, asInt_of_lt hsize, Int.toNat_natCast]
    simp only [hget, filterMap_range_getElem?]
  exact ⟨by rw [hwritten]; exact hlen, by rw [hwritten]; rfl⟩

omit [Platform] in
theorem shows_zset {z : SortedSet S} {m : Bytes → Option S} {row : List (SkipList.Tower S)}
    (h : SortedSet.Listed z m row) (hcount : (Value.zset z).Counted) :
    (Value.zset z).Shows (.zset m) := by
  have hall := h.rangeByRank_all hcount
  refine ⟨hcount.symm, ?_⟩
  rw [Value.payload, hall]
  exact ⟨h.nodup_members, h.mem_iff⟩

/-- **What is written of a well-formed value** is its content, if the counts are right. -/
theorem Value.WF.shows {v : Value S} (h : v.WF) (hcount : v.Counted) : v.Shows v.content := by
  cases v with
  | none => exact h.elim
  | string s => exact ⟨rfl, rfl⟩
  | list l =>
    obtain ⟨xs, hxs⟩ := h
    have := shows_list (S := S) hxs hcount
    rwa [← hxs.toList] at this
  | hash t =>
    -- the number that is written is the number of entries, and these are the pairs of the map
    refine ⟨h.size_eq_length, h.nodup_toList, fun k v => ?_⟩
    rw [HashTable.Inv.mem_toList_iff]
    exact h.get_eq_some_iff.symm
  | set s =>
    refine ⟨?_, h.nodup_toList, fun x => ?_⟩
    · exact h.size_eq_length.trans (List.length_map ..).symm
    · rw [HashSet.contains, h.contains_eq, Option.isSome_iff_exists]
      simp only [HashSet.members, List.mem_map, Prod.exists, exists_and_right, exists_eq_right,
        HashTable.Inv.mem_toList_iff, h.get_eq_some_iff]
  | zset z =>
    obtain ⟨m, row, s, hz⟩ := h
    -- the scores of the dictionary are those that the skip list lists
    have hm : z.getScore Platform.hash = m := funext hz.dict.get_eq
    rw [Value.content, hm]
    exact shows_zset hz.listed hcount

/-- What is written of a copy is the content of the original. -/
theorem Value.WF.shows_clone {obj : RedisObject S} (h : obj.value.WF) (rng : ℕ → Height)
    (hcount : (obj.clone rng).value.Counted) : (obj.clone rng).value.Shows obj.value.content := by
  obtain ⟨v, lruClock⟩ := obj
  cases v with
  | none => exact h.elim
  | string s => exact Value.WF.shows (v := .string s) h hcount
  | list l =>
    obtain ⟨xs, hxs⟩ := h
    have := shows_list (S := S) hxs.clone hcount
    rwa [← hxs.toList] at this
  | hash t =>
    -- a copied table has the buckets and the size of the original
    have := Value.WF.shows (v := .hash t) h hcount
    exact ⟨this.announced, this.means⟩
  | set s =>
    have := Value.WF.shows (v := .set s) h hcount
    exact ⟨this.announced, this.means⟩
  | zset z =>
    obtain ⟨m, row, s, hz⟩ := h
    obtain ⟨row', hrow'⟩ := hz.listed.clone rng
    have hm : z.getScore Platform.hash = m := funext hz.dict.get_eq
    show Value.Shows _ (.zset (z.getScore Platform.hash))
    rw [hm]
    exact shows_zset hrow' hcount

end Show

/-! ### What the writer writes -/

namespace Rdb

section Save

variable {now : ℤ}

@[simp] theorem Writer.put_put (w : Writer) (a b : Bytes) : (w.put a).put b = w.put (a ++ b) := by
  simp [Writer.put, crc64Update_append]

@[simp] theorem Writer.put_nil (w : Writer) : w.put [] = w := by simp [Writer.put, crc64Update]

theorem Writer.foldl_put {α : Type} (f : α → Bytes) (xs : List α) (w : Writer) :
    xs.foldl (fun w x => w.put (f x)) w = w.put (xs.flatMap f) := by
  induction xs generalizing w with
  | nil => simp
  | cons x xs ih => rw [List.foldl_cons, ih, Writer.put_put, List.flatMap_cons]

theorem Writer.writeString_eq (w : Writer) (s : Bytes) :
    w.writeString s = w.put (Payload.stringBytes s) := Writer.put_put ..

variable [Double S]

variable [Inhabited S]

/-- `saveObject` writes one item. -/
theorem saveObject_eq (key : Bytes) {obj : RedisObject S} (hne : obj.value ≠ .none)
    (hcount : obj.value.announced = obj.value.payload.count) (w : Writer) :
    saveObject key obj w = w.put (Item.value key obj.value.payload).bytes := by
  obtain ⟨v, lruClock⟩ := obj
  -- the collections are written alike: opcode, key, count, elements
  have hbody : ∀ {α : Type} (opcode : UInt8) (n : ℕ) (f : α → Bytes) (xs : List α), n = xs.length →
      xs.foldl (fun w x => w.put (f x)) (((w.writeByte opcode).writeString key).writeLength n)
        = w.put (opcode :: (Payload.stringBytes key ++ Payload.manyBytes f xs)) := by
    intro α opcode n f xs hn
    rw [Writer.foldl_put, Writer.writeLength, Writer.writeString_eq, Writer.writeByte, hn]
    simp [Payload.manyBytes]
  cases v with
  | none => exact absurd rfl hne
  | string s =>
    simp only [saveObject, Writer.writeString_eq, Writer.writeByte, Writer.put_put]
    simp [Item.bytes, Value.payload, Payload.bytes, Payload.opcode]
  | list l =>
    refine Eq.trans ?_ (hbody typeList l.size Payload.stringBytes _ hcount)
    rw [List.foldl_filterMap]
    simp only [saveObject, Writer.writeString_eq]
    congr 1
    funext w j
    cases l.get j <;> rfl
  | hash t =>
    refine Eq.trans ?_ (hbody typeHash t.size Payload.fieldBytes _ hcount)
    simp only [saveObject, Writer.writeString_eq, Writer.put_put]
    rfl
  | set s =>
    refine Eq.trans ?_ (hbody typeSet s.size Payload.stringBytes _ hcount)
    simp only [saveObject, Writer.writeString_eq]
  | zset z =>
    refine Eq.trans ?_ (hbody typeZset z.size Payload.scoreBytes _ hcount)
    simp only [saveObject, Writer.writeString_eq, Writer.writeDouble, Writer.put_put]
    rfl

/-- A deadline, if there is one. -/
def deadlineItems : Option ℤ → List (Item S)
  | none => []
  | some deadline => [.expireTimeMs (asUInt64 deadline)]

/-- The items of a key. -/
def keyItems (db : Database S) (key : Bytes) : List (Item S) :=
  match db.data.lookup key with
  | none => []
  | some obj => deadlineItems (db.expires.lookup key) ++ [.value key obj.value.payload]

/-- The keys the writer visits. -/
def liveKeys (now : ℤ) (db : Database S) : List Bytes :=
  db.data.keys.filter fun key => !decide (db.Expired now key)

/-- The items of a database. -/
def databaseItems (now : ℤ) (i : ℕ) (db : Database S) : List (Item S) :=
  if db.size = 0 then []
  else [.selectDb i, .resizeDb db.size db.expiresSize] ++
    (liveKeys now db).flatMap (keyItems db)

/-- The items of a vector of databases, from index `i` on. -/
def fileItems (now : ℤ) : ℕ → List (Database S) → List (Item S)
  | _, [] => []
  | i, db :: rest => databaseItems now i db ++ fileItems now (i + 1) rest

/-- What the writer needs of a live key: as many elements written as announced, and a deadline whose
distance from the clock is an `int64_t`. -/
structure Writable (now : ℤ) (db : Database S) (key : Bytes) (obj : RedisObject S) : Prop where
  ne_none : obj.value ≠ .none
  announced : obj.value.announced = obj.value.payload.count
  distance : ∀ deadline, db.expires.lookup key = some deadline → deadline - now < 2 ^ 63

/-- The two databases differ in nothing the writer looks at. -/
structure SameView (db' db : Database S) : Prop where
  values : ∀ key, (db'.data.lookup key).map RedisObject.value
    = (db.data.lookup key).map RedisObject.value
  expires : db'.expires = db.expires

omit [Double S] [Inhabited S] in
theorem SameView.refl (db : Database S) : SameView db db := ⟨fun _ => rfl, rfl⟩

omit [Double S] [Inhabited S] in
theorem SameView.trans {db₁ db₂ db₃ : Database S} (h : SameView db₁ db₂) (h' : SameView db₂ db₃) :
    SameView db₁ db₃ :=
  ⟨fun key => (h.values key).trans (h'.values key), h.expires.trans h'.expires⟩

omit [Double S] in
theorem SameView.keyItems {db' db : Database S} (h : SameView db' db) (key : Bytes) :
    keyItems db' key = keyItems db key := by
  have hkey := h.values key
  unfold Rdb.keyItems
  rw [h.expires]
  cases h' : db'.data.lookup key <;> cases h₀ : db.data.lookup key <;>
  simp only [h', h₀, Option.map_some, Option.map_none, reduceCtorEq, Option.some.injEq] at hkey
  · rfl
  · simp only [hkey]

omit [Double S] in
theorem SameView.writable {db' db : Database S} (h : SameView db' db) {key : Bytes}
    (hw : ∃ obj, db.data.lookup key = some obj ∧ Writable now db key obj) :
    ∃ obj, db'.data.lookup key = some obj ∧ Writable now db' key obj := by
  obtain ⟨obj, hobj, hwrite⟩ := hw
  have hkey := h.values key
  rw [hobj] at hkey
  obtain ⟨obj', hobj', hval⟩ := Option.map_eq_some_iff.mp hkey
  exact ⟨obj', hobj', by rw [hval]; exact hwrite.ne_none, by rw [hval]; exact hwrite.announced,
    by rw [h.expires]; exact hwrite.distance⟩

variable [Platform]

/-- One turn of the loop over the keys writes the items of the key. -/
theorem saveKey_eq {s : DbState S} (hfixed : s.Fixed now) {key : Bytes}
    (hlive : ¬ s.db.Expired now key)
    (hw : ∃ obj, s.db.data.lookup key = some obj ∧ Writable now s.db key obj) (w : Writer) :
    ∃ s', saveKey key w s = (w.put ((keyItems s.db key).flatMap Item.bytes), s') ∧
      s'.Fixed now ∧ SameView s'.db s.db := by
  obtain ⟨obj, hobj, hne, hcount, hdist⟩ := hw
  have hget := hfixed.getObject hlive hobj
  obtain ⟨obj', hobj'⟩ : ∃ obj' : RedisObject S,
    obj' = { value := obj.value, lruClock := s.memory.lruClock } := ⟨_, rfl⟩
  rw [← hobj'] at hget
  -- the lookup has counted a hit and set the LRU clock, which nothing of the view shows
  obtain ⟨s', hs'⟩ : ∃ s' : DbState S, s' = { s with db := { s.db with
    hits := s.db.hits + 1, data := s.db.data.insert key obj' } } := ⟨_, rfl⟩
  rw [← hs'] at hget
  have hfixed' : s'.Fixed now := by rw [hs']; exact hfixed
  have hlookup : s'.db.data.lookup key = some obj' := by rw [hs']; exact AList.lookup_insert _
  have hexpires : s'.db.expires = s.db.expires := by rw [hs']
  have hview : SameView s'.db s.db := by
    refine ⟨fun k => ?_, hexpires⟩
    rw [hs']
    simp only [UnorderedMap.lookup_insert_eq_ite]
    split
    · next h => rw [h, hobj, hobj']; rfl
    · rfl
  refine ⟨s', ?_, hfixed', hview⟩
  -- what is written comes from the state after the lookup
  rw [← hview.keyItems, keyItems, hlookup]
  have hsave := saveObject_eq key (show obj'.value ≠ .none by rw [hobj']; exact hne)
    (by rw [hobj']; exact hcount)
  simp only [saveKey, hget, hfixed'.pttl hlookup, hexpires]
  cases hk : s.db.expires.lookup key with
  | none =>
    -- no deadline: only the value is written
    simp only [deadlineItems, List.nil_append, hsave]
    rw [if_neg (by omega)]
    simp
  | some deadline =>
    -- the key is live, so the deadline is ahead by a distance the type can hold
    have hpos : now < deadline := by
      by_contra hle
      exact hlive ⟨deadline, hk, not_lt.mp hle⟩
    have hd : asInt64 (deadline - now) = deadline - now :=
      asInt64_of_inRange ⟨by have := hpos; omega, hdist deadline hk⟩
    simp only [hd, if_neg (show ¬ deadline - now ≤ 0 by omega),
      if_pos (show 0 ≤ deadline - now by omega), hfixed'.now_eq, hsave,
      show now + (deadline - now) = deadline by omega, Writer.writeByte, Writer.put_put]
    simp [deadlineItems, Item.bytes]

/-- By induction on the keys: reading one object leaves the view of the others. -/
theorem saveKeys_eq (keys : List Bytes) : ∀ {s : DbState S} (_ : s.Fixed now)
    (_ : ∀ key ∈ keys, ¬ s.db.Expired now key ∧
      ∃ obj, s.db.data.lookup key = some obj ∧ Writable now s.db key obj) (w : Writer),
    ∃ s', saveKeys keys w s
      = (w.put ((keys.flatMap (keyItems s.db)).flatMap Item.bytes), s') ∧
      s'.Fixed now ∧ SameView s'.db s.db := by
  induction keys with
  | nil =>
    intro s hfixed _ w
    exact ⟨s, by simp [saveKeys], hfixed, SameView.refl _⟩
  | cons key rest ih =>
    intro s hfixed hkeys w
    obtain ⟨hlive, hw⟩ := hkeys key List.mem_cons_self
    obtain ⟨s₁, hs₁, hfixed₁, hview₁⟩ := saveKey_eq hfixed hlive hw w
    -- the rest of the keys are live and can be written after this one as before it
    have hrest : ∀ k ∈ rest, ¬ s₁.db.Expired now k ∧
        ∃ obj, s₁.db.data.lookup k = some obj ∧ Writable now s₁.db k obj := fun k hk => by
      obtain ⟨hlive, hw⟩ := hkeys k (List.mem_cons_of_mem _ hk)
      refine ⟨?_, hview₁.writable hw⟩
      rwa [Database.Expired, hview₁.expires]
    obtain ⟨s₂, hs₂, hfixed₂, hview₂⟩ := ih hfixed₁ hrest (w.put ((keyItems s.db key).flatMap Item.bytes))
    refine ⟨s₂, ?_, hfixed₂, hview₂.trans hview₁⟩
    rw [saveKeys, hs₁]
    simp only [hs₂, Writer.put_put, List.flatMap_cons, List.flatMap_append]
    rw [List.flatMap_congr fun k _ => hview₁.keyItems k]

/-- What the writer needs of a database. -/
def WritableDb (now : ℤ) (db : Database S) : Prop :=
  ∀ key obj, db.data.lookup key = some obj → ¬ db.Expired now key → Writable now db key obj

omit [Double S] [Inhabited S] [Platform] in
theorem mem_liveKeys {db : Database S} {key : Bytes} :
    key ∈ liveKeys now db ↔ (∃ obj, db.data.lookup key = some obj) ∧ ¬ db.Expired now key := by
  rw [liveKeys, List.mem_filter, ← AList.mem_keys, ← AList.lookup_isSome, Option.isSome_iff_exists]
  simp

theorem saveDatabase_eq {s : DbState S} (hfixed : s.Fixed now) (hw : WritableDb now s.db) (i : ℕ)
    (w : Writer) :
    ∃ s', saveDatabase i w s = (w.put ((databaseItems now i s.db).flatMap Item.bytes), s') ∧
      s'.Fixed now := by
  unfold saveDatabase databaseItems
  by_cases hsize : s.db.size = 0
  · exact ⟨s, by simp [hsize], hfixed⟩
  · simp only [if_neg hsize, hfixed.keys]
    obtain ⟨s', hs', hfixed', -⟩ := saveKeys_eq (liveKeys now s.db) hfixed (fun key hkey => by
      obtain ⟨⟨obj, hobj⟩, hlive⟩ := mem_liveKeys.mp hkey
      exact ⟨hlive, obj, hobj, hw key obj hobj hlive⟩)
      ((((w.writeByte opcodeSelectDb).writeLength i).writeByte opcodeResizeDb).writeLength
        s.db.size |>.writeLength s.db.expiresSize)
    refine ⟨s', ?_, hfixed'⟩
    rw [← liveKeys, hs']
    simp [Writer.writeByte, Writer.writeLength, Item.bytes]

/-- By induction on the databases. -/
theorem saveDatabases_eq (databases : List (Database S)) : ∀ {env : Env} (_ : env.clock = fun _ => now)
    (_ : ∀ db ∈ databases, WritableDb now db) (i : ℕ) (w : Writer),
    (saveDatabases i databases w env).1
      = w.put ((fileItems now i databases).flatMap Item.bytes) := by
  induction databases with
  | nil =>
    intro env _ _ i w
    simp [saveDatabases, fileItems]
  | cons db rest ih =>
    intro env hclock hw i w
    obtain ⟨s', hs', hfixed'⟩ := saveDatabase_eq (s := { env with db := db }) hclock
      (hw db List.mem_cons_self) i w
    simp only [saveDatabases, hs', fileItems, List.flatMap_append,
      ih hfixed' (fun d hd => hw d (List.mem_cons_of_mem _ hd)), Writer.put_put]

/-- The part of a file that the checksum sums up. -/
def fileBytes (items : List (Item S)) : Bytes :=
  magic ++ items.flatMap Item.bytes ++ [opcodeEof]

/-- **The file** at a fixed clock reading. -/
theorem saveToFile_eq {databases : List (Database S)} {env : Env}
    (hclock : env.clock = fun _ => now) (hw : ∀ db ∈ databases, WritableDb now db) :
    (saveToFile true databases env).1 = true ∧
      (saveToFile true databases env).2.1 = fileBytes (fileItems now 0 databases) ++
        LittleEndian.bytes 8 (crc64Update 0 (fileBytes (fileItems now 0 databases))).toNat := by
  have hsave := saveDatabases_eq databases hclock hw 0 (Writer.put {} magic)
  refine ⟨rfl, ?_⟩
  simp only [saveToFile, Bool.not_true, Bool.false_eq_true, if_false, hsave, Writer.writeByte,
    Writer.put_put]
  simp [Writer.put, fileBytes]

end Save

end Rdb

end RedisDb
