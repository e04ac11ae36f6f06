import RedisDb.Storage.RdbFormat

/-!
# Reading the items of a snapshot file

`Reader.Took` says that reading has consumed exactly some bytes and counted them into the checksum,
and there is one lemma for each function of the reader. `loadValue_spec` reads a value back,
`Payload.Means.build` says that the value built has the content that was written, and
`loadLoop_items` takes all items of a file off.
-/

namespace RedisDb
namespace Rdb

variable {S : Type}

/-! ### Taking bytes -/

/-- Reading has consumed exactly these bytes. -/
structure Reader.Took (r : Reader) (bs : Bytes) (r' : Reader) : Prop where
  rest : r.rest = bs ++ r'.rest
  ready : r.failed = false
  ready' : r'.failed = false
  checksum : r'.checksum = crc64Update r.checksum bs

namespace Reader

variable {r : Reader} {tail : Bytes}

theorem Took.nil (h : r.failed = false) : r.Took [] r := ⟨rfl, h, h, rfl⟩

theorem Took.trans {r₁ r₂ r₃ : Reader} {a b : Bytes} (h : r₁.Took a r₂) (h' : r₂.Took b r₃) :
    r₁.Took (a ++ b) r₃ where
  rest := by rw [h.rest, h'.rest, List.append_assoc]
  ready := h.ready
  ready' := h'.ready'
  checksum := by rw [h'.checksum, h.checksum, crc64Update_append]

theorem Took.rest_eq {a b : Bytes} {r' : Reader} (h : r.Took a r') (hr : r.rest = a ++ b) :
    r'.rest = b := List.append_cancel_left (h.rest.symm.trans hr)

theorem take_spec {bs : Bytes} (hr : r.rest = bs ++ tail) (hf : r.failed = false) :
    r.take bs.length = (bs, { r with rest := tail }) := by
  rw [take, if_neg (by simp [hf]), if_pos (by rw [hr, List.length_append]; omega), hr,
    List.take_left, List.drop_left]

theorem readOver_spec {bs old : Bytes} (hr : r.rest = bs ++ tail) (hf : r.failed = false)
    (hlen : old.length = bs.length) : r.readOver old = (bs, { r with rest := tail }) := by
  rw [readOver, hlen, take_spec hr hf]
  simp [hlen]

theorem readNew_spec {bs : Bytes} (hr : r.rest = bs ++ tail) (hf : r.failed = false) :
    ∃ junk, r.readNew bs.length = (bs, { r with rest := tail, junk := junk }) :=
  ⟨_, readOver_spec (r := { r with junk := _ }) hr hf (by simp)⟩

/-- Reading into a new variable and counting the bytes. -/
theorem readNew_update {bs : Bytes} (hr : r.rest = bs ++ tail) (hf : r.failed = false) :
    ∃ r₁, r.readNew bs.length = (bs, r₁) ∧ r.Took bs (r₁.update bs) := by
  obtain ⟨junk, hjunk⟩ := readNew_spec hr hf
  exact ⟨_, hjunk, hr, hf, hf, rfl⟩

theorem readByte_spec {b : UInt8} (hr : r.rest = b :: tail) (hf : r.failed = false) :
    ∃ r', r.readByte = (b, r') ∧ r.Took [b] r' := by
  obtain ⟨r₁, h₁, htook⟩ := readNew_update (show r.rest = [b] ++ tail from hr) hf
  exact ⟨_, by simp [readByte, show r.readNew 1 = _ from h₁], htook⟩

theorem readLength_spec {n : ℕ} (hr : r.rest = LittleEndian.bytes 8 n ++ tail)
    (hf : r.failed = false) (hn : n < 2 ^ 64) :
    ∃ r', r.readLength = (n, r') ∧ r.Took (LittleEndian.bytes 8 n) r' := by
  obtain ⟨r₁, h₁, htook⟩ := readNew_update hr hf
  rw [LittleEndian.length_bytes] at h₁
  refine ⟨_, ?_, htook⟩
  simp only [readLength, h₁]
  rw [LittleEndian.value_bytes (by norm_num; omega)]

/-- The value of a length may be left unused. -/
theorem readLength_took {n : ℕ} (hr : r.rest = LittleEndian.bytes 8 n ++ tail)
    (hf : r.failed = false) : r.Took (LittleEndian.bytes 8 n) r.readLength.2 := by
  obtain ⟨r₁, h₁, htook⟩ := readNew_update hr hf
  rw [LittleEndian.length_bytes] at h₁
  simpa only [readLength, h₁] using htook

theorem readString_spec [Platform] {s : Bytes} (hr : r.rest = Payload.stringBytes s ++ tail)
    (hf : r.failed = false) (hs : s.length ≤ Platform.maxString) :
    ∃ r', r.readString = .ok (s, r') ∧ r.Took (Payload.stringBytes s) r' := by
  rw [Payload.stringBytes, List.append_assoc] at hr
  obtain ⟨r₁, h₁, htook₁⟩ := readLength_spec hr hf (by have := Platform.maxString_lt; omega)
  have hr₁ := htook₁.rest_eq hr
  have htake := take_spec hr₁ htook₁.ready'
  have htook₂ : r₁.Took s ({ r₁ with rest := tail }.update s) :=
    ⟨hr₁, htook₁.ready', htook₁.ready', rfl⟩
  refine ⟨_, ?_, htook₁.trans htook₂⟩
  simp only [readString, h₁, if_neg (not_lt.mpr hs), htake, Nat.sub_self, List.replicate_zero,
    List.append_nil]

theorem readDouble_spec [Double S] {x : S}
    (hr : r.rest = LittleEndian.bytes 8 (Double.toBits x).toNat ++ tail) (hf : r.failed = false) :
    ∃ r', r.readDouble = (x, r') ∧ r.Took (LittleEndian.bytes 8 (Double.toBits x).toNat) r' := by
  obtain ⟨r₁, h₁, htook⟩ := readNew_update hr hf
  rw [LittleEndian.length_bytes] at h₁
  refine ⟨_, ?_, htook⟩
  have hlt := (Double.toBits x).toNat_lt
  simp only [readDouble, h₁]
  rw [LittleEndian.value_bytes (by norm_num; omega), UInt64.ofNat_toNat, Double.ofBits_toBits]

/-- A loop whose turn takes one element off takes all of them off. By induction on the elements. -/
theorem readMany_spec {α β : Type} (body : α → Reader → Except Fault (α × Reader)) (f : β → Bytes)
    (step : α → β → α) (xs : List β) : ∀ (acc : α) {r : Reader} {tail : Bytes},
    (∀ x ∈ xs, ∀ (acc : α) (r : Reader) (tail : Bytes), r.rest = f x ++ tail → r.failed = false →
      ∃ r', body acc r = .ok (step acc x, r') ∧ r.Took (f x) r') →
    r.rest = xs.flatMap f ++ tail → r.failed = false →
    ∃ r', r.readMany body xs.length acc = .ok (xs.foldl step acc, r') ∧ r.Took (xs.flatMap f) r' := by
  induction xs with
  | nil => intro acc r tail _ _ hf; exact ⟨r, rfl, Took.nil hf⟩
  | cons x xs ih =>
    intro acc r tail hbody hr hf
    rw [List.flatMap_cons, List.append_assoc] at hr
    obtain ⟨r₁, h₁, htook₁⟩ := hbody x List.mem_cons_self acc r _ hr hf
    obtain ⟨r₂, h₂, htook₂⟩ := ih (step acc x)
      (fun y hy => hbody y (List.mem_cons_of_mem _ hy)) (htook₁.rest_eq hr) htook₁.ready'
    refine ⟨r₂, ?_, by rw [List.flatMap_cons]; exact htook₁.trans htook₂⟩
    simp only [readMany, List.length_cons, h₁]
    exact h₂

/-- A sequence behind its length. -/
theorem readCounted_spec {α β : Type} (body : α → Reader → Except Fault (α × Reader))
    (f : β → Bytes) (step : α → β → α) {xs : List β} (acc : α) (hxs : xs.length < 2 ^ 64)
    (hbody : ∀ x ∈ xs, ∀ (acc : α) (r : Reader) (tail : Bytes), r.rest = f x ++ tail →
      r.failed = false → ∃ r', body acc r = .ok (step acc x, r') ∧ r.Took (f x) r')
    (hr : r.rest = Payload.manyBytes f xs ++ tail) (hf : r.failed = false) :
    ∃ r₁ r', r.readLength = (xs.length, r₁) ∧
      r₁.readMany body xs.length acc = .ok (xs.foldl step acc, r') ∧
      r.Took (Payload.manyBytes f xs) r' := by
  rw [Payload.manyBytes, List.append_assoc] at hr
  obtain ⟨r₁, h₁, htook₁⟩ := readLength_spec hr hf hxs
  obtain ⟨r₂, h₂, htook₂⟩ := readMany_spec body f step xs acc hbody (htook₁.rest_eq hr)
    htook₁.ready'
  exact ⟨r₁, r₂, h₁, h₂, htook₁.trans htook₂⟩

end Reader

end Rdb

open Rdb

/-! ### Values -/

section Value

variable [Platform] [Inhabited S]

section Build

variable [LT S] [DecidableLT S] [BEq S]

/-- The value that `loadFromFile` builds from the elements. -/
def Payload.build (rng : ℕ → Height) : Payload S → Option (Value S)
  | .none => Option.none
  | .string s => some (.string s)
  | .list xs => some (.list (xs.foldl LinkedList.pushBack .new))
  | .hash kvs => some (.hash (kvs.foldl (fun t kv => (t.set Platform.hash kv.1 kv.2).1) .empty))
  | .set members => some (.set (members.foldl (fun s x => (s.add x).1) .new))
  | .zset pairs =>
    some (.zset (pairs.foldl (fun z p => (z.add Platform.hash p.1 p.2).1) (.new rng)))

/-- The `switch` on the type takes the elements off. One case for each type: a string, or a length and as many
elements as it says. -/
theorem Rdb.loadValue_spec [Double S] (rng : ℕ → Height) {p : Payload S} (hne : p ≠ .none)
    (hfits : p.Fits) {r : Reader} {tail : Bytes} (hr : r.rest = p.bytes ++ tail)
    (hf : r.failed = false) :
    ∃ r', loadValue rng p.opcode r = .ok (Payload.build rng p, r') ∧ r.Took p.bytes r' := by
  cases p with
  | none => exact absurd rfl hne
  | string s =>
    obtain ⟨r', h', htook⟩ := Reader.readString_spec hr hf hfits
    exact ⟨r', by simp only [loadValue, Payload.opcode, if_true, h']; rfl, htook⟩
  | list xs =>
    -- for a collection the turn of the loop takes one element off
    obtain ⟨r₁, r', h₁, h', htook⟩ := Reader.readCounted_spec
      (fun (list : LinkedList) r => r.readString >>= fun x => .ok (list.pushBack x.1, x.2)) Payload.stringBytes LinkedList.pushBack .new hfits.1
      (fun x hx acc r tail hr hf => by
        obtain ⟨r', h', htook⟩ := Reader.readString_spec hr hf (hfits.2 x hx)
        exact ⟨r', by rw [h']; rfl, htook⟩) hr hf
    refine ⟨r', ?_, htook⟩
    simp only [loadValue, Payload.opcode, h₁, h']
    rfl
  | hash kvs =>
    -- a field and its value are two strings
    obtain ⟨r₁, r', h₁, h', htook⟩ := Reader.readCounted_spec
      (fun (hash : HashTable Bytes Bytes) r => r.readString >>= fun x => x.2.readString >>= fun y =>
        .ok ((hash.set Platform.hash x.1 y.1).1, y.2)) Payload.fieldBytes
      (fun (t : HashTable Bytes Bytes) kv => (t.set Platform.hash kv.1 kv.2).1) .empty hfits.1
      (fun kv hkv acc r tail hr hf => by
        rw [Payload.fieldBytes, List.append_assoc] at hr
        obtain ⟨r₁, h₁, htook₁⟩ := Reader.readString_spec hr hf (hfits.2 kv hkv).1
        obtain ⟨r₂, h₂, htook₂⟩ := Reader.readString_spec (htook₁.rest_eq hr) htook₁.ready'
          (hfits.2 kv hkv).2
        refine ⟨r₂, ?_, htook₁.trans htook₂⟩
        rw [h₁]
        show (r₁.readString >>= _) = _
        rw [h₂]
        rfl) hr hf
    refine ⟨r', ?_, htook⟩
    simp only [loadValue, Payload.opcode, h₁, h']
    rfl
  | set members =>
    obtain ⟨r₁, r', h₁, h', htook⟩ := Reader.readCounted_spec
      (fun (set : HashSet) r => r.readString >>= fun x => .ok ((set.add x.1).1, x.2)) Payload.stringBytes
      (fun (s : HashSet) x => (s.add x).1) HashSet.new hfits.1
      (fun x hx acc r tail hr hf => by
        obtain ⟨r', h', htook⟩ := Reader.readString_spec hr hf (hfits.2 x hx)
        exact ⟨r', by rw [h']; rfl, htook⟩) hr hf
    refine ⟨r', ?_, htook⟩
    simp only [loadValue, Payload.opcode, h₁, h']
    rfl
  | zset pairs =>
    -- a member is a string and its score eight bytes
    obtain ⟨r₁, r', h₁, h', htook⟩ := Reader.readCounted_spec
      (fun (zset : SortedSet S) r => r.readString >>= fun x =>
        .ok ((zset.add Platform.hash x.1 (x.2.readDouble (S := S)).1).1, (x.2.readDouble (S := S)).2)) Payload.scoreBytes
      (fun (z : SortedSet S) p => (z.add Platform.hash p.1 p.2).1) (.new rng) hfits.1
      (fun p hp acc r tail hr hf => by
        rw [Payload.scoreBytes, List.append_assoc] at hr
        obtain ⟨r₁, h₁, htook₁⟩ := Reader.readString_spec hr hf (hfits.2 p hp)
        obtain ⟨r₂, h₂, htook₂⟩ := Reader.readDouble_spec (htook₁.rest_eq hr) htook₁.ready'
        refine ⟨r₂, ?_, htook₁.trans htook₂⟩
        rw [h₁]
        show Except.ok ((acc.add Platform.hash p.1 (r₁.readDouble (S := S)).1).1,
          (r₁.readDouble (S := S)).2) = _
        rw [h₂]) hr hf
    refine ⟨r', ?_, htook⟩
    simp only [loadValue, Payload.opcode, h₁, h']
    rfl

end Build

variable [LinearOrder S]

/-- A table built from entries with distinct keys holds them. -/
theorem represents_foldl_set {V : Type} [Inhabited V] (kvs : List (Bytes × V)) :
    ∀ {t : HashTable Bytes V} {m : Bytes → Option V}, t.Represents Platform.hash m →
    (kvs.foldl (fun t kv => (t.set Platform.hash kv.1 kv.2).1) t).Represents Platform.hash
      (kvs.foldl UnorderedMap.assign m) := by
  induction kvs with
  | nil => exact fun h => h
  | cons kv kvs ih => exact fun h => ih (h.apply (.set kv.1 kv.2))

theorem represents_foldl_add (pairs : List (Bytes × S)) : ∀ {z : SortedSet S}
    {m : Bytes → Option S}, (∃ row s, SortedSet.Represents Platform.hash z m row s) →
    ∃ row s, SortedSet.Represents Platform.hash
      (pairs.foldl (fun z p => (z.add Platform.hash p.1 p.2).1) z)
      (pairs.foldl UnorderedMap.assign m) row s := by
  induction pairs with
  | nil => exact fun h => h
  | cons p pairs ih =>
    rintro z m ⟨row, s, h⟩
    exact ih (h.add p.1 p.2).1

/-- **What is built is what was written**: the value is well formed and has the content. One case for each type;
elements are put in one after the other, and as no two have one key the order does not matter. -/
theorem Payload.Means.build {p : Payload S} {c : Content S} (h : p.Means c) (rng : ℕ → Height) :
    ∃ v, Payload.build rng p = some v ∧ v.WF ∧ v.content = c := by
  cases p with
  | none => exact h.elim
  | string s =>
    cases c <;> first | exact h.elim | exact ⟨_, rfl, trivial, congrArg _ h⟩
  | list xs =>
    cases c with
    | list xs' =>
      obtain rfl : xs = xs' := h
      -- pushing the elements one by one spells their list
      have hholds : ∀ (ys : List Bytes) {l : LinkedList} {zs : List Bytes}, l.Holds zs →
          (ys.foldl LinkedList.pushBack l).Holds (zs ++ ys) := fun ys => by
        induction ys with
        | nil => intro l zs hl; simpa using hl
        | cons y ys ih => intro l zs hl; simpa using ih (hl.pushBack y)
      have hxs := hholds xs LinkedList.holds_new
      exact ⟨_, rfl, ⟨_, hxs⟩, congrArg Content.list hxs.toList⟩
    | _ => exact h.elim
  | hash kvs =>
    cases c with
    | hash m =>
      -- setting the pairs one by one assigns them, and with distinct keys the order does not matter
      have ht := represents_foldl_set kvs (HashTable.represents_run ([] : List (HashTable.Op Bytes Bytes)))
      have hm : kvs.foldl UnorderedMap.assign (HashTable.runMap []) = m := UnorderedMap.foldl_assign_eq h.1 h.2
      rw [hm] at ht
      exact ⟨_, rfl, ht.inv, congrArg Content.hash (funext ht.get_eq)⟩
    | _ => exact h.elim
  | set members =>
    cases c with
    | set m =>
      -- a set is a table whose values say nothing
      have hfold : ∀ (xs : List Bytes) (s : HashSet), (xs.foldl (fun s x => (s.add x).1) s).table
          = (xs.map fun x => (x, ())).foldl (fun t kv => (t.set Platform.hash kv.1 kv.2).1) s.table :=
        fun xs => by
          induction xs with
          | nil => intro s; rfl
          | cons x xs ih => intro s; exact ih _
      have ht := represents_foldl_set (members.map fun x => (x, ()))
        (HashTable.represents_run ([] : List (HashTable.Op Bytes Unit)))
      have hm : (members.map fun x => (x, ())).foldl UnorderedMap.assign (HashTable.runMap [])
          = fun x => if m x then some () else Option.none := UnorderedMap.foldl_assign_eq
        (by rw [List.map_map]; exact h.1.map fun _ _ h => h) (fun k v => by simp [h.2])
      rw [hm] at ht
      refine ⟨_, rfl, ?_, congrArg Content.set (funext fun x => ?_)⟩
      · show HashTable.Inv _ _
        rw [hfold]; exact ht.inv
      · rw [HashSet.contains, hfold]
        refine (ht.inv.contains_eq x).trans ?_
        rw [ht.get_eq]
        cases m x <;> rfl
    | _ => exact h.elim
  | zset pairs =>
    cases c with
    | zset m =>
      obtain ⟨row, s, hz⟩ := represents_foldl_add pairs ⟨_, _, SortedSet.represents_new rng⟩
      have hm : pairs.foldl UnorderedMap.assign (fun _ => Option.none) = m := UnorderedMap.foldl_assign_eq h.1 h.2
      rw [hm] at hz
      exact ⟨_, rfl, ⟨m, row, s, hz⟩, congrArg Content.zset (funext hz.dict.get_eq)⟩
    | _ => exact h.elim

end Value

/-! ### Items -/

section Items

variable [Platform] [Inhabited S] [LT S] [DecidableLT S] [BEq S]

/-- What an item does to the variables of the loop. -/
def Item.apply (st : LoadState S) : Item S → LoadState S
  | .selectDb i => { st with currentDb := asInt i }
  | .resizeDb _ _ => st
  | .expireTimeMs ms => { st with expireMs := ms, hasExpire := true }
  | .value key payload =>
    match st.databases[st.currentDb.toNat]? with
    | none => st
    | some db => st.storeKey db key (Payload.build (st.seeds 0) payload)

/-- The numbers of the item fit their types, and a key belongs to a database that is there. -/
def Item.Fits (st : LoadState S) : Item S → Prop
  | .selectDb i => i < 2 ^ 64
  | .resizeDb _ _ => True
  | .expireTimeMs ms => ms < 2 ^ 64
  | .value key payload => key.length ≤ Platform.maxString ∧ payload ≠ .none ∧ payload.Fits ∧
    0 ≤ st.currentDb ∧ st.currentDb < asInt st.databases.length ∧
      st.currentDb.toNat < st.databases.length

theorem Rdb.loadKey_spec [Double S] {st : LoadState S} {key : Bytes} {p : Payload S}
    (hfits : Item.Fits st (.value key p)) {r : Reader} {tail : Bytes}
    (hr : r.rest = Payload.stringBytes key ++ p.bytes ++ tail) (hf : r.failed = false) :
    ∃ r', loadKey p.opcode st r = .ok (Item.apply st (.value key p), r') ∧
      r.Took (Payload.stringBytes key ++ p.bytes) r' := by
  obtain ⟨hkey, hne, hp, hnonneg, hlt, hidx⟩ := hfits
  rw [List.append_assoc] at hr
  obtain ⟨r₁, h₁, htook₁⟩ := Reader.readString_spec hr hf hkey
  obtain ⟨r₂, h₂, htook₂⟩ := loadValue_spec (st.seeds 0) hne hp (htook₁.rest_eq hr) htook₁.ready'
  refine ⟨r₂, ?_, htook₁.trans htook₂⟩
  have hget := List.getElem?_eq_getElem hidx
  rw [loadKey, h₁]
  show (if asInt st.databases.length ≤ st.currentDb then _ else _) = _
  rw [if_neg (not_le.mpr hlt), if_neg (not_lt.mpr hnonneg)]
  simp only [Item.apply, hget, h₂]
  rfl

omit [Platform] [Inhabited S] [LT S] [DecidableLT S] [BEq S] in
/-- No type of value is taken for an opcode of another kind. -/
theorem Payload.opcode_ne (p : Payload S) : p.opcode ≠ opcodeSelectDb ∧ p.opcode ≠ opcodeResizeDb ∧
    p.opcode ≠ opcodeExpireTime ∧ p.opcode ≠ opcodeExpireTimeMs ∧ p.opcode ≠ opcodeEof := by
  cases p <;> (simp only [Payload.opcode]; decide)

/-- One turn of the loop takes one item off. -/
theorem Rdb.loadLoop_item [Double S] {st : LoadState S} {item : Item S} (hfits : item.Fits st)
    {r : Reader} {tail : Bytes} (hr : r.rest = item.bytes ++ tail) (hf : r.failed = false)
    (fuel : ℕ) :
    ∃ r', loadLoop (fuel + 1) st r = loadLoop fuel (item.apply st) r' ∧ r.Took item.bytes r' := by
  -- the opcode, and what follows it
  have hturn : ∀ {opcode : UInt8} {body : Bytes} {st' : LoadState S}, opcode ≠ opcodeEof →
      item.bytes = opcode :: body →
      (∀ r₁ : Reader, r₁.rest = body ++ tail → r₁.failed = false →
        ∃ r', loadOpcode opcode st r₁ = .ok (st', r') ∧ r₁.Took body r') →
      ∃ r', loadLoop (fuel + 1) st r = loadLoop fuel st' r' ∧ r.Took item.bytes r' := by
    intro opcode body st' hne hitem hbody
    rw [hitem, List.cons_append] at hr
    obtain ⟨r₁, h₁, htook₁⟩ := Reader.readByte_spec hr hf
    obtain ⟨r', h', htook'⟩ := hbody r₁ (htook₁.rest_eq hr) htook₁.ready'
    refine ⟨r', ?_, by rw [hitem]; exact htook₁.trans htook'⟩
    have heof : r.atEof = false := by simp [Reader.atEof, hf, hr]
    simp only [loadLoop, heof, Bool.false_eq_true, if_false, h₁, if_neg hne, h']
  cases item with
  | selectDb i =>
    -- a length, the index of the database
    refine hturn (by decide) rfl fun r₁ hr₁ hf₁ => ?_
    obtain ⟨r', h', htook⟩ := Reader.readLength_spec hr₁ hf₁ hfits
    exact ⟨r', by simp only [loadOpcode, if_true, h']; rfl, htook⟩
  | resizeDb size expiresSize =>
    -- two lengths, which are read and dropped
    refine hturn (by decide) rfl fun r₁ hr₁ hf₁ => ?_
    rw [List.append_assoc] at hr₁
    have htook₁ := Reader.readLength_took hr₁ hf₁
    have htook₂ := Reader.readLength_took (htook₁.rest_eq hr₁) htook₁.ready'
    refine ⟨_, ?_, htook₁.trans htook₂⟩
    simp only [loadOpcode, if_true, if_neg (show opcodeResizeDb ≠ opcodeSelectDb by decide)]
    rfl
  | expireTimeMs ms =>
    -- eight bytes, little end first
    refine hturn (by decide) rfl fun r₁ hr₁ hf₁ => ?_
    have hlen : (LittleEndian.bytes 8 st.expireMs).length = (LittleEndian.bytes 8 ms).length := by
      rw [LittleEndian.length_bytes, LittleEndian.length_bytes]
    have hread := Reader.readOver_spec hr₁ hf₁ hlen
    refine ⟨{ r₁ with rest := tail }.update (LittleEndian.bytes 8 ms), ?_, ⟨hr₁, hf₁, hf₁, rfl⟩⟩
    · simp only [loadOpcode, if_true, hread,
        if_neg (show opcodeExpireTimeMs ≠ opcodeSelectDb by decide),
        if_neg (show opcodeExpireTimeMs ≠ opcodeResizeDb by decide),
        if_neg (show opcodeExpireTimeMs ≠ opcodeExpireTime by decide),
        LittleEndian.value_bytes (show ms < 256 ^ 8 by norm_num; exact hfits)]
      rfl
  | value key p =>
    obtain ⟨h1, h2, h3, h4, h5⟩ := p.opcode_ne
    refine hturn h5 rfl fun r₁ hr₁ hf₁ => ?_
    obtain ⟨r', h', htook⟩ := loadKey_spec hfits hr₁ hf₁
    exact ⟨r', by simp only [loadOpcode, if_neg h1, if_neg h2, if_neg h3, if_neg h4, h'], htook⟩

/-- The items fit one after another. -/
def ItemsFit : List (Item S) → LoadState S → Prop
  | [], _ => True
  | item :: items, st => item.Fits st ∧ ItemsFit items (item.apply st)

/-- **The loop takes all items off**, and the opcode at the end. By induction on the items. -/
theorem Rdb.loadLoop_items [Double S] (items : List (Item S)) : ∀ {st : LoadState S} {r : Reader}
    {tail : Bytes} {fuel : ℕ}, ItemsFit items st → items.length < fuel →
    r.rest = items.flatMap Item.bytes ++ [opcodeEof] ++ tail → r.failed = false →
    ∃ r', loadLoop fuel st r = .ok (items.foldl Item.apply st, r') ∧
      r.Took (items.flatMap Item.bytes ++ [opcodeEof]) r' := by
  induction items with
  | nil =>
    intro st r tail fuel _ hfuel hr hf
    obtain ⟨fuel, rfl⟩ : ∃ k, fuel = k + 1 := ⟨fuel - 1, by simp at hfuel; omega⟩
    -- the byte behind the last item ends the loop
    obtain ⟨r', h', htook⟩ := Reader.readByte_spec (show r.rest = opcodeEof :: tail from hr) hf
    have heof : r.atEof = false := by simp [Reader.atEof, hf, hr]
    exact ⟨r', by simp only [loadLoop, heof, Bool.false_eq_true, if_false, h', if_true]; rfl, htook⟩
  | cons item items ih =>
    intro st r tail fuel hfits hfuel hr hf
    obtain ⟨fuel, rfl⟩ : ∃ k, fuel = k + 1 := ⟨fuel - 1, by simp at hfuel; omega⟩
    rw [List.flatMap_cons, List.append_assoc, List.append_assoc] at hr
    obtain ⟨r₁, h₁, htook₁⟩ := loadLoop_item hfits.1 hr hf fuel
    obtain ⟨r₂, h₂, htook₂⟩ := ih hfits.2 (by simp at hfuel; omega)
      (by rw [htook₁.rest_eq hr, List.append_assoc]) htook₁.ready'
    refine ⟨r₂, by rw [h₁, h₂]; rfl, ?_⟩
    rw [List.flatMap_cons, List.append_assoc]
    exact htook₁.trans htook₂

end Items

end RedisDb
