import RedisDb.Storage.RdbReader

/-!
# Loading what was saved

`load_database` and `load_databases` follow the items of a file into the databases, and
`rdb_round_trip` compares the databases loaded with those saved. `rdb_list_truncated` is a list that
is too long for the round trip: its length is announced as a `uint64_t`, and its elements are counted
by an `int`.
-/

namespace RedisDb

open Rdb

variable {S : Type}

/-! ### Databases -/

section Databases

variable [Platform] [Inhabited S] [LinearOrder S]

theorem itemsFit_append (items items' : List (Item S)) {st : LoadState S} :
    ItemsFit (items ++ items') st ↔
      ItemsFit items st ∧ ItemsFit items' (items.foldl Item.apply st) := by
  induction items generalizing st with
  | nil => simp [ItemsFit]
  | cons item items ih => rw [List.cons_append, ItemsFit, ItemsFit, ih, and_assoc]; rfl

/-- The loop is at the keys of a database. -/
structure LoadsAt (st : LoadState S) (i : ℕ) : Prop where
  currentDb : st.currentDb = i
  inside : i < st.databases.length
  few : st.databases.length < 2 ^ 31
  hasExpire : st.hasExpire = false

/-- What a key of a saved database brings back: its item can be written and read, and carries its
content and deadline. -/
structure Carries (db : Database S) (key : Bytes) (entry : Content S × Option ℤ) : Prop where
  exists_value : ∃ obj, db.data.lookup key = some obj ∧ obj.value.Shows entry.1 ∧
    obj.value.payload.Fits
  deadline : db.expires.lookup key = entry.2
  deadline_inRange : ∀ d, entry.2 = some d → InRange 64 d
  key_fits : key.length ≤ Platform.maxString

omit [LinearOrder S] in
/-- Storing a key that has been read: the databases change at `i`, and there at the key. -/
theorem LoadsAt.storeKey {st : LoadState S} {i : ℕ} (hat : LoadsAt st i) (db₀ : Database S)
    (key : Bytes) (v : Value S) (ms : ℕ) (hasExpire : Bool) :
    ∃ db₁, LoadsAt ({ st with expireMs := ms, hasExpire := hasExpire }.storeKey db₀ key (some v)) i ∧
      ({ st with expireMs := ms, hasExpire := hasExpire }.storeKey db₀ key (some v)).databases
        = st.databases.set i db₁ ∧
      ∀ k, db₁.dataset k = if k = key
        then some (v.content, if hasExpire then some (asInt64 ms) else none) else db₀.dataset k := by
  obtain ⟨s, hs⟩ : ∃ s : DbState S,
    s = DbState.setObject key { value := v } { st.env with db := db₀ } := ⟨_, rfl⟩
  have hdata : ∀ k, s.db.dataset k = if k = key then some (v.content, none) else db₀.dataset k := by
    intro k
    rw [hs, DbState.setObject, DbState.store_dataset]
  -- the key has just been stored, so its deadline is accepted
  have hpresent : (s.db.data.lookup key).isNone = false := by
    have hkey := hdata key
    rw [Database.dataset, if_pos rfl] at hkey
    cases hlookup : s.db.data.lookup key with
    | none => rw [hlookup] at hkey; cases hkey
    | some obj => rfl
  refine ⟨(if hasExpire then (s.setExpiryAt key (asInt64 ms)).2 else s).db,
    ⟨hat.currentDb, by simpa [LoadState.storeKey] using hat.inside,
      by simpa [LoadState.storeKey] using hat.few, rfl⟩,
    by simp only [LoadState.storeKey, hat.currentDb, Int.toNat_natCast, hs], fun k => ?_⟩
  cases hasExpire with
  | false => exact hdata k
  | true =>
    simp only [if_true, DbState.setExpiryAt, hpresent, Bool.false_eq_true, if_false]
    rw [DbState.setDeadline_dataset, hdata]
    split <;> rfl

/-- Loading one key. A deadline comes before the key, if it has one, and is used up by it. -/
theorem load_key {st : LoadState S} {i : ℕ} (hat : LoadsAt st i) {db₀ : Database S}
    (hdb₀ : st.databases[i]? = some db₀) {db : Database S} {key : Bytes}
    {entry : Content S × Option ℤ} (hcarry : Carries db key entry) :
    ItemsFit (keyItems db key) st ∧ ∃ db₁, LoadsAt ((keyItems db key).foldl Item.apply st) i ∧
      ((keyItems db key).foldl Item.apply st).databases = st.databases.set i db₁ ∧
      ∀ k, db₁.dataset k = if k = key then some entry else db₀.dataset k := by
  obtain ⟨⟨obj, hobj, hshow, hfits⟩, hdeadline, hrange, hkey⟩ := hcarry
  obtain ⟨v, hbuild, -, hcontent⟩ := hshow.means.build (st.seeds 0)
  have hne : obj.value.payload ≠ .none := fun h => by
    have hmeans := hshow.means
    rw [h] at hmeans
    exact hmeans.elim
  -- what stands in the file for the key: its deadline, if it has one, and its value
  have hitems : keyItems db key = deadlineItems entry.2 ++ [.value key obj.value.payload] := by
    rw [keyItems, hobj, hdeadline]
  -- the value goes to a database that is there, whether a deadline stands before it or not
  have hvalue : ∀ ms hasExpire, Item.Fits { st with expireMs := ms, hasExpire := hasExpire }
      (.value key obj.value.payload) := fun ms hasExpire => by
    refine ⟨hkey, hne, hfits, ?_, ?_, ?_⟩
    · show 0 ≤ st.currentDb
      rw [hat.currentDb]; omega
    · show st.currentDb < asInt st.databases.length
      rw [hat.currentDb, asInt_of_lt hat.few]
      exact_mod_cast hat.inside
    · show st.currentDb.toNat < st.databases.length
      rw [hat.currentDb, Int.toNat_natCast]
      exact hat.inside
  -- and there it is stored
  have hstored : ∀ ms hasExpire,
      Item.apply { st with expireMs := ms, hasExpire := hasExpire } (.value key obj.value.payload)
        = { st with expireMs := ms, hasExpire := hasExpire }.storeKey db₀ key (some v) := by
    intro ms hasExpire
    simp only [Item.apply, hat.currentDb, Int.toNat_natCast, hdb₀, hbuild]
  rw [hitems]
  obtain ⟨content, deadline⟩ := entry
  cases deadline with
  | none =>
    -- no deadline: the loader's flag is as it was
    have hst : { st with expireMs := st.expireMs, hasExpire := false } = st := by
      rw [← hat.hasExpire]
    have hfit := hvalue st.expireMs false
    have happly := hstored st.expireMs false
    obtain ⟨db₁, hat₁, hset₁, hdata₁⟩ := hat.storeKey db₀ key v st.expireMs false
    rw [← happly] at hat₁ hset₁
    rw [hst] at hfit hat₁ hset₁
    exact ⟨⟨hfit, trivial⟩, db₁, hat₁, hset₁, by simpa [hcontent] using hdata₁⟩
  | some d =>
    -- the deadline is written as 64 bits without a sign, and read back with one
    have hrestore : asInt64 (asUInt64 d) = d := asInt64_asUInt64 (hrange d rfl)
    obtain ⟨db₁, hat₁, hset₁, hdata₁⟩ := hat.storeKey db₀ key v (asUInt64 d) true
    rw [← hstored] at hat₁ hset₁
    simp only [hrestore, if_true] at hdata₁
    exact ⟨⟨asUInt64_lt d, hvalue _ true, trivial⟩, db₁, hat₁, hset₁, by rwa [hcontent] at hdata₁⟩

omit [Platform] [Inhabited S] [LinearOrder S] in
theorem set_of_getElem?_eq_some {α : Type} {xs : List α} {i : ℕ} {x : α} (h : xs[i]? = some x) :
    xs.set i x = xs := by
  obtain ⟨hi, rfl⟩ := List.getElem?_eq_some_iff.mp h
  exact List.set_getElem_self hi

/-- Loading keys, each of them once. By induction on the keys. -/
theorem load_keys {db : Database S} (want : Bytes → Option (Content S × Option ℤ))
    (keys : List Bytes) : ∀ {st : LoadState S} {i : ℕ} (_ : LoadsAt st i) {db₀ : Database S}
    (_ : st.databases[i]? = some db₀)
    (_ : ∀ key ∈ keys, ∃ entry, want key = some entry ∧ Carries db key entry),
    ItemsFit (keys.flatMap (keyItems db)) st ∧ ∃ db₁,
      LoadsAt ((keys.flatMap (keyItems db)).foldl Item.apply st) i ∧
      ((keys.flatMap (keyItems db)).foldl Item.apply st).databases = st.databases.set i db₁ ∧
      ∀ k, db₁.dataset k = if k ∈ keys then want k else db₀.dataset k := by
  induction keys with
  | nil =>
    intro st i hat db₀ hdb₀ _
    refine ⟨trivial, db₀, hat, ?_, fun k => by simp⟩
    exact (set_of_getElem?_eq_some hdb₀).symm
  | cons key keys ih =>
    intro st i hat db₀ hdb₀ hkeys
    obtain ⟨entry, hentry, hcarry⟩ := hkeys key List.mem_cons_self
    -- the first key, and then the rest into the database that holds it
    obtain ⟨hfit₁, db₁, hat₁, hset₁, hdata₁⟩ := load_key hat hdb₀ hcarry
    have hdb₁ : ((keyItems db key).foldl Item.apply st).databases[i]? = some db₁ := by
      rw [hset₁, List.getElem?_set_self hat.inside]
    obtain ⟨hfit₂, db₂, hat₂, hset₂, hdata₂⟩ := ih hat₁ hdb₁
      fun k hk => hkeys k (List.mem_cons_of_mem _ hk)
    rw [List.flatMap_cons, List.foldl_append, itemsFit_append]
    refine ⟨⟨hfit₁, hfit₂⟩, db₂, hat₂, ?_, fun k => ?_⟩
    · rw [hset₂, hset₁, List.set_set]
    · rw [hdata₂, hdata₁]
      simp only [List.mem_cons]
      by_cases hk : k ∈ keys
      · simp [hk]
      · by_cases hkey : k = key
        · simp [hkey, hentry]
        · simp [hk, hkey]

/-- The opcodes in front of the keys of a database. -/
theorem loads_database (size expiresSize : ℕ) {st : LoadState S} {i : ℕ} (hi : i < 2 ^ 64)
    {items : List (Item S)} (hitems : ItemsFit items { st with currentDb := asInt i }) :
    ItemsFit ([.selectDb i, .resizeDb size expiresSize] ++ items) st ∧
      ([Item.selectDb i, .resizeDb size expiresSize] ++ items).foldl Item.apply st
        = items.foldl Item.apply { st with currentDb := asInt i } := by
  rw [List.cons_append, List.cons_append, List.nil_append, ItemsFit, ItemsFit, Item.Fits, Item.Fits,
    List.foldl_cons, List.foldl_cons, Item.apply, Item.apply]
  exact ⟨⟨hi, trivial, hitems⟩, rfl⟩

/-- The saved database holds what is wanted: its keys that have not expired carry their entries, and
there are no others. -/
structure Restores (now : ℤ) (db : Database S) (want : Bytes → Option (Content S × Option ℤ)) :
    Prop where
  carries : ∀ key ∈ liveKeys now db, ∃ entry, want key = some entry ∧ Carries db key entry
  none : ∀ key, key ∉ liveKeys now db → want key = none

/-- Loading a database into an empty one. -/
theorem load_database {now : ℤ} {st : LoadState S} {i : ℕ} (hidle : st.hasExpire = false)
    (hi : i < 2 ^ 64) {db₀ : Database S} (hdb₀ : st.databases[i]? = some db₀)
    (hempty : ∀ key, db₀.dataset key = none) {db : Database S}
    {want : Bytes → Option (Content S × Option ℤ)} (hwant : Restores now db want)
    (hfew : st.databases.length < 2 ^ 31 ∨ liveKeys now db = []) :
    ItemsFit (databaseItems now i db) st ∧ ∃ db₁,
      ((databaseItems now i db).foldl Item.apply st).hasExpire = false ∧
      ((databaseItems now i db).foldl Item.apply st).databases = st.databases.set i db₁ ∧
      ∀ key, db₁.dataset key = want key := by
  have hkeep : st.databases.set i db₀ = st.databases := set_of_getElem?_eq_some hdb₀
  rcases List.eq_nil_or_concat (liveKeys now db) with hnone | hsome
  · -- nothing but the opcodes for the database is written
    have hdata : ∀ key, db₀.dataset key = want key := fun key => by
      rw [hempty, hwant.none key (by rw [hnone]; exact List.not_mem_nil)]
    unfold databaseItems
    split
    · exact ⟨trivial, db₀, hidle, hkeep.symm, hdata⟩
    · obtain ⟨hfits, hfold⟩ := loads_database db.size db.expiresSize hi
        (show ItemsFit [] { st with currentDb := asInt i } from trivial)
      rw [hnone, List.flatMap_nil, hfold, List.foldl_nil]
      exact ⟨hfits, db₀, by simpa only using hidle, by simp only [hkeep], hdata⟩
  · -- some key is live, so the database is written
    have hne : liveKeys now db ≠ [] := by
      obtain ⟨_, _, h⟩ := hsome
      rw [h]
      simp
    obtain ⟨hlt, -⟩ := List.getElem?_eq_some_iff.mp hdb₀
    have hcount : st.databases.length < 2 ^ 31 := hfew.resolve_right hne
    have hsize : db.size ≠ 0 := by
      obtain ⟨key, hkey⟩ := List.exists_mem_of_ne_nil _ hne
      obtain ⟨⟨obj, hobj⟩, -⟩ := mem_liveKeys.mp hkey
      exact UnorderedMap.size_ne_zero hobj
    have hcurrent : asInt i = i := asInt_of_lt (lt_trans hlt hcount)
    have hat : LoadsAt { st with currentDb := asInt i } i :=
      ⟨by simp only [hcurrent], hlt, hcount, by simpa only using hidle⟩
    obtain ⟨hfits, db₁, hat₁, hset₁, hdata₁⟩ :=
      load_keys want (liveKeys now db) hat hdb₀ hwant.carries
    obtain ⟨hfits, hfold⟩ := loads_database db.size db.expiresSize hi hfits
    rw [databaseItems, if_neg hsize, hfold]
    refine ⟨hfits, db₁, hat₁.hasExpire, hset₁, fun key => ?_⟩
    rw [hdata₁]
    split
    · rfl
    · next hkey => rw [hempty, hwant.none key hkey]

/-- Loading the databases from index `i` on, by induction on them. -/
theorem load_databases {now : ℤ} {want : ℕ → Bytes → Option (Content S × Option ℤ)}
    (saved : List (Database S)) : ∀ {st : LoadState S} {i : ℕ} (_ : st.hasExpire = false)
    (_ : st.databases.length = i + saved.length) (_ : st.databases.length < 2 ^ 64)
    (_ : ∀ j ≥ i, ∀ db₀, st.databases[j]? = some db₀ → ∀ key, db₀.dataset key = none)
    (_ : ∀ j db, saved[j]? = some db → Restores now db (want (i + j)))
    (_ : st.databases.length < 2 ^ 31 ∨ ∀ db ∈ saved, liveKeys now db = []),
    ItemsFit (fileItems now i saved) st ∧
      ((fileItems now i saved).foldl Item.apply st).databases.length = st.databases.length ∧
      (∀ j < i, ((fileItems now i saved).foldl Item.apply st).databases[j]? = st.databases[j]?) ∧
      ∀ j ≥ i, ∀ db₁, ((fileItems now i saved).foldl Item.apply st).databases[j]? = some db₁ →
        ∀ key, db₁.dataset key = want j key := by
  induction saved with
  | nil =>
    intro st i _ hlen _ _ _ _
    refine ⟨trivial, rfl, fun _ _ => rfl, fun j hj db₁ hdb₁ => ?_⟩
    obtain ⟨hlt, -⟩ := List.getElem?_eq_some_iff.mp hdb₁
    have : st.databases.length = i := by simpa using hlen
    exact absurd (this ▸ hlt) (not_lt.mpr hj)
  | cons db rest ih =>
    intro st i hidle hlen hsmall hempty hwant hfew
    rw [List.length_cons] at hlen
    have hi : i < st.databases.length := by omega
    have hdb₀ := List.getElem?_eq_getElem hi
    obtain ⟨hfits, db₁, hidle₁, hset₁, hdata₁⟩ := load_database hidle (by omega) hdb₀
      (hempty i le_rfl _ hdb₀) (hwant 0 db rfl) (hfew.imp_right fun h => h db List.mem_cons_self)
    obtain ⟨st₁, hst₁⟩ : ∃ st₁, (databaseItems now i db).foldl Item.apply st = st₁ := ⟨_, rfl⟩
    rw [hst₁] at hidle₁ hset₁
    have hlen₁ : st₁.databases.length = st.databases.length := by rw [hset₁, List.length_set]
    -- loading the first of them leaves the others as they were
    have hother : ∀ j, j ≠ i → st₁.databases[j]? = st.databases[j]? := fun j hj => by
      rw [hset₁, List.getElem?_set_ne (Ne.symm hj)]
    obtain ⟨hfits₂, hlen₂, hbefore₂, hdata₂⟩ := ih hidle₁
      (show _ = i + 1 + rest.length by omega) (by omega)
      (fun j hj db₀ h => hempty j (by omega) db₀ (by rwa [hother j (by omega)] at h))
      (fun j db h => by rw [show i + 1 + j = i + (j + 1) by omega]; exact hwant (j + 1) db h)
      (by rw [hlen₁]; exact hfew.imp_right fun h d hd => h d (List.mem_cons_of_mem _ hd))
    rw [fileItems, List.foldl_append, itemsFit_append, hst₁]
    refine ⟨⟨hfits, hfits₂⟩, hlen₂.trans hlen₁, fun j hj => ?_, fun j hj d hd => ?_⟩
    · rw [hbefore₂ j (by omega), hother j (by omega)]
    · rcases eq_or_lt_of_le hj with rfl | hlt
      · rw [hbefore₂ _ (by omega), hset₁, List.getElem?_set_self hi] at hd
        obtain rfl := Option.some.inj hd
        exact hdata₁
      · exact hdata₂ j hlt d hd

omit [Inhabited S] [LinearOrder S] in
/-- Emptying the databases keeps their number. -/
theorem flushAll_spec (databases : List (Database S)) : ∀ env : Env,
    (flushAll databases env).1.length = databases.length ∧
      ∀ db ∈ (flushAll databases env).1, db.data = ∅ := by
  induction databases with
  | nil => intro env; exact ⟨rfl, fun _ h => by cases h⟩
  | cons db rest ih =>
    intro env
    obtain ⟨hlen, hempty⟩ := ih (DbState.flushDb { env with db := db } : DbState S).toEnv
    refine ⟨by simp only [flushAll, List.length_cons, hlen], fun d hd => ?_⟩
    rcases List.mem_cons.mp hd with rfl | hd
    · exact (DbState.flushDb_data _).1
    · exact hempty d hd

omit [Platform] [Inhabited S] [LinearOrder S] in
/-- Every item takes a byte at least. -/
theorem length_le_bytes [Double S] (items : List (Item S)) :
    items.length ≤ (items.flatMap Item.bytes).length := by
  induction items with
  | nil => exact le_rfl
  | cons item items ih =>
    have hitem : 0 < item.bytes.length := by cases item <;> exact Nat.succ_pos _
    rw [List.flatMap_cons, List.length_append, List.length_cons]
    omega

omit [Inhabited S] [LinearOrder S] in
/-- The variables of the loop before its first turn. -/
def Rdb.LoadState.initial (databases : List (Database S)) (env : Env) (seeds : ℕ → ℕ → Height) :
    LoadState S :=
  { databases := (flushAll databases env).1, env := (flushAll databases env).2, seeds := seeds }

/-- **Loading a file of fitting items**: the magic and the checksum are accepted, and the items are
applied to the emptied databases. -/
theorem loadFromFile_spec [Double S] {items : List (Item S)} (junk : ℕ → UInt8)
    {seeds : ℕ → ℕ → Height} {databases : List (Database S)} {env : Env}
    (hfits : ItemsFit items (LoadState.initial databases env seeds)) :
    ∃ env', loadFromFile (some (fileBytes items ++
        LittleEndian.bytes 8 (crc64Update 0 (fileBytes items)).toNat)) junk seeds databases env
      = .ok (true, (items.foldl Item.apply (LoadState.initial databases env seeds)).databases,
        env') := by
  obtain ⟨sum, hsum⟩ : ∃ sum, sum = crc64Update 0 (fileBytes items) := ⟨_, rfl⟩
  obtain ⟨file, hfile⟩ : ∃ file, file = fileBytes items ++ LittleEndian.bytes 8 sum.toNat := ⟨_, rfl⟩
  obtain ⟨r, hr⟩ : ∃ r : Reader, r = { rest := file, junk := junk } := ⟨_, rfl⟩
  have hrest : r.rest = magic ++ (items.flatMap Item.bytes ++ [opcodeEof] ++
      LittleEndian.bytes 8 sum.toNat) := by rw [hr, hfile]; simp [fileBytes]
  -- first the magic string
  obtain ⟨r₁, h₁, htook₁⟩ := Reader.readNew_update hrest (by rw [hr])
  have hrest₁ := htook₁.rest_eq hrest
  have hfuel : items.length < (r₁.update magic).rest.length := by
    have := length_le_bytes items
    rw [hrest₁]
    simp only [List.length_append, List.length_singleton]
    omega
  -- then the items, for which the fuel is enough
  obtain ⟨r₂, h₂, htook₂⟩ := loadLoop_items items hfits hfuel hrest₁ htook₁.ready'
  -- the checksum has run over everything up to the end opcode
  have hchecksum : r₂.checksum = sum := by
    rw [htook₂.checksum, htook₁.checksum, ← crc64Update_append, hsum, hr, fileBytes,
      List.append_assoc]
  have hrest₂ : r₂.rest = LittleEndian.bytes 8 sum.toNat ++ [] := by
    rw [htook₂.rest_eq hrest₁, List.append_nil]
  -- and last the checksum
  obtain ⟨junk', h₃⟩ := Reader.readNew_spec hrest₂ htook₂.ready'
  rw [LittleEndian.length_bytes] at h₃
  have hvalue : LittleEndian.value (LittleEndian.bytes 8 sum.toNat) = sum.toNat :=
    LittleEndian.value_bytes (by have := sum.toNat_lt; norm_num; omega)
  refine ⟨(items.foldl Item.apply (LoadState.initial databases env seeds)).env, ?_⟩
  rw [← hsum, ← hfile]
  unfold loadFromFile
  simp only [LoadState.initial] at h₂ ⊢
  simp only [← hr, show r.readNew 9 = (magic, r₁) from h₁, ne_eq, not_true_eq_false, if_false, h₂,
    h₃, hvalue, hchecksum, or_true, decide_true]

/-! ### The round trip -/

/-- What holds of any database in memory: a key is no longer than a `std::string` can be, and the
elements of a value can be counted. -/
def Database.Fits (db : Database S) : Prop :=
  ∀ key obj, db.data.lookup key = some obj → key.length ≤ Platform.maxString ∧ obj.value.payload.Fits

/-- **What a snapshot keeps.** The value of every live key has as many elements written as are
announced, and its deadline is ahead of the clock by an `int64_t`. -/
def Savable (now : ℤ) (db : Database S) : Prop :=
  ∀ key obj, db.data.lookup key = some obj → ¬ db.Expired now key →
    obj.value.Counted ∧ ∀ deadline, db.expires.lookup key = some deadline → deadline - now < 2 ^ 63

instance (db : Database S) : Decidable db.Fits := decidable_of_iff' _ UnorderedMap.forall_lookup_iff

omit [Platform] [LinearOrder S] in
theorem savable_iff {now : ℤ} {db : Database S} : Savable now db ↔ ∀ e ∈ db.data.entries, ¬db.Expired now e.1 →
    e.2.value.Counted ∧ ∀ deadline ∈ db.expires.lookup e.1, deadline - now < 2 ^ 63 :=
  UnorderedMap.forall_lookup_iff (P := fun key (obj : RedisObject S) => ¬db.Expired now key →
    obj.value.Counted ∧ ∀ deadline ∈ db.expires.lookup key, deadline - now < 2 ^ 63)

instance (now : ℤ) (db : Database S) : Decidable (Savable now db) := decidable_of_iff' _ savable_iff

/-- The database saved is the database itself or a copy of it. -/
structure SnapshotOf (db' db : Database S) : Prop where
  expires : db'.expires = db.expires
  data_none : ∀ key, db'.data.lookup key = none → db.data.lookup key = none
  data_some : ∀ key obj', db'.data.lookup key = some obj' →
    ∃ obj, db.data.lookup key = some obj ∧
      (obj.value.WF → obj'.value.Counted → obj'.value.Shows obj.value.content)

theorem snapshotOf_self (db : Database S) : SnapshotOf db db where
  expires := rfl
  data_none _ h := h
  data_some _ obj h := ⟨obj, h, fun hwf hcount => hwf.shows hcount⟩

theorem snapshotOf_clone (db : Database S) (rng : Bytes → ℕ → Height) :
    SnapshotOf (db.clone rng) db where
  expires := rfl
  data_none key h := by
    rw [Database.clone, UnorderedMap.lookup_mapVal] at h
    exact Option.map_eq_none_iff.mp h
  data_some key obj' h := by
    rw [Database.clone, UnorderedMap.lookup_mapVal] at h
    obtain ⟨obj, hobj, rfl⟩ := Option.map_eq_some_iff.mp h
    exact ⟨obj, hobj, fun hwf hcount => hwf.shows_clone (rng key) hcount⟩

variable {now : ℤ} {db' db : Database S}

/-- What the writer needs is there. -/
theorem SnapshotOf.writableDb (h : SnapshotOf db' db) (hwf : db.WF) (hsave : Savable now db') :
    WritableDb now db' := fun key obj' hobj' hlive => by
  obtain ⟨hcount, hdistance⟩ := hsave key obj' hobj' hlive
  obtain ⟨obj, hobj, hshow⟩ := h.data_some key obj' hobj'
  have hshows := hshow (hwf.values key obj hobj) hcount
  refine ⟨fun hnone => ?_, hshows.announced, hdistance⟩
  have hmeans := hshows.means
  rw [hnone] at hmeans
  exact hmeans.elim

/-- What the writer writes brings the live keys back. -/
theorem SnapshotOf.restores (h : SnapshotOf db' db) (hwf : db.WF) (hfits : db'.Fits)
    (hsave : Savable now db') : Restores now db' (db.live now) where
  carries key hkey := by
    obtain ⟨⟨obj', hobj'⟩, hlive⟩ := mem_liveKeys.mp hkey
    obtain ⟨obj, hobj, hshow⟩ := h.data_some key obj' hobj'
    have hlive' : ¬ db.Expired now key := by rwa [Database.Expired, ← h.expires]
    refine ⟨(obj.value.content, db.expires.lookup key), ?_, ?_⟩
    · rw [Database.live, if_neg hlive', Database.dataset, hobj, Option.map_some]
    · exact ⟨⟨obj', hobj', hshow (hwf.values key obj hobj) (hsave key obj' hobj' hlive).1,
        (hfits key obj' hobj').2⟩, by rw [h.expires], hwf.deadlines key, (hfits key obj' hobj').1⟩
  none key hkey := by
    rw [Database.live]
    split
    · rfl
    · next hlive =>
      -- what is not written is not there, or has expired
      have hgone : db'.data.lookup key = none := by
        by_contra hne
        refine hkey (mem_liveKeys.mpr ⟨Option.ne_none_iff_exists'.mp hne, ?_⟩)
        rwa [Database.Expired, h.expires]
      rw [Database.dataset, h.data_none key hgone, Option.map_none]

/-- Saving and loading bring every database back: both calls succeed, and each database loaded
holds what was live in the original. -/
def RoundTrips [Double S] (now : ℤ) (dbs saved target : List (Database S)) (env env' : Env)
    (junk : ℕ → UInt8) (seeds : ℕ → ℕ → Height) : Prop :=
  (saveToFile true saved env).1 = true ∧ ∃ loaded env'',
    loadFromFile (some (saveToFile true saved env).2.1) junk seeds target env'
      = .ok (true, loaded, env'') ∧ loaded.length = dbs.length ∧
    ∀ (i : ℕ) (db₁ db : Database S), loaded[i]? = some db₁ → dbs[i]? = some db →
      ∀ key, db₁.dataset key = db.live now key

/-- **The round trip.** Reachable databases, or copies of them, are brought back from a snapshot, if the counts of
their live values are right, the deadlines not too far ahead, and the databases not too many. What `saveToFile` writes
is an encoding of the live keys of each database (`saveToFile_eq`), and reading such an encoding back is an induction
over its records: each one puts the content and the deadline of its key into the database that the load has come to. -/
theorem rdb_round_trip [Double S] {dbs saved target : List (Database S)}
    (hdbs : ∀ db ∈ dbs, db.Reachable)
    (hsaved : saved = dbs ∨ ∃ rngs : ℕ → Bytes → ℕ → Height,
      saved = dbs.mapIdx fun i db => db.clone (rngs i))
    (hfits : ∀ db ∈ saved, db.Fits) (hlength : dbs.length < 2 ^ 64)
    (hsave : ∀ db ∈ saved, Savable now db)
    (hfew : dbs.length < 2 ^ 31 ∨ ∀ db ∈ saved, liveKeys now db = [])
    (htarget : target.length = dbs.length) {env : Env} (hclock : env.clock = fun _ => now)
    (env' : Env) (junk : ℕ → UInt8) (seeds : ℕ → ℕ → Height) :
    RoundTrips now dbs saved target env env' junk seeds := by
  -- the databases themselves or their copies: both show what the databases show
  have hsnapshot : saved.length = dbs.length ∧ ∀ (i : ℕ) (db' : Database S), saved[i]? = some db' →
      ∃ db, dbs[i]? = some db ∧ SnapshotOf db' db := by
    rcases hsaved with rfl | ⟨rngs, rfl⟩
    · exact ⟨rfl, fun i db' h => ⟨db', h, snapshotOf_self db'⟩⟩
    · refine ⟨List.length_mapIdx, fun i db' h => ?_⟩
      rw [List.getElem?_mapIdx] at h
      obtain ⟨db, hdb, rfl⟩ := Option.map_eq_some_iff.mp h
      exact ⟨db, hdb, snapshotOf_clone db (rngs i)⟩
  obtain ⟨hlen, hsnapshot⟩ := hsnapshot
  have hwritable : ∀ db' ∈ saved, WritableDb now db' := fun db' hmem => by
    obtain ⟨i, hi⟩ := List.getElem?_of_mem hmem
    obtain ⟨db, hdb, h⟩ := hsnapshot i db' hi
    exact h.writableDb (hdbs db (List.mem_of_getElem? hdb)).wf (hsave db' hmem)
  obtain ⟨hok, hfile⟩ := saveToFile_eq hclock hwritable
  obtain ⟨hflushed, hempty⟩ := flushAll_spec target env'
  -- each database of the file is loaded into an empty one
  obtain ⟨want, hwant⟩ : ∃ want : ℕ → Bytes → Option (Content S × Option ℤ),
    want = fun i key => (dbs[i]?).elim none fun db => db.live now key := ⟨_, rfl⟩
  obtain ⟨st, hst⟩ : ∃ st, st = LoadState.initial target env' seeds := ⟨_, rfl⟩
  -- what the file holds of each database is what its live keys show
  have hrestores : ∀ j db', saved[j]? = some db' → Restores now db' (want (0 + j)) := by
    intro j db' hj
    obtain ⟨db, hdb, h⟩ := hsnapshot j db' hj
    have hmem := List.mem_of_getElem? hj
    have hrestores := h.restores (hdbs db (List.mem_of_getElem? hdb)).wf (hfits db' hmem)
      (hsave db' hmem)
    simpa only [hwant, Nat.zero_add, hdb, Option.elim_some] using hrestores
  have hcount : st.databases.length = (flushAll target env').1.length := by rw [hst]; rfl
  obtain ⟨hitems, hlen', -, hdata⟩ := load_databases saved
    (show st.hasExpire = false by rw [hst]; rfl) (show _ = 0 + _ by omega) (by omega)
    (fun j _ db₀ h key => Database.dataset_of_empty
      (hempty db₀ (List.mem_of_getElem? (by rw [hst] at h; exact h))) key)
    hrestores
    (by rw [hcount, hflushed, htarget]; exact hfew)
  rw [hst] at hitems hlen' hdata
  obtain ⟨env'', hload⟩ := loadFromFile_spec junk hitems
  refine ⟨hok, _, env'', by rw [hfile]; exact hload, ?_, fun i db₁ db hdb₁ hdb key => ?_⟩
  · exact hlen'.trans (hflushed.trans htarget)
  · have hloaded := hdata i (Nat.zero_le i) db₁ hdb₁ key
    simpa only [hwant, hdb, Option.elim_some] using hloaded

end Databases

/-! ### A snapshot with values of every kind -/

section Sample

open Sample

/-- One string, with a deadline. -/
def volatileDb : Database Score :=
  (DbState.setExpiryAt (str "k") 60000
    (DbState.set (str "k") (str "v") { idleEnv with db := {} })).2.db

/-- A list, a hash, a set and a sorted set. -/
def collections : List (Bytes × Value Score) :=
  [(str "l", .list ((LinkedList.new.pushBack (str "b")).pushFront (str "a"))),
    (str "h", .hash (HashTable.empty.set Platform.hash (str "f") (str "x")).1),
    (str "s", .set ((HashSet.new.add (str "m")).1.add (str "n")).1),
    (str "z", .zset (((SortedSet.new fun _ => ⟨2, two_inLevels⟩).add Platform.hash (str "p")
      (Double.ofBits 3)).1.add Platform.hash (str "q") (Double.ofBits 1)).1)]

theorem reachable_collections : ∀ x ∈ collections, x.2.Reachable := by
  simp only [collections, List.forall_mem_cons, List.not_mem_nil, false_implies, implies_true, and_true]
  exact ⟨.pushFront (.pushBack .newList _) _, .hashSet .newHash _ _, .setAdd (.setAdd .newSet _) _,
    .zsetAdd (.zsetAdd (.newZset _) _ _) _ _⟩

/-- They are put into a database. -/
def storeAll (xs : List (Bytes × Value Score)) (s : DbState Score) : DbState Score :=
  xs.foldl (fun s x => s.setObject x.1 { value := x.2 }) s

/-- By induction on the values. -/
theorem reachable_storeAll (xs : List (Bytes × Value Score)) : ∀ {s : DbState Score}, s.db.Reachable →
    (∀ x ∈ xs, x.2.Reachable) → (storeAll xs s).db.Reachable := by
  induction xs with
  | nil => exact fun hs _ => hs
  | cons x xs ih =>
    intro s hs hxs
    obtain ⟨hx, hrest⟩ := List.forall_mem_cons.mp hxs
    exact ih (hs.setObject x.1 hx) hrest

/-- A value of every kind, the string with a deadline. -/
def motleyDb : Database Score := (storeAll collections { idleEnv with db := volatileDb }).db

theorem reachable_volatileDb : volatileDb.Reachable := by
  have hset := Database.Reachable.set (s := { idleEnv with db := ({} : Database Score) }) .new (str "k") (str "v")
  exact hset.setExpiryAt (str "k") (by decide)

theorem reachable_motleyDb : motleyDb.Reachable :=
  reachable_storeAll collections (s := { idleEnv with db := volatileDb }) reachable_volatileDb reachable_collections

/-- Two databases, of which the first has a value of every kind. -/
theorem rdb_round_trip_motley :
    RoundTrips 0 [motleyDb, volatileDb] [motleyDb, volatileDb] [{}, {}] idleEnv idleEnv (fun _ => 0)
      (fun _ _ => ⟨1, by decide⟩) := by
  have hreachable : ∀ db ∈ [motleyDb, volatileDb], db.Reachable := by
    simp only [List.forall_mem_cons, reachable_motleyDb, reachable_volatileDb, List.not_mem_nil, false_implies,
      implies_true, and_self]
  have hfits : ∀ db ∈ [motleyDb, volatileDb], db.Fits := by decide +kernel
  have hsave : ∀ db ∈ [motleyDb, volatileDb], Savable 0 db := by decide +kernel
  exact @rdb_round_trip Score _ _ _ 0 _ [motleyDb, volatileDb] [motleyDb, volatileDb] [{}, {}] hreachable
    (.inl rfl) hfits (by simp) hsave (.inl (by simp)) rfl idleEnv rfl idleEnv _ _

/-! ### A list too long for an `int` -/

/-- The list of `n` copies of the text `a`. -/
def longList (n : ℕ) : LinkedList := (fun l => l.pushBack (str "a"))^[n] .new

theorem holds_longList (n : ℕ) : (longList n).Holds (List.replicate n (str "a")) := by
  induction n with
  | zero => exact LinkedList.holds_new
  | succ n ih =>
    rw [longList, Function.iterate_succ_apply', List.replicate_succ']
    exact ih.pushBack (str "a")

theorem reachable_longList (n : ℕ) : (Value.list (longList n) : Value Score).Reachable := by
  induction n with
  | zero => exact .newList
  | succ n ih =>
    rw [longList, Function.iterate_succ_apply']
    exact .pushBack ih (str "a")

/-- One list. -/
def listDb (n : ℕ) : Database Score :=
  (DbState.setObject (str "l") { value := .list (longList n) } { idleEnv with db := {} }).db

/-- What is read of a list: the loop body of `loadValue`. -/
def readElement (list : LinkedList) (r : Reader) : Except Fault (LinkedList × Reader) := do
  let (val, r) ← r.readString
  .ok (list.pushBack val, r)

/-- A failed stream stays failed. -/
theorem readString_failed {r : Reader} (h : r.failed = true) {s : Bytes} {r' : Reader}
    (hread : r.readString = .ok (s, r')) : r'.failed = true := by
  have hlength : r.readLength.2.failed = true := by
    simp [Reader.readLength, Reader.readNew, Reader.readOver, Reader.take, Reader.update, h]
  simp only [Reader.readString] at hread
  split at hread
  · cases hread
  · rw [Except.ok.injEq, Prod.mk.injEq] at hread
    rw [← hread.2]
    simp [Reader.take, Reader.update, hlength]

/-- Elements are only added to the list that is read. By induction on their number. -/
theorem readMany_pushBack (n : ℕ) : ∀ {l : LinkedList} {xs : List Bytes} {r : Reader},
    l.Holds xs → r.failed = true → ∀ {l' r'}, r.readMany readElement n l = .ok (l', r') →
    r'.failed = true ∧ ∃ ys, l'.Holds (xs ++ ys) := by
  induction n with
  | zero =>
    intro l xs r hl hf l' r' h
    rw [Reader.readMany, Except.ok.injEq, Prod.mk.injEq] at h
    exact ⟨by rw [← h.2]; exact hf, [], by rw [← h.1, List.append_nil]; exact hl⟩
  | succ n ih =>
    intro l xs r hl hf l' r' h
    simp only [Reader.readMany, readElement] at h
    cases hread : r.readString with
    | error e => rw [hread] at h; cases h
    | ok p =>
      rw [hread] at h
      obtain ⟨hf', ys, hys⟩ := ih (hl.pushBack p.1) (readString_failed hf hread) h
      exact ⟨hf', p.1 :: ys, by simpa using hys⟩

/-- Where the file ends, what is left is taken for the length of a string, which is too long. -/
theorem readString_end {r : Reader} {bs : Bytes} (hr : r.rest = opcodeEof :: bs)
    (hbs : bs.length = 8) (hf : r.failed = false) {s : Bytes} {r' : Reader}
    (hread : r.readString = .ok (s, r')) : 255 ≤ s.length ∧ r'.failed = true := by
  obtain ⟨len, hlen⟩ : ∃ len, len = LittleEndian.value (opcodeEof :: bs.take 7) := ⟨_, rfl⟩
  -- the end marker and seven bytes of the checksum, read as a length
  have hbig : 255 ≤ len := hlen ▸ LittleEndian.le_value opcodeEof (bs.take 7)
  have hsplit : r.rest = (opcodeEof :: bs.take 7) ++ bs.drop 7 := by
    rw [hr, List.cons_append, List.take_append_drop]
  obtain ⟨junk, hnew⟩ := Reader.readNew_spec hsplit hf
  have height : (opcodeEof :: bs.take 7).length = 8 := by simp [hbs]
  rw [height] at hnew
  simp only [Reader.readString, Reader.readLength, hnew, ← hlen] at hread
  split at hread
  · cases hread
  · rw [Except.ok.injEq, Prod.mk.injEq] at hread
    have hrest : (bs.drop 7).length = 1 := by simp [hbs]
    -- one byte is left, and the string is longer
    have hshort : ¬ len ≤ (bs.drop 7).length := by omega
    simp only [Reader.take, Reader.update, hf, Bool.false_eq_true, if_false, if_neg hshort]
      at hread
    refine ⟨?_, by rw [← hread.2]⟩
    rw [← hread.1, List.length_append, List.length_replicate]
    omega

theorem listDb_expires (n : ℕ) : (listDb n).expires.lookup (str "l") = none := by
  rw [listDb, DbState.setObject, DbState.store_expires]
  rfl

/-- The file: the length of the list is announced, and no element follows. -/
theorem saveToFile_listDb {n : ℕ} (hn : (asInt n).toNat = 0) :
    ∃ size expiresSize sum, (saveToFile true [listDb n] idleEnv).2.1
      = magic ++ ([Item.selectDb 0, .resizeDb size expiresSize].flatMap (Item.bytes (S := Score)) ++
        (typeList :: (Payload.stringBytes (str "l") ++ LittleEndian.bytes 8 n) ++
          (opcodeEof :: LittleEndian.bytes 8 sum))) := by
  obtain ⟨s, hs⟩ : ∃ s : DbState Score, s = { idleEnv with db := listDb n } := ⟨_, rfl⟩
  have hfixed : s.Fixed 0 := by rw [hs]; rfl
  obtain ⟨lruClock, hdata⟩ := DbState.store_data { idleEnv with db := ({} : Database Score) }
    (str "l") { value := .list (longList n) }
  have hdata : s.db.data = (∅ : UnorderedMap Bytes (RedisObject Score)).insert (str "l")
      { value := .list (longList n), lruClock := lruClock } := by rw [hs]; exact hdata
  have hexpires : s.db.expires.lookup (str "l") = none := by rw [hs]; exact listDb_expires n
  have hkeys : s.db.data.keys = [str "l"] := by rw [hdata]; rfl
  have hlive : ¬ s.db.Expired 0 (str "l") := by rintro ⟨d, hd, -⟩; rw [hexpires] at hd; cases hd
  have hobj := hdata ▸ AList.lookup_insert (a := str "l") (b := _) (∅ : UnorderedMap Bytes _)
  have hsize : s.db.size ≠ 0 := UnorderedMap.size_ne_zero hobj
  have hget := hfixed.getObject hlive hobj
  obtain ⟨s', hs'⟩ : ∃ s' : DbState Score, s' = (s.getObject (str "l")).2 := ⟨_, rfl⟩
  have hfixed' : s'.Fixed 0 := by rw [hs', hget]; exact hfixed
  have hobj' : ∃ obj, s'.db.data.lookup (str "l") = some obj := by
    rw [hs', hget]; exact ⟨_, AList.lookup_insert _⟩
  have hexpires' : s'.db.expires.lookup (str "l") = none := by rw [hs', hget]; exact hexpires
  obtain ⟨obj', hobj'⟩ := hobj'
  have hpttl : s'.pttl (str "l") = (-1, s') := by rw [hfixed'.pttl hobj', hexpires']
  -- the count is written in full, and the loop over the elements makes no turn
  have hsave : ∀ w : Writer, saveKey (str "l") w s
      = (w.put (typeList :: (Payload.stringBytes (str "l") ++ LittleEndian.bytes 8 n)), s') := by
    intro w
    have hcount : (asInt (longList n).size).toNat = 0 := by
      rw [LinkedList.size, (holds_longList n).length, List.length_replicate, hn]
    have hlen : (longList n).size = n := by
      rw [LinkedList.size, (holds_longList n).length, List.length_replicate]
    rw [saveKey, show s.getObject (str "l") = ((s.getObject (str "l")).1, s') by rw [hs'], hget]
    simp only [hpttl, saveObject, hcount]
    rw [if_neg (by decide)]
    simp [Writer.writeByte, Writer.writeString_eq, Writer.writeLength, hlen]
  -- the two opcodes of the database, and the one key
  have hdatabase : ∀ w, (saveDatabase 0 w s).1 = w.put
      ([Item.selectDb 0, .resizeDb s.db.size s.db.expiresSize].flatMap (Item.bytes (S := Score)) ++
        (typeList :: (Payload.stringBytes (str "l") ++ LittleEndian.bytes 8 n))) := by
    intro w
    simp only [saveDatabase, if_neg hsize, hfixed.keys, hkeys]
    rw [List.filter_cons_of_pos (by simpa using hlive), List.filter_nil]
    simp [saveKeys, hsave, Writer.writeByte, Writer.writeLength, Item.bytes]
  have hdatabases : ∀ w, (saveDatabases 0 [listDb n] w idleEnv).1 = (saveDatabase 0 w s).1 := by
    intro w
    rw [hs]
    rfl
  refine ⟨s.db.size, s.db.expiresSize,
    ((saveDatabases 0 [listDb n] (Writer.put {} magic) idleEnv).1.writeByte opcodeEof).checksum.toNat,
    ?_⟩
  simp only [saveToFile, Bool.not_true, Bool.false_eq_true, if_false, hdatabases, hdatabase,
    Writer.writeByte, Writer.put_put]
  simp [Writer.put]

/-- Loading a list whose elements are missing, at the end of the file. -/
theorem loadKey_listEnd {st : LoadState Score} (hcurrent : st.currentDb = 0) {db : Database Score}
    (hdatabases : st.databases = [db]) {key : Bytes} (hkey : key.length ≤ Platform.maxString) {n : ℕ}
    (hpos : 0 < n) (hlt : n < 2 ^ 64) {r : Reader} {bs : Bytes} (hbs : bs.length = 8)
    (hr : r.rest = Payload.stringBytes key ++ (LittleEndian.bytes 8 n ++ opcodeEof :: bs))
    (hf : r.failed = false) {st' : LoadState Score} {r' : Reader}
    (hload : loadKey typeList st r = .ok (st', r')) :
    r'.failed = true ∧ ∃ l x xs, st' = st.storeKey db key (some (.list l)) ∧
      LinkedList.Holds l (x :: xs) ∧ 255 ≤ x.length := by
  obtain ⟨r₁, h₁, htook₁⟩ := Reader.readString_spec hr hf hkey
  have hr₁ := htook₁.rest_eq hr
  obtain ⟨r₂, h₂, htook₂⟩ := Reader.readLength_spec hr₁ htook₁.ready' hlt
  -- the count is read as it was written, so the loader expects elements that are not there
  obtain ⟨m, rfl⟩ : ∃ m, n = m + 1 := ⟨n - 1, by omega⟩
  rw [loadKey, h₁] at hload
  replace hload : (if asInt st.databases.length ≤ st.currentDb then _ else _) = _ := hload
  have hinside : ¬ asInt [db].length ≤ 0 := by
    rw [List.length_singleton]
    decide
  rw [hcurrent, hdatabases, if_neg hinside, if_neg (by decide)] at hload
  have hvalue : loadValue (S := Score) (st.seeds 0) typeList r₁
      = (r₂.readMany readElement (m + 1) LinkedList.new >>= fun x => .ok (some (.list x.1), x.2)) := by
    simp only [loadValue, h₂]
    rfl
  -- the first element is read from the end of the file, and the stream fails there
  have hr₂ : r₂.rest = opcodeEof :: bs := htook₂.rest_eq hr₁
  have hmany : r₂.readMany readElement (m + 1) LinkedList.new
      = (r₂.readString >>= fun x => x.2.readMany readElement m (LinkedList.new.pushBack x.1)) := by
    simp only [Reader.readMany, readElement]
    cases r₂.readString <;> rfl
  replace hload : (r₂.readString >>= fun x => x.2.readMany readElement m (LinkedList.new.pushBack x.1) >>=
      fun y => Except.ok (st.storeKey db key (some (.list y.1)), y.2)) = Except.ok (st', r') := by
    rw [← hload]
    simp only [Int.toNat_zero, List.getElem?_cons_zero, hvalue, hmany, bind_assoc]
    rfl
  cases hfirst : r₂.readString with
  | error e =>
    rw [hfirst] at hload
    cases hload
  | ok p =>
    obtain ⟨hbig, hfailed⟩ := readString_end hr₂ hbs htook₂.ready' hfirst
    rw [hfirst] at hload
    cases hrest : p.2.readMany readElement m (LinkedList.new.pushBack p.1) with
    | error e =>
      replace hload : (p.2.readMany readElement m (LinkedList.new.pushBack p.1) >>= _) = _ := hload
      rw [hrest] at hload
      cases hload
    | ok q =>
      obtain ⟨hfailed', ys, hys⟩ := readMany_pushBack m (LinkedList.holds_new.pushBack p.1) hfailed
        (show _ = Except.ok (q.1, q.2) from hrest)
      replace hload : (p.2.readMany readElement m (LinkedList.new.pushBack p.1) >>= _) = _ := hload
      rw [hrest] at hload
      obtain ⟨rfl, rfl⟩ := Prod.mk.inj (Except.ok.inj hload)
      exact ⟨hfailed', q.1, p.1, ys, rfl, hys, hbig⟩

/-- A list whose length is no `int` comes back with another first element, or loading throws. The file announces as
many elements as the list has, and has none of them, so the end marker behind the length is taken for the length of
the first one. -/
theorem not_roundTrips_listDb {n : ℕ} (hn : (asInt n).toNat = 0) (hpos : 0 < n) (hlt : n < 2 ^ 64)
    (junk : ℕ → UInt8) (seeds : ℕ → ℕ → Height) :
    ¬ RoundTrips 0 [listDb n] [listDb n] [{}] idleEnv idleEnv junk seeds := by
  rintro ⟨-, loaded, env'', hload, -, hdata⟩
  obtain ⟨size, expiresSize, sum, hfile⟩ := saveToFile_listDb hn
  rw [hfile] at hload
  obtain ⟨header, hheader⟩ : ∃ header : List (Item Score),
    header = [Item.selectDb 0, .resizeDb size expiresSize] := ⟨_, rfl⟩
  obtain ⟨body, hbody⟩ : ∃ body, body = typeList :: (Payload.stringBytes (str "l") ++
    (LittleEndian.bytes 8 n ++ opcodeEof :: LittleEndian.bytes 8 sum)) := ⟨_, rfl⟩
  obtain ⟨file, hfile⟩ : ∃ file, file = magic ++ (header.flatMap Item.bytes ++ body) := ⟨_, rfl⟩
  replace hload : loadFromFile (some file) junk seeds [{}] idleEnv
      = .ok (true, loaded, env'') := by
    rw [← hload, hfile, hheader, hbody]
    simp only [List.cons_append, List.append_assoc]
  obtain ⟨r, hr⟩ : ∃ r : Reader, r = { rest := file, junk := junk } := ⟨_, rfl⟩
  have hrest : r.rest = magic ++ (header.flatMap Item.bytes ++ body) := by rw [hr]; exact hfile
  -- the magic is accepted
  obtain ⟨r₁, h₁, htook₁⟩ := Reader.readNew_update hrest (by rw [hr])
  have hrest₁ := htook₁.rest_eq hrest
  obtain ⟨fuel, hfuel⟩ : ∃ fuel, (r₁.update magic).rest.length = fuel + 4 := by
    refine ⟨(r₁.update magic).rest.length - 4, (Nat.sub_add_cancel ?_).symm⟩
    rw [hrest₁, hheader]
    simp only [List.flatMap_cons, List.length_append, List.length_cons, Item.bytes,
      LittleEndian.length_bytes]
    omega
  obtain ⟨db₀, env₀, hflush⟩ : ∃ (db₀ : Database Score) (env₀ : Env),
    flushAll [{}] idleEnv = ([db₀], env₀) := ⟨_, _, rfl⟩
  obtain ⟨st₀, hst₀⟩ : ∃ st₀ : LoadState Score, st₀ = { databases := [db₀], env := env₀, seeds := seeds } :=
    ⟨_, rfl⟩
  rw [hheader, List.flatMap_cons, List.flatMap_singleton, List.append_assoc] at hrest₁
  -- the two opcodes, and the key
  obtain ⟨r₂, h₂, htook₂⟩ := loadLoop_item
    (show (Item.selectDb 0).Fits st₀ from show 0 < 2 ^ 64 by norm_num) hrest₁ htook₁.ready' (fuel + 3)
  have hrest₂ := htook₂.rest_eq hrest₁
  obtain ⟨r₃, h₃, htook₃⟩ := loadLoop_item
    (show (Item.resizeDb size expiresSize).Fits (Item.apply st₀ (.selectDb 0)) from trivial)
    hrest₂ htook₂.ready' (fuel + 2)
  have hrest₃ := htook₃.rest_eq hrest₂
  rw [hbody] at hrest₃
  obtain ⟨r₄, h₄, htook₄⟩ := Reader.readByte_spec hrest₃ htook₃.ready'
  have hrest₄ : r₄.rest = Payload.stringBytes (str "l") ++
    (LittleEndian.bytes 8 n ++ opcodeEof :: LittleEndian.bytes 8 sum) := htook₄.rest_eq hrest₃
  obtain ⟨st, hst⟩ : ∃ st, st = Item.apply (Item.apply st₀ (.selectDb 0))
    (.resizeDb size expiresSize) := ⟨_, rfl⟩
  have hcurrent : st.currentDb = 0 := by rw [hst]; rfl
  have hdatabases : st.databases = [db₀] := by rw [hst, hst₀]; rfl
  have hopcode : loadOpcode typeList st r₄ = loadKey typeList st r₄ := by
    simp only [loadOpcode, if_neg (show typeList ≠ opcodeSelectDb by decide),
      if_neg (show typeList ≠ opcodeResizeDb by decide),
      if_neg (show typeList ≠ opcodeExpireTime by decide),
      if_neg (show typeList ≠ opcodeExpireTimeMs by decide)]
  -- the loop goes on, and the byte that it reads is the type of the key
  have heof : r₃.atEof = false := by simp [Reader.atEof, htook₃.ready', hrest₃]
  have hturn : loadLoop (fuel + 4) st₀ (r₁.update magic)
      = (loadKey typeList st r₄ >>= fun x => loadLoop (fuel + 1) x.1 x.2) := by
    rw [h₂, h₃, ← hst, loadLoop, heof, h₄]
    simp only [Bool.false_eq_true, if_false, if_neg (show typeList ≠ opcodeEof by decide), hopcode]
    cases loadKey typeList st r₄ <;> rfl
  unfold loadFromFile at hload
  simp only [← hr, show r.readNew 9 = (magic, r₁) from h₁, ne_eq, not_true_eq_false, if_false,
    hflush, hfuel, ← hst₀, hturn] at hload
  cases hkey : loadKey typeList st r₄ with
  | error e => rw [hkey] at hload; cases hload
  | ok p =>
    obtain ⟨st', r'⟩ := p
    -- the elements that are missing are read from the end of the file
    obtain ⟨hfailed, l, x, xs, hst', hl, hbig⟩ := loadKey_listEnd hcurrent hdatabases
      (show (str "l").length ≤ Platform.maxString by decide) hpos hlt (LittleEndian.length_bytes 8 sum) hrest₄
      htook₄.ready' hkey
    have heof' : r'.atEof = true := by simp [Reader.atEof, hfailed]
    have hend : (Except.ok (st', r') >>= fun x => loadLoop (S := Score) (fuel + 1) x.1 x.2) = .ok (st', r') := by
      show loadLoop (fuel + 1) st' r' = _
      rw [loadLoop, if_pos heof']
    rw [hkey, hend] at hload
    have hloaded : st'.databases = loaded := by
      have := Except.ok.inj hload
      exact congrArg (fun p => p.2.1) this
    -- what is loaded at the key has a long first element
    have hat : LoadsAt st 0 := ⟨hcurrent, by simp [hdatabases], by simp [hdatabases],
      by rw [hst, hst₀]; rfl⟩
    obtain ⟨db₁, -, hset, hdata₁⟩ := hat.storeKey db₀ (str "l") (.list l) st.expireMs false
    have hsame : { st with expireMs := st.expireMs, hasExpire := false } = st := by
      rw [← hat.hasExpire]
    rw [hsame, ← hst', hloaded, hdatabases] at hset
    have hwant := hdata 0 db₁ (listDb n) (by rw [hset]; rfl) rfl (str "l")
    rw [hdata₁, if_pos rfl] at hwant
    -- but the list that was saved has short elements
    have hlive : (listDb n).live 0 (str "l")
        = some (.list (List.replicate n (str "a")), none) := by
      have hexpired : ¬ (listDb n).Expired 0 (str "l") := by
        rintro ⟨d, hd, -⟩
        rw [listDb_expires] at hd
        cases hd
      rw [Database.live, if_neg hexpired, listDb, DbState.setObject, DbState.store_dataset,
        if_pos rfl, Value.content, (holds_longList n).toList]
    rw [hlive, Value.content, hl.toList] at hwant
    have hlist : x :: xs = List.replicate n (str "a") :=
      Content.list.inj (Prod.mk.inj (Option.some.inj hwant)).1
    have hx : x = str "a" := List.eq_of_mem_replicate (hlist ▸ List.mem_cons_self)
    rw [hx] at hbig
    exact absurd hbig (by decide)

/-- `2^31` elements: all are announced and none is written. -/
theorem rdb_list_truncated : ∃ db : Database Score, db.Reachable ∧ db.Fits ∧
    ∀ junk seeds, ¬ RoundTrips 0 [db] [db] [{}] idleEnv idleEnv junk seeds := by
  have hn : (asInt (2 ^ 31)).toNat = 0 := by decide
  refine ⟨listDb (2 ^ 31), ?_, ?_, not_roundTrips_listDb hn (by norm_num) (by norm_num)⟩
  · exact Database.Reachable.setObject (s := { idleEnv with db := ({} : Database Score) }) .new
      (str "l") (reachable_longList _)
  · intro key obj hobj
    obtain ⟨lruClock, hdata⟩ := DbState.store_data { idleEnv with db := ({} : Database Score) }
      (str "l") { value := .list (longList (2 ^ 31)) }
    rw [listDb, DbState.setObject, hdata, UnorderedMap.lookup_insert_eq_ite] at hobj
    split at hobj
    · next hkey =>
      rw [hkey, ← Option.some.inj hobj, Value.payload, LinkedList.size, (holds_longList _).length,
        List.length_replicate, hn]
      exact ⟨by decide, by decide, fun x hx => by cases hx⟩
    · cases hobj

end Sample

end RedisDb
