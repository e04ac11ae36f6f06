import RedisDb.Commands.ObjectSpecs

/-!
# Collections

The commands on lists, hashes, sets and sorted sets change an object in place, or make a new one and fill it. They
keep that every such object has an element in it (`Value.Filled`), where their arguments are strings and there is
something to fill a new object with.

Between the two halves of a command that adds, the invariant does not hold: the new object has been stored and has
nothing in it. There it holds of all keys but one (`Database.AllBut`), and each of the loops begins there and ends
where it holds again, since its first turn puts an element in. A loop that has nothing to put in needs the object to
have been there. So the loop lemmas have a choice for a hypothesis: the database is filled already, or there is an
argument for the loop to work on. For `ZADD` the argument alone is not enough, as its score may not convert.

A command that removes has the choice at its end (`post_deleteEmpty`): it asks the structure whether it is empty, and
deletes the key then. That the structure knows is its own invariant (`Value.Sound`): the length of a list, the count
of a table.
-/

namespace RedisDb

open RespSerializer

variable {S : Type}

/-! ### What is in a collection -/

/-- The structure a value is made of keeps its invariant. -/
def Value.Sound [Platform] : Value S → Prop
  | .list l => ∃ xs, l.Holds xs
  | .hash t => t.Inv Platform.hash
  | .set s => s.table.Inv Platform.hash
  | .zset z => z.dict.Inv Platform.hash
  | .none | .string _ => True

/-- There is an element in a list, a field in a hash, a member in a set or a sorted set. -/
def Value.HasElement [Platform] [Inhabited S] : Value S → Prop
  | .list l => l.toList ≠ []
  | .hash t => ∃ field value, t.get Platform.hash field = some value
  | .set s => ∃ member, s.contains member = true
  | .zset z => ∃ member score, z.getScore Platform.hash member = some score
  | .none | .string _ => True

/-- A value that is no empty collection. -/
structure Value.Filled [Platform] [Inhabited S] (v : Value S) : Prop where
  sound : v.Sound
  hasElement : v.HasElement

section Collections

variable [Platform] [Inhabited S]

open HashTable (Maps)

/-! ### One change -/

omit [Inhabited S] in
/-- The new structures keep their invariants. -/
theorem sound_newList : (.list .new : Value S).Sound := ⟨[], LinkedList.holds_new⟩

omit [Inhabited S] in
theorem sound_newHash : (.hash .empty : Value S).Sound := HashTable.inv_empty

omit [Inhabited S] in
theorem sound_newSet : (.set .new : Value S).Sound := HashTable.inv_empty

theorem sound_newZset (rng : ℕ → Height) : (.zset (.new rng) : Value S).Sound := HashTable.inv_empty

/-- A string is no collection. -/
theorem filled_string (str : Bytes) : (.string str : Value S).Filled := ⟨trivial, trivial⟩

/-- A list with elements. -/
theorem filled_list {l : LinkedList} {xs : List Bytes} (h : l.Holds xs) (hne : xs ≠ []) :
    (.list l : Value S).Filled :=
  ⟨⟨xs, h⟩, show l.toList ≠ [] from h.toList ▸ hne⟩

/-- A hash with a field. -/
theorem filled_hash {t : HashTable Bytes Bytes} {field value : Bytes} (h : t.Inv Platform.hash)
    (hmaps : Maps t.buckets field value) : (.hash t : Value S).Filled :=
  ⟨h, field, value, h.get_eq_some_iff.mpr hmaps⟩

/-- A set with a member. -/
theorem filled_set {s : HashSet} {member : Bytes} (h : s.table.Inv Platform.hash)
    (hmaps : Maps s.table.buckets member ()) : (.set s : Value S).Filled := by
  refine ⟨h, member, ?_⟩
  rw [HashSet.contains, h.contains_eq, h.get_eq_some_iff.mpr hmaps]
  rfl

/-- A sorted set with a member. -/
theorem filled_zset {z : SortedSet S} {member : Bytes} {score : S} (h : z.dict.Inv Platform.hash)
    (hmaps : Maps z.dict.buckets member score) : (.zset z : Value S).Filled :=
  ⟨h, member, score, h.get_eq_some_iff.mpr hmaps⟩

/-- What has been set is there. -/
theorem filled_hash_set {t : HashTable Bytes Bytes} (h : t.Inv Platform.hash) (field value : Bytes) :
    (.hash (t.set Platform.hash field value).1 : Value S).Filled := by
  obtain ⟨hinv, hmaps, -⟩ := h.set field value
  exact filled_hash hinv ((hmaps field value).mpr (by rw [if_pos rfl]))

/-- What has been added is there. -/
theorem filled_set_add {s : HashSet} (h : s.table.Inv Platform.hash) (member : Bytes) :
    (.set (s.add member).1 : Value S).Filled := by
  obtain ⟨hinv, hmaps, -⟩ := h.set member ()
  exact filled_set hinv ((hmaps member ()).mpr (by rw [if_pos rfl]))

/-- What has been added with a score is there, with the score that it had where that is the same one. -/
theorem filled_zset_add [LT S] [DecidableLT S] [BEq S] {z : SortedSet S}
    (h : z.dict.Inv Platform.hash) (member : Bytes) (score : S) :
    (.zset (z.add Platform.hash member score).1 : Value S).Filled := by
  obtain ⟨hinv, hmaps, -⟩ := h.set member score
  have hset : Maps (z.dict.set Platform.hash member score).1.buckets member score :=
    (hmaps member score).mpr (by rw [if_pos rfl])
  unfold SortedSet.add
  split
  · next old hold =>
    split
    · exact filled_zset h (h.get_eq_some_iff.mp hold)
    · exact filled_zset hinv hset
  · exact filled_zset hinv hset

/-- A table with a size has an entry. -/
theorem HashTable.Inv.exists_maps {V : Type} {t : HashTable Bytes V} (h : t.Inv Platform.hash)
    (hsize : t.isEmpty = false) : ∃ k v, Maps t.buckets k v := by
  have hlength : t.toList.length ≠ 0 := by
    rw [← h.size_eq_length]
    exact of_decide_eq_false hsize
  obtain ⟨⟨k, v⟩, hkv⟩ := List.exists_mem_of_length_pos (Nat.pos_of_ne_zero hlength)
  exact ⟨k, v, Inv.mem_toList_iff.mp hkv⟩

/-! ### Adding -/

omit [Inhabited S] in
/-- The object that a command adds to: one that is there, or a new one that is still to be filled. -/
theorem post_objectForAdd_all {P : Value S → Prop} {s : DbState S} (h : s.db.All P) (key : Bytes)
    (v : Value S) : (DbM.objectForAdd key v).Post s fun r t => ∃ obj, r = .ok obj ∧
      t.db.AllBut P key ∧ ((t.db.All P ∧ P obj.value ∧ (s.getObject key).1.isSome = true) ∨
        (obj.value = v ∧ (s.getObject key).1.isSome = false)) := by
  have hget := h.getObject key
  simp only [DbM.objectForAdd, Program.post_bind, DbM.post_getObjectForWrite]
  -- the object that is found, or the one that is stored and read back
  cases hread : (s.getObject key).1 with
  | some obj =>
    rw [Program.post_pure]
    exact ⟨obj, rfl, hget.allBut key, .inl ⟨hget, h.of_getObject hread, rfl⟩⟩
  | none =>
    simp only [Program.post_bind, DbM.post_setObject, DbM.post_getObjectForWrite,
      Program.post_ofOption]
    intro obj hobj
    obtain ⟨obj', lruClock, hobj', hvalue, hdata⟩ :=
      (s.getObject key).2.getObject_store key { value := v }
    obtain rfl : obj' = obj := Option.some.inj (hobj'.symm.trans hobj)
    refine ⟨obj', rfl, fun k old hne hk => ?_, .inr ⟨hvalue, rfl⟩⟩
    have hk : (((s.getObject key).2.db.data.insert key _).insert key obj').lookup k = some old :=
      hdata ▸ hk
    rw [AList.lookup_insert_ne hne, AList.lookup_insert_ne hne] at hk
    exact hget k old hk

/-- The loop of a push, which has something to push or nothing to fill. By induction on the
arguments. -/
theorem post_pushLoop_filled {key : Bytes} {left : Bool} {obj : RedisObject S} (args : List RespValue) :
    ∀ {list : LinkedList} {s : DbState S}, (∀ a ∈ args, a.IsString) → (∃ xs, list.Holds xs) →
    s.db.AllBut Value.Filled key → (s.db.All Value.Filled ∨ args ≠ []) →
    (pushLoop key left obj list args).Post s fun _ t => t.db.All Value.Filled := by
  induction args with
  | nil =>
    intro list s _ _ _ hfilled
    rw [pushLoop, Program.post_pure]
    exact hfilled.resolve_right fun hne => hne rfl
  | cons arg args ih =>
    intro list s hargs hlist h _
    obtain ⟨xs, hxs⟩ := hlist
    obtain ⟨value, hvalue⟩ := hargs arg List.mem_cons_self
    -- behind a turn there is an element in the list, whichever end it was pushed to
    obtain ⟨ys, hne, hys⟩ : ∃ ys ≠ [],
        (if left then list.pushFront value else list.pushBack value).Holds ys := by
      cases left with
      | true => exact ⟨value :: xs, by simp, hxs.pushFront value⟩
      | false => exact ⟨xs ++ [value], by simp, hxs.pushBack value⟩
    have hall := h.putValue obj ((filled_list hys hne))
    simp only [pushLoop, Program.post_bind, Program.post_ofExcept, hvalue, DbM.post_putObject]
    exact ih (fun a ha => hargs a (List.mem_cons_of_mem _ ha)) ⟨ys, hys⟩ (hall.allBut key) (.inl hall)

/-- What the commands that add share: the object is there, or it is new and something fills it. -/
theorem keepsAll_addTo {α : Type} {key : Bytes} {v : Value S} (hv : v.Sound)
    {f : RedisObject S → DbM S α}
    (hf : ∀ obj (s : DbState S), obj.value.Sound → s.db.AllBut Value.Filled key →
      (s.db.All Value.Filled ∨ obj.value = v) → (f obj).Post s fun _ t => t.db.All Value.Filled) :
    (DbM.objectForAdd key v >>= f).KeepsAll Value.Filled := by
  intro s hs
  rw [Program.post_bind]
  refine (post_objectForAdd_all hs key v).mono fun r t hr => ?_
  -- the object was there, and all are filled; or it is new, and all the others are
  obtain ⟨obj, rfl, hbut, ⟨hall, hfilled, -⟩ | ⟨hnew, -⟩⟩ := hr
  · exact hf obj t hfilled.sound hbut (.inl hall)
  · exact hf obj t (hnew ▸ hv) hbut (.inr hnew)

omit [Inhabited S] in
/-- The reply of a command, once its loop is done. -/
theorem post_replyAfter {α β : Type} {p : DbM S α} {f : α → β} {s : DbState S} {I : DbState S → Prop}
    (hp : p.Post s fun _ t => I t) : (p >>= fun a => pure (f a)).Post s fun _ t => I t := by
  rw [Program.post_bind]
  refine hp.mono fun r t ht => ?_
  cases r with
  | ok a => exact (Program.post_pure ..).mpr ht
  | error e => exact ht

omit [Platform] in
/-- The arguments behind the key are strings. -/
theorem isString_of_mem_drop_two {args : List RespValue} (hargs : ∀ a ∈ args.drop 1, a.IsString) :
    ∀ a ∈ args.drop 2, a.IsString := fun a ha =>
  hargs a (List.mem_of_mem_drop (i := 1) (by rwa [List.drop_drop]))

/-- **A push** leaves no list empty: it has an element. -/
theorem keepsAll_pushElements {left : Bool} {args : List RespValue}
    (hargs : ∀ a ∈ args.drop 1, a.IsString) (hlength : 3 ≤ args.length) :
    (pushElements args left : DbM S _).KeepsAll Value.Filled := by
  have helements : args.drop 2 ≠ [] := by
    rw [Ne, List.drop_eq_nil_iff]
    omega
  refine .bind (keeps_argString _ _) fun key =>
    keepsAll_addTo sound_newList fun obj s hsound hbut hcases => ?_
  split
  · next list hvalue =>
    rw [hvalue] at hsound
    exact post_replyAfter (post_pushLoop_filled _ (isString_of_mem_drop_two hargs) hsound hbut
      (.inr helements))
  -- an object of another type: it was there, and nothing is done to it
  · next hother =>
    exact (Program.post_pure ..).mpr (hcases.resolve_right fun hnew => hother _ hnew)

/-- The loop of `HSET`. By induction on the fields and their values. -/
theorem post_hsetLoop_filled {key : Bytes} {obj : RedisObject S} (args : List RespValue) :
    ∀ {hash : HashTable Bytes Bytes} {added : ℤ} {s : DbState S}, (∀ a ∈ args, a.IsString) →
    hash.Inv Platform.hash → s.db.AllBut Value.Filled key →
    (s.db.All Value.Filled ∨ 2 ≤ args.length) →
    (hsetLoop key obj hash added args).Post s fun _ t => t.db.All Value.Filled := by
  induction args using List.twoStepInduction with
  | nil =>
    intro hash added s _ _ _ hfilled
    exact (Program.post_pure ..).mpr (hfilled.resolve_right (by simp))
  | singleton arg =>
    intro hash added s _ _ _ hfilled
    exact (Program.post_pure ..).mpr (hfilled.resolve_right (by simp))
  | cons_cons field value rest ih _ =>
    intro hash added s hargs hinv h _
    obtain ⟨f, hf⟩ := hargs field (by simp)
    obtain ⟨v, hv⟩ := hargs value (by simp)
    -- the first pair that is set fills the hash
    have hall := h.putValue obj ((filled_hash_set hinv f v))
    simp only [hsetLoop, Program.post_bind, Program.post_ofExcept, hf, hv, DbM.post_putObject]
    exact ih (fun a ha => hargs a (by simp [ha])) (hinv.set f v).1 (hall.allBut key) (.inl hall)

/-- **`HSET`** leaves no hash empty: it has a field with a value. -/
theorem keepsAll_hsetCommand {args : List RespValue} (hargs : ∀ a ∈ args.drop 1, a.IsString)
    (hlength : 4 ≤ args.length) : (hsetCommand args : DbM S _).KeepsAll Value.Filled := by
  have hfields : 2 ≤ (args.drop 2).length := by
    rw [List.length_drop]
    omega
  refine .ite (.pure _) (.bind (keeps_argString _ _) fun key =>
    keepsAll_addTo sound_newHash fun obj s hsound hbut hcases => ?_)
  split
  · next hash hvalue =>
    rw [hvalue] at hsound
    exact post_replyAfter (post_hsetLoop_filled _ (isString_of_mem_drop_two hargs) hsound hbut
      (.inr hfields))
  · next hother =>
    exact (Program.post_pure ..).mpr (hcases.resolve_right fun hnew => hother _ hnew)

/-- The loop of `SADD` and of `SREM`: the set that it returns is the one at the key, once it has had a
turn. By induction on the arguments. -/
theorem post_memberLoop_sound {key : Bytes} {obj : RedisObject S}
    {method : HashSet → Bytes → HashSet × Bool} {Q : HashSet → Prop}
    (hmethod : ∀ set : HashSet, ∀ member, set.table.Inv Platform.hash →
      (method set member).1.table.Inv Platform.hash ∧ Q (method set member).1)
    (args : List RespValue) : ∀ {set : HashSet} {count : ℤ} {s : DbState S}, (∀ a ∈ args, a.IsString) →
    set.table.Inv Platform.hash → s.db.AllBut Value.Filled key →
    (memberLoop key obj method set count args).Post s fun r t => ∃ set' n, r = .ok (set', n) ∧
      set'.table.Inv Platform.hash ∧ t.db.AllBut Value.Filled key ∧
      ((args = [] ∧ set' = set ∧ t = s) ∨
        (Q set' ∧ t.db.data.lookup key = some { obj with value := .set set' })) := by
  induction args with
  | nil =>
    intro set count s _ hinv h
    exact (Program.post_pure ..).mpr ⟨set, count, rfl, hinv, h, .inl ⟨rfl, rfl, rfl⟩⟩
  | cons arg args ih =>
    intro set count s hargs hinv h
    obtain ⟨member, hmember⟩ := hargs arg List.mem_cons_self
    obtain ⟨hinv', hQ⟩ := hmethod set member hinv
    have hput := h.putObject_self { obj with value := .set (method set member).1 }
    simp only [memberLoop, Program.post_bind, Program.post_ofExcept, hmember, DbM.post_putObject]
    refine (ih (fun a ha => hargs a (List.mem_cons_of_mem _ ha)) hinv' hput).mono fun r t hr => ?_
    -- this was the last turn, and its set is at the key; or a later one has put another there
    obtain ⟨set', n, rfl, hset', ht, ⟨-, rfl, rfl⟩ | hlast⟩ := hr
    · exact ⟨_, n, rfl, hset', ht, .inr ⟨hQ, AList.lookup_insert _⟩⟩
    · exact ⟨set', n, rfl, hset', ht, .inr hlast⟩

/-- **`SADD`** leaves no set empty: it has a member. The loop adds the first member, and no further one makes the set
empty. -/
theorem keepsAll_saddCommand {args : List RespValue} (hargs : ∀ a ∈ args.drop 1, a.IsString)
    (hlength : 3 ≤ args.length) : (saddCommand args : DbM S _).KeepsAll Value.Filled := by
  have hmembers : args.drop 2 ≠ [] := by
    rw [Ne, List.drop_eq_nil_iff]
    omega
  refine .bind (keeps_argString _ _) fun key =>
    keepsAll_addTo sound_newSet fun obj s hsound hbut hcases => ?_
  split
  · next set hvalue =>
    rw [hvalue] at hsound
    have hadd (set : HashSet) (member : Bytes) (h : set.table.Inv Platform.hash) :
        (set.add member).1.table.Inv Platform.hash ∧ (.set (set.add member).1 : Value S).Filled :=
      ⟨(h.set member ()).1, filled_set_add h member⟩
    refine post_replyAfter ((post_memberLoop_sound
      (Q := fun set => (.set set : Value S).Filled) hadd _ (isString_of_mem_drop_two hargs) hsound
      hbut).mono fun r t hr => ?_)
    obtain ⟨set', n, -, -, ht, ⟨hnil, -⟩ | ⟨hfilled, hlast⟩⟩ := hr
    -- there is at least one member to add
    · exact absurd hnil hmembers
    · exact ht.all fun obj' hobj' => Option.some.inj (hlast.symm.trans hobj') ▸ hfilled
  · next hother =>
    exact (Program.post_pure ..).mpr (hcases.resolve_right fun hnew => hother _ hnew)

section SortedSets

variable [Double S] [LT S] [DecidableLT S] [BEq S]

/-- The loop of `ZADD`. By induction on the scores and their members. -/
theorem post_zaddLoop_filled {key : Bytes} {obj : RedisObject S} (args : List RespValue) :
    ∀ {zset : SortedSet S} {added : ℤ} {s : DbState S}, (∀ a ∈ args, a.IsString) →
    zset.dict.Inv Platform.hash → s.db.AllBut Value.Filled key →
    (s.db.All Value.Filled ∨ 2 ≤ args.length ∧ ∃ x : S, (args[0]?).bind (converted Double.stod) = some x) →
    (zaddLoop key obj zset added args).Post s fun _ t => t.db.All Value.Filled := by
  induction args using List.twoStepInduction with
  | nil =>
    intro zset added s _ _ _ hfilled
    exact (Program.post_pure ..).mpr (hfilled.resolve_right (by simp))
  | singleton arg =>
    intro zset added s _ _ _ hfilled
    exact (Program.post_pure ..).mpr (hfilled.resolve_right (by simp))
  | cons_cons score member rest ih _ =>
    intro zset added s hargs hinv h hfilled
    obtain ⟨m, hm⟩ := hargs member (by simp)
    rw [zaddLoop]
    -- a score that is none ends the command, behind a first one that is one
    cases hscore : (converted Double.stod score : Option S) with
    | none =>
      exact (Program.post_pure ..).mpr (hfilled.resolve_right (by simp [hscore]))
    | some x =>
      have hadd := filled_zset_add hinv m x
      have hall := h.putValue obj hadd
      simp only [Program.post_bind, Program.post_ofExcept, hm, DbM.post_putObject]
      exact ih (fun a ha => hargs a (by simp [ha])) hadd.sound (hall.allBut key) (.inl hall)

/-- **`ZADD`** leaves no sorted set empty, where there is an object at the key or the first score is
one. -/
theorem post_zaddCommand_filled {rng : ℕ → Height} {args : List RespValue}
    (hargs : ∀ a ∈ args.drop 1, a.IsString) (hlength : 4 ≤ args.length) {s : DbState S}
    (h : s.db.All Value.Filled)
    (hfill : args.length % 2 = 0 → ∀ key, (args.getD 1 .null).asString = .ok key →
      (s.getObject key).1.isSome = true ∨
        ∃ x : S, (args[2]?).bind (converted Double.stod) = some x) :
    (zaddCommand rng args).Post s fun _ t => t.db.All Value.Filled := by
  unfold zaddCommand
  split
  · exact (Program.post_pure ..).mpr h
  · next heven =>
    simp only [argString, arg, Program.post_bind, Program.post_ofOption]
    intro a ha
    rw [Program.post_ofExcept]
    cases hkey : a.asString with
    -- the handler stops before it touches the database
    | error e => exact h
    | ok key =>
      -- the key and the first score are where the condition looks for them
      have hkey' : (args.getD 1 .null).asString = .ok key := by
        rw [List.getD_eq_getElem?_getD, ha, Option.getD_some, hkey]
      have hscores : 2 ≤ (args.drop 2).length := by
        rw [List.length_drop]
        omega
      refine (post_objectForAdd_all h key (.zset (.new rng))).mono fun r t hr => ?_
      obtain ⟨obj, rfl, hbut, hcases⟩ := hr
      -- the object is there, or it is new and the first score goes into it
      obtain ⟨hsound, hfilled⟩ : obj.value.Sound ∧ (t.db.All Value.Filled ∨
          obj.value = .zset (.new rng) ∧ ∃ x : S, (args[2]?).bind (converted Double.stod) = some x) := by
        rcases hcases with ⟨hall, hfilled, -⟩ | ⟨hnew, habsent⟩
        · exact ⟨hfilled.sound, .inl hall⟩
        · refine ⟨hnew ▸ sound_newZset rng, .inr ⟨hnew, ?_⟩⟩
          -- a new object is made only where there was none, so the first score is one
          refine (hfill (by omega) key hkey').resolve_left fun hpresent => ?_
          cases habsent.symm.trans hpresent
      simp only
      split
      · next zset hvalue =>
        rw [hvalue] at hsound
        rw [Program.post_bind]
        refine (post_zaddLoop_filled _ (isString_of_mem_drop_two hargs) hsound hbut ?_).mono
          fun r t ht => ?_
        · refine hfilled.imp_right fun hscore => ⟨hscores, ?_⟩
          rw [List.getElem?_drop]
          exact hscore.2
        · cases r with
          | ok added => cases added <;> exact (Program.post_pure ..).mpr ht
          | error e => exact ht
      · next hother =>
        -- another type: the key was there, and is as it was
        exact (Program.post_pure ..).mpr (hfilled.resolve_right fun hnew => hother _ hnew.1)

end SortedSets

/-! ### Removing -/

/-- What a command does that has taken something out of an object: it deletes the key where nothing is
left in it. -/
theorem post_deleteEmpty {α : Type} {key : Bytes} {a : α} {isEmpty : Bool} {s : DbState S}
    (h : s.db.AllBut Value.Filled key) (hrest : isEmpty = false → s.db.All Value.Filled) :
    (do
      if isEmpty then
        let _ ← DbM.del key
      return a : DbM S α).Post s fun _ t => t.db.All Value.Filled := by
  cases isEmpty with
  | true =>
    simp only [if_true, Program.post_bind, DbM.post_del, Program.post_pure]
    exact h.del
  | false => exact (Program.post_pure ..).mpr (hrest rfl)

/-- What a pop does with what is left of the list. -/
theorem post_storePopped_filled {α : Type} {key : Bytes} {obj : RedisObject S} {list : LinkedList}
    {a : α} {s : DbState S} (h : s.db.AllBut Value.Filled key) (hlist : ∃ xs, list.Holds xs) :
    (do
      DbM.putObject key { obj with value := .list list }
      if list.isEmpty then
        let _ ← DbM.del key
      return a : DbM S α).Post s fun _ t => t.db.All Value.Filled := by
  obtain ⟨xs, hxs⟩ := hlist
  simp only [Program.post_bind, DbM.post_putObject]
  refine post_deleteEmpty (h.insert_self rfl) fun hempty => ?_
  refine h.insert (filled_list hxs fun hnil => ?_) rfl
  exact absurd (hxs.isEmpty_iff.mpr hnil) (by simp [hempty])

/-- **A pop** leaves no list empty: it deletes the key of one. -/
theorem keepsAll_popGeneric (left : Bool) (args : List RespValue) :
    (popGeneric args left : DbM S _).KeepsAll Value.Filled := by
  refine .bind (keeps_argString _ _) fun key s hs => ?_
  rw [Program.post_bind, DbM.post_getObjectForWrite]
  have hget := hs.getObject key
  cases hobj : (s.getObject key).1 with
  | none => exact (Program.post_pure ..).mpr hget
  | some obj =>
    have hfilled := hs.of_getObject hobj
    simp only
    split
    · next list hvalue =>
      rw [hvalue] at hfilled
      obtain ⟨xs, hxs⟩ := hfilled.sound
      -- nothing to pop, or one element less
      rcases hpop : list.pop left with ⟨_ | val, rest⟩
      · exact (Program.post_pure ..).mpr hget
      · have hrest := (hxs.popped left).2
        rw [hpop] at hrest
        exact post_storePopped_filled (hget.allBut key) ⟨_, hrest⟩
    · exact (Program.post_pure ..).mpr hget

/-- The loop of a blocking pop over its keys. By induction on them. -/
theorem keepsAll_popFirst (left : Bool) (keys : List Bytes) :
    (popFirst left keys : DbM S _).KeepsAll Value.Filled := by
  induction keys with
  | nil => exact .pure _
  | cons key keys ih =>
    intro s hs
    rw [popFirst, Program.post_bind, DbM.post_getObjectForWrite]
    have hget := hs.getObject key
    cases hobj : (s.getObject key).1 with
    | none => exact ih _ hget
    | some obj =>
      have hfilled := hs.of_getObject hobj
      simp only
      split
      · next list hvalue =>
        rw [hvalue] at hfilled
        obtain ⟨xs, hxs⟩ := hfilled.sound
        split
        · exact ih _ hget
        · rcases hpop : list.pop left with ⟨_ | val, rest⟩
          · exact ih _ hget
          · -- what is left of the list is stored, or the key is deleted where nothing is
            have hrest := (hxs.popped left).2
            rw [hpop] at hrest
            exact post_storePopped_filled (hget.allBut key) ⟨_, hrest⟩
      · exact ih _ hget

/-- A blocking pop does what a pop does, or asks for its client to wait. -/
theorem keepsAll_bpopGeneric (left : Bool) (args : List RespValue) :
    (bpopGeneric args left : DbM S _).KeepsAll Value.Filled := by
  unfold bpopGeneric
  split
  · exact .undefined
  · split
    · exact .pure _
    · split
      · exact .pure _
      · split
        · exact .raise _
        · refine .bind (keepsAll_popFirst left _) fun reply => ?_
          cases reply <;> exact .pure _

/-- **`SREM`** leaves no set empty: it deletes the key of one. The loop may leave none; the set is looked at once,
behind it. -/
theorem keepsAll_sremCommand {args : List RespValue} (hargs : ∀ a ∈ args.drop 1, a.IsString) :
    (sremCommand args : DbM S _).KeepsAll Value.Filled := by
  refine .bind (keeps_argString _ _) fun key s hs => ?_
  rw [Program.post_bind, DbM.post_getObjectForWrite]
  have hget := hs.getObject key
  cases hobj : (s.getObject key).1 with
  | none => exact (Program.post_pure ..).mpr hget
  | some obj =>
    have hfilled := hs.of_getObject hobj
    simp only
    split
    · next set hvalue =>
      rw [hvalue] at hfilled
      have hremove (set : HashSet) (member : Bytes) (h : set.table.Inv Platform.hash) :
          (set.remove member).1.table.Inv Platform.hash ∧ True := ⟨(h.del member).1, trivial⟩
      rw [Program.post_bind]
      refine (post_memberLoop_sound (Q := fun _ => True) hremove _ (isString_of_mem_drop_two hargs)
        hfilled.sound (hget.allBut key)).mono fun r t hr => ?_
      obtain ⟨set', n, rfl, hinv, ht, hlast⟩ := hr
      refine post_deleteEmpty ht fun hempty => ?_
      -- no member was named, or the set that is at the key has still got one
      rcases hlast with ⟨-, -, rfl⟩ | ⟨-, hlast⟩
      · exact hget
      · obtain ⟨member, ⟨⟩, hmaps⟩ := hinv.exists_maps hempty
        exact ht.all fun obj' hobj' => Option.some.inj (hlast.symm.trans hobj') ▸ filled_set hinv hmaps
    · exact (Program.post_pure ..).mpr hget

section SortedSets

variable [LT S] [DecidableLT S] [BEq S]

/-- Removing a member leaves the dictionary sound. -/
theorem sound_zset_remove {z : SortedSet S} (h : z.dict.Inv Platform.hash) (member : Bytes) :
    (z.remove Platform.hash member).1.dict.Inv Platform.hash := by
  unfold SortedSet.remove
  split
  · exact h
  · exact (h.del member).1

/-- The loop of `ZREM`: the set that it returns is the one at the key, once it has had a turn. By
induction on the arguments. -/
theorem post_zremLoop_sound {key : Bytes} {obj : RedisObject S} (args : List RespValue) :
    ∀ {zset : SortedSet S} {removed : ℤ} {s : DbState S}, (∀ a ∈ args, a.IsString) →
    zset.dict.Inv Platform.hash → s.db.AllBut Value.Filled key →
    (zremLoop key obj zset removed args).Post s fun r t => ∃ zset' n, r = .ok (zset', n) ∧
      zset'.dict.Inv Platform.hash ∧ t.db.AllBut Value.Filled key ∧
      ((args = [] ∧ zset' = zset ∧ t = s) ∨
        t.db.data.lookup key = some { obj with value := .zset zset' }) := by
  induction args with
  | nil =>
    intro zset removed s _ hinv h
    exact (Program.post_pure ..).mpr ⟨zset, removed, rfl, hinv, h, .inl ⟨rfl, rfl, rfl⟩⟩
  | cons arg args ih =>
    intro zset removed s hargs hinv h
    obtain ⟨member, hmember⟩ := hargs arg List.mem_cons_self
    -- the set is put back after each member
    have hput := h.putObject_self { obj with value := .zset (zset.remove Platform.hash member).1 }
    simp only [zremLoop, Program.post_bind, Program.post_ofExcept, hmember, DbM.post_putObject]
    refine (ih (fun a ha => hargs a (List.mem_cons_of_mem _ ha)) (sound_zset_remove hinv member)
      hput).mono fun r t hr => ?_
    obtain ⟨zset', n, rfl, hzset', ht, ⟨-, rfl, rfl⟩ | hlast⟩ := hr
    · exact ⟨_, n, rfl, hzset', ht, .inr (AList.lookup_insert _)⟩
    · exact ⟨zset', n, rfl, hzset', ht, .inr hlast⟩

/-- **`ZREM`** leaves no sorted set empty: it deletes the key of one. -/
theorem keepsAll_zremCommand {args : List RespValue} (hargs : ∀ a ∈ args.drop 1, a.IsString) :
    (zremCommand args : DbM S _).KeepsAll Value.Filled := by
  refine .bind (keeps_argString _ _) fun key s hs => ?_
  rw [Program.post_bind, DbM.post_getObjectForWrite]
  have hget := hs.getObject key
  cases hobj : (s.getObject key).1 with
  | none => exact (Program.post_pure ..).mpr hget
  | some obj =>
    have hfilled := hs.of_getObject hobj
    simp only
    split
    · next zset hvalue =>
      rw [hvalue] at hfilled
      rw [Program.post_bind]
      refine (post_zremLoop_sound _ (isString_of_mem_drop_two hargs) hfilled.sound
        (hget.allBut key)).mono fun r t hr => ?_
      obtain ⟨zset', n, rfl, hinv, ht, hlast⟩ := hr
      -- the key is deleted if the set is empty, and otherwise has the set last put back
      refine post_deleteEmpty ht fun hempty => ?_
      rcases hlast with ⟨-, -, rfl⟩ | hlast
      · exact hget
      · obtain ⟨member, score, hmaps⟩ := hinv.exists_maps hempty
        exact ht.all fun obj' hobj' =>
          Option.some.inj (hlast.symm.trans hobj') ▸ filled_zset hinv hmaps
    · exact (Program.post_pure ..).mpr hget

end SortedSets

end Collections

end RedisDb
