import RedisDb.Commands.Counters
import RedisDb.Commands.SetsAndMaps
import RedisDb.Commands.ZsetCommands
import RedisDb.Server.Lists
import RedisDb.Storage.RdbFormat

/-!
# The commands of a rewritten log

A rewritten log has one command for each key that makes its value. Here is what these commands do to a database in
which the key is not there yet: the key comes to have the content that the command was written from, and no deadline,
and nothing happens to the other keys.

Each handler asks for its key first and, since nothing is there, makes an empty value (`ends_addNew`); then its loop
adds one element after another. The invariant of the loop is the meaning of the structure that it builds up: a hash
stands for the map `assigned` so far, a set for the members added so far, a sorted set for the map of its scores, and
a list for its elements in order. A map is written in whatever order the buckets are walked. That the order does not
matter, since no key of a map is written twice, is `assigned_eq`.

A score is read back from its text, so for sorted sets this must give the score again; and a list may take several
pushes, so `ends_pushRight` is about a key that has a list or is not there.
-/

namespace RedisDb

open RespSerializer

variable {S : Type}

/-! ### Maps, one pair after another -/

/-- A map with some of its keys set, from left to right. -/
def assigned {K V : Type} [DecidableEq K] (old : K → Option V) (pairs : List (K × V)) : K → Option V :=
  pairs.foldl (fun m pair => Function.update m pair.1 (some pair.2)) old

section Assigned

variable {K V : Type} [DecidableEq K]

/-- By induction on the pairs. -/
theorem assigned_of_notMem (pairs : List (K × V)) : ∀ {old : K → Option V} {k : K}, k ∉ pairs.map Prod.fst →
    assigned old pairs k = old k := by
  induction pairs with
  | nil => exact fun _ => rfl
  | cons pair pairs ih =>
    intro old k hk
    rw [List.map_cons, List.mem_cons, not_or] at hk
    calc assigned (Function.update old pair.1 (some pair.2)) pairs k
        = Function.update old pair.1 (some pair.2) k := ih hk.2
      _ = old k := Function.update_of_ne hk.1 _ _

/-- By induction on the pairs: what is assigned first is not assigned again. -/
theorem assigned_of_mem (pairs : List (K × V)) : ∀ {old : K → Option V} {k : K} {v : V}, (pairs.map Prod.fst).Nodup →
    (k, v) ∈ pairs → assigned old pairs k = some v := by
  induction pairs with
  | nil => exact fun _ h => absurd h List.not_mem_nil
  | cons pair pairs ih =>
    intro old k v hnodup hmem
    rw [List.map_cons, List.nodup_cons] at hnodup
    rcases List.mem_cons.mp hmem with rfl | hmem
    · -- the later pairs are of other keys
      calc assigned (Function.update old k (some v)) pairs k
          = Function.update old k (some v) k := assigned_of_notMem pairs hnodup.1
        _ = some v := Function.update_self ..
    · exact ih hnodup.2 hmem

/-- The pairs of a map, in any order, make the map. -/
theorem assigned_eq {pairs : List (K × V)} {m : K → Option V} (hnodup : (pairs.map Prod.fst).Nodup)
    (hmem : ∀ k v, (k, v) ∈ pairs ↔ m k = some v) : assigned (fun _ => none) pairs = m := by
  funext k
  cases hk : m k with
  | some v => exact assigned_of_mem pairs hnodup ((hmem k v).mpr hk)
  | none =>
    refine assigned_of_notMem pairs fun hin => ?_
    obtain ⟨⟨_, v⟩, hpair, rfl⟩ := List.mem_map.mp hin
    cases hk.symm.trans ((hmem _ v).mp hpair)

end Assigned

/-! ### The end of a pointer -/

namespace DbState.Points

variable {now : ℤ} {key : Bytes} {obj : RedisObject S} {s t : DbState S}

/-- There is no deadline, unless there was one before. -/
theorem fresh (h : Points now key obj s t) (hfresh : s.db.data.lookup key = none ∨ s.db.expires.lookup key = none) :
    t.db.expires.lookup key = none := by
  rw [h.deadline]
  rcases hfresh with habsent | hforever
  · rw [Database.valueAt_of_absent habsent]
    rfl
  · rw [hforever, ite_self]

variable [Platform] [Inhabited S]

/-- The data are those before, with what is at the end of the pointer. -/
theorem dataset (h : Points now key obj s t)
    (hfresh : s.db.data.lookup key = none ∨ s.db.expires.lookup key = none) :
    t.db.dataset = Function.update s.db.dataset key (some (obj.value.content, none)) := by
  funext k
  by_cases hk : k = key
  · rw [hk, Function.update_self, Database.dataset, h.here, h.fresh hfresh, Option.map_some]
  · obtain ⟨hdata, hexpires⟩ := h.others k hk
    rw [Function.update_of_ne hk, Database.dataset, Database.dataset, hdata, hexpires]

end DbState.Points

/-! ### The commands, one by one -/

section Commands

open DbState

variable [Platform] {key : Bytes} {s t : DbState S}

/-- **A command that adds to a key that is not there** has a pointer to a new value, and works on that. -/
theorem ends_addNew [Inhabited S] {α : Type} {v : Value S} {content : Content S} {f : RedisObject S → DbM S α}
    (habsent : s.db.data.lookup key = none)
    (hf : ∀ obj t, obj.value = v → Points (s.clock 0) key obj s t → (f obj).Ends t fun _ u =>
      ∃ new, new.value.content = content ∧ Points (s.clock 0) key new s u) :
    (DbM.objectForAdd key v >>= f).Ends s fun _ u =>
      u.db.dataset = Function.update s.db.dataset key (some (content, none)) := by
  refine (DbM.ends_objectForAdd key v s).bind fun obj t h => ?_
  obtain ⟨hpoints, ⟨hshown, -⟩ | ⟨-, hnew⟩⟩ := h
  · -- an absent key shows nothing that could be added to
    cases (Database.valueAt_of_absent habsent).symm.trans hshown
  · refine (hf obj t hnew hpoints).mono fun _ u hu => ?_
    obtain ⟨new, rfl, hnew⟩ := hu
    exact hnew.dataset (.inl habsent)

variable {args : List RespValue}

/-- **`SET`**, without options. -/
theorem ends_setNew [Inhabited S] {value : Bytes} (hkey : ArgString args 1 key) (hvalue : ArgString args 2 value)
    (hend : args.drop 3 = []) : (setCommand args : DbM S (Bytes × Bool)).Ends s fun _ u =>
      u.db.dataset = Function.update s.db.dataset key (some (.string value, none)) := by
  refine Program.ends_bind_of_run (argString_run hkey s) (Program.ends_bind_of_run (argString_run hvalue s) ?_)
  rw [hend]
  refine ⟨_, s.set key value, rfl, ?_⟩
  funext k
  rw [DbState.set, DbState.store_dataset, Function.update_apply]
  rfl

/-- **`HSET`**: the pairs of a map make the map. -/
theorem ends_hsetNew [Inhabited S] {pairs : List (Bytes × Bytes)} {m : Bytes → Option Bytes}
    (habsent : s.db.data.lookup key = none) (hkey : ArgString args 1 key) (heven : args.length % 2 = 0)
    (hwords : (args.drop 2).mapM RespValue.asString = .ok (pairs.flatMap fun p => [p.1, p.2]))
    (hmeans : (Payload.hash pairs : Payload S).Means (.hash m)) : (hsetCommand args : DbM S Bytes).Ends s fun _ u =>
      u.db.dataset = Function.update s.db.dataset key (some (.hash m, none)) := by
  unfold hsetCommand
  rw [if_neg (not_not.mpr heven)]
  refine Program.ends_bind_of_run (argString_run hkey s) (ends_addNew habsent fun obj t hnew hpoints => ?_)
  rw [hnew]
  have hstart : Points (s.clock 0) key { obj with value := .hash .empty } s t := by
    rw [← hnew]
    exact hpoints
  -- the loop starts from the empty hash, which stands for the map without fields
  refine (ends_hsetLoop (a := 0) obj pairs hwords (HashTable.represents_run []) hstart).bind fun _ u hu => Program.ends_pure ?_
  obtain ⟨hash, -, hmap, hu⟩ := hu
  refine ⟨{ obj with value := .hash hash }, congrArg Content.hash ?_, hu⟩
  calc hash.get Platform.hash = assigned (fun _ => none) pairs := funext hmap.get_eq
    _ = m := assigned_eq hmeans.1 hmeans.2

/-- **`SADD`**: the members of a set make the set. -/
theorem ends_saddNew [Inhabited S] {members : List Bytes} {m : Bytes → Bool} (habsent : s.db.data.lookup key = none)
    (hkey : ArgString args 1 key) (hwords : (args.drop 2).mapM RespValue.asString = .ok members)
    (hmeans : (Payload.set members : Payload S).Means (.set m)) : (saddCommand args : DbM S Bytes).Ends s fun _ u =>
      u.db.dataset = Function.update s.db.dataset key (some (.set m, none)) := by
  refine Program.ends_bind_of_run (argString_run hkey s) (ends_addNew habsent fun obj t hnew hpoints => ?_)
  rw [hnew]
  have hstart : Points (s.clock 0) key { obj with value := .set .new } s t := by
    rw [← hnew]
    exact hpoints
  refine (ends_memberLoop (f := fun old m => insert m old) (d := fun old => old.card) (c := 0) ?_ obj _ hwords
    HashSet.Holds.new hstart).bind fun r u hu => Program.ends_pure ?_
  · -- the loop counts the members that were not there before
    intro set old member hset
    obtain ⟨hadded, hchanged⟩ := hset.add member
    refine ⟨hadded, ?_⟩
    rw [Finset.card_insert_eq_ite]
    split
    · next hm => rw [if_neg fun h => hchanged.mp h hm, add_zero]
    · next hm => rw [if_pos (hchanged.mpr hm), Nat.cast_succ]
  · obtain ⟨hr, -, hu⟩ := hu
    rw [foldl_insert_eq_union, Finset.empty_union] at hr
    refine ⟨{ obj with value := .set r.1 }, congrArg Content.set (funext fun member => ?_), hu⟩
    rw [hr.contains, Bool.eq_iff_iff, decide_eq_true_iff, List.mem_toFinset]
    exact hmeans.2 member

section Zset

variable [Double S] [Inhabited S] [LinearOrder S]

/-- The arguments of `ZADD` for these members and their scores. -/
def scoreWords (pairs : List (Bytes × S)) : List Bytes := pairs.flatMap fun pair => [Double.toText pair.2, pair.1]

/-- **The loop of `ZADD`**, of scores that can be read back. By induction on the pairs. -/
theorem ends_zaddLoop {now : ℤ} (obj : RedisObject S) (pairs : List (Bytes × S)) : ∀ {z : SortedSet S}
    {m : Bytes → Option S} {row : List (SkipList.Tower S)} {elements : Finset (S × Bytes)} {added : ℤ} {t : DbState S},
    (∀ pair ∈ pairs, Double.stod (Double.toText pair.2) = .ok pair.2) →
    SortedSet.Represents Platform.hash z m row elements → Points now key { obj with value := .zset z } s t →
    (zaddLoop key obj z added ((scoreWords pairs).map .bulkString)).Ends t fun r u => r.isSome = true ∧
      ∃ z' row' elements', SortedSet.Represents Platform.hash z' (assigned m pairs) row' elements' ∧
        Points now key { obj with value := .zset z' } s u := by
  induction pairs with
  | nil => exact fun _ hz hpoints => Program.ends_pure ⟨rfl, _, _, _, hz, hpoints⟩
  | cons pair pairs ih =>
    intro z m row elements added t hexact hz hpoints
    -- the score is converted back, then the member after it is read
    have hscore : (converted Double.stod (.bulkString (Double.toText pair.2)) : Option S) = some pair.2 := by
      have hread := hexact pair List.mem_cons_self
      simp only [converted, RespValue.asString, hread]
    obtain ⟨row', elements', hadded⟩ := (hz.add pair.1 pair.2).1
    show (zaddLoop key obj z added (.bulkString (Double.toText pair.2) :: .bulkString pair.1 ::
      (scoreWords pairs).map .bulkString)).Ends t _
    rw [zaddLoop, hscore]
    refine Program.ends_bind_of_run rfl (Program.ends_bind_of_run rfl ?_)
    exact ih (fun p hp => hexact p (List.mem_cons_of_mem _ hp)) hadded (hpoints.putObject _)

/-- **`ZADD`**: the members of a sorted set with their scores make the sorted set. -/
theorem ends_zaddNew {rng : ℕ → Height} {pairs : List (Bytes × S)} {m : Bytes → Option S}
    (habsent : s.db.data.lookup key = none) (hkey : ArgString args 1 key) (heven : args.length % 2 = 0)
    (hwords : args.drop 2 = (scoreWords pairs).map .bulkString)
    (hexact : ∀ pair ∈ pairs, Double.stod (Double.toText pair.2) = .ok pair.2)
    (hmeans : (Payload.zset pairs).Means (.zset m)) : (zaddCommand rng args : DbM S Bytes).Ends s fun _ u =>
      u.db.dataset = Function.update s.db.dataset key (some (.zset m, none)) := by
  unfold zaddCommand
  rw [if_neg (not_not.mpr heven)]
  refine Program.ends_bind_of_run (argString_run hkey s) (ends_addNew habsent fun obj t hnew hpoints => ?_)
  rw [hnew, hwords]
  have hstart : Points (s.clock 0) key { obj with value := .zset (.new rng) } s t := by
    rw [← hnew]
    exact hpoints
  refine (ends_zaddLoop obj pairs hexact (SortedSet.represents_new rng) hstart).bind fun r u hu => ?_
  obtain ⟨hsome, z, row, elements, hz, hu⟩ := hu
  -- a score that cannot be read would end the loop, but each can
  cases r with
  | none => cases hsome
  | some added =>
    refine Program.ends_pure ⟨{ obj with value := .zset z }, congrArg Content.zset ?_, hu⟩
    calc z.getScore Platform.hash = assigned (fun _ => none) pairs := funext hz.dict.get_eq
      _ = m := assigned_eq hmeans.1 hmeans.2

end Zset

/-- **A push from the right**, on a key that has a list without a deadline or is not there. Where no values are pushed
there is a list afterwards all the same. -/
theorem ends_pushRight [Inhabited S] {values xs : List Bytes} (hlist : s.db.HasList (s.clock 0) key xs)
    (hfresh : s.db.data.lookup key = none ∨ s.db.expires.lookup key = none) (hkey : ArgString args 1 key)
    (hwords : (args.drop 2).mapM RespValue.asString = .ok values) :
    (pushElements args false : DbM S _).Ends s fun r u => (r.2 = none ∨ r.2 = some key) ∧
      u.db.dataset = Function.update s.db.dataset key (some (.list (xs ++ values), none)) ∧
      u.db.expires.lookup key = none ∧ ∀ now, u.db.HasList now key (xs ++ values) := by
  refine Program.ends_bind_of_run (argString_run hkey s) ((DbM.ends_objectForAdd key _ s).bind fun obj t h => ?_)
  obtain ⟨hpoints, hcases⟩ := h
  -- the pointer is to the list that was shown, or to a new one
  obtain ⟨list, hvalue, hholds⟩ : ∃ list, obj.value = .list list ∧ list.Holds xs := by
    rcases hlist with ⟨hnone, rfl⟩ | ⟨list, hshown, hholds⟩
    · rcases hcases with ⟨hsome, -⟩ | ⟨-, hnew⟩
      · cases hnone.symm.trans hsome
      · exact ⟨.new, hnew, LinkedList.holds_new⟩
    · rcases hcases with ⟨hsome, -⟩ | ⟨hnone, -⟩
      · exact ⟨list, Option.some.inj (hsome.symm.trans hshown), hholds⟩
      · cases hnone.symm.trans hshown
  have hstart : Points (s.clock 0) key { obj with value := .list list } s t := by
    rw [← hvalue]
    exact hpoints
  simp only [hvalue]
  refine (ends_pushLoop false obj _ hwords hholds hstart).bind fun list' u hu => Program.ends_pure ?_
  obtain ⟨hlist', hu⟩ := hu
  have hcontent : (Value.list list' : Value S).content = .list (xs ++ values) := congrArg Content.list hlist'.toList
  have hforever := hu.fresh hfresh
  refine ⟨?_, ?_, hforever, fun now => .inr ⟨list', ?_, hlist'⟩⟩
  · dsimp only
    split
    · exact .inr rfl
    · exact .inl rfl
  · rw [hu.dataset hfresh]
    exact congrArg (fun content => Function.update s.db.dataset key (some (content, none))) hcontent
  · -- without a deadline the list is shown at any clock reading
    refine Database.valueAt_of_live hu.here ?_
    rintro ⟨_, hd, -⟩
    cases hforever.symm.trans hd

/-- **`PEXPIREAT`**: a key that is there has the deadline. -/
theorem ends_pexpireat [Inhabited S] {content : Content S} {deadline : Option ℤ} {n : ℤ} (hkey : ArgString args 1 key)
    (hn : ArgNumber args 2 n) (hthere : s.db.dataset key = some (content, deadline)) :
    (pexpireatCommand args : DbM S Bytes).Ends s fun _ u =>
      u.db.dataset = Function.update s.db.dataset key (some (content, some n)) := by
  refine Program.ends_bind_of_run (argConverted_run hn s) (Program.ends_bind_of_run (argString_run hkey s) ?_)
  have hpresent : (s.db.data.lookup key).isNone = false := by
    cases hobj : s.db.data.lookup key with
    | some obj => rfl
    | none =>
      rw [Database.dataset, hobj] at hthere
      cases hthere
  -- a key that is there is given the deadline, whatever the clock says
  have hset : (DbM.setExpiryAt key n).run s = some (.ok true, s.setDeadline key n) := by
    show some (Except.ok (s.setExpiryAt key n).1, (s.setExpiryAt key n).2) = _
    rw [DbState.setExpiryAt, if_neg (by rw [hpresent]; decide)]
  refine Program.ends_bind_of_run hset (Program.ends_pure ?_)
  funext k
  rw [DbState.setDeadline_dataset, Function.update_apply]
  split
  · next hk => rw [hk, hthere, Option.map_some]
  · rfl

end Commands

end RedisDb
