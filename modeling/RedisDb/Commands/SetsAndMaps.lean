import RedisDb.Commands.OneKey

/-!
# Set and hash commands implement sets and maps

What the commands of `set_commands.cpp` and `hash_commands.cpp` do to the set or the map under their key, and what they
reply. The mathematics is that of finite sets and of maps: a loop that adds is a union and one that removes a
difference, and what the loops count is by how much the set has grown or shrunk. That the tables behave as sets and
maps, in whatever mix of live and deleted buckets, is `HashTable.Inv`.

`CollectionCommand.Meets` says what a command is for, with a parameter for how a reply shows a number. The loops count
with an `int`, so the commands meet it with `asInt` in all cases (`meets_asInt`), by one lemma for each loop: by
induction on the arguments, the counter is the `int` of a natural number, and this number is by how much a measure of
the set has grown (`ends_memberLoop`), or how many of the fields were new (`ends_hsetLoop`). Then `sets_and_maps_iff`
is arithmetic: an `int` shows a number as it is if and only if the number is less than `2 ^ 31`.
-/

namespace RedisDb

open RespSerializer

variable {S : Type}

/-! ### Finite sets and maps -/

/-- Adding one member after another is a union. By induction on the members. -/
theorem foldl_insert_eq_union (members : List Bytes) : ∀ old : Finset Bytes,
    members.foldl (fun old m => insert m old) old = old ∪ members.toFinset := by
  induction members with
  | nil => exact fun old => (Finset.union_empty old).symm
  | cons m members ih =>
    intro old
    rw [List.foldl_cons, ih, List.toFinset_cons, Finset.insert_union, Finset.union_insert]

/-- Removing one member after another is a difference. By induction on the members. -/
theorem foldl_erase_eq_sdiff (members : List Bytes) : ∀ old : Finset Bytes,
    members.foldl Finset.erase old = old \ members.toFinset := by
  induction members with
  | nil => exact fun old => Finset.sdiff_empty.symm
  | cons m members ih =>
    intro old
    rw [List.foldl_cons, ih, List.toFinset_cons, Finset.sdiff_insert, Finset.erase_sdiff_comm]

/-- A map with some of its fields set, from left to right. -/
def overridden (old : Bytes → Option Bytes) (pairs : List (Bytes × Bytes)) : Bytes → Option Bytes :=
  pairs.foldl (fun m p => Function.update m p.1 (some p.2)) old

/-- The fields among these that a map does not have. -/
def newFields (old : Bytes → Option Bytes) (fields : List Bytes) : Finset Bytes :=
  fields.toFinset.filter fun field => old field = none

/-- The first field counts, if it is new, and after it is set it counts no more. -/
theorem card_newFields_cons (old : Bytes → Option Bytes) (field value : Bytes) (fields : List Bytes) :
    (newFields old (field :: fields)).card = (if old field = none then 1 else 0) +
      (newFields (Function.update old field (some value)) fields).card := by
  -- once the field is set it is not new any more
  have hset : newFields (Function.update old field (some value)) fields
      = (newFields old fields).erase field := by
    ext f
    simp only [newFields, Finset.mem_filter, Finset.mem_erase, Function.update_apply]
    by_cases hf : f = field
    · simp [hf]
    · simp [hf]
  have hcons : newFields old (field :: fields)
      = if old field = none then insert field (newFields old fields) else newFields old fields := by
    unfold newFields
    rw [List.toFinset_cons, Finset.filter_insert]
  rw [hset, hcons]
  split
  · rw [← Finset.insert_erase (Finset.mem_insert_self field _), Finset.erase_insert_eq_erase,
      Finset.card_insert_of_notMem (Finset.notMem_erase field _), Nat.add_comm]
  · next hold =>
    -- a field that was there is not new
    have hnot : field ∉ newFields old fields := fun h => hold (Finset.mem_filter.mp h).2
    rw [Finset.erase_eq_of_notMem hnot, Nat.zero_add]

/-! ### The set that a table stands for -/

/-- The table of a set has the members. -/
structure HashSet.Holds [Platform] (set : HashSet) (members : Finset Bytes) : Prop where
  inv : set.table.Inv Platform.hash
  mem_iff : ∀ m, HashTable.Maps set.table.buckets m () ↔ m ∈ members

namespace HashSet.Holds

variable [Platform] {set : HashSet} {old : Finset Bytes}

/-- A sound table has the members that it lists. -/
theorem of_inv (h : set.table.Inv Platform.hash) : set.Holds set.members.toFinset where
  inv := h
  mem_iff m := by
    rw [List.mem_toFinset, HashSet.members, List.mem_map]
    constructor
    · exact fun hm => ⟨(m, ()), HashTable.Inv.mem_toList_iff.mpr hm, rfl⟩
    · rintro ⟨⟨_, _⟩, hm, rfl⟩
      exact HashTable.Inv.mem_toList_iff.mp hm

/-- What a table lists are its members. -/
theorem members_eq (h : set.Holds old) : set.members.toFinset = old :=
  Finset.ext fun m => ((of_inv h.inv).mem_iff m).symm.trans (h.mem_iff m)

/-- A new table has no member. -/
theorem new : HashSet.new.Holds ∅ where
  inv := HashTable.inv_empty
  mem_iff m := iff_of_false (HashTable.not_maps_freshBuckets 16 m ()) (Finset.notMem_empty m)

/-- `add` inserts, and says whether the member is new. -/
theorem add (h : set.Holds old) (m : Bytes) :
    (set.add m).1.Holds (insert m old) ∧ ((set.add m).2 = true ↔ m ∉ old) := by
  obtain ⟨hinv, hmaps, hnew⟩ := h.inv.set m ()
  refine ⟨⟨hinv, fun k => (hmaps k ()).trans ?_⟩, hnew.trans ?_⟩
  · rw [Finset.mem_insert, ← h.mem_iff k]
    split
    · next hk => exact iff_of_true rfl (.inl hk)
    · next hk => exact (or_iff_right hk).symm
  · exact ⟨fun hno hm => hno () ((h.mem_iff m).mpr hm), fun hm _ hmaps => hm ((h.mem_iff m).mp hmaps)⟩

/-- `remove` erases, and says whether the member was there. -/
theorem remove (h : set.Holds old) (m : Bytes) :
    (set.remove m).1.Holds (old.erase m) ∧ ((set.remove m).2 = true ↔ m ∈ old) := by
  obtain ⟨hinv, hmaps, hthere⟩ := h.inv.del m
  refine ⟨⟨hinv, fun k => (hmaps k ()).trans ?_⟩, hthere.trans ?_⟩
  · rw [Finset.mem_erase, h.mem_iff k]
  · exact ⟨fun ⟨_, hmaps⟩ => (h.mem_iff m).mp hmaps, fun hm => ⟨(), (h.mem_iff m).mpr hm⟩⟩

/-- `contains` decides membership. -/
theorem contains (h : set.Holds old) (m : Bytes) : set.contains m = decide (m ∈ old) := by
  rw [HashSet.contains, h.inv.contains_eq, Bool.eq_iff_iff, decide_eq_true_iff, ← h.mem_iff m,
    Option.isSome_iff_exists]
  refine ⟨fun hfound => ?_, fun hm => ⟨(), h.inv.get_eq_some_iff.mpr hm⟩⟩
  obtain ⟨_, hm⟩ := hfound
  exact h.inv.get_eq_some_iff.mp hm

/-- A table is empty if its set is. -/
theorem isEmpty_iff (h : set.Holds old) : set.isEmpty = true ↔ old = ∅ := by
  have hlength : set.table.size = set.members.length := by
    rw [h.inv.size_eq_length, HashSet.members, List.length_map]
  rw [HashSet.isEmpty, HashTable.isEmpty, decide_eq_true_eq, hlength, List.length_eq_zero_iff, ← h.members_eq,
    List.toFinset_eq_empty_iff]

/-- No member is listed twice. -/
theorem nodup (h : set.Holds old) : set.members.Nodup := h.inv.nodup_toList

end HashSet.Holds

/-! ### The loops -/

section Loops

open DbState

variable [Platform] {now : ℤ} {key : Bytes} {s t : DbState S}

/-- **The loop of `SADD` and `SREM`** is the method at one member after another, and counts by how much the measure
`d` grows, with an `int`. By induction on the members: what has been counted so far is the `int` of a number. -/
theorem ends_memberLoop {method : HashSet → Bytes → HashSet × Bool} {f : Finset Bytes → Bytes → Finset Bytes}
    {d : Finset Bytes → ℤ} (hmethod : ∀ set old m, set.Holds old → (method set m).1.Holds (f old m) ∧
      d (f old m) = d old + if (method set m).2 then 1 else 0)
    (obj : RedisObject S) (args : List RespValue) : ∀ {members : List Bytes} {set : HashSet} {old : Finset Bytes}
    {c : ℕ} {t : DbState S}, args.mapM RespValue.asString = .ok members → set.Holds old →
    Points now key { obj with value := .set set } s t →
    (memberLoop key obj method set (asInt c) args).Ends t fun r u => r.1.Holds (members.foldl f old) ∧
      (∃ n : ℕ, r.2 = asInt n ∧ (n : ℤ) = c + (d (members.foldl f old) - d old)) ∧
      Points now key { obj with value := .set r.1 } s u := by
  induction args with
  | nil =>
    intro members set old count t hargs hset hpoints
    obtain rfl := Except.ok.inj hargs
    exact Program.ends_pure ⟨hset, ⟨count, by dsimp only, by simp⟩, hpoints⟩
  | cons arg args ih =>
    intro members set old count t hargs hset hpoints
    obtain ⟨m, rest, hm, hrest, rfl⟩ := RespValue.mapM_cons_eq_ok hargs
    obtain ⟨hnew, hcount⟩ := hmethod set old m hset
    refine Program.ends_bind_of_run (congrArg (fun r => some (r, t)) hm) ?_
    refine Program.ends_bind_of_run (t := t.putObject key { obj with value := .set (method set m).1 }) rfl ?_
    -- a method that has made a difference counts one more
    have hcounted : (if (method set m).2 then intSucc (asInt count) else asInt count)
        = asInt (count + if (method set m).2 then 1 else 0) := by
      rw [intSucc_asInt]
      split <;> rfl
    show (memberLoop key obj method (method set m).1 (if (method set m).2 then _ else _) args).Ends _ _
    rw [hcounted]
    refine (ih hrest hnew (hpoints.putObject _)).mono fun r u ⟨hr, ⟨n, hn, hsum⟩, hu⟩ => ⟨hr, ⟨n, hn, ?_⟩, hu⟩
    rw [hsum, List.foldl_cons, hcount]
    push_cast
    ring

/-- **The loop of `HSET`** overrides the map from left to right, and counts the fields that are new, with an `int`. By
induction on the pairs. -/
theorem ends_hsetLoop (obj : RedisObject S) (pairs : List (Bytes × Bytes)) : ∀ {args : List RespValue}
    {hash : HashTable Bytes Bytes} {old : Bytes → Option Bytes} {a : ℕ} {t : DbState S},
    args.mapM RespValue.asString = .ok (pairs.flatMap fun p => [p.1, p.2]) →
    HashTable.Represents Platform.hash hash old → Points now key { obj with value := .hash hash } s t →
    (hsetLoop key obj hash (asInt a) args).Ends t fun r u => ∃ hash',
      r = asInt (a + (newFields old (pairs.map (·.1))).card) ∧
      HashTable.Represents Platform.hash hash' (overridden old pairs) ∧
      Points now key { obj with value := .hash hash' } s u := by
  induction pairs with
  | nil =>
    intro args hash old added t hargs hhash hpoints
    obtain rfl := RespValue.mapM_eq_ok_nil hargs
    exact Program.ends_pure ⟨hash, rfl, hhash, hpoints⟩
  | cons p pairs ih =>
    intro args hash old added t hargs hhash hpoints
    obtain ⟨field, value⟩ := p
    obtain ⟨fieldArg, _, rfl, hfield, hrest⟩ := RespValue.mapM_eq_ok_cons hargs
    obtain ⟨valueArg, args, rfl, hvalue, hrest⟩ := RespValue.mapM_eq_ok_cons hrest
    refine Program.ends_bind_of_run (congrArg (fun r => some (r, t)) hfield) ?_
    refine Program.ends_bind_of_run (congrArg (fun r => some (r, t)) hvalue) ?_
    refine Program.ends_bind_of_run
      (t := t.putObject key { obj with value := .hash (hash.set Platform.hash field value).1 }) rfl ?_
    have hnew : (hash.set Platform.hash field value).2 = true ↔ old field = none :=
      (hhash.inv.set field value).2.2.trans (hhash.forall_not_maps_iff field)
    -- a field that is new counts one more
    have hcounted : (if (hash.set Platform.hash field value).2 then intSucc (asInt added) else asInt added)
        = asInt (added + if old field = none then 1 else 0) := by
      rw [intSucc_asInt, if_congr hnew rfl rfl]
      split <;> rfl
    show (hsetLoop key obj (hash.set Platform.hash field value).1
      (if (hash.set Platform.hash field value).2 then _ else _) args).Ends _ _
    rw [hcounted]
    refine (ih hrest (hhash.apply (.set field value)) (hpoints.putObject _)).mono fun r u ⟨hash', hr, hmap, hu⟩ =>
      ⟨hash', ?_, hmap, hu⟩
    rw [hr, List.map_cons, card_newFields_cons old field value, Nat.add_assoc]
    rfl

end Loops

/-! ### The commands -/

/-- The set and hash commands, with what follows the key. -/
inductive CollectionCommand where
  | sadd (members : List Bytes)
  | srem (members : List Bytes)
  | sismember (member : Bytes)
  | smembers
  | hset (pairs : List (Bytes × Bytes))
  | hget (field : Bytes)
  | hgetall

/-- The arguments behind the key. -/
def CollectionCommand.words : CollectionCommand → List Bytes
  | .sadd members | .srem members => members
  | .sismember member => [member]
  | .smembers | .hgetall => []
  | .hset pairs => pairs.flatMap fun p => [p.1, p.2]
  | .hget field => [field]

section Commands

variable [Platform]

/-- The handler. -/
def CollectionCommand.handler : CollectionCommand → DatabaseCommand S
  | .sadd _ => saddCommand
  | .srem _ => sremCommand
  | .sismember _ => sismemberCommand
  | .smembers => smembersCommand
  | .hset _ => hsetCommand
  | .hget _ => hgetCommand
  | .hgetall => hgetallCommand

/-- The set at a key, where there is one or nothing. -/
def Database.setAt (db : Database S) (now : ℤ) (key : Bytes) : Option (Finset Bytes) :=
  match db.valueAt now key with
  | none => some ∅
  | some (.set set) => some set.members.toFinset
  | some _ => none

/-- The map at a key, where there is one or nothing. -/
def Database.mapAt (db : Database S) (now : ℤ) (key : Bytes) : Option (Bytes → Option Bytes) :=
  match db.valueAt now key with
  | none => some fun _ => none
  | some (.hash hash) => some (hash.get Platform.hash)
  | some _ => none

namespace CollectionCommand

open Database (ChangesTo SameValues)

/-- What is asked where the key has a set, or nothing. Another value is refused, and nothing happens to it. -/
def OnSet (now : ℤ) (key reply : Bytes) (db db' : Database S) (asks : Finset Bytes → Prop) : Prop :=
  match db.setAt now key with
  | some old => asks old
  | none => reply = wrongType ∧ SameValues db db'

/-- What is asked where the key has a hash, or nothing. -/
def OnMap (now : ℤ) (key reply : Bytes) (db db' : Database S) (asks : (Bytes → Option Bytes) → Prop) : Prop :=
  match db.mapAt now key with
  | some old => asks old
  | none => reply = wrongType ∧ SameValues db db'

/-- **What the commands are for**: the set or the map before gives the one after, and the reply. A reply shows how many
members or fields have changed by way of `shown`. -/
def Meets (shown : ℕ → ℤ) (now : ℤ) (key reply : Bytes) (db db' : Database S) : CollectionCommand → Prop
  | .sadd members => OnSet now key reply db db' fun old =>
    ChangesTo now key (db'.valueAt now key) db db' ∧ db'.setAt now key = some (old ∪ members.toFinset) ∧
      reply = integer (shown ((old ∪ members.toFinset).card - old.card))
  | .srem members => OnSet now key reply db db' fun old =>
    ChangesTo now key (db'.valueAt now key) db db' ∧ db'.setAt now key = some (old \ members.toFinset) ∧
      (key ∈ db'.data ↔ (old \ members.toFinset).Nonempty) ∧
      reply = integer (shown (old.card - (old \ members.toFinset).card))
  | .sismember member => OnSet now key reply db db' fun old =>
    ChangesTo now key (db.valueAt now key) db db' ∧ reply = integer (if member ∈ old then 1 else 0)
  | .smembers => OnSet now key reply db db' fun old => ChangesTo now key (db.valueAt now key) db db' ∧
      ∃ l : List Bytes, l.Nodup ∧ (∀ m, m ∈ l ↔ m ∈ old) ∧ reply = bulkStringArray l
  | .hset pairs => OnMap now key reply db db' fun old =>
    ChangesTo now key (db'.valueAt now key) db db' ∧ db'.mapAt now key = some (overridden old pairs) ∧
      reply = integer (shown (newFields old (pairs.map (·.1))).card)
  | .hget field => OnMap now key reply db db' fun old => ChangesTo now key (db.valueAt now key) db db' ∧
      reply = match old field with
        | some value => bulkString value
        | none => nullBulkString
  | .hgetall => OnMap now key reply db db' fun old => ChangesTo now key (db.valueAt now key) db db' ∧
      ∃ l : List (Bytes × Bytes), (l.map (·.1)).Nodup ∧ (∀ field value, (field, value) ∈ l ↔ old field = some value) ∧
        reply = bulkStringArray (l.flatMap fun p => [p.1, p.2])

/-- How many members or fields a command adds or removes, in this database. -/
def changed (now : ℤ) (key : Bytes) (db : Database S) : CollectionCommand → ℕ
  | .sadd members => (db.setAt now key).elim 0 fun old => (old ∪ members.toFinset).card - old.card
  | .srem members => (db.setAt now key).elim 0 fun old => old.card - (old \ members.toFinset).card
  | .hset pairs => (db.mapAt now key).elim 0 fun old => (newFields old (pairs.map (·.1))).card
  | .sismember _ | .smembers | .hget _ | .hgetall => 0

end CollectionCommand

/-! ### What is found under a key -/

section Found

variable {now : ℤ} {key reply : Bytes} {db db' : Database S} {v : Value S}

open CollectionCommand (OnSet OnMap)

omit [Platform] in
/-- What a key has after a change is what it shows. -/
theorem Database.ChangesTo.self (h : db.ChangesTo now key (some v) db') :
    db.ChangesTo now key (db'.valueAt now key) db' := h.value ▸ h

/-- The set at a key that shows a set. -/
theorem Database.setAt_of_set {set : HashSet} {old : Finset Bytes} (h : db.valueAt now key = some (.set set))
    (hset : set.Holds old) : db.setAt now key = some old := by
  rw [setAt, h]
  exact congrArg some hset.members_eq

/-- The map at a key that shows a hash. -/
theorem Database.mapAt_of_hash {hash : HashTable Bytes Bytes} {old : Bytes → Option Bytes}
    (h : db.valueAt now key = some (.hash hash)) (hhash : HashTable.Represents Platform.hash hash old) :
    db.mapAt now key = some old := by
  rw [mapAt, h]
  exact congrArg some (funext hhash.get_eq)

omit [Platform] in
/-- Where a key shows nothing, its set is empty. -/
theorem Database.setAt_of_none (h : db.valueAt now key = none) : db.setAt now key = some ∅ := by rw [setAt, h]

/-- Where a key shows nothing, its map has no field. -/
theorem Database.mapAt_of_none (h : db.valueAt now key = none) : db.mapAt now key = some fun _ => none := by
  rw [mapAt, h]

omit [Platform] in
/-- A value of another type is refused. -/
theorem onSet_wrongType {asks : Finset Bytes → Prop} (hshown : db.valueAt now key = some v)
    (hno : ∀ set, v ≠ .set set) (hsame : db.SameValues db') : OnSet now key wrongType db db' asks := by
  have hnone : db.setAt now key = none := by
    rw [Database.setAt, hshown]
    cases v <;> first | rfl | exact absurd rfl (hno _)
  rw [OnSet, hnone]
  exact ⟨rfl, hsame⟩

/-- A value of another type is refused. -/
theorem onMap_wrongType {asks : (Bytes → Option Bytes) → Prop} (hshown : db.valueAt now key = some v)
    (hno : ∀ hash, v ≠ .hash hash) (hsame : db.SameValues db') : OnMap now key wrongType db db' asks := by
  have hnone : db.mapAt now key = none := by
    rw [Database.mapAt, hshown]
    cases v <;> first | rfl | exact absurd rfl (hno _)
  rw [OnMap, hnone]
  exact ⟨rfl, hsame⟩

omit [Platform] in
/-- What is asked of the set that the key has. -/
theorem onSet_of {asks : Finset Bytes → Prop} {old : Finset Bytes} (h : db.setAt now key = some old) (hasks : asks old) :
    OnSet now key reply db db' asks := by
  rw [OnSet, h]
  exact hasks

/-- What is asked of the map that the key has. -/
theorem onMap_of {asks : (Bytes → Option Bytes) → Prop} {old : Bytes → Option Bytes}
    (h : db.mapAt now key = some old) (hasks : asks old) : OnMap now key reply db db' asks := by
  rw [OnMap, h]
  exact hasks

/-- A table that is sound stands for a map. -/
theorem represents_of_inv {hash : HashTable Bytes Bytes} (h : hash.Inv Platform.hash) :
    HashTable.Represents Platform.hash hash (hash.get Platform.hash) := ⟨h, fun _ _ => h.get_eq_some_iff.symm⟩

end Found

/-! ### The commands, one by one -/

namespace CollectionCommand

open Database (ChangesTo SameValues)

variable {args : List RespValue} {key : Bytes} {s : DbState S}

/-- **`SADD`**: the loop is a union, and what it counts is by how much the set grows. The object is the one at the key
or a new one, so that the set before is the one shown, or empty. -/
theorem meets_sadd {members : List Bytes} (hs : s.db.All Value.Sound) (hkey : ArgString args 1 key)
    (hwords : (args.drop 2).mapM RespValue.asString = .ok members) :
    (saddCommand args : DbM S Bytes).Ends s fun reply t =>
      (CollectionCommand.sadd members).Meets asInt (s.clock 0) key reply s.db t.db := by
  refine Program.ends_bind_of_run (argString_run hkey s) ((DbM.ends_objectForAdd key _ s).bind fun obj t h => ?_)
  obtain ⟨hpoints, hcases⟩ := h
  split
  · next set hvalue =>
    -- the set that was shown, or the new one
    obtain ⟨old, hset, hold⟩ : ∃ old, set.Holds old ∧ s.db.setAt (s.clock 0) key = some old := by
      rcases hcases with ⟨hshown, -⟩ | ⟨hnone, hnew⟩
      · rw [hvalue] at hshown
        have hset := HashSet.Holds.of_inv (hs.of_valueAt hshown)
        exact ⟨_, hset, Database.setAt_of_set hshown hset⟩
      · obtain rfl : set = .new := Value.set.inj (hvalue.symm.trans hnew)
        exact ⟨∅, .new, Database.setAt_of_none hnone⟩
    have hstart : DbState.Points (s.clock 0) key { obj with value := .set set } s t := by
      rw [← hvalue]
      exact hpoints
    refine (ends_memberLoop (f := fun old m => insert m old) (d := fun old => old.card) (c := 0) ?_ obj _ hwords
      hset hstart).bind fun r u ⟨hr, ⟨n, hn, hcount⟩, hu⟩ => Program.ends_pure ?_
    · intro set old m hset
      obtain ⟨hnew, hchanged⟩ := hset.add m
      refine ⟨hnew, ?_⟩
      rw [Finset.card_insert_eq_ite]
      split
      · next hm => rw [if_neg fun h => hchanged.mp h hm, add_zero]
      · next hm => rw [if_pos (hchanged.mpr hm), Nat.cast_succ]
    · -- the set has become the union, and the count is how much it has grown
      rw [foldl_insert_eq_union] at hr hcount
      refine onSet_of hold ⟨hu.changesTo.self, Database.setAt_of_set hu.changesTo.value hr, ?_⟩
      have hgrown : n = (old ∪ members.toFinset).card - old.card := by omega
      rw [hn, hgrown]
  · next hno =>
    -- a value of another type is refused
    rcases hcases with ⟨hshown, hsame⟩ | ⟨-, hnew⟩
    · exact Program.ends_pure (onSet_wrongType hshown hno hsame)
    · exact absurd hnew (hno _)

/-- **`SREM`**: the loop is a difference, and what it counts is by how much the set shrinks. A set that is left
without members is deleted, and one that is not there stays away. -/
theorem meets_srem {members : List Bytes} (hs : s.db.All Value.Sound) (hkey : ArgString args 1 key)
    (hwords : (args.drop 2).mapM RespValue.asString = .ok members) :
    (sremCommand args : DbM S Bytes).Ends s fun reply t =>
      (CollectionCommand.srem members).Meets asInt (s.clock 0) key reply s.db t.db := by
  refine Program.ends_bind_of_run (argString_run hkey s) (DbM.ends_getObject_bind (fun t hnone hgone => ?_)
    fun obj t hshown hpoints hsame => ?_)
  · -- no set at the key: nothing to remove
    refine Program.ends_pure (onSet_of (Database.setAt_of_none hnone) ?_)
    rw [Finset.empty_sdiff]
    refine ⟨hgone.value ▸ hgone, Database.setAt_of_none hgone.value, ?_, by rw [Nat.sub_self, asInt_zero]⟩
    exact iff_of_false (fun hkey => nomatch hgone.present.mp hkey) Finset.not_nonempty_empty
  · dsimp only
    split
    · next set hvalue =>
      rw [hvalue] at hshown
      have hset := HashSet.Holds.of_inv (hs.of_valueAt hshown)
      have hstart : DbState.Points (s.clock 0) key { obj with value := .set set } s t := by
        rw [← hvalue]
        exact hpoints
      -- the measure falls by one for each member that is removed, so it is the size with a minus
      refine (ends_memberLoop (f := Finset.erase) (d := fun old => -old.card) (c := 0) ?_ obj _ hwords hset
        hstart).bind fun r u ⟨hr, ⟨n, hn, hcount⟩, hu⟩ => ?_
      · intro set old m hset
        obtain ⟨hrest, hchanged⟩ := hset.remove m
        refine ⟨hrest, ?_⟩
        rw [Finset.card_erase_eq_ite]
        split
        · next hm =>
          rw [if_pos (hchanged.mpr hm), Nat.cast_pred (Finset.card_pos.mpr ⟨m, hm⟩)]
          ring
        · next hm => rw [if_neg fun h => hm (hchanged.mp h), add_zero]
      · -- the set has become the difference, and the count is how much it has shrunk
        rw [foldl_erase_eq_sdiff] at hr hcount
        have hshrunk : n = set.members.toFinset.card - (set.members.toFinset \ members.toFinset).card := by omega
        have hreply : r.2 = asInt (set.members.toFinset.card - (set.members.toFinset \ members.toFinset).card) := by
          rw [hn, hshrunk]
        have hold := Database.setAt_of_set hshown hset
        split
        -- an empty set leaves the database
        · next hempty =>
          have hnil := hr.isEmpty_iff.mp hempty
          have hgone := hu.del
          refine Program.ends_bind_of_run (t := (u.del key).2) rfl (Program.ends_pure (onSet_of hold ?_))
          refine ⟨hgone.value ▸ hgone, ?_, ?_, congrArg integer hreply⟩
          · rw [hnil]
            exact Database.setAt_of_none hgone.value
          · rw [hnil]
            exact iff_of_false (fun hkey => nomatch hgone.present.mp hkey) Finset.not_nonempty_empty
        · next hsome =>
          have hleft : set.members.toFinset \ members.toFinset ≠ ∅ := fun hnil => hsome (hr.isEmpty_iff.mpr hnil)
          refine Program.ends_pure (onSet_of hold ⟨hu.changesTo.self, Database.setAt_of_set hu.changesTo.value hr, ?_,
            congrArg integer hreply⟩)
          exact iff_of_true (hu.changesTo.present.mpr rfl) (Finset.nonempty_iff_ne_empty.mpr hleft)
    · next hno => exact Program.ends_pure (onSet_wrongType hshown hno hsame)

/-- What the commands share that look at a set. -/
theorem ends_lookAtSet {absent : Bytes} {present : HashSet → DbM S Bytes} {asks : Finset Bytes → Bytes → Prop}
    (hs : s.db.All Value.Sound) (habsent : asks ∅ absent) (hpresent : ∀ set old t, set.Holds old →
      (present set).Ends t fun reply u => u = t ∧ asks old reply) :
    (do
      match ← DbM.getObject key with
      | none => return absent
      | some obj =>
        match obj.value with
        | .set set => present set
        | _ => return wrongType : DbM S Bytes).Ends s fun reply t => OnSet (s.clock 0) key reply s.db t.db fun old =>
      ChangesTo (s.clock 0) key (s.db.valueAt (s.clock 0) key) s.db t.db ∧ asks old reply := by
  refine DbM.ends_getObject_bind (fun t hnone hgone => ?_) fun obj t hshown hpoints hsame => ?_
  · exact Program.ends_pure (onSet_of (Database.setAt_of_none hnone) ⟨hnone ▸ hgone, habsent⟩)
  · dsimp only
    split
    · next set hvalue =>
      have hchanges := hpoints.changesTo
      rw [hvalue] at hshown hchanges
      -- the key shows a set, which has the members of the table
      have hset := HashSet.Holds.of_inv (hs.of_valueAt hshown)
      refine (hpresent set _ t hset).mono fun reply u ⟨hu, hasks⟩ => ?_
      exact onSet_of (Database.setAt_of_set hshown hset) ⟨hu ▸ hshown ▸ hchanges, hasks⟩
    · next hno => exact Program.ends_pure (onSet_wrongType hshown hno hsame)

/-- **`SISMEMBER`** decides membership. -/
theorem meets_sismember {member : Bytes} (hs : s.db.All Value.Sound) (hkey : ArgString args 1 key)
    (hmember : ArgString args 2 member) : (sismemberCommand args : DbM S Bytes).Ends s fun reply t =>
      (CollectionCommand.sismember member).Meets asInt (s.clock 0) key reply s.db t.db := by
  refine Program.ends_bind_of_run (argString_run hkey s) (Program.ends_bind_of_run (argString_run hmember s)
    (ends_lookAtSet hs ?_ fun set old t hset => Program.ends_pure ⟨rfl, ?_⟩))
  · rw [if_neg (Finset.notMem_empty member)]
  · rw [hset.contains]
    simp only [decide_eq_true_eq]

/-- **`SMEMBERS`** lists each member once. -/
theorem meets_smembers (hs : s.db.All Value.Sound) (hkey : ArgString args 1 key) :
    (smembersCommand args : DbM S Bytes).Ends s fun reply t =>
      CollectionCommand.smembers.Meets asInt (s.clock 0) key reply s.db t.db := by
  refine Program.ends_bind_of_run (argString_run hkey s) (ends_lookAtSet hs ?_
    fun set old t hset => Program.ends_pure ⟨rfl, ?_⟩)
  · exact ⟨[], List.nodup_nil, by simp, by decide⟩
  · exact ⟨set.members, hset.nodup, fun m => by rw [← List.mem_toFinset, hset.members_eq], rfl⟩

/-- What the commands share that look at a hash. -/
theorem ends_lookAtHash {absent : Bytes} {present : HashTable Bytes Bytes → DbM S Bytes}
    {asks : (Bytes → Option Bytes) → Bytes → Prop} (hs : s.db.All Value.Sound) (habsent : asks (fun _ => none) absent)
    (hpresent : ∀ hash old t, HashTable.Represents Platform.hash hash old →
      (present hash).Ends t fun reply u => u = t ∧ asks old reply) :
    (do
      match ← DbM.getObject key with
      | none => return absent
      | some obj =>
        match obj.value with
        | .hash hash => present hash
        | _ => return wrongType : DbM S Bytes).Ends s fun reply t => OnMap (s.clock 0) key reply s.db t.db fun old =>
      ChangesTo (s.clock 0) key (s.db.valueAt (s.clock 0) key) s.db t.db ∧ asks old reply := by
  refine DbM.ends_getObject_bind (fun t hnone hgone => ?_) fun obj t hshown hpoints hsame => ?_
  · exact Program.ends_pure (onMap_of (Database.mapAt_of_none hnone) ⟨hnone ▸ hgone, habsent⟩)
  · dsimp only
    split
    · next hash hvalue =>
      have hchanges := hpoints.changesTo
      rw [hvalue] at hshown hchanges
      -- the key shows a hash, which has the fields of the table
      have hhash := represents_of_inv (hs.of_valueAt hshown)
      refine (hpresent hash _ t hhash).mono fun reply u ⟨hu, hasks⟩ => ?_
      exact onMap_of (Database.mapAt_of_hash hshown hhash) ⟨hu ▸ hshown ▸ hchanges, hasks⟩
    · next hno => exact Program.ends_pure (onMap_wrongType hshown hno hsame)

/-- **`HGET`** is the value of the field, or nothing. -/
theorem meets_hget {field : Bytes} (hs : s.db.All Value.Sound) (hkey : ArgString args 1 key)
    (hfield : ArgString args 2 field) : (hgetCommand args : DbM S Bytes).Ends s fun reply t =>
      (CollectionCommand.hget field).Meets asInt (s.clock 0) key reply s.db t.db := by
  refine Program.ends_bind_of_run (argString_run hkey s) (Program.ends_bind_of_run (argString_run hfield s)
    (ends_lookAtHash hs rfl fun hash old t hhash => ?_))
  rw [hhash.get_eq]
  cases old field with
  | some value => exact Program.ends_pure ⟨rfl, rfl⟩
  | none => exact Program.ends_pure ⟨rfl, rfl⟩

/-- **`HGETALL`** lists each field once, with its value. -/
theorem meets_hgetall (hs : s.db.All Value.Sound) (hkey : ArgString args 1 key) :
    (hgetallCommand args : DbM S Bytes).Ends s fun reply t =>
      CollectionCommand.hgetall.Meets asInt (s.clock 0) key reply s.db t.db := by
  refine Program.ends_bind_of_run (argString_run hkey s) (ends_lookAtHash hs ?_
    fun hash old t hhash => Program.ends_pure ⟨rfl, ?_⟩)
  · exact ⟨[], List.nodup_nil, by simp, by decide⟩
  · exact ⟨hash.toList, hhash.inv.nodup_toList, fun field value =>
      HashTable.Inv.mem_toList_iff.trans (hhash.maps_iff field value), rfl⟩

/-- **`HSET`**: the loop overrides the map, and counts the fields that are new. The pairs are set from the first to
the last, so a field that is named twice gets its last value and counts once. -/
theorem meets_hset {pairs : List (Bytes × Bytes)} (hs : s.db.All Value.Sound) (hkey : ArgString args 1 key)
    (hwords : (args.drop 2).mapM RespValue.asString = .ok (pairs.flatMap fun p => [p.1, p.2])) :
    (hsetCommand args : DbM S Bytes).Ends s fun reply t =>
      (CollectionCommand.hset pairs).Meets asInt (s.clock 0) key reply s.db t.db := by
  -- the pairs make an even number of words
  have heven : ¬args.length % 2 ≠ 0 := by
    obtain ⟨v, hv, -⟩ := hkey
    have hlength := RespValue.length_of_mapM hwords
    have htwo : (pairs.flatMap fun p => [p.1, p.2]).length = pairs.length * 2 := by
      rw [List.length_flatMap]
      simp
    obtain ⟨hlt, -⟩ := List.getElem?_eq_some_iff.mp hv
    rw [List.length_drop, htwo] at hlength
    omega
  unfold hsetCommand
  rw [if_neg heven]
  refine Program.ends_bind_of_run (argString_run hkey s) ((DbM.ends_objectForAdd key _ s).bind fun obj t h => ?_)
  obtain ⟨hpoints, hcases⟩ := h
  split
  · next hash hvalue =>
    -- the hash that was shown, or the new one
    obtain ⟨old, hhash, hold⟩ : ∃ old, HashTable.Represents Platform.hash hash old ∧
        s.db.mapAt (s.clock 0) key = some old := by
      rcases hcases with ⟨hshown, -⟩ | ⟨hnone, hnew⟩
      · rw [hvalue] at hshown
        have hhash := represents_of_inv (hs.of_valueAt hshown)
        exact ⟨_, hhash, Database.mapAt_of_hash hshown hhash⟩
      · obtain rfl : hash = .empty := Value.hash.inj (hvalue.symm.trans hnew)
        exact ⟨fun _ => none, HashTable.represents_run [], Database.mapAt_of_none hnone⟩
    have hstart : DbState.Points (s.clock 0) key { obj with value := .hash hash } s t := by
      rw [← hvalue]
      exact hpoints
    refine (ends_hsetLoop (a := 0) obj pairs hwords hhash hstart).bind fun r u ⟨hash', hr, hmap, hu⟩ => Program.ends_pure ?_
    refine onMap_of hold ⟨hu.changesTo.self, Database.mapAt_of_hash hu.changesTo.value hmap, ?_⟩
    rw [hr, Nat.zero_add]
  · next hno =>
    -- a value of another type is refused
    rcases hcases with ⟨hshown, hsame⟩ | ⟨-, hnew⟩
    · exact Program.ends_pure (onMap_wrongType hshown hno hsame)
    · exact absurd hnew (hno _)

end CollectionCommand

/-- Every value of a reachable database is sound. -/
theorem Database.Reachable.sound [Inhabited S] [LinearOrder S] {db : Database S} (h : db.Reachable) :
    db.All Value.Sound := by
  intro key obj hobj
  have hwf := h.wf.values key obj hobj
  cases hvalue : obj.value with
  | none | string => trivial
  | list | hash | set =>
    rw [hvalue] at hwf
    exact hwf
  | zset z =>
    rw [hvalue] at hwf
    obtain ⟨_, _, _, hz⟩ := hwf
    exact hz.dict.inv

namespace CollectionCommand

variable {cmd : CollectionCommand} {now : ℤ} {args : List RespValue} {key reply : Bytes} {db db' : Database S}
  {s : DbState S}

/-- **What the commands do**, with the numbers in their replies as an `int` shows them: on a database whose tables are
sound, as those of every reachable database are, and with any arguments, each command ends. -/
theorem meets_asInt (hs : s.db.All Value.Sound) (hkey : ArgString args 1 key)
    (hwords : (args.drop 2).mapM RespValue.asString = .ok cmd.words) :
    (cmd.handler args : DbM S Bytes).Ends s fun reply t => cmd.Meets asInt (s.clock 0) key reply s.db t.db := by
  have hsecond {word : Bytes} (h : (args.drop 2).mapM RespValue.asString = .ok [word]) : ArgString args 2 word := by
    obtain ⟨v, rest, heq, hv, -⟩ := RespValue.mapM_eq_ok_cons h
    refine ⟨v, ?_, hv⟩
    rw [← Nat.add_zero 2, ← List.getElem?_drop, heq]
    rfl
  cases cmd with
  | sadd members => exact meets_sadd hs hkey hwords
  | srem members => exact meets_srem hs hkey hwords
  | sismember member => exact meets_sismember hs hkey (hsecond hwords)
  | smembers => exact meets_smembers hs hkey
  | hset pairs => exact meets_hset hs hkey hwords
  | hget field => exact meets_hget hs hkey (hsecond hwords)
  | hgetall => exact meets_hgetall hs hkey

omit [Platform] in
/-- An `int` shows a number as it is, if and only if it is small enough. -/
theorem shows_asInt_iff {n : ℕ} (h : reply = integer (asInt n)) : reply = integer n ↔ n < 2 ^ 31 := by
  rw [h, integer_injective.eq_iff, asInt_eq_iff]

/-- Where a command does what it is for with `int`s for numbers, it does with numbers if and only if it changes few
enough members or fields. The cases are the commands, each with a value of its type under the key or another one. -/
theorem meets_natCast_iff (h : cmd.Meets asInt now key reply db db') :
    cmd.Meets Nat.cast now key reply db db' ↔ cmd.changed now key db < 2 ^ 31 := by
  cases cmd with
  | sadd members =>
    -- where the key has another value nothing is counted, and otherwise the reply shows the count
    simp only [Meets, OnSet, changed] at h ⊢
    cases hold : db.setAt now key with
    | none =>
      rw [hold] at h
      exact iff_of_true h (by norm_num)
    | some old =>
      rw [hold] at h
      exact (and_iff_right h.1).trans ((and_iff_right h.2.1).trans (shows_asInt_iff h.2.2))
  | srem members =>
    simp only [Meets, OnSet, changed] at h ⊢
    cases hold : db.setAt now key with
    | none =>
      rw [hold] at h
      exact iff_of_true h (by norm_num)
    | some old =>
      rw [hold] at h
      exact (and_iff_right h.1).trans ((and_iff_right h.2.1).trans ((and_iff_right h.2.2.1).trans
        (shows_asInt_iff h.2.2.2)))
  | hset pairs =>
    simp only [Meets, OnMap, changed] at h ⊢
    cases hold : db.mapAt now key with
    | none =>
      rw [hold] at h
      exact iff_of_true h (by norm_num)
    | some old =>
      rw [hold] at h
      exact (and_iff_right h.1).trans ((and_iff_right h.2.1).trans (shows_asInt_iff h.2.2))
  | sismember | smembers | hget | hgetall =>
    -- nothing is counted
    simp only [Meets] at h ⊢
    exact iff_of_true h (by norm_num [changed])

end CollectionCommand

/-- **Set and hash commands implement sets and maps**, on a database whose tables are sound and with any arguments, if
and only if they change fewer than `2 ^ 31` members or fields: from there on the reply shows another number. The set
or the map under the key is the right one in any case. Each command meets its specification with the number it counts
taken as an `int` (`meets_asInt`), whatever that number is, and as an `int` it is the same just below `2 ^ 31`. -/
theorem sets_and_maps_iff {cmd : CollectionCommand} {args : List RespValue} {key : Bytes} {s : DbState S}
    (hs : s.db.All Value.Sound) (hkey : ArgString args 1 key)
    (hwords : (args.drop 2).mapM RespValue.asString = .ok cmd.words) :
    ((cmd.handler args : DbM S Bytes).Ends s fun reply t => cmd.Meets Nat.cast (s.clock 0) key reply s.db t.db) ↔
      cmd.changed (s.clock 0) key s.db < 2 ^ 31 := by
  obtain ⟨reply, t, hrun, hmeets⟩ := CollectionCommand.meets_asInt hs hkey hwords
  rw [← CollectionCommand.meets_natCast_iff hmeets]
  constructor
  · rintro ⟨reply', t', hrun', hmeets'⟩
    obtain ⟨hreply, rfl⟩ := Prod.mk.inj (Option.some.inj (hrun.symm.trans hrun'))
    exact Except.ok.inj hreply ▸ hmeets'
  · exact fun hmeets => ⟨reply, t, hrun, hmeets⟩

end Commands

section Sample

open Sample

/-- `SADD k a b a`. -/
def addsTwice : List RespValue := ["SADD", "k", "a", "b", "a"].map fun word => .bulkString (str word)

/-- A member that is named twice is added once, and counted once. -/
theorem sets_and_maps_iff_sadd : ∃ reply t, (saddCommand addsTwice : DbM Score Bytes).run { idleEnv with db := {} }
    = some (.ok reply, t) ∧ t.db.setAt 0 (str "k") = some {str "a", str "b"} ∧ reply = integer 2 := by
  have hiff := @sets_and_maps_iff Score _ (.sadd [str "a", str "b", str "a"]) addsTwice (str "k")
    { idleEnv with db := {} } nofun ⟨_, rfl, rfl⟩ rfl
  obtain ⟨reply, t, hrun, -, hset, hreply⟩ := hiff.mpr (by decide)
  exact ⟨reply, t, hrun, hset.trans (congrArg some (by decide)), hreply.trans (congrArg integer (by decide +kernel))⟩

/-- `SADD k` with so many members, each of which is another number. -/
def addsNumbers (n : ℕ) : List RespValue :=
  [str "SADD", str "k"].map .bulkString ++ ((List.range n).map Decimal.natText).map .bulkString

/-- With `2 ^ 31` members that are all new, the reply is a negative number. -/
theorem sadd_overflows : ¬∀ (cmd : CollectionCommand) (args : List RespValue) (key : Bytes) (s : DbState Score),
    s.db.All Value.Sound → ArgString args 1 key → (args.drop 2).mapM RespValue.asString = .ok cmd.words →
    (cmd.handler args : DbM Score Bytes).Ends s fun reply t =>
      cmd.Meets Nat.cast (s.clock 0) key reply s.db t.db := by
  intro hall
  have hwords (n : ℕ) : ((addsNumbers n).drop 2).mapM RespValue.asString = .ok ((List.range n).map Decimal.natText) :=
    RespValue.mapM_bulkString _
  -- as many different members as are asked for
  have hmany (n : ℕ) : (CollectionCommand.sadd ((List.range n).map Decimal.natText)).changed 0 (str "k")
      ({} : Database Score) = n := by
    have hempty : ({} : Database Score).setAt 0 (str "k") = some ∅ := rfl
    rw [CollectionCommand.changed, hempty, Option.elim_some, Finset.empty_union, Finset.card_empty, Nat.sub_zero,
      List.toFinset_card_of_nodup (List.nodup_range.map Decimal.natText_injective), List.length_map, List.length_range]
  let start : DbState Score := { idleEnv with db := {} }
  have hs : start.db.All Value.Sound := nofun
  have hkey : ArgString (addsNumbers (2 ^ 31)) 1 (str "k") := ⟨_, rfl, rfl⟩
  have hadds : ((addsNumbers (2 ^ 31)).drop 2).mapM RespValue.asString
      = .ok (CollectionCommand.sadd ((List.range (2 ^ 31)).map Decimal.natText)).words := hwords _
  obtain ⟨reply, t, hrun, hclaimed⟩ := hall _ _ _ start hs hkey hadds
  obtain ⟨reply', t', hrun', hmeets⟩ := CollectionCommand.meets_asInt hs hkey hadds
  obtain ⟨hreply, rfl⟩ := Prod.mk.inj (Option.some.inj (hrun.symm.trans hrun'))
  -- were the reply the number of members, there would be fewer than `2 ^ 31`
  have hfew := (CollectionCommand.meets_natCast_iff hmeets).mp (Except.ok.inj hreply ▸ hclaimed)
  exact absurd ((hmany _).symm.trans_lt hfew) (lt_irrefl _)

end Sample

end RedisDb
