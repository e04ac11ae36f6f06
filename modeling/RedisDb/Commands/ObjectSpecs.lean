import RedisDb.Commands.HashCommands
import RedisDb.Commands.KeyCommands
import RedisDb.Commands.ListCommands
import RedisDb.Commands.SetCommands
import RedisDb.Commands.ZsetCommands
import RedisDb.Storage.Keyspace

/-!
# The objects of a database

What holds of every object in a database (`Database.All`) is kept by every method that only reads, moves or removes
objects or stores strings, so by every command that is made of these (`DbM.KeepsAll`).

The property is one of the value, so what changes the clock of an object only, or its deadline, keeps it at once. A
method that stores keeps it where what is stored has it: between taking an object out and putting it back, the
property holds of all keys but one (`Database.AllBut`). Strings are assumed to have it where a method may store one.

The commands follow from the methods by the rules for programs. Those that change an object in place are left to
`Commands.Collections`.
-/

namespace RedisDb

open RespSerializer

variable {S : Type}

/-- Every object has a value with a property. -/
def Database.All (P : Value S → Prop) (db : Database S) : Prop :=
  ∀ key obj, db.data.lookup key = some obj → P obj.value

/-- Every object has a value with a property, but perhaps for the one at a key. -/
def Database.AllBut (P : Value S → Prop) (key : Bytes) (db : Database S) : Prop :=
  ∀ k obj, k ≠ key → db.data.lookup k = some obj → P obj.value

namespace Database

variable {P : Value S → Prop} {db db' : Database S} {key : Bytes}

/-- All are all but one. -/
theorem All.allBut (h : db.All P) (key : Bytes) : db.AllBut P key := fun k obj _ hobj => h k obj hobj

/-- The property is about the objects. -/
theorem All.of_data (h : db.All P) (hdata : db'.data = db.data) : db'.All P :=
  fun k obj hobj => h k obj (hdata ▸ hobj)

/-- Where each value was there before, nothing is new. -/
theorem All.of_within (h : db.All P) (hw : Within db' db) : db'.All P := by
  intro k obj hobj
  obtain ⟨k', obj', hobj', hvalue⟩ := hw.values k obj hobj
  exact hvalue ▸ h k' obj' hobj'

/-- The one that was left out is put in. -/
theorem AllBut.insert (h : db.AllBut P key) {obj : RedisObject S} (hobj : P obj.value)
    (hdata : db'.data = db.data.insert key obj) : db'.All P := by
  intro k obj' hk
  rw [hdata, UnorderedMap.lookup_insert_eq_ite] at hk
  split at hk
  · exact Option.some.inj hk ▸ hobj
  · next hne => exact h k obj' hne hk

/-- It may be written over, and is still the one that is left out. -/
theorem AllBut.insert_self (h : db.AllBut P key) {obj : RedisObject S}
    (hdata : db'.data = db.data.insert key obj) : db'.AllBut P key := by
  intro k obj' hne hk
  rw [hdata, UnorderedMap.lookup_insert_eq_ite, if_neg hne] at hk
  exact h k obj' hne hk

/-- What `putObject` leaves. -/
theorem AllBut.putValue [Platform] {s : DbState S} (h : s.db.AllBut P key) (obj : RedisObject S) {v : Value S}
    (hv : P v) : (s.putObject key { obj with value := v }).db.All P :=
  h.insert hv rfl

/-- So `putObject` may write anything to the key. -/
theorem AllBut.putObject_self [Platform] {s : DbState S} (h : s.db.AllBut P key) (obj : RedisObject S) :
    (s.putObject key obj).db.AllBut P key :=
  h.insert_self rfl

/-- The one that was left out is taken out. -/
theorem AllBut.erase (h : db.AllBut P key) (hdata : db'.data = db.data.erase key) : db'.All P := by
  intro k obj hk
  rw [hdata, UnorderedMap.lookup_erase_eq_ite] at hk
  split at hk
  · cases hk
  · next hne => exact h k obj hne hk

/-- With the object at the key, it is every object. -/
theorem AllBut.all (h : db.AllBut P key) (hkey : ∀ obj, db.data.lookup key = some obj → P obj.value) :
    db.All P := by
  intro k obj hk
  by_cases heq : k = key
  · exact hkey obj (heq ▸ hk)
  · exact h k obj heq hk

/-! ### The methods -/

section Methods

variable {s : DbState S}

/-- Deadlines are no objects. -/
theorem All.setExpiry (h : s.db.All P) (key : Bytes) (milliseconds : ℤ) :
    (s.setExpiry key milliseconds).2.db.All P := by
  unfold DbState.setExpiry
  split
  · exact h
  · exact h.of_data rfl

theorem All.setExpiryAt (h : s.db.All P) (key : Bytes) (timestampMs : ℤ) :
    (s.setExpiryAt key timestampMs).2.db.All P := by
  unfold DbState.setExpiryAt
  split
  · exact h
  · exact h.of_data rfl

/-- The clock is read. -/
theorem All.pttl (h : s.db.All P) (key : Bytes) : (s.pttl key).2.db.All P := by
  unfold DbState.pttl
  split
  · exact h
  · cases s.db.expires.lookup key <;> exact h

/-- `keys` looks at all deadlines, and takes nothing out. -/
theorem All.keys (h : s.db.All P) (pattern : Bytes) : (s.keys pattern).2.db.All P := by
  have hloop (keys : List Bytes) : ∀ s : DbState S, (DbState.keysLoop pattern keys s).2.db = s.db := by
    induction keys with
    | nil => exact fun _ => rfl
    | cons key keys ih =>
      intro s
      unfold DbState.keysLoop
      rw [← DbState.isExpired_db s key, ← ih (s.isExpired key).2]
      simp only
      split <;> rfl
  exact h.of_data (congrArg Database.data (hloop _ s))

/-- Drawing keys takes nothing out. -/
theorem All.randomSample (h : s.db.All P) (count : ℤ) (volatileOnly : Bool) :
    (s.randomSample count volatileOnly).2.db.All P := by
  have hloop (population : List Bytes) (count : ℕ) : ∀ s : DbState S,
      (DbState.sampleLoop population count s).2.db = s.db := by
    induction count with
    | zero => exact fun _ => rfl
    | succ count ih =>
      intro s
      unfold DbState.sampleLoop
      split
      · rfl
      · exact ih _
  exact h.of_data (congrArg Database.data (hloop _ _ s))

variable [Platform]

/-- A key that has expired goes away. -/
theorem All.checkAndExpire (h : s.db.All P) (key : Bytes) : (s.checkAndExpire key).2.db.All P :=
  h.of_within (s.within_checkAndExpire key)

/-- Looking at a key gives its object another time of access, or takes it out. -/
theorem All.getObject (h : s.db.All P) (key : Bytes) : (s.getObject key).2.db.All P :=
  h.of_within (s.within_getObject key)

/-- The object that `getObject` finds is one of the database. -/
theorem All.of_getObject (h : s.db.All P) {obj : RedisObject S} (hobj : (s.getObject key).1 = some obj) :
    P obj.value :=
  h.getObject key key obj (DbState.lookup_getObject hobj)

theorem All.contains (h : s.db.All P) (key : Bytes) : (s.contains key).2.db.All P := by
  have hcheck := h.checkAndExpire key
  unfold DbState.contains
  rcases hx : s.checkAndExpire key with ⟨expired, t⟩
  rw [hx] at hcheck
  cases expired <;> exact hcheck

theorem All.type (h : s.db.All P) (key : Bytes) : (s.type key).2.db.All P := by
  have hcheck := h.checkAndExpire key
  unfold DbState.type
  rcases hx : s.checkAndExpire key with ⟨expired, t⟩
  rw [hx] at hcheck
  cases expired with
  | true => exact hcheck
  | false =>
    simp only [Bool.false_eq_true, if_false]
    cases t.db.data.lookup key <;> exact hcheck

theorem All.get (h : s.db.All P) (key : Bytes) : (s.get key).2.db.All P := by
  have hget := h.getObject key
  unfold DbState.get
  rcases hx : s.getObject key with ⟨obj, t⟩
  rw [hx] at hget
  simp only
  split <;> exact hget

/-- An object is stored at the key that is left out. -/
theorem AllBut.store (h : s.db.AllBut P key) {obj : RedisObject S} (hobj : P obj.value) :
    (s.store key obj).db.All P := by
  obtain ⟨lruClock, hdata⟩ := s.store_data key obj
  have hstored : P ({ obj with lruClock := lruClock } : RedisObject S).value := hobj
  exact h.insert hstored hdata

/-- The object moves, with what holds of it. -/
theorem All.rename (h : s.db.All P) (oldKey newKey : Bytes) : (s.rename oldKey newKey).2.db.All P := by
  cases hold : s.db.data.lookup oldKey with
  | none =>
    unfold DbState.rename
    rw [hold]
    exact h
  | some value =>
    -- it is taken out at the one key, and stored at the other
    obtain ⟨u, hu, hdata, -⟩ := DbState.rename_spec newKey hold
    have hrest : u.db.All P := (h.allBut oldKey).erase hdata
    rw [hu]
    exact (hrest.allBut newKey).store (h oldKey value hold)

/-- Deleting the key that is left out leaves the others. -/
theorem AllBut.del (h : s.db.AllBut P key) : (s.del key).2.db.All P := by
  unfold DbState.del
  simp only
  cases hobj : (s.eraseExpires key).db.data.lookup key with
  | none => exact h.all fun obj hk => absurd (hobj.symm.trans hk) nofun
  | some obj =>
    refine h.erase ?_
    simp only [DbState.markDirty_data, DbState.touchWatchedKey_db]
    rfl

/-- Nothing is left. -/
theorem all_flushDb : s.flushDb.db.All P := by
  intro key obj hobj
  rw [s.flushDb_data.1] at hobj
  cases hobj

/-- A string is stored. -/
theorem All.set (hP : ∀ str, P (.string str)) (h : s.db.All P) (key value : Bytes) :
    (s.set key value).db.All P :=
  (h.allBut key).store (hP value)

/-- A number is stored as a string. -/
theorem All.incrby (hP : ∀ str, P (.string str)) (h : s.db.All P) (key : Bytes) (increment : ℤ) :
    (s.incrby key increment).2.db.All P := by
  unfold DbState.incrby
  simp only
  split
  · exact h
  · split
    · exact h
    · exact h.set hP key _

/-- A string is stored, or made longer in its place. -/
theorem All.append (hP : ∀ str, P (.string str)) (h : s.db.All P) (key value : Bytes) :
    (s.append key value).2.db.All P := by
  unfold DbState.append
  cases s.db.data.lookup key with
  | none => exact h.set hP key value
  | some obj =>
    simp only
    split
    · exact (h.allBut key).insert (hP _) rfl
    · exact h

end Methods

end Database

/-- A key that has just been stored is there, and looking at it changes no other. -/
theorem DbState.getObject_store [Platform] (key : Bytes) (obj : RedisObject S) (s : DbState S) :
    ∃ obj' lruClock, ((s.store key obj).getObject key).1 = some obj' ∧ obj'.value = obj.value ∧
      ((s.store key obj).getObject key).2.db.data
        = (s.db.data.insert key { obj with lruClock := lruClock }).insert key obj' := by
  obtain ⟨lruClock, hdata⟩ := s.store_data key obj
  have hexpires : (s.store key obj).db.expires.lookup key = none := by
    rw [store_expires]
    exact AList.lookup_erase key _
  have hlookup : (s.store key obj).db.data.lookup key = some { obj with lruClock := lruClock } := by
    rw [hdata]
    exact AList.lookup_insert _
  simp only [DbState.getObject, DbState.checkAndExpire, DbState.isExpired, hexpires, Bool.false_eq_true, if_false, hlookup]
  exact ⟨_, lruClock, rfl, rfl, congrArg (AList.insert key _) hdata⟩

/-! ### Commands that change no object in place -/

/-- A program keeps what holds of every object. -/
abbrev DbM.KeepsAll [Platform] {α : Type} (P : Value S → Prop) (p : DbM S α) : Prop :=
  p.Keeps fun s => s.db.All P

section Plain

variable [Platform] {α : Type} {P : Value S → Prop}

theorem DbM.keepsAll_call {f : DbState S → α × DbState S} {h : ∀ s, DbState.Call s (f s).2}
    (hf : ∀ s, s.db.All P → (f s).2.db.All P) : (DbM.call f h).KeepsAll P :=
  fun s hs => (DbM.post_call s _).mpr (hf s hs)

theorem DbM.keepsAll_getObject (key : Bytes) : (DbM.getObject key : DbM S _).KeepsAll P :=
  keepsAll_call fun _ hs => hs.getObject key

theorem DbM.keepsAll_get (key : Bytes) : (DbM.get key).KeepsAll P :=
  keepsAll_call fun _ hs => hs.get key

theorem DbM.keepsAll_contains (key : Bytes) : (DbM.contains key : DbM S _).KeepsAll P :=
  keepsAll_call fun _ hs => hs.contains key

theorem DbM.keepsAll_del (key : Bytes) : (DbM.del key : DbM S _).KeepsAll P :=
  keepsAll_call fun _ hs => (hs.allBut key).del

theorem DbM.keepsAll_pttl (key : Bytes) : (DbM.pttl key : DbM S _).KeepsAll P :=
  keepsAll_call fun _ hs => hs.pttl key

theorem DbM.keepsAll_setExpiry (key : Bytes) (milliseconds : ℤ) :
    (DbM.setExpiry key milliseconds : DbM S _).KeepsAll P :=
  keepsAll_call fun _ hs => hs.setExpiry key milliseconds

theorem DbM.keepsAll_setExpiryAt (key : Bytes) (timestampMs : ℤ) :
    (DbM.setExpiryAt key timestampMs : DbM S _).KeepsAll P :=
  keepsAll_call fun _ hs => hs.setExpiryAt key timestampMs

theorem keepsAll_getCommand (args : List RespValue) : (getCommand args).KeepsAll P :=
  .bind (keeps_argString _ _) fun key => .bind (DbM.keepsAll_get key) fun v => by
    cases v <;> exact .pure _

theorem keepsAll_strlenCommand (args : List RespValue) : (strlenCommand args).KeepsAll P :=
  .bind (keeps_argString _ _) fun key => .bind (DbM.keepsAll_get key) fun v => by
    cases v <;> exact .pure _

theorem keepsAll_mgetCommand (args : List RespValue) : (mgetCommand args).KeepsAll P :=
  .foldlM _ (fun _ _ _ => .bind (.ofExcept _) fun key => .bind (DbM.keepsAll_get key) fun v => by
    cases v <;> exact .pure _) _

theorem keepsAll_countArgs {method : Bytes → DbM S Bool} (h : ∀ key, (method key).KeepsAll P)
    (args : List RespValue) : (countArgs method args).KeepsAll P :=
  .bind (.foldlM _ (fun _ _ _ => .bind (.ofExcept _) fun key => .bind (h key) fun _ => .pure _) _)
    fun _ => .pure _

theorem keepsAll_typeCommand (args : List RespValue) : (typeCommand args).KeepsAll P :=
  .bind (keeps_argString _ _) fun key => .bind (DbM.keepsAll_call fun _ hs => hs.type key) fun _ =>
    .pure _

theorem keepsAll_keysCommand (args : List RespValue) : (keysCommand args).KeepsAll P :=
  .bind (keeps_argString _ _) fun pattern => .bind (DbM.keepsAll_call fun _ hs => hs.keys pattern)
    fun _ => .pure _

theorem keepsAll_deadlineCommand {method : Bytes → ℤ → DbM S Bool}
    (h : ∀ key n, (method key n).KeepsAll P) (args : List RespValue) :
    (deadlineCommand method args).KeepsAll P := by
  refine .bind (keeps_argConverted _ _ _) fun n => ?_
  cases n with
  | none => exact .pure _
  | some n => exact .bind (keeps_argString _ _) fun key => .bind (h key n) fun _ => .pure _

theorem keepsAll_ttlCommand (args : List RespValue) : (ttlCommand args).KeepsAll P :=
  .bind (keeps_argString _ _) fun key => .bind (DbM.keepsAll_pttl key) fun _ => .pure _

theorem keepsAll_pttlCommand (args : List RespValue) : (pttlCommand args).KeepsAll P :=
  .bind (keeps_argString _ _) fun key => .bind (DbM.keepsAll_pttl key) fun _ => .pure _

theorem keepsAll_persistCommand (args : List RespValue) : (persistCommand args).KeepsAll P :=
  .bind (keeps_argString _ _) fun key => .bind
    (DbM.keepsAll_call fun s hs => hs.of_within (s.within_eraseExpires key)) fun _ => .pure _

theorem keepsAll_renameCommand (args : List RespValue) : (renameCommand args).KeepsAll P :=
  .bind (keeps_argString _ _) fun oldKey => .bind (keeps_argString _ _) fun newKey =>
    .bind (DbM.keepsAll_call fun _ hs => hs.rename oldKey newKey) fun _ => .ite (.pure _) (.pure _)

/-- A command that looks at the object of a key. -/
theorem keepsAll_lookAt {key : Bytes} {f : Option (RedisObject S) → DbM S α}
    (hf : ∀ obj, (f obj).KeepsAll P) : (DbM.getObject key >>= f).KeepsAll P :=
  .bind (DbM.keepsAll_getObject key) hf

theorem keepsAll_lrangeCommand (args : List RespValue) : (lrangeCommand args).KeepsAll P := by
  refine .bind (keeps_argString _ _) fun key => .bind (keeps_argConverted _ _ _) fun start =>
    .bind (keeps_argConverted _ _ _) fun stop => ?_
  split
  · refine keepsAll_lookAt fun obj => ?_
    split
    · exact .pure _
    · split <;> exact .pure _
  · exact .pure _

theorem keepsAll_llenCommand (args : List RespValue) : (llenCommand args).KeepsAll P := by
  refine .bind (keeps_argString _ _) fun key => keepsAll_lookAt fun obj => ?_
  split
  · exact .pure _
  · split <;> exact .pure _

theorem keepsAll_hgetCommand (args : List RespValue) : (hgetCommand args).KeepsAll P := by
  refine .bind (keeps_argString _ _) fun key => .bind (keeps_argString _ _) fun field =>
    keepsAll_lookAt fun obj => ?_
  split
  · exact .pure _
  · split
    · split <;> exact .pure _
    · exact .pure _

theorem keepsAll_hgetallCommand (args : List RespValue) : (hgetallCommand args).KeepsAll P := by
  refine .bind (keeps_argString _ _) fun key => keepsAll_lookAt fun obj => ?_
  split
  · exact .pure _
  · split <;> exact .pure _

theorem keepsAll_sismemberCommand (args : List RespValue) : (sismemberCommand args).KeepsAll P := by
  refine .bind (keeps_argString _ _) fun key => .bind (keeps_argString _ _) fun member =>
    keepsAll_lookAt fun obj => ?_
  split
  · exact .pure _
  · split <;> exact .pure _

theorem keepsAll_smembersCommand (args : List RespValue) : (smembersCommand args).KeepsAll P := by
  refine .bind (keeps_argString _ _) fun key => keepsAll_lookAt fun obj => ?_
  split
  · exact .pure _
  · split <;> exact .pure _

theorem keepsAll_withScoresOption (args : List RespValue) :
    (withScoresOption args : DbM S _).KeepsAll P := by
  unfold withScoresOption
  split
  · exact .pure _
  · exact .bind (.ofExcept _) fun _ => .ite (.pure _) (.pure _)

theorem keepsAll_zrangeCommand [Double S] [Inhabited S] (args : List RespValue) : (zrangeCommand args).KeepsAll P := by
  refine .bind (keepsAll_withScoresOption args) fun withScores => ?_
  split
  · exact .pure _
  · refine .bind (keeps_argString _ _) fun key => .bind (keeps_argConverted _ _ _) fun start =>
      .bind (keeps_argConverted _ _ _) fun stop => ?_
    split
    · refine keepsAll_lookAt fun obj => ?_
      split
      · exact .pure _
      · split <;> exact .pure _
    · exact .pure _

theorem keepsAll_zrankCommand [Inhabited S] [LT S] [DecidableLT S] [BEq S] (args : List RespValue) :
    (zrankCommand args).KeepsAll P := by
  refine .bind (keeps_argString _ _) fun key => .bind (keeps_argString _ _) fun member =>
    keepsAll_lookAt fun obj => ?_
  split
  · exact .pure _
  · split
    · exact .ite (.pure _) (.pure _)
    · exact .pure _

theorem keepsAll_zscoreCommand [Double S] (args : List RespValue) : (zscoreCommand args).KeepsAll P := by
  refine .bind (keeps_argString _ _) fun key => .bind (keeps_argString _ _) fun member =>
    keepsAll_lookAt fun obj => ?_
  split
  · exact .pure _
  · split
    · split <;> exact .pure _
    · exact .pure _

/-! #### Storing strings -/

section Strings

variable (hP : ∀ str, P (.string str))
include hP

theorem DbM.keepsAll_set (key value : Bytes) : (DbM.set key value).KeepsAll P :=
  keepsAll_call fun _ hs => hs.set hP key value

omit hP in
/-- The options are read from the arguments. By induction on them. -/
theorem keepsAll_setOptions (args : List RespValue) :
    ∀ o, (setOptions o args : DbM S _).KeepsAll P := by
  induction args using List.twoStepInduction with
  | nil => exact fun _ => .pure _
  | singleton arg => exact fun _ => .bind (.ofExcept _) fun _ => .ite (.pure _) (.ite (.pure _) (.pure _))
  | cons_cons arg value rest ih ih' =>
    intro o
    refine .bind (.ofExcept _) fun flag => .ite (ih' _ _) (.ite (ih' _ _) (.ite ?_ (.ite ?_ (ih' _ _))))
    · split
      · exact .pure _
      · exact ih _
    · split
      · exact .pure _
      · exact ih _

theorem keepsAll_setWith (key value : Bytes) (o : SetOptions) : (setWith key value o).KeepsAll P := by
  have hstore : (do
      DbM.set key value
      if 0 < o.expiryMs then
        let _ ← DbM.setExpiry key o.expiryMs
      return (ok, true) : DbM S _).KeepsAll P := by
    refine .bind (DbM.keepsAll_set hP key value) fun _ => ?_
    split
    · exact .bind (DbM.keepsAll_setExpiry key _) fun _ => .pure _
    · exact .pure _
  -- what follows the look at the key for `XX`, and that for `NX`
  have hxx (present : Bool) : (if !present then return (nullBulkString, false) else do
      DbM.set key value
      if 0 < o.expiryMs then
        let _ ← DbM.setExpiry key o.expiryMs
      return (ok, true) : DbM S _).KeepsAll P := .ite (.pure _) hstore
  have hnx (present : Bool) := Program.Keeps.ite (c := present = true)
    (Program.Keeps.pure (nullBulkString, false))
    (Program.Keeps.ite (c := o.xx = true) (.bind (DbM.keepsAll_contains key) hxx)
      (.bind (.pure true) hxx))
  exact .ite (.bind (DbM.keepsAll_contains key) hnx) (.bind (.pure false) hnx)

theorem keepsAll_setCommand (args : List RespValue) : (setCommand args).KeepsAll P := by
  refine .bind (keeps_argString _ _) fun key => .bind (keeps_argString _ _) fun value =>
    .bind (keepsAll_setOptions _ _) fun o => ?_
  cases o with
  | error reply => exact .pure _
  | ok o => exact keepsAll_setWith hP key value o

/-- The loop of `MSET`. By induction on the arguments. -/
theorem keepsAll_setPairs (args : List RespValue) : (setPairs args).KeepsAll P := by
  induction args using List.twoStepInduction with
  | nil => exact .pure _
  | singleton arg => exact .pure _
  | cons_cons key value rest ih _ =>
    exact .bind (.ofExcept _) fun key => .bind (.ofExcept _) fun value =>
      .bind (DbM.keepsAll_set hP key value) fun _ => ih

theorem keepsAll_msetCommand (args : List RespValue) : (msetCommand args).KeepsAll P :=
  .ite (.pure _) (.bind (keepsAll_setPairs hP _) fun _ => .pure _)

theorem DbM.keepsAll_incrby (key : Bytes) (increment : ℤ) : (DbM.incrby key increment).KeepsAll P :=
  keepsAll_call fun _ hs => hs.incrby hP key increment

theorem keepsAll_incrCommand (args : List RespValue) : (incrCommand args).KeepsAll P :=
  .bind (keeps_argString _ _) fun key => .bind (DbM.keepsAll_incrby hP key _) fun _ => .pure _

theorem keepsAll_decrCommand (args : List RespValue) : (decrCommand args).KeepsAll P :=
  .bind (keeps_argString _ _) fun key => .bind (DbM.keepsAll_incrby hP key _) fun _ => .pure _

theorem keepsAll_incrbyWith (increment : ℤ → ℤ) (args : List RespValue) :
    (incrbyWith increment args).KeepsAll P := by
  refine .bind (keeps_argConverted _ _ _) fun n => ?_
  cases n with
  | none => exact .pure _
  | some n =>
    exact .bind (keeps_argString _ _) fun key => .bind (DbM.keepsAll_incrby hP key _) fun _ => .pure _

theorem keepsAll_appendCommand (args : List RespValue) : (appendCommand args).KeepsAll P :=
  .bind (keeps_argString _ _) fun key => .bind (keeps_argString _ _) fun value =>
    .bind (DbM.keepsAll_call fun _ hs => hs.append hP key value) fun length => by
      cases length <;> exact .pure _

theorem keepsAll_setnxCommand (args : List RespValue) : (setnxCommand args).KeepsAll P :=
  .bind (keeps_argString _ _) fun key => .bind (DbM.keepsAll_contains key) fun _ =>
    .ite (.pure _) (.bind (keeps_argString _ _) fun value =>
      .bind (DbM.keepsAll_set hP key value) fun _ => .pure _)

end Strings

end Plain

end RedisDb
