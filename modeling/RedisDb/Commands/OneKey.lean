import RedisDb.Commands.Collections
import RedisDb.Storage.DatabaseExpiry

/-!
# Commands on one key

What a command does that looks up a key and works on what it finds there, in terms of what the key shows. A key shows
a value as long as it has not expired (`Database.valueAt`), so looking at it does not change what it shows, and
neither does it change the other keys.

`DbState.Points` is the state of a command that has a pointer: the object is at the key and does not expire, the
deadline is the one that the key began with, if it showed anything then, and all other keys are as they were. Writing
through the pointer keeps this (`Points.putObject`), so a loop that does so many times keeps it too. A command ends
with the key showing the last value (`Points.changesTo`) or deleted (`Points.del`). A new object has no deadline,
since storing one erases what is in `expires_` (`points_setObject`).
-/

namespace RedisDb

variable {S : Type}

namespace Database

/-- What a key shows at a time: a value, or nothing where the key is absent or has expired. -/
def valueAt (db : Database S) (now : ℤ) (key : Bytes) : Option (Value S) := (db.visible now key).map (·.value)

/-- The other keys have the objects and the deadlines they had. -/
def KeepsOthers (key : Bytes) (db db' : Database S) : Prop :=
  ∀ k, k ≠ key → db'.data.lookup k = db.data.lookup k ∧ db'.expires.lookup k = db.expires.lookup k

/-- All keys have the values and the deadlines they had. -/
def SameValues (db db' : Database S) : Prop :=
  ∀ k, (db'.data.lookup k).map (·.value) = (db.data.lookup k).map (·.value) ∧
    db'.expires.lookup k = db.expires.lookup k

/-- One key has come to show `v`, by the deadline it had if it has shown anything before, and the others are as they
were. -/
structure ChangesTo (now : ℤ) (key : Bytes) (v : Option (Value S)) (db db' : Database S) : Prop where
  value : db'.valueAt now key = v
  present : key ∈ db'.data ↔ v.isSome
  deadline : v.isSome → db'.expires.lookup key = if (db.valueAt now key).isSome then db.expires.lookup key else none
  others : KeepsOthers key db db'

variable {db db' db'' : Database S} {now : ℤ} {key : Bytes}

/-- Nothing changes. -/
theorem KeepsOthers.refl (key : Bytes) (db : Database S) : KeepsOthers key db db := fun _ _ => ⟨rfl, rfl⟩

/-- What stays twice stays. -/
theorem KeepsOthers.trans (h : KeepsOthers key db db') (h' : KeepsOthers key db' db'') :
    KeepsOthers key db db'' := fun k hk => ⟨(h' k hk).1.trans (h k hk).1, (h' k hk).2.trans (h k hk).2⟩

/-- A key that has not expired shows its object. -/
theorem valueAt_of_live {obj : RedisObject S} (hobj : db.data.lookup key = some obj) (hlive : ¬db.Expired now key) :
    db.valueAt now key = some obj.value := by
  rw [valueAt, visible, if_neg hlive, hobj, Option.map_some]

/-- A key without an object shows nothing. -/
theorem valueAt_of_absent (hobj : db.data.lookup key = none) : db.valueAt now key = none := by
  rw [valueAt, visible, hobj, ite_self, Option.map_none]

/-- Nor does one that has expired. -/
theorem valueAt_of_expired (hexpired : db.Expired now key) : db.valueAt now key = none := by
  rw [valueAt, visible, if_pos hexpired, Option.map_none]

/-- A value that is shown is in the database. -/
theorem All.of_valueAt {P : Value S → Prop} (h : db.All P) {v : Value S} (hv : db.valueAt now key = some v) : P v := by
  obtain ⟨obj, hobj, rfl⟩ := Option.map_eq_some_iff.mp hv
  unfold visible at hobj
  split at hobj
  · cases hobj
  · exact h key obj hobj

end Database

namespace DbState

open Database (KeepsOthers SameValues ChangesTo)

/-- **The pointer of a command** that has begun in the one state and is now in the other: the object it points to is at
the key, and does not expire. -/
structure Points (now : ℤ) (key : Bytes) (obj : RedisObject S) (s t : DbState S) : Prop where
  here : t.db.data.lookup key = some obj
  live : ¬t.db.Expired now key
  deadline : t.db.expires.lookup key =
    if (s.db.valueAt now key).isSome then s.db.expires.lookup key else none
  others : KeepsOthers key s.db t.db

variable {now : ℤ} {key : Bytes} {obj : RedisObject S} {s t : DbState S}

namespace Points

/-- Another object is written through the pointer. -/
theorem putObject [Platform] (h : Points now key obj s t) (new : RedisObject S) : Points now key new s (t.putObject key new) where
  here := AList.lookup_insert _
  live := h.live
  deadline := h.deadline
  others := h.others.trans fun _ hk => ⟨AList.lookup_insert_ne hk, rfl⟩

/-- At the end the key shows what is at the pointer. -/
theorem changesTo (h : Points now key obj s t) : ChangesTo now key (some obj.value) s.db t.db where
  value := Database.valueAt_of_live h.here h.live
  present := iff_of_true (mem_iff_lookup.mpr ⟨obj, h.here⟩) rfl
  deadline _ := h.deadline
  others := h.others

variable [Platform]

/-- Or it is deleted, and shows nothing. -/
theorem del (h : Points now key obj s t) : ChangesTo now key none s.db (t.del key).2.db := by
  obtain ⟨-, hdata, hexpires, -⟩ := t.del_spec key
  have hgone : (t.del key).2.db.data.lookup key = none := by rw [hdata, if_pos rfl]
  refine ⟨Database.valueAt_of_absent hgone, iff_of_false (fun hkey => ?_) nofun, nofun, h.others.trans fun k hk => ?_⟩
  · obtain ⟨obj', hobj'⟩ := mem_iff_lookup.mp hkey
    cases hgone.symm.trans hobj'
  · rw [hdata, if_neg hk, hexpires]
    exact ⟨rfl, AList.lookup_erase_ne hk⟩

end Points

end DbState

namespace DbState

open Database (KeepsOthers SameValues ChangesTo)

variable [Platform] {now : ℤ} {key : Bytes} {s t : DbState S}

omit [Platform] in
/-- A key that has gone away shows nothing. -/
theorem changesTo_none (hgone : t.db.data.lookup key = none) (hothers : KeepsOthers key s.db t.db) :
    ChangesTo now key none s.db t.db where
  value := Database.valueAt_of_absent hgone
  present := iff_of_false (fun hkey => by
    obtain ⟨obj, hobj⟩ := mem_iff_lookup.mp hkey
    cases hgone.symm.trans hobj) nofun
  deadline := nofun
  others := hothers

/-- **Looking a key up**: what is not there is not shown, and what is there is shown. Either the deadline of the key
has passed, and the key goes, or the object stays, with another time of access. -/
theorem getObject_spec (key : Bytes) (s : DbState S) :
    match (s.getObject key).1 with
    | none => s.db.valueAt (s.clock 0) key = none ∧ (s.getObject key).2.db.data.lookup key = none ∧
        KeepsOthers key s.db (s.getObject key).2.db
    | some obj => s.db.valueAt (s.clock 0) key = some obj.value ∧
        Points (s.clock 0) key obj s (s.getObject key).2 ∧ SameValues s.db (s.getObject key).2.db := by
  unfold getObject
  -- the key is live, or its deadline has passed
  rcases s.checkAndExpire_spec key with ⟨hlive, hno, hdb, -⟩ | ⟨deadline, hd, hpast, hyes, -, hexpires, hdata⟩
  · rcases hx : s.checkAndExpire key with ⟨expired, u⟩
    rw [hx] at hno hdb
    obtain rfl : expired = false := hno
    obtain ⟨env, db⟩ := u
    obtain rfl : db = s.db := hdb
    simp only [Bool.false_eq_true, if_false]
    cases hobj : s.db.data.lookup key with
    | none => exact ⟨Database.valueAt_of_absent hobj, hobj, .refl key s.db⟩
    | some obj =>
      have hshown := Database.valueAt_of_live hobj hlive
      -- the object is there, and gets another time of access
      refine ⟨hshown, ⟨AList.lookup_insert _, hlive, ?_, fun k hk => ⟨AList.lookup_insert_ne hk, rfl⟩⟩,
        fun k => ⟨?_, rfl⟩⟩
      · rw [hshown, Option.isSome_some, if_pos rfl]
      · rw [UnorderedMap.lookup_insert_eq_ite]
        split
        · next hk => rw [hk, hobj]; rfl
        · rfl
  · rcases hx : s.checkAndExpire key with ⟨expired, u⟩
    rw [hx] at hyes hexpires hdata
    -- the key has expired, and goes
    obtain rfl : expired = true := hyes
    refine ⟨Database.valueAt_of_expired ⟨deadline, hd, hpast⟩, ?_, fun k hk => ⟨?_, ?_⟩⟩
    · exact (hdata key).trans (if_pos rfl)
    · exact (hdata k).trans (if_neg hk)
    · show u.db.expires.lookup k = _
      rw [show u.db.expires = s.db.expires.erase key from hexpires]
      exact AList.lookup_erase_ne hk

/-- **A new object** at a key that has shown nothing, and the pointer to it. -/
theorem points_setObject (hnone : s.db.valueAt now key = none) (hothers : KeepsOthers key s.db t.db)
    (obj : RedisObject S) : ∃ new u, (t.setObject key obj).getObject key = (some new, u) ∧
      new.value = obj.value ∧ Points now key new s u := by
  obtain ⟨lruClock, hdata⟩ := t.store_data key obj
  have hexpires : (t.setObject key obj).db.expires = t.db.expires.erase key := store_expires ..
  have hdeadline : (t.setObject key obj).db.expires.lookup key = none := hexpires ▸ AList.lookup_erase key _
  have hthere : (t.setObject key obj).db.data.lookup key = some { obj with lruClock := lruClock } := by
    rw [setObject, hdata]
    exact AList.lookup_insert _
  -- storing has erased the deadline, so looking at the key does not expire it
  have hlive (now : ℤ) : ¬(t.setObject key obj).db.Expired now key := by
    rintro ⟨_, hd, _⟩
    cases hdeadline.symm.trans hd
  -- the object is read back, which sets its time of access
  have hspec := getObject_spec key (t.setObject key obj)
  rcases hx : (t.setObject key obj).getObject key with ⟨r, u⟩
  rw [hx, Database.valueAt_of_live hthere (hlive _)] at hspec
  cases r with
  | none => cases hspec.1
  | some new =>
    obtain ⟨hvalue, hpoints, -⟩ := hspec
    have hnodeadline : u.db.expires.lookup key = none := by
      rw [hpoints.deadline, hdeadline, ite_self]
    refine ⟨new, u, rfl, (Option.some.inj hvalue).symm, hpoints.here, ?_, ?_, ?_⟩
    · rintro ⟨_, hd, _⟩
      cases hnodeadline.symm.trans hd
    · rw [hnone, hnodeadline]
      rfl
    · refine (hothers.trans fun k hk => ⟨?_, ?_⟩).trans hpoints.others
      · rw [setObject, hdata]
        exact AList.lookup_insert_ne hk
      · rw [hexpires]
        exact AList.lookup_erase_ne hk

end DbState

namespace DbM

open DbState Database Program

variable [Platform]

/-- **A command that looks its key up**: what it does where there is nothing, and what it does with the pointer. -/
theorem ends_getObject_bind {α : Type} {f : Option (RedisObject S) → DbM S α} {Q : α → DbState S → Prop} {key : Bytes}
    {s : DbState S}
    (hnone : ∀ t, s.db.valueAt (s.clock 0) key = none → ChangesTo (s.clock 0) key none s.db t.db → (f none).Ends t Q)
    (hsome : ∀ obj t, s.db.valueAt (s.clock 0) key = some obj.value → Points (s.clock 0) key obj s t →
      SameValues s.db t.db → (f (some obj)).Ends t Q) :
    (DbM.getObject key >>= f).Ends s Q := by
  have hspec := getObject_spec key s
  rcases hx : s.getObject key with ⟨r, t⟩
  rw [hx] at hspec
  have hget : (DbM.getObject key).Ends s fun a u => a = r ∧ u = t := ⟨r, t, congrArg some (by rw [hx]), rfl, rfl⟩
  refine hget.bind fun a u ⟨ha, hu⟩ => ?_
  subst ha hu
  cases a with
  | none => exact hnone _ hspec.1 (changesTo_none hspec.2.1 hspec.2.2)
  | some obj => exact hsome obj _ hspec.1 hspec.2.1 hspec.2.2

/-- **A command that adds** has a pointer to what the key has shown, or to a new value. -/
theorem ends_objectForAdd (key : Bytes) (v : Value S) (s : DbState S) :
    (DbM.objectForAdd key v).Ends s fun obj t => Points (s.clock 0) key obj s t ∧
      ((s.db.valueAt (s.clock 0) key = some obj.value ∧ SameValues s.db t.db) ∨
        s.db.valueAt (s.clock 0) key = none ∧ obj.value = v) := by
  refine ends_getObject_bind (fun t hnone hgone => ?_) fun obj t hshown hpoints hsame => ?_
  · obtain ⟨new, u, hget, hvalue, hpoints⟩ := points_setObject hnone hgone.others { value := v }
    refine ⟨new, u, ?_, hpoints, .inr ⟨hnone, hvalue⟩⟩
    show (DbM.setObject key { value := v } >>= fun _ => DbM.getObjectForWrite key >>= Program.ofOption).run t = _
    have hread : (DbM.getObjectForWrite key).run (t.setObject key { value := v }) = some (.ok (some new), u) :=
      congrArg some (by rw [DbState.getObjectForWrite, hget])
    rw [run_bind_ok (show (DbM.setObject key { value := v }).run t = _ from rfl), run_bind_ok hread]
    rfl
  · exact ends_pure ⟨hpoints, .inl ⟨hshown, hsame⟩⟩

end DbM

end RedisDb
