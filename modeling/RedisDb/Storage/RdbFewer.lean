import RedisDb.Storage.RdbRoundTrip

/-!
# Loading a snapshot into fewer databases

A key of a database that is not there is left where it is by `loadFromFile`: its name is read, and its value
is not. What follows is taken for the next opcode. So nothing is lost of the databases that are there if
nothing has to be left out of the others (`rdb_load_fewer`); one string is enough to throw the reader out
of step (`skipped_string_throws`).
-/

namespace RedisDb

open Rdb

variable {S : Type}

section Skip

variable [Platform] [Inhabited S] [LinearOrder S] {now : ℤ}

omit [Platform] [LinearOrder S] in
theorem fileItems_append (dbs dbs' : List (Database S)) : ∀ i,
    fileItems now i (dbs ++ dbs') = fileItems now i dbs ++ fileItems now (i + dbs.length) dbs' := by
  induction dbs with
  | nil => exact fun i => rfl
  | cons db dbs ih =>
    intro i
    rw [List.cons_append, fileItems, fileItems, ih, List.append_assoc, List.length_cons,
      Nat.add_assoc, Nat.add_comm 1]

/-- Databases without a live key are read past, whether they are there or not. By induction on them. -/
theorem skip_databases (saved : List (Database S)) : ∀ {st : LoadState S} {i : ℕ},
    i + saved.length < 2 ^ 64 → (∀ db ∈ saved, liveKeys now db = []) →
    ItemsFit (fileItems now i saved) st ∧
      ((fileItems now i saved).foldl Item.apply st).databases = st.databases := by
  induction saved with
  | nil => exact fun _ _ => ⟨trivial, rfl⟩
  | cons db rest ih =>
    intro st i hi hnone
    rw [List.length_cons] at hi
    have hrest (st' : LoadState S) := @ih st' (i + 1) (by omega) fun d hd =>
      hnone d (List.mem_cons_of_mem db hd)
    rw [fileItems, itemsFit_append, List.foldl_append]
    by_cases hsize : db.size = 0
    · rw [databaseItems, if_pos hsize]
      exact ⟨⟨trivial, (hrest st).1⟩, (hrest st).2⟩
    · -- the opcodes select the database, which nothing is then stored in
      have hfitsNil : ItemsFit ([] : List (Item S)) { st with currentDb := asInt i } := trivial
      obtain ⟨hfits, hfold⟩ := loads_database db.size db.expiresSize (show i < 2 ^ 64 by omega) hfitsNil
      rw [databaseItems, if_neg hsize, hnone db List.mem_cons_self, List.flatMap_nil, hfold, List.foldl_nil]
      obtain ⟨hfits', hsame⟩ := hrest { st with currentDb := asInt i }
      exact ⟨⟨hfits, hfits'⟩, hsame⟩

/-- **The databases that are there** are brought back, if the others have no live key. The databases that are there
are loaded as in the round trip. From the others only the selections and sizes are left in the file, and these are
read without effect. -/
theorem rdb_load_fewer [Double S] {dbs target : List (Database S)} (hdbs : ∀ db ∈ dbs, db.Reachable)
    (hfits : ∀ db ∈ dbs, db.Fits) (hlength : dbs.length < 2 ^ 64) (hfewer : target.length ≤ dbs.length)
    (hsave : ∀ db ∈ dbs, Savable now db)
    (hfew : target.length < 2 ^ 31 ∨ ∀ db ∈ dbs, liveKeys now db = [])
    (hskip : ∀ db ∈ dbs.drop target.length, liveKeys now db = []) {env : Env}
    (hclock : env.clock = fun _ => now) (env' : Env) (junk : ℕ → UInt8) (seeds : ℕ → ℕ → Height) :
    RoundTrips now (dbs.take target.length) dbs target env env' junk seeds := by
  obtain ⟨kept, hkept⟩ : ∃ kept, kept = dbs.take target.length := ⟨_, rfl⟩
  have hkeptLength : kept.length = target.length := by rw [hkept, List.length_take]; omega
  have hmem : ∀ db ∈ kept, db ∈ dbs := fun db hdb => List.mem_of_mem_take (hkept ▸ hdb)
  have hrestores : ∀ db ∈ dbs, Restores now db (db.live now) := fun db hdb =>
    (snapshotOf_self db).restores (hdbs db hdb).wf (hfits db hdb) (hsave db hdb)
  obtain ⟨hok, hfile⟩ := saveToFile_eq hclock fun db hdb =>
    (snapshotOf_self db).writableDb (hdbs db hdb).wf (hsave db hdb)
  obtain ⟨hflushed, hempty⟩ := flushAll_spec target env'
  obtain ⟨st, hst⟩ : ∃ st, st = LoadState.initial target env' seeds := ⟨_, rfl⟩
  have hcount : st.databases.length = target.length := by rw [hst]; exact hflushed
  -- the databases that are there are loaded into empty ones
  have hinto (want : ℕ → Bytes → Option (Content S × Option ℤ)) :=
    @load_databases S _ _ _ now want kept st 0
  obtain ⟨hitems, hlength', -, hdata⟩ := hinto (fun i key => (kept[i]?).elim none fun db => db.live now key)
    (show st.hasExpire = false by rw [hst]; rfl) (show _ = 0 + _ by omega) (by omega)
    (fun j _ db₀ h key => Database.dataset_of_empty
      (hempty db₀ (List.mem_of_getElem? (by rw [hst] at h; exact h))) key)
    (fun j db hj => by
      simpa only [Nat.zero_add, hj, Option.elim_some] using hrestores db (hmem db (List.mem_of_getElem? hj)))
    (by rw [hcount]; exact hfew.imp_right fun h db hdb => h db (hmem db hdb))
  -- and then the others are read past
  obtain ⟨loaded, hloaded⟩ : ∃ loaded, loaded = (fileItems now 0 kept).foldl Item.apply st := ⟨_, rfl⟩
  obtain ⟨hitems', hsame⟩ := @skip_databases S _ _ _ now (dbs.drop target.length) loaded (0 + kept.length)
    (by rw [List.length_drop]; omega) hskip
  rw [hloaded] at hitems' hsame
  have hsplit : fileItems now 0 dbs
      = fileItems now 0 kept ++ fileItems now (0 + kept.length) (dbs.drop target.length) := by
    rw [← fileItems_append, hkept, List.take_append_drop]
  have hall : ItemsFit (fileItems now 0 dbs) st := by
    rw [hsplit, itemsFit_append]
    exact ⟨hitems, hitems'⟩
  rw [hst] at hall
  obtain ⟨env'', hload⟩ := loadFromFile_spec junk hall
  rw [← hst, hsplit, List.foldl_append, hsame] at hload
  rw [← hkept]
  refine ⟨hok, _, env'', by rw [hfile, hsplit]; exact hload, by omega, fun i db₁ db hdb₁ hdb key => ?_⟩
  have hloaded := hdata i (Nat.zero_le i) db₁ hdb₁ key
  simpa only [hdb, Option.elim_some] using hloaded

end Skip

/-! ### One string too many -/

section Sample

open Sample

/-- One string of one byte, the largest. -/
def stringDb : Database Score := (DbState.set (str "k") [255] { idleEnv with db := {} }).db

/-- What a snapshot needs of a database. -/
def Saves (db : Database Score) : Prop := db.Reachable ∧ db.Fits ∧ Savable 0 db

theorem saves_empty : Saves {} := ⟨.new, by decide +kernel, by decide +kernel⟩

theorem saves_stringDb : Saves stringDb :=
  ⟨Database.Reachable.set (s := { idleEnv with db := ({} : Database Score) }) .new (str "k") [255],
    by decide +kernel, by decide +kernel⟩

/-- The deadline of the only key in the second database has passed when the snapshot is made. -/
theorem rdb_load_fewer_expired :
    RoundTrips 70000 [stringDb] [stringDb, volatileDb] [{}] { idleEnv with clock := fun _ => 70000 } idleEnv
      (fun _ => 0) (fun _ _ => ⟨1, by decide⟩) := by
  have hreachable : ∀ db ∈ [stringDb, volatileDb], db.Reachable := by
    simp only [List.forall_mem_cons, saves_stringDb.1, reachable_volatileDb, List.not_mem_nil, false_implies,
      implies_true, and_self]
  have hfits : ∀ db ∈ [stringDb, volatileDb], db.Fits := by decide +kernel
  have hsave : ∀ db ∈ [stringDb, volatileDb], Savable 70000 db := by decide +kernel
  have hskip : ∀ db ∈ [volatileDb], liveKeys 70000 db = [] := by decide +kernel
  exact @rdb_load_fewer Score _ _ _ 70000 _ _ [{}] hreachable hfits (by simp) (by simp) hsave (.inl (by simp)) hskip
    _ rfl _ _ _

/-- A string in the second of two databases: its length is taken for an opcode, and what follows for the
length of a string that is too long to be made. -/
theorem skipped_string_throws : ¬∀ (dbs target : List (Database Score)) (junk : ℕ → UInt8)
    (seeds : ℕ → ℕ → Height), (∀ db ∈ dbs, Saves db) → 0 < target.length → target.length < dbs.length →
    RoundTrips 0 (dbs.take target.length) dbs target idleEnv idleEnv junk seeds := by
  intro hall
  obtain ⟨-, loaded, env, hload, -⟩ := hall [{}, stringDb] [{}] (fun _ => 0) (fun _ _ => ⟨1, by decide⟩)
    (by simp [saves_empty, saves_stringDb]) (by simp) (by simp)
  have hthrown : (loadFromFile (S := Score) (some (saveToFile true [{}, stringDb] idleEnv).2.1) (fun _ => 0)
      (fun _ _ => ⟨1, by decide⟩) [{}] idleEnv).isOk = false := by decide +kernel
  rw [hload] at hthrown
  cases hthrown

end Sample

end RedisDb
