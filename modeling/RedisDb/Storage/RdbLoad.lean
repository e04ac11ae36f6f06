import RedisDb.Storage.RdbRoundTrip
import RedisDb.Storage.WatchedKeys

/-!
# Loading any file

`loadFromFile` empties the databases as soon as it has seen the magic, and decodes straight into them.
What it does is all or nothing (`Rdb.AllOrNothing`) exactly for two kinds of file: one that cannot be
opened or does not begin with the magic, and one that is complete (`Rdb.IsComplete`). Every other file
leaves the databases changed although it is refused, or is accepted although it is not complete, or is
not survived (`rdb_load_all_or_nothing`).
-/

namespace RedisDb
namespace Rdb

variable {S : Type} [Double S]

/-! ### Complete files -/

/-- The parts of a file, with the deadline in seconds that the writer does not use. -/
inductive Entry (S : Type) where
  | item (item : Item S)
  | expireTime (seconds : ℕ)

/-- The encoding of an entry. -/
def Entry.bytes : Entry S → Bytes
  | .item i => i.bytes
  | .expireTime seconds => opcodeExpireTime :: LittleEndian.bytes 4 seconds

/-- The bytes of a file up to the opcode at its end, which the checksum sums up. -/
def entryBytes (entries : List (Entry S)) : Bytes :=
  magic ++ (entries.flatMap Entry.bytes ++ [opcodeEof])

variable [Platform] [Inhabited S] [LT S] [DecidableLT S] [BEq S]

omit [Double S] in
/-- What an entry does to the variables of the loop. -/
def Entry.apply (st : LoadState S) : Entry S → LoadState S
  | .item i => i.apply st
  | .expireTime seconds => { st with expireMs := seconds * 1000, hasExpire := true }

omit [Double S] [Platform] [Inhabited S] [LT S] [DecidableLT S] [BEq S] in
/-- The numbers of an entry fit their types, and a key belongs to a database that is there. -/
def Entry.Fits (st : LoadState S) : Entry S → Prop
  | .item i => i.Fits st
  | .expireTime seconds => seconds < 2 ^ 32

omit [Double S] in
/-- The entries fit one after another. -/
def EntriesFit : List (Entry S) → LoadState S → Prop
  | [], _ => True
  | entry :: entries, st => entry.Fits st ∧ EntriesFit entries (entry.apply st)

/-- The contents are one complete file of these entries: the magic, the entries, the opcode at the end,
and a checksum that is zero or matches, with nothing behind it. -/
structure IsComplete (contents : Bytes) (entries : List (Entry S)) (st : LoadState S) : Prop where
  fits : EntriesFit entries st
  contents : ∃ sum < 2 ^ 64, (sum = 0 ∨ sum = (crc64Update 0 (entryBytes entries)).toNat) ∧
    contents = entryBytes entries ++ LittleEndian.bytes 8 sum

/-- What the nine bytes of `magic` are after `in.read`: bytes that are not read stay as they are. -/
def header (contents : Bytes) (junk : ℕ → UInt8) : Bytes :=
  contents.take 9 ++ ((List.range 9).map junk).drop (contents.take 9).length

/-- **All or nothing**: the result is true, the contents are a complete file and the databases its
decoding, or the result is false and the databases are what they were. Nothing is thrown. -/
def AllOrNothing (file : Option Bytes) (junk : ℕ → UInt8) (seeds : ℕ → ℕ → Height)
    (databases : List (Database S)) (env : Env) : Prop :=
  (∃ contents entries env', file = some contents ∧
    IsComplete contents entries (.initial databases env seeds) ∧
    loadFromFile file junk seeds databases env = .ok (true,
      (entries.foldl Entry.apply (LoadState.initial databases env seeds)).databases, env')) ∨
  ∃ env', loadFromFile file junk seeds databases env = .ok (false, databases, env')

/-! ### The loop takes the entries off -/

theorem loadLoop_entry {st : LoadState S} {entry : Entry S} (hfits : entry.Fits st) {r : Reader}
    {tail : Bytes} (hr : r.rest = entry.bytes ++ tail) (hf : r.failed = false) (fuel : ℕ) :
    ∃ r', loadLoop (fuel + 1) st r = loadLoop fuel (entry.apply st) r' ∧ r.Took entry.bytes r' := by
  cases entry with
  | item i => exact loadLoop_item hfits hr hf fuel
  | expireTime seconds =>
    obtain ⟨r₁, h₁, htook₁⟩ := Reader.readByte_spec
      (show r.rest = opcodeExpireTime :: (LittleEndian.bytes 4 seconds ++ tail) from hr) hf
    have hrest : r₁.rest = LittleEndian.bytes 4 seconds ++ tail := htook₁.rest_eq hr
    obtain ⟨r₂, h₂, htook₂⟩ := Reader.readNew_update hrest htook₁.ready'
    rw [LittleEndian.length_bytes] at h₂
    -- the byte is there, so the loop does not end here, and it is the opcode of a deadline in seconds
    have heof : r.atEof = false := by simp [Reader.atEof, hf, hr, Entry.bytes]
    have hvalue : LittleEndian.value (LittleEndian.bytes 4 seconds) = seconds :=
      LittleEndian.value_bytes (by norm_num; exact hfits)
    refine ⟨r₂.update (LittleEndian.bytes 4 seconds), ?_, htook₁.trans htook₂⟩
    simp only [loadLoop, heof, Bool.false_eq_true, if_false, h₁,
      if_neg (show opcodeExpireTime ≠ opcodeEof by decide), loadOpcode,
      if_neg (show opcodeExpireTime ≠ opcodeSelectDb by decide),
      if_neg (show opcodeExpireTime ≠ opcodeResizeDb by decide), if_true, h₂, hvalue]
    rfl

/-- By induction on the entries. -/
theorem loadLoop_entries (entries : List (Entry S)) : ∀ {st : LoadState S} {r : Reader} {tail : Bytes}
    {fuel : ℕ}, EntriesFit entries st → entries.length < fuel →
    r.rest = entries.flatMap Entry.bytes ++ [opcodeEof] ++ tail → r.failed = false →
    ∃ r', loadLoop fuel st r = .ok (entries.foldl Entry.apply st, r') ∧
      r.Took (entries.flatMap Entry.bytes ++ [opcodeEof]) r' := by
  induction entries with
  | nil =>
    intro st r tail fuel _ hfuel hr hf
    exact loadLoop_items [] trivial hfuel hr hf
  | cons entry entries ih =>
    intro st r tail fuel hfits hfuel hr hf
    obtain ⟨fuel, rfl⟩ := Nat.exists_eq_succ_of_ne_zero (Nat.ne_of_gt (Nat.zero_lt_of_lt hfuel))
    -- what follows the first entry is the text of the others
    rw [List.flatMap_cons, List.append_assoc, List.append_assoc] at hr
    obtain ⟨r₁, h₁, htook₁⟩ := loadLoop_entry hfits.1 hr hf fuel
    obtain ⟨r₂, h₂, htook₂⟩ := ih hfits.2 (Nat.lt_of_succ_lt_succ hfuel)
      (by rw [htook₁.rest_eq hr, List.append_assoc]) htook₁.ready'
    refine ⟨r₂, by rw [h₁, h₂]; rfl, ?_⟩
    rw [List.flatMap_cons, List.append_assoc]
    exact htook₁.trans htook₂

omit [Platform] [Inhabited S] [LT S] [DecidableLT S] [BEq S] in
/-- Every entry takes a byte at least. -/
theorem length_le_entryBytes (entries : List (Entry S)) :
    entries.length ≤ (entries.flatMap Entry.bytes).length := by
  induction entries with
  | nil => exact le_rfl
  | cons entry entries ih =>
    have hentry : 0 < entry.bytes.length := by
      cases entry with
      | item i => cases i <;> exact Nat.succ_pos _
      | expireTime seconds => exact Nat.succ_pos _
    rw [List.flatMap_cons, List.length_append, List.length_cons]
    omega

/-- **A complete file is loaded**, and the databases are its decoding. -/
theorem IsComplete.loadFromFile {contents : Bytes} {entries : List (Entry S)}
    {seeds : ℕ → ℕ → Height} {databases : List (Database S)} {env : Env}
    (h : IsComplete contents entries (.initial databases env seeds)) (junk : ℕ → UInt8) :
    ∃ env', loadFromFile (some contents) junk seeds databases env = .ok (true,
      (entries.foldl Entry.apply (LoadState.initial databases env seeds)).databases, env') := by
  obtain ⟨sum, hlt, hsum, hcontents⟩ := h.contents
  obtain ⟨r, hr⟩ : ∃ r : Reader, r = { rest := contents, junk := junk } := ⟨_, rfl⟩
  have hrest : r.rest = magic ++ (entries.flatMap Entry.bytes ++ [opcodeEof] ++
      LittleEndian.bytes 8 sum) := by
    rw [hr, hcontents, entryBytes, List.append_assoc]
  -- first the magic string
  obtain ⟨r₁, h₁, htook₁⟩ := Reader.readNew_update hrest (by rw [hr])
  have hrest₁ := htook₁.rest_eq hrest
  have hfuel : entries.length < (r₁.update magic).rest.length := by
    have hlength := length_le_entryBytes entries
    rw [hrest₁]
    simp only [List.length_append, List.length_singleton]
    omega
  -- then the loop over the entries, which has enough fuel
  obtain ⟨r₂, h₂, htook₂⟩ := loadLoop_entries entries h.fits hfuel hrest₁ htook₁.ready'
  -- the checksum has run over everything up to the opcode at the end
  have hchecksum : r₂.checksum = crc64Update 0 (entryBytes entries) := by
    rw [htook₂.checksum, htook₁.checksum, ← crc64Update_append, hr, entryBytes]
  have hrest₂ : r₂.rest = LittleEndian.bytes 8 sum ++ [] := by
    rw [htook₂.rest_eq hrest₁, List.append_nil]
  -- and last the checksum, which is the one computed
  obtain ⟨junk', h₃⟩ := Reader.readNew_spec hrest₂ htook₂.ready'
  rw [LittleEndian.length_bytes] at h₃
  have hvalue : LittleEndian.value (LittleEndian.bytes 8 sum) = sum :=
    LittleEndian.value_bytes (by norm_num; exact hlt)
  refine ⟨(entries.foldl Entry.apply (LoadState.initial databases env seeds)).env, ?_⟩
  unfold Rdb.loadFromFile
  simp only [LoadState.initial] at h₂ ⊢
  simp only [← hr, show r.readNew 9 = (magic, r₁) from h₁, ne_eq, not_true_eq_false, if_false, h₂,
    h₃, hvalue, hchecksum, hsum, decide_true]

/-! ### Every other file changes the databases -/

omit [Double S] [Platform] [Inhabited S] [LT S] [DecidableLT S] [BEq S] in
theorem forall₂_trans {P Q R : Database S → Database S → Prop} {dbs dbs' dbs'' : List (Database S)}
    (h : List.Forall₂ P dbs dbs') (h' : List.Forall₂ Q dbs' dbs'')
    (hR : ∀ {db db' db''}, P db db' → Q db' db'' → R db db'') : List.Forall₂ R dbs dbs'' := by
  induction h generalizing dbs'' with
  | nil =>
    cases h'
    exact .nil
  | cons hp _ ih =>
    cases h' with
    | cons hq hrest => exact .cons (hR hp hq) (ih hrest)

/-- Every database counts more changes than before. -/
def Disturbed : List (Database S) → List (Database S) → Prop :=
  List.Forall₂ fun db db' => db.dirty < db'.dirty

omit [Double S] [Inhabited S] [LT S] [DecidableLT S] [BEq S] in
theorem foldl_release_db (entries : List (Sigma fun _ : Bytes => RedisObject S)) : ∀ s : DbState S,
    (entries.foldl (fun s e => s.release e.1 e.2) s).db = s.db := by
  induction entries with
  | nil => exact fun _ => rfl
  | cons e entries ih => exact fun s => ih (s.release e.1 e.2)

omit [Double S] [Inhabited S] [LT S] [DecidableLT S] [BEq S] in
/-- Emptying a database is a change. -/
theorem disturbed_flushAll (databases : List (Database S)) : ∀ env : Env,
    Disturbed databases (flushAll databases env).1 := by
  induction databases with
  | nil => exact fun _ => .nil
  | cons db rest ih =>
    intro env
    refine .cons ?_ (ih _)
    show db.dirty < (List.foldl (fun s e => DbState.release e.1 e.2 s)
      ({ env with db := db } : DbState S) db.data.entries).db.dirty + 1
    rw [foldl_release_db]
    exact Int.lt_succ db.dirty

omit [Double S] [Inhabited S] [LT S] [DecidableLT S] [BEq S] in
theorem dirty_store (s : DbState S) (key : Bytes) (obj : RedisObject S) :
    s.db.dirty < (s.store key obj).db.dirty := by
  have hdirty : (s.store key obj).db.dirty = s.db.dirty + 1 := by
    unfold DbState.store
    cases s.db.data.lookup key <;>
    · show (DbState.touchWatchedKey key _).db.dirty + 1 = _
      rw [DbState.touchWatchedKey_db]
      rfl
  rw [hdirty]
  exact Int.lt_succ _

omit [Double S] [Inhabited S] [LT S] [DecidableLT S] [BEq S] in
/-- Storing a key takes no change back. -/
theorem dirty_storeKey (st : LoadState S) (db : Database S) (key : Bytes) (value : Option (Value S))
    (hdb : st.databases[st.currentDb.toNat]? = some db) :
    List.Forall₂ (fun db db' : Database S => db.dirty ≤ db'.dirty) st.databases
      (st.storeKey db key value).databases := by
  -- only the database that is written to changes
  have hset {db' : Database S} (hle : db.dirty ≤ db'.dirty) :
      List.Forall₂ (fun db db' : Database S => db.dirty ≤ db'.dirty) st.databases
        (st.databases.set st.currentDb.toNat db') := by
    obtain ⟨hlt, hget⟩ := List.getElem?_eq_some_iff.mp hdb
    refine List.forall₂_iff_get.mpr ⟨(List.length_set ..).symm, fun i hi hi' => ?_⟩
    simp only [List.get_eq_getElem, List.getElem_set]
    split
    · next heq =>
      subst heq
      exact hget ▸ hle
    · exact le_rfl
  have hexpiry (s : DbState S) (at_ : ℤ) : (s.setExpiryAt key at_).2.db.dirty = s.db.dirty := by
    unfold DbState.setExpiryAt
    split <;> rfl
  refine hset ?_
  cases value with
  | none =>
    -- an entry without a value may still set a deadline
    dsimp only
    split
    · exact (hexpiry _ _).ge
    · exact le_rfl
  | some v =>
    dsimp only
    split
    · rw [hexpiry]
      exact (dirty_store _ key _).le
    · exact (dirty_store _ key _).le

omit [Platform] [Double S] [Inhabited S] [LT S] [DecidableLT S] [BEq S] in
theorem readNew_header (contents : Bytes) (junk : ℕ → UInt8) :
    (Reader.readNew { rest := contents, junk := junk } 9).1 = header contents junk := by
  have hlength : ((List.range 9).map junk).length = 9 := by rw [List.length_map, List.length_range]
  simp only [Reader.readNew, Reader.readOver, Reader.take, hlength, Bool.false_eq_true, if_false]
  split
  · rfl
  · next hshort => rw [header, List.take_of_length_le (Nat.le_of_lt (not_le.mp hshort))]

/-- **Behind the magic** nothing leaves the databases as they were. -/
theorem disturbed_loadFromFile {contents : Bytes} {junk : ℕ → UInt8} {seeds : ℕ → ℕ → Height}
    {databases databases' : List (Database S)} {env env' : Env} {result : Bool}
    (hmagic : header contents junk = magic)
    (h : loadFromFile (some contents) junk seeds databases env = .ok (result, databases', env')) :
    Disturbed databases databases' := by
  unfold loadFromFile at h
  simp only [readNew_header, hmagic, ne_eq, not_true_eq_false, if_false] at h
  split at h
  · cases h
  · next st r hloop =>
    cases h
    -- `flushAll` counts one change, and what is loaded counts no fewer
    have hflushed := disturbed_flushAll databases env
    have hloaded := loadLoop_databases
      (R := List.Forall₂ fun db db' : Database S => db.dirty ≤ db'.dirty)
      (fun dbs => List.forall₂_refl dbs)
      (fun h h' => forall₂_trans h h' fun hle hle' => hle.trans hle')
      dirty_storeKey _ hloop
    exact forall₂_trans hflushed hloaded fun hlt hle => hlt.trans_le hle

omit [Double S] [Platform] [Inhabited S] [LT S] [DecidableLT S] [BEq S] in
/-- No database is a change of itself. -/
theorem not_disturbed_self {databases : List (Database S)} (hne : databases ≠ []) :
    ¬Disturbed databases databases := by
  intro h
  obtain ⟨db, rest, rfl⟩ := List.exists_cons_of_ne_nil hne
  exact lt_irrefl _ (List.forall₂_cons.mp h).1

/-- The file cannot be opened, or does not begin with the magic. -/
def IsForeign (file : Option Bytes) (junk : ℕ → UInt8) : Prop :=
  ∀ contents, file = some contents → header contents junk ≠ magic

/-- **Loading is all or nothing** exactly for a file that cannot be opened or does not begin with the magic, and for a
complete one. Where there is no database, nothing can be lost either, and the condition is sufficient. A file that is
refused behind the magic is refused after `flushAll`: every database counts more changes than before (`Disturbed`), so
none is as it was. -/
theorem rdb_load_all_or_nothing (file : Option Bytes) (junk : ℕ → UInt8) (seeds : ℕ → ℕ → Height)
    (databases : List (Database S)) (env : Env) :
    let condition := IsForeign file junk ∨ ∃ contents entries, file = some contents ∧
      IsComplete contents entries (.initial databases env seeds)
    (condition → AllOrNothing file junk seeds databases env) ∧
      (databases ≠ [] → AllOrNothing file junk seeds databases env → condition) := by
  refine ⟨?_, fun hne => ?_⟩
  · rintro (hforeign | ⟨contents, entries, rfl, hcomplete⟩)
    · cases file with
      | none => exact .inr ⟨env, rfl⟩
      | some contents =>
        have hmagic := hforeign contents rfl
        refine .inr ⟨env, ?_⟩
        unfold loadFromFile
        simp only [readNew_header, ne_eq, hmagic, not_false_eq_true, if_true]
    · obtain ⟨env', h⟩ := hcomplete.loadFromFile junk
      exact .inl ⟨contents, entries, env', rfl, hcomplete, h⟩
  · rintro (⟨contents, entries, env', hfile, hcomplete, -⟩ | ⟨env', h⟩)
    · exact .inr ⟨contents, entries, hfile, hcomplete⟩
    · -- a file that is refused behind the magic has changed the databases
      refine .inl fun contents hfile hmagic => ?_
      subst hfile
      exact not_disturbed_self hne (disturbed_loadFromFile hmagic h)

end Rdb

/-! ### Two files -/

namespace Rdb

open Sample

/-- A file with one string, and a checksum of zero. -/
def stringFile : Bytes :=
  entryBytes (S := Score) [.item (.selectDb 0), .item (.value (str "k") (.string (str "v")))] ++
    LittleEndian.bytes 8 0

theorem rdb_load_all_or_nothing_string :
    AllOrNothing (some stringFile) (fun _ => 0) (fun _ _ => ⟨1, by decide⟩) [volatileDb] idleEnv := by
  refine (rdb_load_all_or_nothing (some stringFile) _ _ [volatileDb] idleEnv).1
    (.inr ⟨stringFile, [.item (.selectDb 0), .item (.value (str "k") (.string (str "v")))], rfl, ?_⟩)
  have hkey : (str "k").length ≤ Platform.maxString := by show 1 ≤ Platform.maxString; decide
  have hvalue : (str "v").length ≤ Platform.maxString := by show 1 ≤ Platform.maxString; decide
  have hsmall : 0 < 2 ^ 64 := by decide
  refine ⟨⟨hsmall, ⟨hkey, nofun, hvalue, ?_, ?_, ?_⟩, trivial⟩, 0, hsmall, .inl rfl, rfl⟩
  · show 0 ≤ asInt 0
    decide
  · show asInt 0 < asInt 1
    decide
  · show (asInt 0).toNat < 1
    decide

/-- A file with no keys, and a checksum that does not match. -/
def corruptedFile : Bytes := magic ++ [opcodeEof] ++ LittleEndian.bytes 8 1

/-- The file is refused, and the key that was there is gone. -/
theorem corrupted_file_empties : ¬AllOrNothing (some corruptedFile) (fun _ => 0)
    (fun _ _ => ⟨1, by decide⟩) [volatileDb] idleEnv := by
  have hresult : (loadFromFile (some corruptedFile) (fun _ => 0) (fun _ _ => ⟨1, by decide⟩)
      [volatileDb] idleEnv).map (fun x => (x.1, x.2.1.map fun db => (db.data.lookup (str "k")).isSome))
      = .ok (false, [false]) := by decide +kernel
  rintro (⟨contents, entries, env', -, -, h⟩ | ⟨env', h⟩) <;> rw [h] at hresult
  · exact absurd (congrArg Prod.fst (Except.ok.inj hresult)) (show true ≠ false by decide)
  · have hpresent : [volatileDb].map (fun db => (db.data.lookup (str "k")).isSome) = [true] := by
      decide +kernel
    have hlost := congrArg Prod.snd (Except.ok.inj hresult)
    exact absurd (hpresent.symm.trans hlost) (by decide)

end Rdb
end RedisDb
