import RedisDb.Commands.CommandRegistry
import RedisDb.Storage.RdbLoad

/-!
# Startup

What `Server::initialize` does up to the event loop, on a disk whose files may be missing or closed to
the server: it opens the append-only file for writing, loads it, and falls back to the snapshot where
the log cannot be loaded.

Opening the log makes it, and an empty log is loaded with success. So the fallback is reached only
where the log is there and can be written but not read, and a server that has a snapshot and no log
starts empty (`startup_recovers_iff`, `snapshot_ignored`).
-/

namespace RedisDb

variable {S : Type}

/-! ### Files -/

/-- A file, and what the server may do with it. -/
structure File where
  contents : Bytes := []
  readable : Bool := true
  writable : Bool := true

/-- The files by name, and the names under which a file can be made. -/
structure Disk where
  file : Bytes → Option File := fun _ => none
  creatable : Bytes → Bool := fun _ => true

namespace Disk

/-- What is read from `std::ifstream`, where it can be opened. -/
def read (disk : Disk) (name : Bytes) : Option Bytes :=
  (disk.file name).bind fun f => if f.readable then some f.contents else none

/-- `open(name, std::ios::app)`, which makes a file that is missing. -/
def append (disk : Disk) (name : Bytes) : Option Disk :=
  match disk.file name with
  | some f => if f.writable then some disk else none
  | none =>
    if disk.creatable name then some { disk with file := Function.update disk.file name (some {}) }
    else none

variable {disk : Disk} {name : Bytes}

/-- A file that is there is not changed. -/
theorem append_of_file {f : File} (hf : disk.file name = some f) (hwritable : f.writable = true) :
    disk.append name = some disk := by
  rw [append, hf]
  exact if_pos hwritable

/-- Where there is no file, there is an empty one afterwards. -/
theorem read_of_append {disk' : Disk} (hf : disk.file name = none)
    (h : disk.append name = some disk') : disk'.read name = some [] := by
  rw [append, hf] at h
  obtain ⟨-, heq⟩ := Option.ite_none_right_eq_some.mp h
  obtain rfl := Option.some.inj heq
  show (Function.update disk.file name (some {}) name).bind _ = _
  rw [Function.update_self]
  rfl

theorem read_of_file {f : File} (hf : disk.file name = some f) :
    disk.read name = if f.readable then some f.contents else none := by
  rw [read, hf, Option.bind_some]

end Disk

/-- What a server starts from: the configuration, with what only `initialize` reads of it, the disk,
and what is read from outside. -/
structure Boot where
  config : ServerConfig := { appendOnly := true }
  databases : ℤ := 16
  rdbFilename : Bytes := str "dump.rdb"
  aofFilename : Bytes := str "appendonly.aof"
  disk : Disk := {}
  env : Env := idleEnv
  outside : Outside := {}

/-! ### Loading the log -/

section Replay

variable [Platform] [Double S] [Inhabited S] [LT S] [DecidableLT S] [BEq S]

/-- The body of the loop of `AofPersistence::loadFromFile`, for the client `c`. Nothing is checked of a
command but its name; what the handler throws is caught, what reading the name throws is not. -/
def replayCommand (depth : ℕ) (c : ClientId) (command : RespValue) (s : Server S) :
    Option (Server S) :=
  match command with
  | .array (name :: args) =>
    match name.asString with
    | .error _ => none
    | .ok cmdName =>
      match Command.lookup cmdName with
      | none => some s
      | some cmd => ((cmd.handler (callbacks depth) c (name :: args)).run s).map Prod.snd
  | _ => some s

/-- The loop of `AofPersistence::loadFromFile`. -/
def replay (depth : ℕ) (c : ClientId) : List RespValue → Server S → Option (Server S)
  | [], s => some s
  | command :: commands, s => (replayCommand depth c command s).bind (replay depth c commands)

/-- The commands of a log, run for a client that is made for them and that has no connection. -/
def replayLog (reserve : Reserve) (depth : ℕ) (contents : Bytes) (s : Server S) : Option (Server S) :=
  match RespParser.parse reserve contents with
  | .error _ => none
  | .ok result =>
    let c := s.nextClient
    (replay depth c result.commands { s with
      clients := s.clients.insert c (({} : Client).setFlag .master)
      nextClient := c + 1 }).map fun s => { s with clients := s.clients.erase c }

omit [Platform] [Double S] [Inhabited S] [LT S] [DecidableLT S] [BEq S] in
/-- The loop that empties the databases. Nobody watches a key while the server starts. -/
def Server.flushDatabases (s : Server S) : Server S :=
  { s with databases := (Rdb.flushAll s.databases s.env).1, env := (Rdb.flushAll s.databases s.env).2 }

/-- `AofPersistence::loadFromFile`, of a file that may not open. -/
def loadAof (reserve : Reserve) (depth : ℕ) (file : Option Bytes) (s : Server S) :
    Option (Bool × Server S) :=
  match file with
  | none => some (false, s)
  | some [] => some (true, s.flushDatabases)
  | some contents => (replayLog reserve depth contents s.flushDatabases).map (true, ·)

/-- `RdbPersistence::loadFromFile`, while the server starts. -/
def loadRdb (file : Option Bytes) (s : Server S) : Option (Server S) :=
  match Rdb.loadFromFile file (s.outside.junk 0) s.outside.rngs s.databases s.env with
  | .error _ => none
  | .ok (_, databases, env) => some { s with databases := databases, env := env }

namespace Boot

variable (boot : Boot)

omit [Platform] [Double S] [Inhabited S] [LT S] [DecidableLT S] [BEq S] in
/-- The server with its empty databases. -/
def resized : Server S where
  config := boot.config
  databases := List.replicate boot.databases.toNat {}
  env := boot.env
  outside := boot.outside
  serving := false

/-- `Server::initialize`, up to the event loop: whether it goes on, and the server. There is no outcome
where an exception ends the program, as that of `resize` for a negative number does. -/
def initializeServer (reserve : Reserve) (depth : ℕ) : Option (Bool × Server S) :=
  if boot.databases < 0 then none
  else if boot.config.appendOnly then
    match boot.disk.append boot.aofFilename with
    | none => some (false, boot.resized)
    | some disk =>
      (loadAof reserve depth (disk.read boot.aofFilename)
        { boot.resized with aofStream := some [] }).bind fun x =>
          if x.1 then some (true, x.2)
          else (loadRdb (disk.read boot.rdbFilename) x.2).map (true, ·)
  else (loadRdb (boot.disk.read boot.rdbFilename) boot.resized).map (true, ·)

/-! ### What is recovered -/

/-- The keys of every database, each with its content and its deadline. -/
abbrev Datasets (S : Type) : Type := List (Bytes → Option (Content S × Option ℤ))

variable (reserve : Reserve) (depth : ℕ)

/-- The server starts, with these data. -/
def EndsWith (D : Datasets S) : Prop :=
  ∃ s : Server S, boot.initializeServer reserve depth = some (true, s) ∧
    s.databases.map Database.dataset = D

/-- The server when it loads the log. -/
def logging : Server S := { boot.resized with aofStream := some [] }

/-- The commands of a log, run on empty databases, end with these data. -/
def LogHolds (contents : Bytes) (D : Datasets S) : Prop :=
  ∃ s : Server S, replayLog reserve depth contents boot.logging.flushDatabases = some s ∧
    s.databases.map Database.dataset = D

/-- The snapshot is a file that can be read, complete, and of these data. -/
def SnapshotHolds (D : Datasets S) : Prop :=
  ∃ contents entries, boot.disk.read boot.rdbFilename = some contents ∧
    Rdb.IsComplete contents entries
      (.initial (boot.resized : Server S).databases boot.env boot.outside.rngs) ∧
    (entries.foldl Rdb.Entry.apply
      (.initial (boot.resized : Server S).databases boot.env boot.outside.rngs)).databases.map
        Database.dataset = D

/-- There are no commands in the log: it is missing, or empty. -/
def NoLog : Prop := ∀ f, boot.disk.file boot.aofFilename = some f → f.contents = []

/-- **Startup recovery**: the data are those of the log where there are commands in it, and otherwise
those of the snapshot, where there is one. -/
structure Recovers (S : Type) [Double S] [Inhabited S] [LT S] [DecidableLT S] [BEq S] : Prop where
  log : ∀ f, ∀ D : Datasets S, boot.disk.file boot.aofFilename = some f → f.contents ≠ [] →
    boot.LogHolds reserve depth f.contents D → boot.EndsWith reserve depth D
  snapshot : boot.NoLog → ∀ D : Datasets S, boot.SnapshotHolds D → boot.EndsWith reserve depth D

/-- What `RdbPersistence::loadFromFile` leaves in the empty databases. -/
def SnapshotLeaves (D : Datasets S) : Prop :=
  ∃ loaded databases env, Rdb.loadFromFile (boot.disk.read boot.rdbFilename) (boot.outside.junk 0)
      boot.outside.rngs (boot.resized : Server S).databases boot.env = .ok (loaded, databases, env) ∧
    databases.map Database.dataset = D

/-- `initialize` gets to loading the log. -/
def Opens : Prop := 0 ≤ boot.databases ∧ (boot.disk.append boot.aofFilename).isSome

/-- The log is there, and cannot be read. -/
def Unreadable : Prop := ∃ f, boot.disk.file boot.aofFilename = some f ∧ f.readable = false

/-! ### Where startup goes -/

variable {boot} {reserve} {depth} {D : Datasets S}

/-- Past the opening of the log, the log is loaded if it can be read, and the snapshot otherwise. -/
theorem endsWith_of_append {disk : Disk} (hcount : 0 ≤ boot.databases)
    (hon : boot.config.appendOnly = true) (happend : boot.disk.append boot.aofFilename = some disk) :
    boot.EndsWith reserve depth D ↔
      ∃ x : Bool × Server S, loadAof reserve depth (disk.read boot.aofFilename) boot.logging = some x ∧
        ∃ s : Server S, (if x.1 then some x.2 else loadRdb (disk.read boot.rdbFilename) x.2) = some s ∧
          s.databases.map Database.dataset = D := by
  -- the log file is opened first, then read, and the snapshot is read if there was no log
  have hunfold : (boot.initializeServer reserve depth : Option (Bool × Server S)) =
      (loadAof reserve depth (disk.read boot.aofFilename) boot.logging).bind fun x =>
        if x.1 then some (true, x.2) else (loadRdb (disk.read boot.rdbFilename) x.2).map (true, ·) := by
    rw [initializeServer, if_neg (not_lt.mpr hcount), if_pos hon, happend]
    rfl
  constructor
  · rintro ⟨s, hs, hD⟩
    rw [hunfold] at hs
    obtain ⟨x, hx, hs⟩ := Option.bind_eq_some_iff.mp hs
    refine ⟨x, hx, s, ?_, hD⟩
    split at hs
    · exact (if_pos ‹_›).trans (congrArg some (congrArg Prod.snd (Option.some.inj hs)))
    · obtain ⟨t, ht, heq⟩ := Option.map_eq_some_iff.mp hs
      rw [if_neg ‹_›, ht]
      exact congrArg some (congrArg Prod.snd heq)
  · rintro ⟨x, hx, s, hs, hD⟩
    refine ⟨s, ?_, hD⟩
    rw [hunfold, hx, Option.bind_some]
    split at hs
    · rw [if_pos ‹_›, Option.some.inj hs]
    · rw [if_neg ‹_›, hs]
      rfl

/-- A server that cannot open the log does not start. -/
theorem Opens.of_endsWith (hon : boot.config.appendOnly = true) (h : boot.EndsWith reserve depth D) :
    boot.Opens := by
  obtain ⟨s, hs, -⟩ := h
  rw [initializeServer] at hs
  by_cases hcount : boot.databases < 0
  · rw [if_pos hcount] at hs
    cases hs
  · rw [if_neg hcount, if_pos hon] at hs
    refine ⟨not_lt.mp hcount, ?_⟩
    cases happend : boot.disk.append boot.aofFilename with
    | none =>
      rw [happend] at hs
      exact absurd (congrArg Prod.fst (Option.some.inj hs)) Bool.false_ne_true
    | some disk => rfl

omit [Double S] [LT S] [DecidableLT S] [BEq S] in
/-- Emptied databases have no data. -/
theorem datasets_flushDatabases : (boot.logging.flushDatabases : Server S).databases.map
    Database.dataset = List.replicate boot.databases.toNat fun _ => none := by
  obtain ⟨hlength, hempty⟩ := flushAll_spec (boot.logging : Server S).databases boot.env
  have hcount : (boot.logging : Server S).databases.length = boot.databases.toNat :=
    List.length_replicate
  refine List.eq_replicate_iff.mpr ⟨?_, fun dataset hmem => ?_⟩
  · rw [List.length_map]
    exact hlength.trans hcount
  · obtain ⟨db, hdb, rfl⟩ := List.mem_map.mp hmem
    exact funext (Database.dataset_of_empty (hempty db hdb))

/-- What is loaded from the snapshot. -/
theorem loadRdb_iff :
    (∃ s : Server S, loadRdb (boot.disk.read boot.rdbFilename) boot.logging = some s ∧
      s.databases.map Database.dataset = D) ↔ boot.SnapshotLeaves D := by
  constructor
  · rintro ⟨s, hs, hD⟩
    unfold loadRdb at hs
    split at hs
    · cases hs
    · next loaded databases env hload =>
      obtain rfl := Option.some.inj hs
      exact ⟨loaded, databases, env, hload, hD⟩
  · rintro ⟨loaded, databases, env, hload, hD⟩
    refine ⟨{ boot.logging with databases := databases, env := env }, ?_, hD⟩
    unfold loadRdb
    -- the server that loads has the files and the databases of the start
    have hload' : Rdb.loadFromFile (boot.disk.read boot.rdbFilename)
        ((boot.logging : Server S).outside.junk 0) (boot.logging : Server S).outside.rngs
        (boot.logging : Server S).databases (boot.logging : Server S).env
          = .ok (loaded, databases, env) := hload
    rw [hload']

/-- A log that is there and cannot be read leaves the server to the snapshot. -/
theorem endsWith_of_unreadable (hcount : 0 ≤ boot.databases) (hon : boot.config.appendOnly = true)
    {f : File} (hf : boot.disk.file boot.aofFilename = some f) (hwritable : f.writable = true)
    (hread : f.readable = false) : boot.EndsWith reserve depth D ↔ boot.SnapshotLeaves D := by
  have hnone : boot.disk.read boot.aofFilename = none := by
    rw [Disk.read_of_file hf, hread]
    rfl
  rw [endsWith_of_append hcount hon (Disk.append_of_file hf hwritable), hnone, ← loadRdb_iff]
  constructor
  · rintro ⟨x, hx, h⟩
    obtain rfl := Option.some.inj hx
    exact h
  · exact fun h => ⟨_, rfl, h⟩

omit [Platform] [Double S] [Inhabited S] [LT S] [DecidableLT S] [BEq S] in
/-- A log without commands is read as empty, also where opening it has made it. -/
theorem read_nolog {disk : Disk} (hnolog : boot.NoLog) (hread : ¬boot.Unreadable)
    (happend : boot.disk.append boot.aofFilename = some disk) :
    disk.read boot.aofFilename = some [] := by
  cases hf : boot.disk.file boot.aofFilename with
  | none => exact Disk.read_of_append hf happend
  | some f =>
    have hwritable : f.writable = true := by
      rw [Disk.append, hf] at happend
      exact (Option.ite_none_right_eq_some.mp happend).1
    obtain rfl := Option.some.inj (happend.symm.trans (Disk.append_of_file hf hwritable))
    have hreadable : f.readable = true := by
      by_contra hclosed
      exact hread ⟨f, hf, Bool.eq_false_of_not_eq_true hclosed⟩
    rw [Disk.read_of_file hf, if_pos hreadable, hnolog f hf]

/-- A log without commands that can be read leaves the server empty. -/
theorem endsWith_of_empty {disk : Disk} (hcount : 0 ≤ boot.databases)
    (hon : boot.config.appendOnly = true) (happend : boot.disk.append boot.aofFilename = some disk)
    (hread : disk.read boot.aofFilename = some []) :
    boot.EndsWith reserve depth D ↔ D = List.replicate boot.databases.toNat fun _ => none := by
  rw [endsWith_of_append hcount hon happend, hread, ← datasets_flushDatabases]
  constructor
  · rintro ⟨x, hx, s, hs, hD⟩
    obtain rfl := Option.some.inj hx
    obtain rfl := Option.some.inj hs
    exact hD.symm
  · rintro rfl
    exact ⟨_, rfl, _, rfl, rfl⟩

/-- A log with commands that can be read is loaded. -/
theorem endsWith_of_log (hcount : 0 ≤ boot.databases) (hon : boot.config.appendOnly = true)
    {f : File} (hf : boot.disk.file boot.aofFilename = some f) (hwritable : f.writable = true)
    (hread : f.readable = true) (hcontents : f.contents ≠ []) :
    boot.EndsWith reserve depth D ↔ boot.LogHolds reserve depth f.contents D := by
  obtain ⟨b, bytes, hbytes⟩ := List.exists_cons_of_ne_nil hcontents
  have hsome : boot.disk.read boot.aofFilename = some (b :: bytes) := by
    rw [Disk.read_of_file hf, if_pos hread, hbytes]
  rw [endsWith_of_append hcount hon (Disk.append_of_file hf hwritable), hsome, hbytes]
  -- the log is replayed in either case; the flag says that there was one
  constructor
  · rintro ⟨x, hx, s, hs, hD⟩
    obtain ⟨t, ht, rfl⟩ := Option.map_eq_some_iff.mp hx
    obtain rfl := Option.some.inj hs
    exact ⟨t, ht, hD⟩
  · rintro ⟨s, hs, hD⟩
    refine ⟨(true, s), ?_, s, rfl, hD⟩
    show (replayLog reserve depth (b :: bytes) boot.logging.flushDatabases).map (true, ·) = _
    rw [hs]
    rfl

/-! ### The claim, decided -/

/-- When startup recovers what it should: the log can be opened. If there are commands in it, it can be
read, or the snapshot has the same data. If there are none, the snapshot has no data, or the log is
there and cannot be read. -/
structure Recoverable (boot : Boot) (reserve : Reserve) (depth : ℕ) (S : Type) [Double S] [Inhabited S]
    [LT S] [DecidableLT S] [BEq S] : Prop where
  log : ∀ f, ∀ D : Datasets S, boot.disk.file boot.aofFilename = some f → f.contents ≠ [] →
    boot.LogHolds reserve depth f.contents D →
    boot.Opens ∧ (f.readable = true ∨ boot.SnapshotLeaves D)
  snapshot : boot.NoLog → ∀ D : Datasets S, boot.SnapshotHolds D →
    boot.Opens ∧ (boot.Unreadable ∨ D = List.replicate boot.databases.toNat fun _ => none)

omit [Platform] in
theorem Opens.writable (h : boot.Opens) {f : File} (hf : boot.disk.file boot.aofFilename = some f) :
    f.writable = true := by
  obtain ⟨disk, happend⟩ := Option.isSome_iff_exists.mp h.2
  rw [Disk.append, hf] at happend
  exact (Option.ite_none_right_eq_some.mp happend).1

/-- A complete snapshot is loaded. -/
theorem SnapshotHolds.leaves (h : boot.SnapshotHolds D) : boot.SnapshotLeaves D := by
  obtain ⟨contents, entries, hread, hcomplete, hD⟩ := h
  obtain ⟨env, hload⟩ := hcomplete.loadFromFile (boot.outside.junk 0)
  exact ⟨true, _, env, hread ▸ hload, hD⟩

/-- **Startup recovers what it should** just in the cases of `Recoverable`. Opening the log for appending comes before
it is read, so a disk without a log has one by then. In each case of the disk, what the server ends with is computed
and compared. -/
theorem startup_recovers_iff (hon : boot.config.appendOnly = true) :
    boot.Recovers reserve depth S ↔ boot.Recoverable reserve depth S := by
  constructor
  · -- for each direction the two cases of a disk: there is a log with commands, or there is none
    refine fun h => ⟨fun f D hf hcontents hD => ?_, fun hnolog D hD => ?_⟩
    · have hends := h.log f D hf hcontents hD
      have hopens := Opens.of_endsWith hon hends
      refine ⟨hopens, ?_⟩
      cases hread : f.readable with
      | true => exact .inl rfl
      | false =>
        exact .inr ((endsWith_of_unreadable hopens.1 hon hf (hopens.writable hf) hread).mp hends)
    · have hends := h.snapshot hnolog D hD
      have hopens := Opens.of_endsWith hon hends
      refine ⟨hopens, or_iff_not_imp_left.mpr fun hunread => ?_⟩
      obtain ⟨disk, happend⟩ := Option.isSome_iff_exists.mp hopens.2
      refine (endsWith_of_empty hopens.1 hon happend ?_).mp hends
      exact read_nolog hnolog hunread happend
  · refine fun h => ⟨fun f D hf hcontents hD => ?_, fun hnolog D hD => ?_⟩
    · obtain ⟨hopens, hread | hleaves⟩ := h.log f D hf hcontents hD
      · exact (endsWith_of_log hopens.1 hon hf (hopens.writable hf) hread hcontents).mpr hD
      · cases hread : f.readable with
        | true => exact (endsWith_of_log hopens.1 hon hf (hopens.writable hf) hread hcontents).mpr hD
        | false => exact (endsWith_of_unreadable hopens.1 hon hf (hopens.writable hf) hread).mpr hleaves
    · obtain ⟨hopens, hrest⟩ := h.snapshot hnolog D hD
      -- either there is a log that cannot be read, or opening it for appending has left an empty one
      by_cases hunread : boot.Unreadable
      · obtain ⟨f, hf, hread⟩ := hunread
        exact (endsWith_of_unreadable hopens.1 hon hf (hopens.writable hf) hread).mpr hD.leaves
      · obtain ⟨disk, happend⟩ := Option.isSome_iff_exists.mp hopens.2
        exact (endsWith_of_empty hopens.1 hon happend (read_nolog hnolog hunread happend)).mpr
          (hrest.resolve_left hunread)

end Boot

end Replay

/-! ### Two disks -/

namespace Boot

open RespSerializer Sample

/-- A disk with one file. -/
def diskOf (name contents : Bytes) : Disk where
  file n := if n = name then some { contents := contents } else none

/-- A server with a log of `SET k v`. -/
def logBoot : Boot where
  disk := diskOf (str "appendonly.aof") (bulkStringArray [str "SET", str "k", str "v"])

theorem startup_recovers_iff_log : logBoot.Recovers (fun _ => none) 0 Score := by
  have hfile : logBoot.disk.file logBoot.aofFilename
      = some { contents := bulkStringArray [str "SET", str "k", str "v"] } := rfl
  have hopens : logBoot.Opens := ⟨by decide, rfl⟩
  refine (startup_recovers_iff rfl).mpr ⟨fun f D hf _ _ => ⟨hopens, .inl ?_⟩, fun hnolog => ?_⟩
  · obtain rfl := Option.some.inj (hfile.symm.trans hf)
    rfl
  · exact absurd (hnolog _ hfile) (by decide)

/-- A server with a snapshot of one string, and no log yet. -/
def snapshotBoot : Boot where
  databases := 1
  disk := diskOf (str "dump.rdb") Rdb.stringFile

/-- The entries of the snapshot. -/
def stringEntries : List (Rdb.Entry Score) :=
  [.item (.selectDb 0), .item (.value (str "k") (.string (str "v")))]

theorem isComplete_stringFile : Rdb.IsComplete Rdb.stringFile stringEntries
    (.initial (snapshotBoot.resized : Server Score).databases snapshotBoot.env
      snapshotBoot.outside.rngs) := by
  have hkey : (str "k").length ≤ Platform.maxString := by show 1 ≤ Platform.maxString; decide
  have hvalue : (str "v").length ≤ Platform.maxString := by show 1 ≤ Platform.maxString; decide
  have hsmall : 0 < 2 ^ 64 := by decide
  refine ⟨⟨hsmall, ⟨hkey, nofun, hvalue, ?_, ?_, ?_⟩, trivial⟩, 0, hsmall, .inl rfl, rfl⟩
  · show 0 ≤ asInt 0
    decide
  · show asInt 0 < asInt 1
    decide
  · show (asInt 0).toNat < 1
    decide

/-- The server starts empty, although there is a snapshot with a key. -/
theorem snapshot_ignored : ¬∀ boot : Boot, boot.config.appendOnly = true →
    boot.Recovers (fun _ => none) 0 Score := by
  intro hall
  have hread : snapshotBoot.disk.read snapshotBoot.rdbFilename = some Rdb.stringFile := rfl
  have hnone : snapshotBoot.disk.file snapshotBoot.aofFilename = none := rfl
  have hnolog : snapshotBoot.NoLog := fun f hf => nomatch hnone.symm.trans hf
  have hunread : ¬snapshotBoot.Unreadable := fun ⟨f, hf, _⟩ => nomatch hnone.symm.trans hf
  have hends := (hall snapshotBoot rfl).snapshot hnolog _
    ⟨_, stringEntries, hread, isComplete_stringFile, rfl⟩
  have hcount : 0 ≤ snapshotBoot.databases := by decide
  obtain ⟨disk, happend⟩ := Option.isSome_iff_exists.mp (Opens.of_endsWith rfl hends).2
  have hempty := (endsWith_of_empty hcount rfl happend (read_nolog hnolog hunread happend)).mp hends
  -- the snapshot has a key, and a server without data has none
  have hkey : (stringEntries.foldl Rdb.Entry.apply (.initial (snapshotBoot.resized : Server Score).databases
      snapshotBoot.env snapshotBoot.outside.rngs)).databases.map
        (fun db => (db.data.lookup (str "k")).isSome) = [true] := by decide +kernel
  have hvalues := congrArg (List.map fun D : Bytes → Option (Content Score × Option ℤ) =>
    (D (str "k")).isSome) hempty
  rw [List.map_map] at hvalues
  have hsame : ((fun D : Bytes → Option (Content Score × Option ℤ) => (D (str "k")).isSome) ∘
      Database.dataset) = fun db : Database Score => (db.data.lookup (str "k")).isSome := by
    funext db
    exact Option.isSome_map
  rw [hsame, hkey] at hvalues
  exact absurd hvalues (by decide)

end Boot

end RedisDb
