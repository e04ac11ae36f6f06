import RedisDb.Server.Server
import RedisDb.Storage.MemoryAccounting

/-!
# Programs over the server

`Server.Does` is what code that runs on behalf of a client can do to the server: it is one
constructor for each method that changes the state, and closed under sequence. The handlers, the
dispatcher and the timer are programs within it (`ServerM`, `CommandM`), so an invariant of the
server is proved once, by a case for each constructor, and holds across every command, whatever
commands it runs in turn.

The relation has two parameters. One is the client whose command is running, if there is one: it is
the only client that gets a reply without a write handler being installed. The other is the command
that `executeCommand` is running, or nothing within a handler: only a command that `executeCommand`
runs is logged. The command of a client that is woken runs inside the one that wakes it (`wake`).
-/

namespace RedisDb

variable {S : Type}

/-- The two states of a client differ at most in what no table of the server depends on. -/
structure Client.SameTables (cl cl' : Client) : Prop where
  outputBuffer : cl'.outputBuffer = cl.outputBuffer
  outputPos : cl'.outputPos = cl.outputPos
  watchedKeys : cl'.watchedKeys = cl.watchedKeys
  pubsubChannels : cl'.pubsubChannels = cl.pubsubChannels
  pubsubPatterns : cl'.pubsubPatterns = cl.pubsubPatterns
  blockedKeys : cl'.blockedKeys = cl.blockedKeys
  blockCmd : cl'.blockCmd = cl.blockCmd
  slave : cl'.hasFlag .slave = cl.hasFlag .slave
  blocked : cl'.hasFlag .blocked = cl.hasFlag .blocked
  master : cl'.hasFlag .master = cl.hasFlag .master

namespace Client

variable (cl : Client)

theorem sameTables_setFlag {flag : ClientFlag} (hslave : flag ≠ .slave) (hblocked : flag ≠ .blocked)
    (hmaster : flag ≠ .master) : cl.SameTables (cl.setFlag flag) where
  outputBuffer := rfl
  outputPos := rfl
  watchedKeys := rfl
  pubsubChannels := rfl
  pubsubPatterns := rfl
  blockedKeys := rfl
  blockCmd := rfl
  slave := by rw [hasFlag_setFlag, if_neg (Ne.symm hslave)]
  blocked := by rw [hasFlag_setFlag, if_neg (Ne.symm hblocked)]
  master := by rw [hasFlag_setFlag, if_neg (Ne.symm hmaster)]

theorem sameTables_clearFlag {flag : ClientFlag} (hslave : flag ≠ .slave)
    (hblocked : flag ≠ .blocked) (hmaster : flag ≠ .master) : cl.SameTables (cl.clearFlag flag) where
  outputBuffer := rfl
  outputPos := rfl
  watchedKeys := rfl
  pubsubChannels := rfl
  pubsubPatterns := rfl
  blockedKeys := rfl
  blockCmd := rfl
  slave := by rw [hasFlag_clearFlag, if_neg (Ne.symm hslave)]
  blocked := by rw [hasFlag_clearFlag, if_neg (Ne.symm hblocked)]
  master := by rw [hasFlag_clearFlag, if_neg (Ne.symm hmaster)]

theorem sameTables_clearTransaction : cl.SameTables cl.clearTransaction where
  outputBuffer := rfl
  outputPos := rfl
  watchedKeys := rfl
  pubsubChannels := rfl
  pubsubPatterns := rfl
  blockedKeys := rfl
  blockCmd := rfl
  slave := by rw [hasFlag_clearTransaction, if_neg (by decide)]
  blocked := by rw [hasFlag_clearTransaction, if_neg (by decide)]
  master := by rw [hasFlag_clearTransaction, if_neg (by decide)]

end Client

/-- Events that come with no change of a table, in a server whose `masterHost_` is this. -/
def Event.IsAside (masterHost : Bytes) : Event → Prop
  | .pushes .. | .zadd .. | .appendOnlyOff => True
  | .promoted host => host = masterHost
  | _ => False

/-- The two states of the server differ at most in its settings and its counters, in what it reads
from outside, and in how far the link to its master is. -/
structure Server.Aside (s t : Server S) : Prop where
  databases : t.databases = s.databases := by rfl
  clients : t.clients = s.clients := by rfl
  nextClient : t.nextClient = s.nextClient := by rfl
  serving : t.serving = s.serving := by rfl
  writable : t.writable = s.writable := by rfl
  pubsubChannels : t.pubsubChannels = s.pubsubChannels := by rfl
  pubsubPatterns : t.pubsubPatterns = s.pubsubPatterns := by rfl
  blockedClients : t.blockedClients = s.blockedClients := by rfl
  masterHost : t.masterHost = s.masterHost := by rfl
  masterClient : t.masterClient = s.masterClient := by rfl
  replState : t.replState = .connect → s.replState = .connect := by exact fun h => h
  replicas : t.replicas = s.replicas := by rfl
  aofBuffer : t.aofBuffer = s.aofBuffer := by rfl
  aofStream : t.aofStream = s.aofStream := by rfl
  lastAofFsyncTime : t.lastAofFsyncTime = s.lastAofFsyncTime := by rfl
  appendFsync : t.config.appendFsync = s.config.appendFsync := by rfl
  backlog : t.backlog = s.backlog := by rfl
  reading : t.reading = s.reading := by rfl
  account : t.env.account = s.env.account := by rfl
  trace : ∃ es, t.trace = s.trace ++ es ∧ (∀ e ∈ es, e.IsAside s.masterHost) ∧
    (s.config.appendOnly → t.config.appendOnly ∨ .appendOnlyOff ∈ es) := by
      exact ⟨[], (List.append_nil _).symm, by simp, Or.inl⟩
  replId : s.replId ≠ [] → t.replId ≠ [] := by exact fun h => h

namespace Server

theorem aside_note {s : Server S} {e : Event} (he : e.IsAside s.masterHost) : s.Aside (s.note e) where
  trace := ⟨[e], rfl, by simpa using he, .inl⟩

variable [Platform]

/-- What code can do to the server: `k` is the command that `executeCommand` is running, or nothing
within a handler, and `c` the client whose command it is. -/
inductive Does : Option RespValue → Option ClientId → Server S → Server S → Prop
  | refl {k c s} : Does k c s s
  | trans {k c s t u} : Does k c s t → Does k c t u → Does k c s u
  | handler {k c s t} : Does none c s t → Does k c s t
  | aside {k c} {s t : Server S} : s.Aside t → Does k c s t
  | own {k c id cl cl'} {s : Server S} : s.clients.lookup id = some cl → cl.SameTables cl' →
      cl'.inputBuffer = cl.inputBuffer → Does k c s { s with clients := s.clients.insert id cl' }
  | reply {k id data} {s t : Server S} : s.addReply id data = some t → Does k (some id) s t
  | deliver {k c id data} {s t : Server S} : s.deliver id data = some t → Does k c s t
  | database {k c i db ds} {s t : Server S} : s.databases[i]? = some db → (s.dbState db).Calls ds →
      s.putDatabase i ds = some t → Does k c s t
  /-- The databases are written to a file, or loaded from one. -/
  | scanned {k c databases env} {s t : Server S} :
      databases.map Database.watchedKeys = s.databases.map Database.watchedKeys →
      (Accounted s.databases s.env → Accounted databases env) →
      s.putDatabases databases env = some t → Does k c s t
  | watch {k c id i key} {s t : Server S} : s.watch id i key = some t → Does k c s t
  | unwatch {k c id} {s t : Server S} : s.unwatch id = some t → Does k c s t
  | subscribe {k c id channel} {s t : Server S} : s.subscribeChannel id channel = some t → Does k c s t
  | unsubscribe {k c id channel} {s t : Server S} :
      s.unsubscribeChannel id channel = some t → Does k c s t
  | psubscribe {k c id pattern} {s t : Server S} :
      s.psubscribePattern id pattern = some t → Does k c s t
  | punsubscribe {k c id pattern} {s t : Server S} :
      s.punsubscribePattern id pattern = some t → Does k c s t
  /-- A client blocks with a command whose arguments it has read. -/
  | block {k c id keys timeout args target} {s t : Server S} : (∀ a ∈ args.drop 1, a.IsString) →
      s.blockClient id keys timeout (.array args) target = some t → Does k c s t
  /-- A client that was blocked has a command whose name throws. -/
  | unblock {k c id cl} {s t : Server S} : s.clients.lookup id = some cl → s.unblockClient id = some t →
      Does k c s (t.note (.woken id cl.blockCmd))
  | attach {k c id} {s t : Server S} : s.addReplica id = some t → Does k c s t
  | remove {k c id} {s t : Server S} : s.removeClient id = some t → Does k c s t
  | disconnect {k c} {s t : Server S} : s.disconnectFromMaster = some t → Does k c s t
  /-- The server is given a master. -/
  | replicate {k c host port} {s t : Server S} :
      (s.setMaster host port).disconnectFromMaster = some t → Does k c s t
  /-- The handler of the command has returned. -/
  | completed {id name args writes r} {s t : Server S} : name.IsString →
      s.complete id writes (name :: args) = some (r, t) → Does (some (.array (name :: args))) (some id) s t
  /-- A client that was blocked runs its command and gets a write handler. -/
  | wake {k c id cl} {s t u : Server S} : s.clients.lookup id = some cl → s.unblockClient id = some t →
      Does (some cl.blockCmd) (some id) (t.note (.woken id cl.blockCmd)) u → Does k c s (u.installWriteHandler id)

instance isPreorder_does (k : Option RespValue) (c : Option ClientId) : IsPreorder (Server S) (Does k c) where
  refl _ := .refl
  trans _ _ _ := .trans

instance isPreorder_client (k : Option RespValue) (c : ClientId) : IsPreorder (Server S) (Does k (some c)) :=
  isPreorder_does k (some c)

instance isPreorder_handler (c : ClientId) : IsPreorder (Server S) (Does none (some c)) :=
  isPreorder_does none (some c)

end Server

/-! ### Programs -/

/-- What code does, by the command that is running and its client. -/
abbrev EffectM (S : Type) [Platform] (k : Option RespValue) (c : Option ClientId) (ε α : Type) : Type :=
  Program (@Server.Does S _ k c) ε α

/-- A program within a handler for a client. -/
abbrev ServerM (S : Type) [Platform] (c : ClientId) (α : Type) : Type := EffectM S none (some c) Exn α

/-- What `executeCommand` does for a command of a client. It throws nothing. -/
abbrev CommandM (S : Type) [Platform] (c : ClientId) (cmd : RespValue) : Type :=
  EffectM S (some cmd) (some c) Empty Unit

/-- A handler, as the registry holds it. -/
abbrev Handler (S : Type) [Platform] : Type := (c : ClientId) → List RespValue → ServerM S c Unit

namespace EffectM

open Server

variable [Platform] {k : Option RespValue} {c : Option ClientId} {id : ClientId} {ε α : Type}

/-- A method that returns nothing. -/
def call (f : Server S → Option (Server S)) (h : ∀ s t, f s = some t → Does k c s t) :
    EffectM S k c ε Unit :=
  .step (fun s => (f s).map ((), ·)) fun s a t hf => by
    obtain ⟨t', ht, heq⟩ := Option.map_eq_some_iff.mp hf
    obtain ⟨-, rfl⟩ := Prod.mk.inj heq
    exact h _ _ ht

theorem run_call (f : Server S → Option (Server S)) (h : ∀ s t, f s = some t → Does k c s t) (s : Server S) :
    (call f h : EffectM S k c ε Unit).run s = (f s).map (Except.ok (), ·) := by
  rw [call, Program.run_step, Option.map_map]
  rfl

theorem run_call_some {f : Server S → Option (Server S)} {h : ∀ s t, f s = some t → Does k c s t} {s t : Server S}
    (ht : f s = some t) : (call f h : EffectM S k c ε Unit).run s = some (.ok (), t) := by
  rw [run_call, ht]
  rfl

@[simp] theorem post_call {f : Server S → Option (Server S)}
    {h : ∀ s t, f s = some t → Does k c s t} (s : Server S) (Q : Except ε Unit → Server S → Prop) :
    (call f h : EffectM S k c ε Unit).Post s Q ↔ ∀ t, f s = some t → Q (.ok ()) t := by
  rw [call, Program.post_step]
  constructor
  · intro hQ t ht
    exact hQ () t (by rw [ht]; rfl)
  · rintro hQ ⟨⟩ t ht
    obtain ⟨t', ht', heq⟩ := Option.map_eq_some_iff.mp ht
    obtain ⟨-, rfl⟩ := Prod.mk.inj heq
    exact hQ t' ht'

theorem of_run_call {f : Server S → Option (Server S)} {h : ∀ s t, f s = some t → Does k c s t}
    {s t : Server S} {r : Except ε Unit} (hrun : (call f h : EffectM S k c ε Unit).run s = some (r, t)) :
    f s = some t :=
  (post_call s fun _ t => f s = some t).mpr (fun _ ht => ht) r t hrun

@[simp] theorem returns_call {f : Server S → Option (Server S)}
    {h : ∀ s t, f s = some t → Does k c s t} (s : Server S) (Q : Unit → Server S → Prop) :
    (call f h : EffectM S k c ε Unit).Returns s Q ↔ ∀ t, f s = some t → Q () t := by
  refine (post_call s fun r t => ∃ a, r = .ok a ∧ Q a t).trans (forall₂_congr fun t _ => ?_)
  constructor
  · rintro ⟨a, -, hQ⟩
    exact hQ
  · exact fun hQ => ⟨(), rfl, hQ⟩

/-- `addReply`, to the client itself. -/
def addReply (data : Bytes) : EffectM S k (some id) ε Unit :=
  call (Server.addReply id data) fun _ _ => .reply

/-- A client, through a pointer to it. -/
def client (id : ClientId) : EffectM S k c ε Client :=
  .step (fun s => (s.clients.lookup id).map (·, s)) fun s a t h => by
    obtain ⟨cl, -, heq⟩ := Option.map_eq_some_iff.mp h
    obtain ⟨-, rfl⟩ := Prod.mk.inj heq
    exact .refl

@[simp] theorem post_client (s : Server S) (Q : Except ε Client → Server S → Prop) :
    (client id : EffectM S k c ε Client).Post s Q ↔
      ∀ cl, s.clients.lookup id = some cl → Q (.ok cl) s := by
  rw [client, Program.post_step]
  constructor
  · intro hQ cl hcl
    exact hQ cl s (by rw [hcl]; rfl)
  · intro hQ a t ht
    obtain ⟨cl, hcl, heq⟩ := Option.map_eq_some_iff.mp ht
    obtain ⟨rfl, rfl⟩ := Prod.mk.inj heq
    exact hQ cl hcl

@[simp] theorem returns_client (s : Server S) (Q : Client → Server S → Prop) :
    (client id : EffectM S k c ε Client).Returns s Q ↔
      ∀ cl, s.clients.lookup id = some cl → Q cl s := by
  refine (post_client s fun r t => ∃ a, r = .ok a ∧ Q a t).trans (forall₂_congr fun cl _ => ?_)
  simp

/-- Change what is a client's own. -/
def modifyClient (id : ClientId) (f : Client → Client) (h : ∀ cl : Client, cl.SameTables (f cl))
    (hinput : ∀ cl : Client, (f cl).inputBuffer = cl.inputBuffer := by exact fun _ => rfl) :
    EffectM S k c ε Unit :=
  call (updateClient id f) fun s t ht => by
    obtain ⟨cl, hcl, rfl⟩ := Option.map_eq_some_iff.mp ht
    exact .own hcl (h cl) (hinput cl)

/-- Change what no table depends on. -/
def modify (f : Server S → Server S) (h : ∀ s : Server S, s.Aside (f s)) : EffectM S k c ε Unit :=
  call (fun s => some (f s)) fun s t ht => by
    obtain rfl := Option.some.inj ht
    exact .aside (h s)

/-- Read something from outside. -/
def draw (f : Server S → α × Server S) (h : ∀ s : Server S, s.Aside (f s).2) : EffectM S k c ε α :=
  .step (fun s => some (f s)) fun s a t hf => by
    obtain rfl : (f s).2 = t := congrArg Prod.snd (Option.some.inj hf)
    exact .aside (h s)

/-- Run a program on database `i`. -/
def onDatabaseAt (i : ℕ) (p : DbM S α) : EffectM S k c Exn α where
  run s :=
    match s.databases[i]? with
    | none => none
    | some db =>
      match p.run (s.dbState db) with
      | none => none
      | some (r, ds) => (s.putDatabase i ds).map (r, ·)
  within {s r t} h := by
    split at h
    · cases h
    · next db hdb =>
      split at h
      · cases h
      · next r' ds hp =>
        obtain ⟨t', ht, heq⟩ := Option.map_eq_some_iff.mp h
        obtain ⟨-, rfl⟩ := Prod.mk.inj heq
        exact .database hdb (p.within hp) ht

/-- The databases as an operation on all of them leaves them, with its result. -/
def onDatabases (f : List (Database S) → Env → Server S → Option (α × List (Database S) × Env))
    (h : ∀ s : Server S, ∀ a databases env, f s.databases { s.env with flagged := [] } s
      = some (a, databases, env) →
      databases.map Database.watchedKeys = s.databases.map Database.watchedKeys ∧
        (Accounted s.databases s.env → Accounted databases env)) :
    EffectM S k c ε α :=
  .step (fun s => (f s.databases { s.env with flagged := [] } s).bind fun x =>
      (s.putDatabases x.2.1 x.2.2).map (x.1, ·)) fun s a t ht => by
    obtain ⟨⟨a', databases, env⟩, hf, hput⟩ := Option.bind_eq_some_iff.mp ht
    obtain ⟨t', ht', heq⟩ := Option.map_eq_some_iff.mp hput
    obtain ⟨-, rfl⟩ := Prod.mk.inj heq
    exact .scanned (h s _ _ _ hf).1 (h s _ _ _ hf).2 ht'

theorem post_onDatabaseAt (i : ℕ) (p : DbM S α) (s : Server S) (Q : Except Exn α → Server S → Prop) :
    (onDatabaseAt i p : EffectM S k c Exn α).Post s Q ↔ ∀ db, s.databases[i]? = some db →
      p.Post (s.dbState db) fun r ds => ∀ t, s.putDatabase i ds = some t → Q r t := by
  constructor
  · intro h db hdb r ds hrun t ht
    exact h r t (by simp only [onDatabaseAt, hdb, hrun, ht, Option.map_some])
  · intro h r t hrun
    simp only [onDatabaseAt] at hrun
    cases hdb : s.databases[i]? with
    | none => rw [hdb] at hrun; cases hrun
    | some db =>
      rw [hdb] at hrun
      simp only at hrun
      cases hp : p.run (s.dbState db) with
      | none => rw [hp] at hrun; cases hrun
      | some x =>
        obtain ⟨r', ds⟩ := x
        rw [hp] at hrun
        -- the method ends, and the database is put back
        obtain ⟨t', ht, heq⟩ := Option.map_eq_some_iff.mp hrun
        obtain ⟨rfl, rfl⟩ := Prod.mk.inj heq
        exact h db hdb _ _ hp _ ht

/-- Run a program on the database a client has selected. -/
def onDatabase (p : DbM S α) : EffectM S k (some id) Exn α := do
  let cl ← client id
  let i ← .read (databaseIndex cl.selectedDb)
  onDatabaseAt i p

end EffectM

end RedisDb
