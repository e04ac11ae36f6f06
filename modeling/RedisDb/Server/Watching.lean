import RedisDb.Commands.HandlerRules
import RedisDb.Server.ClientTables
import RedisDb.Server.RequestStream

/-!
# Who begins to watch

A client watches nothing as long as it issues no `WATCH`: no table of watchers has it, and nothing has marked its
transaction as one that has to fail (`Server.Unwatching`). For that it must neither issue the command itself, nor have
it run from its queue by an `EXEC`, nor by the push of another client that it has waited for. The last cannot happen,
for the commands that clients wait with are blocking pops (`Server.PopsWait`).

`Server.Calm W B` says of a step that of the clients outside `W` none begins to watch, and that the commands with
which clients come to wait, or which they queue, are among those of `B`. A client waits with a command that it has
issued itself, or that it had queued, so if what it issues is in `B` then all that is ever run for it is
(`Server.Issued`). Everything is calm but a `WATCH`, and an `EXEC` with a `WATCH` in its queue, and each operation of
the server has a lemma for it.

Only the marking needs an argument. A push marks the clients that watch its key, so a client that watches nothing is
not marked: this rests on `WatchersKept`, which says who is flagged by an access to a database. A calm step is
preserved by what comes after it because the tables of watchers before and after are compared for every client
(`Kin.trans`).
-/

namespace RedisDb

open RespSerializer EffectM

variable {S : Type}

/-- The command that a request names, in whatever letter case. -/
def RespValue.named : RespValue → Option Command
  | .array (name :: _) => name.asString.toOption.bind Command.lookup
  | _ => none

/-- The name is looked up as `executeCommand` does. -/
theorem RespValue.named_of_name {name : RespValue} {args : List RespValue} {cmdName : Bytes}
    (hname : name.asString = .ok cmdName) :
    (RespValue.array (name :: args)).named = Command.lookup cmdName := by
  rw [named, hname]
  rfl

/-- A request that is a blocking pop. -/
def RespValue.IsPop (v : RespValue) : Prop := v.named = some .blpop ∨ v.named = some .brpop

/-- Whether an event is that a client blocks. -/
def Event.blocks : Event → Bool
  | .blocked .. => true
  | _ => false

namespace Server

/-- A client that waits does so with a blocking pop. -/
def PopsWait (s : Server S) : Prop :=
  ∀ id cl, s.clients.lookup id = some cl → cl.blockCmd = .null ∨ cl.blockCmd.IsPop

/-- A client watches no key and is not marked. -/
structure Unwatching (c : ClientId) (s : Server S) : Prop where
  unwatched : ∀ key, ¬Watched s.tables.watchedKeys c key
  client : ∀ cl, s.clients.lookup c = some cl → cl.watchedKeys = ∅ ∧ cl.hasFlag .dirtyExec = false

/-- A client has no `WATCH` in its queue. -/
def QueuesNoWatch (c : ClientId) (s : Server S) : Prop :=
  ∀ cl, s.clients.lookup c = some cl → ∀ args ∈ cl.transactionQueue, (RespValue.array args).named ≠ some .watch

/-- The commands that clients wait with and have in their queues are among those of `B`. -/
def Issued (B : ClientId → RespValue → Prop) (s : Server S) : Prop :=
  ∀ id cl, s.clients.lookup id = some cl →
    (cl.blockCmd = .null ∨ B id cl.blockCmd) ∧ ∀ args ∈ cl.transactionQueue, B id (.array args)

/-- Nothing is asked of the commands. -/
theorem issued_trivial (s : Server S) : s.Issued fun _ _ => True :=
  fun _ _ _ => ⟨.inr trivial, fun _ _ => trivial⟩

/-- Less is asked of them. -/
theorem Issued.mono {B B' : ClientId → RespValue → Prop} {s : Server S} (hs : s.Issued B)
    (hB : ∀ id command, B id command → B' id command) : s.Issued B' := fun id cl hcl =>
  ⟨(hs id cl hcl).1.imp_right (hB _ _), fun args hargs => hB _ _ ((hs id cl hcl).2 args hargs)⟩

/-- What a calm step makes of a client. It waits with a command of `B` and queues commands of `B`, and
unless it is in `W` it neither watches nor queues a `WATCH`. Only who watches a key is marked. -/
structure Kin (W : ClientId → Prop) (B : ClientId → RespValue → Prop) (s : Server S) (i : ClientId)
    (cl cl' : Client) : Prop where
  blockCmd : cl'.blockCmd = cl.blockCmd ∨ cl'.blockCmd = .null ∨ cl'.blockCmd.IsPop ∧ B i cl'.blockCmd
  watchedKeys : W i ∨ cl'.watchedKeys = cl.watchedKeys ∨ cl'.watchedKeys = ∅
  dirtyExec : cl'.hasFlag .dirtyExec = true →
    cl.hasFlag .dirtyExec = true ∨ (∃ key, Watched s.tables.watchedKeys i key) ∨ W i
  queue : ∀ args ∈ cl'.transactionQueue, args ∈ cl.transactionQueue ∨
    (W i ∨ (RespValue.array args).named ≠ some .watch) ∧ B i (.array args)

/-- No client blocks. -/
def BlocksNobody (s t : Server S) : Prop :=
  ∀ i cmd left, Event.blocked i cmd left ∈ t.trace → .blocked i cmd left ∈ s.trace

/-- An event that is not that of a client that blocks. -/
theorem blocksNobody_note {e : Event} (he : e.blocks = false) (s : Server S) : s.BlocksNobody (s.note e) := by
  intro i cmd left hmem
  rcases List.mem_append.mp hmem with hold | hnew
  · exact hold
  · rw [← List.mem_singleton.mp hnew] at he
    exact (Bool.noConfusion (he : true = false))

/-- Events that have nothing to do with who waits say of nobody that he blocks. -/
theorem Quiet.blocksNobody {s t : Server S} (h : Quiet s t) : s.BlocksNobody t := by
  obtain ⟨es, hes, hquiet⟩ := h.trace
  intro i cmd left hmem
  rw [hes] at hmem
  exact (List.mem_append.mp hmem).resolve_right fun hnew => hquiet _ hnew

/-- No client but those of `W` begins to watch, or queues a `WATCH`, and what clients block with and queue
are commands of `B`. A client that is new has been made from one that is blank. -/
structure Calm (W : ClientId → Prop) (B : ClientId → RespValue → Prop) (s t : Server S) : Prop where
  watched : ∀ c key, Watched t.tables.watchedKeys c key → Watched s.tables.watchedKeys c key ∨ W c
  clients : ∀ i cl', t.clients.lookup i = some cl' →
    ∃ cl, (s.clients.lookup i = some cl ∨ cl = {}) ∧ Kin W B s i cl cl'
  asked : ∀ i cmd left, Event.blocked i cmd left ∈ t.trace → .blocked i cmd left ∈ s.trace ∨ B i cmd

namespace Kin

variable {W : ClientId → Prop} {B : ClientId → RespValue → Prop} {s t : Server S} {i : ClientId}
  {cl cl' cl'' : Client}

/-- Nothing that matters changes. -/
theorem same (hcmd : cl'.blockCmd = cl.blockCmd) (hkeys : cl'.watchedKeys = cl.watchedKeys)
    (hdirty : cl'.hasFlag .dirtyExec = true → cl.hasFlag .dirtyExec = true)
    (hqueue : cl'.transactionQueue = cl.transactionQueue) : Kin W B s i cl cl' where
  blockCmd := .inl hcmd
  watchedKeys := .inr (.inl hkeys)
  dirtyExec h := .inl (hdirty h)
  queue _ hargs := .inl (hqueue ▸ hargs)

/-- Nothing changes. -/
theorem refl (cl : Client) : Kin W B s i cl cl := same rfl rfl (fun h => h) rfl

/-- One step after another: what the client watches in between it watched before. -/
theorem trans (h : Kin W B s i cl cl') (h' : Kin W B t i cl' cl'')
    (hwatched : ∀ key, Watched t.tables.watchedKeys i key → Watched s.tables.watchedKeys i key ∨ W i) :
    Kin W B s i cl cl'' where
  blockCmd := by
    rcases h'.blockCmd with heq | hnew
    · exact heq ▸ h.blockCmd
    · exact .inr hnew
  watchedKeys := by
    rcases h'.watchedKeys with hW | heq | hempty
    · exact .inl hW
    · exact heq ▸ h.watchedKeys
    · exact .inr (.inr hempty)
  dirtyExec hdirty := by
    rcases h'.dirtyExec hdirty with hold | ⟨key, hkey⟩ | hW
    · exact h.dirtyExec hold
    · exact .inr ((hwatched key hkey).imp_left fun hkey => ⟨key, hkey⟩)
    · exact .inr (.inr hW)
  queue args hargs := (h'.queue args hargs).elim (h.queue args) .inr

end Kin

namespace Calm

variable {W : ClientId → Prop} {B : ClientId → RespValue → Prop} {s t u : Server S} {id : ClientId}

/-- Where nothing happens. -/
theorem refl (s : Server S) : Calm W B s s :=
  ⟨fun _ _ => .inl, fun _ cl hcl => ⟨cl, .inl hcl, .refl cl⟩, fun _ _ _ => .inl⟩

/-- One step after another. -/
theorem trans (h : Calm W B s t) (h' : Calm W B t u) : Calm W B s u where
  watched c key hw := (h'.watched c key hw).elim (h.watched c key) .inr
  clients i cl'' hcl'' := by
    obtain ⟨cl', hcl' | rfl, hkin'⟩ := h'.clients i cl'' hcl''
    · obtain ⟨cl, hcl, hkin⟩ := h.clients i cl' hcl'
      exact ⟨cl, hcl, hkin.trans hkin' (h.watched i)⟩
    · exact ⟨{}, .inr rfl, (Kin.refl _).trans hkin' (h.watched i)⟩
  asked i cmd left hmem := (h'.asked i cmd left hmem).elim (h.asked i cmd left) .inr

/-! ### What a calm step keeps -/

/-- Who waits does so with a pop. -/
theorem pops (h : Calm W B s t) (hs : s.PopsWait) : t.PopsWait := by
  intro i cl' hcl'
  obtain ⟨cl, hcl, hkin⟩ := h.clients i cl' hcl'
  rcases hkin.blockCmd with heq | hnull | ⟨hpop, -⟩
  · rw [heq]
    rcases hcl with hcl | rfl
    · exact hs i cl hcl
    · exact .inl rfl
  · exact .inl hnull
  · exact .inr hpop

/-- The commands of clients stay among those of `B`. -/
theorem issued (h : Calm W B s t) (hs : s.Issued B) : t.Issued B := by
  intro i cl' hcl'
  obtain ⟨cl, hcl, hkin⟩ := h.clients i cl' hcl'
  -- a blank client waits with nothing and has queued nothing
  obtain ⟨hcmd, hqueue⟩ : (cl.blockCmd = .null ∨ B i cl.blockCmd) ∧
      ∀ args ∈ cl.transactionQueue, B i (.array args) := by
    rcases hcl with hcl | rfl
    · exact hs i cl hcl
    · exact ⟨.inl rfl, fun _ hargs => absurd hargs List.not_mem_nil⟩
  refine ⟨?_, fun args hargs => (hkin.queue args hargs).elim (hqueue args) And.right⟩
  rcases hkin.blockCmd with heq | hnull | ⟨-, hB⟩
  · exact heq ▸ hcmd
  · exact .inl hnull
  · exact .inr hB

/-- **A client outside `W` that watches nothing still watches nothing.** -/
theorem unwatching (h : Calm W B s t) (c : ClientId) (hc : ¬W c) (hs : s.Unwatching c) : t.Unwatching c := by
  refine ⟨fun key hw => (h.watched c key hw).elim (hs.unwatched key) hc, fun cl' hcl' => ?_⟩
  obtain ⟨cl, hcl, hkin⟩ := h.clients c cl' hcl'
  obtain ⟨hnone, hclean⟩ : cl.watchedKeys = ∅ ∧ cl.hasFlag .dirtyExec = false := by
    rcases hcl with hcl | rfl
    · exact hs.client cl hcl
    · exact ⟨rfl, rfl⟩
  refine ⟨?_, Bool.eq_false_iff.mpr fun hdirty => ?_⟩
  · rcases hkin.watchedKeys with hW | heq | hempty
    · exact absurd hW hc
    · rw [heq, hnone]
    · exact hempty
  · rcases hkin.dirtyExec hdirty with hset | ⟨key, hkey⟩ | hW
    · exact absurd (hset.symm.trans hclean) nofun
    · exact hs.unwatched key hkey
    · exact hc hW

/-- Nor does it queue a `WATCH`. -/
theorem queues (h : Calm W B s t) (c : ClientId) (hc : ¬W c) (hs : s.QueuesNoWatch c) : t.QueuesNoWatch c := by
  intro cl' hcl' args hargs
  obtain ⟨cl, hcl, hkin⟩ := h.clients c cl' hcl'
  rcases hkin.queue args hargs with hmem | ⟨hW | hno, -⟩
  · rcases hcl with hcl | rfl
    · exact hs cl hcl args hmem
    · cases hmem
  · exact absurd hW hc
  · exact hno

/-! ### Steps that touch one client -/

/-- Where neither the clients nor the databases change and nobody blocks. -/
theorem of_blocksNobody (hclients : t.clients = s.clients) (hdatabases : t.databases = s.databases)
    (hblocks : s.BlocksNobody t) : Calm W B s t :=
  ⟨fun _ _ h => .inl (by simpa only [tables, hdatabases] using h),
    fun _ cl hcl => ⟨cl, .inl (hclients ▸ hcl), .refl cl⟩, fun i cmd left h => .inl (hblocks i cmd left h)⟩

/-- Where neither the clients nor the databases change and nothing is noted. -/
theorem of_eq (hclients : t.clients = s.clients) (hdatabases : t.databases = s.databases)
    (htrace : t.trace = s.trace) : Calm W B s t :=
  of_blocksNobody hclients hdatabases fun _ _ _ h => htrace ▸ h

/-- A change of one client, or a new one. -/
theorem client {cl cl' : Client} (hcl : s.clients.lookup id = some cl ∨ cl = {})
    (hclients : t.clients = s.clients.insert id cl')
    (hwatched : ∀ c key, Watched t.tables.watchedKeys c key → Watched s.tables.watchedKeys c key ∨ W c)
    (hkin : Kin W B s id cl cl')
    (hasked : ∀ i cmd left, Event.blocked i cmd left ∈ t.trace → .blocked i cmd left ∈ s.trace ∨ B i cmd) :
    Calm W B s t := by
  refine ⟨hwatched, fun i cl'' hcl'' => ?_, hasked⟩
  rw [hclients, UnorderedMap.lookup_insert_eq_ite] at hcl''
  split at hcl''
  · next heq =>
    subst heq
    exact ⟨cl, hcl, Option.some.inj hcl'' ▸ hkin⟩
  · exact ⟨cl'', .inl hcl'', .refl cl''⟩

/-- A change of a client by a function. -/
theorem updateClient {f : Client → Client} (hf : ∀ cl, Kin W B s id cl (f cl))
    (h : s.updateClient id f = some t) : Calm W B s t := by
  obtain ⟨cl, hcl, rfl⟩ := Option.map_eq_some_iff.mp h
  exact client (.inl hcl) rfl (fun _ _ => .inl) (hf cl) fun _ _ _ => .inl

/-- A note about something else. -/
theorem note {e : Event} (he : e.blocks = false) (s : Server S) : Calm W B s (s.note e) :=
  of_blocksNobody rfl rfl (blocksNobody_note he s)

/-- A reply. -/
theorem addReply {data : Bytes} (h : s.addReply id data = some t) : Calm W B s t := by
  obtain ⟨u, hu, rfl⟩ := Option.map_eq_some_iff.mp h
  exact (updateClient (f := (·.addReply data)) (fun _ => .same rfl rfl (fun h => h) rfl) hu).trans
    (note rfl u)

/-- A write handler. -/
theorem installWriteHandler (id : ClientId) (s : Server S) : Calm W B s (s.installWriteHandler id) := by
  unfold Server.installWriteHandler
  split <;> exact of_eq rfl rfl rfl

/-- A published message. -/
theorem deliver {data : Bytes} (h : s.deliver id data = some t) : Calm W B s t := by
  obtain ⟨u, hu, rfl⟩ := Option.map_eq_some_iff.mp h
  exact (addReply hu).trans (installWriteHandler id u)

/-! ### Marking -/

/-- The clients that are marked are those that were listed. By induction on the list. -/
theorem dirtyExec_flagDirty (ids : List ClientId) : ∀ {s t : Server S}, s.flagDirty ids = some t →
    ∀ i cl', t.clients.lookup i = some cl' → ∃ cl flags, s.clients.lookup i = some cl ∧
      cl' = { cl with flags := flags } ∧ (flags .dirtyExec = true → cl.hasFlag .dirtyExec = true ∨ i ∈ ids) := by
  induction ids with
  | nil =>
    intro s t h i cl' hcl'
    obtain rfl := Option.some.inj h
    exact ⟨cl', cl'.flags, hcl', rfl, .inl⟩
  | cons id ids ih =>
    intro s t h i cl' hcl'
    obtain ⟨u, hu, ht⟩ := Option.bind_eq_some_iff.mp h
    obtain ⟨cl, hcl, rfl⟩ := Option.map_eq_some_iff.mp hu
    obtain ⟨cl₁, flags, hcl₁, rfl, hflags⟩ := ih ht i cl' hcl'
    rw [UnorderedMap.lookup_insert_eq_ite] at hcl₁
    split at hcl₁
    · next heq =>
      subst heq
      obtain rfl := Option.some.inj hcl₁
      exact ⟨cl, flags, hcl, rfl, fun _ => .inr List.mem_cons_self⟩
    · exact ⟨cl₁, flags, hcl₁, rfl, fun h => (hflags h).imp_right (List.mem_cons_of_mem id)⟩

/-- What is done to the databases marks only who watches a key. -/
theorem putDatabases {databases : List (Database S)} {env : Env}
    (hkept : Rdb.WatchersKept s.databases { s.env with flagged := [] } databases env)
    (h : s.putDatabases databases env = some t) : Calm W B s t := by
  have hquiet : Quiet s t := .putDatabases hkept.watchedKeys h
  have hsame : t.tables.watchedKeys = s.tables.watchedKeys := congrArg Tables.watchedKeys hquiet.tables
  refine ⟨fun c key hw => .inl (hsame ▸ hw), fun i cl' hcl' => ?_,
    fun i cmd left hmem => .inl (hquiet.blocksNobody i cmd left hmem)⟩
  obtain ⟨cl, flags, hcl, rfl, hflags⟩ := dirtyExec_flagDirty _ h i cl' hcl'
  refine ⟨cl, .inl hcl, .inl rfl, .inr (.inl rfl), fun hdirty => (hflags hdirty).imp_right fun hmem => .inl ?_,
    fun _ => .inl⟩
  rcases hkept.flagged i hmem with hnone | ⟨watchers, hin, key, clients, hlookup, hi⟩
  · cases hnone
  · exact ⟨key, watchers, hin, by rwa [Index.valuesAt, hlookup]⟩

/-- The methods of a database mark only who watches a key of it. -/
theorem putDatabase [Platform] {i : ℕ} {db : Database S} {ds : DbState S}
    (hdb : s.databases[i]? = some db) (hcalls : (s.dbState db).Calls ds)
    (h : s.putDatabase i ds = some t) : Calm W B s t := by
  have hkept : Rdb.WatchersKept s.databases { s.env with flagged := [] } (s.databases.set i ds.db) ds.toEnv :=
    .set hcalls.watchersKept hdb
  exact putDatabases hkept h

/-! ### Tables of clients -/

/-- `WATCH`, of a client that may. -/
theorem watch {i : ℕ} {key : Bytes} (hW : W id) (h : s.watch id i key = some t) : Calm W B s t := by
  have hwatched := fun c key' => watched_watch (j := c) (k := key') h
  obtain ⟨db, hdb, h⟩ := Option.bind_eq_some_iff.mp h
  obtain ⟨cl, hcl, rfl⟩ := Option.map_eq_some_iff.mp h
  refine client (.inl hcl) rfl (fun c key' hw => (hwatched c key' hw).imp_right ?_) ?_ fun _ _ _ => .inl
  · rintro ⟨rfl, -⟩
    exact hW
  · exact ⟨.inl rfl, .inl hW, .inl, fun _ => .inl⟩

/-- A client that stops watching does not begin to. -/
theorem unwatch (h : s.unwatch id = some t) : Calm W B s t := by
  have hwatched := fun c key => watched_unwatch (j := c) (k := key) h
  obtain ⟨cl, hcl, rfl⟩ := Option.map_eq_some_iff.mp h
  refine client (.inl hcl) rfl (fun c key hw => .inl (hwatched c key hw).1) ?_ ?_
  · exact ⟨.inl rfl, .inr (.inr rfl), .inl, fun _ => .inl⟩
  · exact fun _ _ _ => .inl

/-- A change of a client that leaves what it watches, waits for and queues. -/
theorem pubsub {cl cl' : Client} (hcl : s.clients.lookup id = some cl)
    (hclients : t.clients = s.clients.insert id cl') (hdatabases : t.databases = s.databases)
    (htrace : t.trace = s.trace)
    (hsame : ∃ channels patterns, cl' = { cl with pubsubChannels := channels, pubsubPatterns := patterns }) :
    Calm W B s t := by
  obtain ⟨channels, patterns, rfl⟩ := hsame
  exact client (.inl hcl) hclients (fun _ _ h => .inl (by simpa only [tables, hdatabases] using h))
    (.same rfl rfl (fun h => h) rfl) fun _ _ _ hmem => .inl (htrace ▸ hmem)

/-- A subscription is no watch. -/
theorem subscribeChannel {channel : Bytes} (h : s.subscribeChannel id channel = some t) : Calm W B s t := by
  obtain ⟨cl, hcl, rfl⟩ := Option.map_eq_some_iff.mp h
  split
  · exact refl s
  · exact pubsub hcl rfl rfl rfl ⟨_, _, rfl⟩

/-- Nor is its end. -/
theorem unsubscribeChannel {channel : Bytes} (h : s.unsubscribeChannel id channel = some t) :
    Calm W B s t := by
  obtain ⟨cl, hcl, rfl⟩ := Option.map_eq_some_iff.mp h
  split
  · exact pubsub hcl rfl rfl rfl ⟨_, _, rfl⟩
  · exact refl s

/-- The same of a pattern. -/
theorem psubscribePattern {pattern : Bytes} (h : s.psubscribePattern id pattern = some t) : Calm W B s t := by
  obtain ⟨cl, hcl, rfl⟩ := Option.map_eq_some_iff.mp h
  split
  · exact refl s
  · exact pubsub hcl rfl rfl rfl ⟨_, _, rfl⟩

/-- The same of a pattern. -/
theorem punsubscribePattern {pattern : Bytes} (h : s.punsubscribePattern id pattern = some t) :
    Calm W B s t := by
  obtain ⟨cl, hcl, rfl⟩ := Option.map_eq_some_iff.mp h
  split
  · exact pubsub hcl rfl rfl rfl ⟨_, _, rfl⟩
  · exact refl s

/-- A client blocks with a pop. -/
theorem blockClient {keys : List Bytes} {timeout : ℤ} {cmd : RespValue} {target : Bytes}
    (hpop : cmd.IsPop ∧ B id cmd) (h : s.blockClient id keys timeout cmd target = some t) : Calm W B s t := by
  obtain ⟨cl, deadline, env, hcl, rfl⟩ := blockClient_spec h
  refine client (.inl hcl) rfl (fun _ _ => .inl) ⟨.inr (.inr hpop), .inr (.inl rfl), fun hdirty => .inl ?_,
    fun _ => .inl⟩ fun i cmd' left hmem => (List.mem_append.mp hmem).imp_right fun hnew => ?_
  · have hset : (cl.setFlag .blocked).hasFlag .dirtyExec = true := hdirty
    rwa [Client.hasFlag_setFlag, if_neg (by decide)] at hset
  · obtain ⟨rfl, rfl, -⟩ := Event.blocked.inj (List.mem_singleton.mp hnew)
    exact hpop.2

/-- A client that is woken waits with nothing. -/
theorem unblockClient (h : s.unblockClient id = some t) : Calm W B s t := by
  obtain ⟨cl, hcl, rfl⟩ := Option.map_eq_some_iff.mp h
  split
  · refine client (.inl hcl) rfl (fun _ _ => .inl) ⟨.inr (.inl rfl), .inr (.inl rfl), fun hdirty => .inl ?_,
      fun _ => .inl⟩ fun _ _ _ => .inl
    rwa [Client.clearBlockState, Client.hasFlag_clearFlag, if_neg (by decide)] at hdirty
  · exact refl s

/-- A replica is a client like others. -/
theorem addReplica (h : s.addReplica id = some t) : Calm W B s t := by
  obtain ⟨u, hu, rfl⟩ := Option.map_eq_some_iff.mp h
  have hset : Calm W B s u := updateClient (f := (·.setFlag .slave))
    (fun cl => .same rfl rfl (fun hdirty => by
      rwa [Client.hasFlag_setFlag, if_neg (by decide)] at hdirty) rfl) hu
  have hlisted : Calm W B u { u with replicas := u.replicas ++ [id] } := of_eq rfl rfl rfl
  exact (hset.trans hlisted).trans (note rfl _)

/-- So it is when it goes. -/
theorem closeReplication (id : ClientId) (cl : Client) (s : Server S) :
    Calm W B s (s.closeReplication id cl) := by
  unfold Server.closeReplication
  dsimp only
  split <;> split <;> exact of_eq rfl rfl rfl

/-- A client that is removed takes its watches along. -/
theorem removeClient (h : s.removeClient id = some t) : Calm W B s t := by
  unfold Server.removeClient at h
  split at h
  · exact Option.some.inj h ▸ refl s
  obtain ⟨u, hu, rfl⟩ := Option.map_eq_some_iff.mp h
  obtain ⟨cl, hcl, hu⟩ := Option.bind_eq_some_iff.mp hu
  obtain ⟨v, hv, hu⟩ := Option.bind_eq_some_iff.mp hu
  obtain ⟨w, hw, hu⟩ := Option.bind_eq_some_iff.mp hu
  obtain rfl := Option.some.inj hu
  have hclosed : Calm W B s (s.closeSubscriptions id cl) := pubsub hcl rfl rfl rfl ⟨_, _, rfl⟩
  have herased (u : Server S) : Calm W B u (removeWriteHandler id { u with clients := u.clients.erase id }) := by
    refine ⟨fun _ _ => .inl, fun i cl' hcl' => ?_, fun _ _ _ => .inl⟩
    replace hcl' : (u.clients.erase id).lookup i = some cl' := hcl'
    rw [UnorderedMap.lookup_erase_eq_ite] at hcl'
    split at hcl'
    · cases hcl'
    · exact ⟨cl', .inl hcl', .refl cl'⟩
  have hclosed := ((hclosed.trans (unblockClient hv)).trans (unwatch hw)).trans (closeReplication id cl w)
  exact (hclosed.trans (herased _)).trans (note rfl _)

/-- So does the link. -/
theorem disconnectFromMaster (h : s.disconnectFromMaster = some t) : Calm W B s t := by
  unfold Server.disconnectFromMaster at h
  split at h
  · exact Option.some.inj h ▸ of_eq rfl rfl rfl
  · split at h
    · cases h
    · obtain ⟨u, hu, rfl⟩ := Option.map_eq_some_iff.mp h
      have hunset : Calm W B s { s with masterClient := none } := of_eq rfl rfl rfl
      exact (hunset.trans (removeClient hu)).trans (of_eq rfl rfl rfl)

/-! ### The log -/

/-- What is logged is sent to the replicas as a reply. -/
theorem complete {writer : ClientId} {writes : Bool} {cmd : List RespValue} {r : Except Exn Unit}
    (h : s.complete writer writes cmd = some (r, t)) : Calm W B s t := by
  have hsame (data : Bytes) (i : ClientId) (u : Server S) (cl : Client) : Kin W B u i cl (cl.addReply data) :=
    .same rfl rfl (fun h => h) rfl
  exact complete_keeps (note rfl s) (fun _ => logWrite_keeps (I := Calm W B s)
    (fun _ hs => hs.trans (of_eq rfl rfl rfl)) (fun _ _ hu => hu.trans (of_eq rfl rfl rfl))
    fun _ _ hv hu => (hu.trans (updateClient (hsame _ _ _) hv)).trans (note rfl _)) h

end Calm

/-! ### Handlers -/

section Handlers

variable {W : ClientId → Prop} {B : ClientId → RespValue → Prop} {s₀ : Server S}

/-- What a handler does with its own client and with replies is calm. -/
theorem robust_calm : Robust (Calm W B s₀) where
  own {s id cl cl'} hcl htame hs := by
    have hkin : Kin W B s id cl cl' :=
      { blockCmd := .inl htame.tables.blockCmd
        watchedKeys := .inr (.inl htame.tables.watchedKeys)
        dirtyExec := fun hdirty => .inl (htame.dirtyExec hdirty)
        queue := fun args hargs => by
          rcases htame.queue with hnil | heq
          · rw [hnil] at hargs
            cases hargs
          · exact .inl (heq ▸ hargs) }
    exact hs.trans (.client (.inl hcl) rfl (fun _ _ => .inl) hkin fun _ _ _ => .inl)
  aside h hs := hs.trans (.of_blocksNobody h.clients h.databases (Quiet.aside h).blocksNobody)
  reply h hs := hs.trans (.addReply h)
  deliver h hs := hs.trans (.deliver h)
  unwatch h hs := hs.trans (.unwatch h)
  subscribe h hs := hs.trans (.subscribeChannel h)
  unsubscribe h hs := hs.trans (.unsubscribeChannel h)
  psubscribe h hs := hs.trans (.psubscribePattern h)
  punsubscribe h hs := hs.trans (.punsubscribePattern h)
  attach h hs := hs.trans (.addReplica h)
  disconnect h hs := hs.trans (.disconnectFromMaster h)
  replicate {s _ host port} h hs := by
    have hset : Calm W B s (s.setMaster host port) :=
      .of_blocksNobody rfl rfl (Quiet.setMaster host port s).blocksNobody
    exact hs.trans (hset.trans (.disconnectFromMaster h))

variable [Platform] {k : Option RespValue} {o : Option ClientId} {c : ClientId} {args : List RespValue}
  {α : Type}

/-- Whatever is done to a database is calm. -/
theorem calm_onDatabaseAt (i : ℕ) (p : DbM S α) :
    (onDatabaseAt i p : EffectM S k o Exn α).Keeps (Calm W B s₀) := fun s hs =>
  (post_onDatabaseAt i p s _).mpr fun _ hdb _ _ hrun _ ht => hs.trans (.putDatabase hdb (p.within hrun) ht)

/-- Whatever is done to all databases, where only who watches a key is flagged. -/
theorem calm_onDatabases {ε : Type}
    {f : List (Database S) → Env → Server S → Option (α × List (Database S) × Env)}
    {h : ∀ s : Server S, ∀ a databases env, f s.databases { s.env with flagged := [] } s
      = some (a, databases, env) →
      databases.map Database.watchedKeys = s.databases.map Database.watchedKeys ∧
        (RedisDb.Accounted s.databases s.env → RedisDb.Accounted databases env)}
    (hf : ∀ (s : Server S) a databases env, f s.databases { s.env with flagged := [] } s
      = some (a, databases, env) → Rdb.WatchersKept s.databases { s.env with flagged := [] } databases env) :
    (onDatabases f h : EffectM S k o ε α).Keeps (Calm W B s₀) := by
  refine .step fun s a t ht hs => ?_
  obtain ⟨⟨a', databases, env⟩, hdatabases, hput⟩ := Option.bind_eq_some_iff.mp ht
  obtain ⟨t', ht', heq⟩ := Option.map_eq_some_iff.mp hput
  obtain ⟨-, rfl⟩ := Prod.mk.inj heq
  exact hs.trans (.putDatabases (hf s a' databases env hdatabases) ht')

/-- Saving. -/
theorem calm_save [Double S] [Inhabited S] : (save : ServerM S c Bool).Keeps (Calm W B s₀) := by
  refine .bind (.read _) fun _ => .ite (.pure _) (.bind robust_calm.keeps_draw fun opens =>
    .bind (calm_onDatabases fun s a databases env h => ?_) fun x => ?_)
  · obtain ⟨-, h⟩ := Prod.mk.inj (Option.some.inj h)
    obtain ⟨rfl, rfl⟩ := Prod.mk.inj h
    exact Rdb.watchersKept_saveToFile _ _ _
  · obtain ⟨success, out⟩ := x
    refine .ite (.bind (calm_onDatabases fun s a databases env h => ?_) fun _ =>
      .bind robust_calm.keeps_modify fun _ => .pure _) (.pure _)
    obtain ⟨-, h⟩ := Prod.mk.inj (Option.some.inj h)
    obtain ⟨rfl, rfl⟩ := Prod.mk.inj h
    exact ⟨by simp [saved, Function.comp_def], fun _ => .inl⟩

variable [Double S] [Inhabited S] [LT S] [DecidableLT S] [BEq S] {cb : Callbacks S}

/-- What the callbacks of a handler do is calm, but that a `WATCH` in the queue of a client of `W` may run. -/
structure CallbacksCalm (W : ClientId → Prop) (B : ClientId → RespValue → Prop) (s₀ : Server S)
    (cb : Callbacks S) : Prop where
  issued : s₀.Issued B
  wake : ∀ c key, (cb.wake c key).Keeps (Calm W B s₀)
  runQueued : ∀ c args, B c (.array args) → (¬W c → (RespValue.array args).named ≠ some .watch ∧ s₀.QueuesNoWatch c) →
    (cb.runQueued c args).Keeps (Calm W B s₀)

/-- **Every handler is calm**, but that of `WATCH`, and that of `EXEC` where a `WATCH` is in the queue. Handlers that
have to do with the tables of watchers are `WATCH`, `UNWATCH`, `DISCARD` and `EXEC`, and the other ones are calm by
what they are made of. -/
theorem calm_handler (hcb : CallbacksCalm W B s₀ cb) {cmd : Command}
    (hnamed : (RespValue.array args).named = some cmd) (hissued : B c (.array args)) (hwatch : cmd = .watch → W c)
    (hqueue : cmd = .exec → ¬W c → s₀.QueuesNoWatch c) : (cmd.handler cb c args).Keeps (Calm W B s₀) := by
  have hcommand (f : DatabaseCommand S) : (databaseCommand f c args).Keeps (Calm W B s₀) :=
    robust_calm.keeps_databaseCommand fun i => calm_onDatabaseAt i _
  have hpush (left : Bool) : (pushGeneric (cb.wake c) args left).Keeps (Calm W B s₀) :=
    robust_calm.keeps_pushGeneric (hcb.wake c) fun i => calm_onDatabaseAt i _
  have hpop (left : Bool) (hpop : (RespValue.array args).IsPop) :
      (blockingPop left c args : ServerM S c Unit).Keeps (Calm W B s₀) :=
    robust_calm.keeps_blockingPop (fun i => calm_onDatabaseAt i _)
      fun _ _ _ _ h hs => hs.trans (.blockClient ⟨hpop, hissued⟩ h)
  cases cmd with
  | ping => exact robust_calm.keeps_pingCommand
  | echo => exact robust_calm.keeps_echoCommand
  | command => exact robust_calm.keeps_commandCommand
  | select => exact robust_calm.keeps_selectCommand
  | quit => exact robust_calm.keeps_quitCommand args
  | info => exact robust_calm.keeps_infoCommand args
  | save => exact robust_calm.keeps_saveCommand calm_save args
  | bgsave => exact robust_calm.keeps_bgsaveCommand args
  | bgrewriteaof => exact robust_calm.keeps_bgrewriteaofCommand args
  | config => exact robust_calm.keeps_configCommand
  | debug => exact robust_calm.keeps_debugCommand fun _ i => calm_onDatabaseAt i _
  | lpush => exact hpush true
  | rpush => exact .bind (hpush false) fun _ => hpush false
  | blpop => exact hpop true (.inl hnamed)
  | brpop => exact hpop false (.inr hnamed)
  | zadd =>
    exact .bind robust_calm.keeps_modify fun _ => .bind robust_calm.keeps_draw fun _ =>
      .bind (Robust.keeps_onDatabase fun i => calm_onDatabaseAt i _) fun _ => robust_calm.keeps_addReply _
  | set => exact robust_calm.keeps_setHandler fun i => calm_onDatabaseAt i _
  | multi => exact robust_calm.keeps_multiCommand args
  -- the queued commands have been issued, and where the client is not in `W` none of them is a `WATCH`
  | exec =>
    refine robust_calm.keeps_execCommand args fun s cl hs hcl queued hqueued =>
      hcb.runQueued c queued ((hs.issued hcb.issued c cl hcl).2 queued hqueued) fun hc => ?_
    have hnone := hqueue rfl hc
    exact ⟨hs.queues c hc hnone cl hcl queued hqueued, hnone⟩
  | discard => exact robust_calm.keeps_discardCommand args
  | watch => exact robust_calm.keeps_watchCommand fun _ _ _ _ h hs => hs.trans (.watch (hwatch rfl) h)
  | unwatch => exact robust_calm.keeps_unwatchCommand args
  | subscribe => exact robust_calm.keeps_subscribeCommand
  | unsubscribe => exact robust_calm.keeps_unsubscribeCommand
  | psubscribe => exact robust_calm.keeps_psubscribeCommand
  | punsubscribe => exact robust_calm.keeps_punsubscribeCommand
  | publish => exact robust_calm.keeps_publishCommand
  | replicaof => exact robust_calm.keeps_replicaofCommand fun i => calm_onDatabaseAt i _
  | replconf => exact robust_calm.keeps_replconfCommand
  | psync => exact robust_calm.keeps_psyncCommand
  | wait => exact robust_calm.keeps_waitCommand args
  | _ => exact hcommand _

/-- **So is every command**, with the same exceptions. -/
theorem calm_executeCommand (hcb : CallbacksCalm W B s₀ cb) {command : RespValue} {program : CommandM S c command}
    (hissued : command ≠ .null → B c command) (hwatch : command.named = some .watch → W c)
    (hqueue : command.named = some .exec → ¬W c → s₀.QueuesNoWatch c)
    (h : executeCommand cb c command = .ok program) : program.Keeps (Calm W B s₀) := by
  refine robust_calm.keeps_executeCommand h fun name args cmdName hname heq => ?_
  subst heq
  have hissued : B c (.array (name :: args)) := hissued nofun
  have hnamed : (RespValue.array (name :: args)).named = Command.lookup cmdName :=
    RespValue.named_of_name hname
  refine robust_calm.keeps_executeNamed hname (fun _ _ _ i => calm_onDatabaseAt i _)
    (fun cmd hcmd _ s t ht hs => hs.trans (.updateClient (fun cl => ?_) ht)) fun cmd hcmd _ =>
    robust_calm.keeps_runHandler ⟨cmdName, hname⟩ ?_ fun _ _ _ hcomplete hs => hs.trans (.complete hcomplete)
  · -- the command goes into the queue
    refine ⟨.inl rfl, .inr (.inl rfl), .inl, fun queued hqueued => ?_⟩
    rcases List.mem_append.mp hqueued with hold | hnew
    · exact .inl hold
    · obtain rfl := List.mem_singleton.mp hnew
      refine .inr ⟨?_, hissued⟩
      by_cases hw : (RespValue.array (name :: args)).named = some .watch
      · exact .inl (hwatch hw)
      · exact .inr hw
  · exact calm_handler hcb (hnamed.trans hcmd) hissued (fun heq => hwatch (heq ▸ hnamed.trans hcmd))
      fun heq => hqueue (heq ▸ hnamed.trans hcmd)

/-- By induction on the depth. -/
theorem callbacksCalm (hs₀ : s₀.PopsWait) (hissued : s₀.Issued B) (depth : ℕ) :
    CallbacksCalm W B s₀ (callbacks depth : Callbacks S) := by
  induction depth with
  | zero => exact ⟨hissued, fun _ _ => .undefined, fun _ _ _ _ => .undefined⟩
  | succ depth ih =>
    refine ⟨hissued, fun c key => Robust.keeps_handleClientsBlockedOnKey
      (fun _ _ _ h hs => hs.trans (.unblockClient h)) (fun s _ _ hs => hs.trans (.note rfl s))
      (fun s id hs => hs.trans (.installWriteHandler id s)) fun s id cl program hs hcl hprogram => ?_,
      fun c args hB hargs => robust_calm.keeps_runQueued fun name rest cmdName cmd heq hname hcmd => ?_⟩
    · -- what has waited is a pop
      have hpop : cl.blockCmd.named ≠ some .watch ∧ cl.blockCmd.named ≠ some .exec := by
        rcases hs.pops hs₀ id cl hcl with hnull | hpop | hpop
        · rw [hnull]
          exact ⟨nofun, nofun⟩
        · rw [hpop]
          exact ⟨nofun, nofun⟩
        · rw [hpop]
          exact ⟨nofun, nofun⟩
      have hB (hne : cl.blockCmd ≠ .null) : B id cl.blockCmd := (hs.issued hissued id cl hcl).1.resolve_left hne
      exact calm_executeCommand ih hB (fun h => absurd h hpop.1) (fun h => absurd h hpop.2) hprogram
    · subst heq
      have hnamed : (RespValue.array (name :: rest)).named = Command.lookup cmdName :=
        RespValue.named_of_name hname
      refine calm_handler ih (hnamed.trans hcmd) hB (fun heq => ?_) fun _ hc => (hargs hc).2
      by_contra hc
      exact (hargs hc).1 (heq ▸ hnamed.trans hcmd)

/-- **A request is calm** that is no `WATCH`, and no `EXEC` of a client with a `WATCH` in its queue. -/
theorem Calm.of_run {depth : ℕ} {s t : Server S} {command : RespValue} {program : CommandM S c command}
    {r : Except Empty Unit} (hs : s.PopsWait) (hissued : s.Issued B) (hcommand : B c command)
    (hwatch : command.named = some .watch → W c)
    (hqueue : command.named = some .exec → ¬W c → s.QueuesNoWatch c)
    (h : executeCommand (callbacks depth) c command = .ok program) (hrun : program.run s = some (r, t)) :
    Calm W B s t :=
  calm_executeCommand (callbacksCalm hs hissued depth) (fun _ => hcommand) hwatch hqueue h s (.refl s) r t hrun

end Handlers

end Server

end RedisDb
