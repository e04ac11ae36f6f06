import RedisDb.Commands.CommandRegistry

/-!
# Rules for handlers

Of what a handler does, most has nothing to do with the data: it replies, changes a flag of its client, or changes a
table of clients. An invariant that these methods keep (`Server.Robust`) is kept by the handlers that call no others,
and by the others as far as what they do to a database and whom they wake keeps it. So an invariant over all commands
is proved by a lemma for each method, and a case for each command that works on a database.

The rules follow the layers of `executeCommand`. First the operations that programs are made of (`keeps_addReply`,
`keeps_modifyClient` and so on), each of which is one method; then the handlers, whose rules have a hypothesis for
each access to a database that the handler makes and for each table that `Robust` leaves out (watched keys, the lists
of those who wait); then eviction, the `try` block with the completion of the command (`keeps_runHandler`), and the
dispatch (`keeps_executeNamed`, `keeps_executeCommand`). What a woken client runs and what `EXEC` runs comes back to
the dispatch, which is the induction on the depth of the calls that each invariant makes for itself.

Where an invariant relates a state to one before it, as a step relation does, `Robust.of_steps` gives the rules from
those of the relation.
-/

namespace RedisDb

open RespSerializer EffectM

variable {S : Type}

/-- A change of a client by a handler: the queue stays or is dropped, and the client is not marked as one
whose transaction has to fail. -/
structure Client.Tame (cl cl' : Client) : Prop where
  tables : cl.SameTables cl'
  inputBuffer : cl'.inputBuffer = cl.inputBuffer
  queue : cl'.transactionQueue = [] ∨ cl'.transactionQueue = cl.transactionQueue
  dirtyExec : cl'.hasFlag .dirtyExec = true → cl.hasFlag .dirtyExec = true

namespace Client.Tame

variable {cl : Client} {flag : ClientFlag}

/-- Flags that no table knows of may be set. -/
theorem setFlag (hslave : flag ≠ .slave) (hblocked : flag ≠ .blocked) (hmaster : flag ≠ .master)
    (hdirty : flag ≠ .dirtyExec) : cl.Tame (cl.setFlag flag) where
  tables := cl.sameTables_setFlag hslave hblocked hmaster
  inputBuffer := rfl
  queue := .inr rfl
  dirtyExec h := by rwa [hasFlag_setFlag, if_neg hdirty.symm] at h

/-- And cleared. -/
theorem clearFlag (hslave : flag ≠ .slave) (hblocked : flag ≠ .blocked) (hmaster : flag ≠ .master) :
    cl.Tame (cl.clearFlag flag) where
  tables := cl.sameTables_clearFlag hslave hblocked hmaster
  inputBuffer := rfl
  queue := .inr rfl
  dirtyExec h := by
    rw [hasFlag_clearFlag] at h
    split at h
    · cases h
    · exact h

/-- The queue may be dropped, with the flags that belong to it. -/
theorem clearTransaction : cl.Tame cl.clearTransaction where
  tables := cl.sameTables_clearTransaction
  inputBuffer := rfl
  queue := .inl rfl
  dirtyExec h := by
    rw [hasFlag_clearTransaction, if_pos (Or.inr rfl)] at h
    cases h

/-- Another database may be selected. -/
theorem selectedDb (i : ℤ) : cl.Tame { cl with selectedDb := i } where
  tables := by constructor <;> rfl
  inputBuffer := rfl
  queue := .inr rfl
  dirtyExec := id

end Client.Tame

namespace Server

/-- An invariant that the methods keep which handlers call for clients, and not for data. -/
structure Robust (I : Server S → Prop) : Prop where
  own : ∀ {s : Server S} {id cl cl'}, s.clients.lookup id = some cl → cl.Tame cl' → I s →
    I { s with clients := s.clients.insert id cl' }
  aside : ∀ {s t : Server S}, s.Aside t → I s → I t
  reply : ∀ {s t : Server S} {id data}, s.addReply id data = some t → I s → I t
  deliver : ∀ {s t : Server S} {id data}, s.deliver id data = some t → I s → I t
  unwatch : ∀ {s t : Server S} {id}, s.unwatch id = some t → I s → I t
  subscribe : ∀ {s t : Server S} {id channel}, s.subscribeChannel id channel = some t → I s → I t
  unsubscribe : ∀ {s t : Server S} {id channel}, s.unsubscribeChannel id channel = some t → I s → I t
  psubscribe : ∀ {s t : Server S} {id pattern}, s.psubscribePattern id pattern = some t → I s → I t
  punsubscribe : ∀ {s t : Server S} {id pattern}, s.punsubscribePattern id pattern = some t → I s → I t
  attach : ∀ {s t : Server S} {id}, s.addReplica id = some t → I s → I t
  disconnect : ∀ {s t : Server S}, s.disconnectFromMaster = some t → I s → I t
  replicate : ∀ {s t : Server S} {host port}, (s.setMaster host port).disconnectFromMaster = some t →
    I s → I t

section Run

variable [Platform] {k : Option RespValue} {o : Option ClientId} {ε : Type} {s : Server S}

/-- A client that is there can be read. -/
theorem run_client {id : ClientId} {cl : Client} (hcl : s.clients.lookup id = some cl) :
    (client id : EffectM S k o ε Client).run s = some (.ok cl, s) := by
  show ((s.clients.lookup id).map (·, s)).map _ = _
  rw [hcl]
  rfl

end Run

namespace Robust

/-- What the methods cannot lose, for they are steps of a kind that keeps it. -/
theorem of_steps {I : Server S → Prop} {R : Server S → Server S → Prop} (hR : ∀ s, Robust (R s))
    (hrefl : ∀ s, R s s) (hkeeps : ∀ s t, R s t → I s → I t) : Robust I where
  own hcl htame := hkeeps _ _ ((hR _).own hcl htame (hrefl _))
  aside h := hkeeps _ _ ((hR _).aside h (hrefl _))
  reply h := hkeeps _ _ ((hR _).reply h (hrefl _))
  deliver h := hkeeps _ _ ((hR _).deliver h (hrefl _))
  unwatch h := hkeeps _ _ ((hR _).unwatch h (hrefl _))
  subscribe h := hkeeps _ _ ((hR _).subscribe h (hrefl _))
  unsubscribe h := hkeeps _ _ ((hR _).unsubscribe h (hrefl _))
  psubscribe h := hkeeps _ _ ((hR _).psubscribe h (hrefl _))
  punsubscribe h := hkeeps _ _ ((hR _).punsubscribe h (hrefl _))
  attach h := hkeeps _ _ ((hR _).attach h (hrefl _))
  disconnect h := hkeeps _ _ ((hR _).disconnect h (hrefl _))
  replicate h := hkeeps _ _ ((hR _).replicate h (hrefl _))

variable [Platform] {I : Server S → Prop} (hI : Robust I) {k : Option RespValue} {o : Option ClientId}
  {ε α : Type}

/-! ### The operations -/

omit hI in
/-- A method that keeps the invariant. -/
theorem keeps_call {f : Server S → Option (Server S)} {h : ∀ s t, f s = some t → Does k o s t}
    (hf : ∀ s t, f s = some t → I s → I t) : (call f h : EffectM S k o ε Unit).Keeps I :=
  fun s hs => (post_call s _).mpr fun t ht => hf s t ht hs

omit hI in
/-- Reading the client changes nothing. -/
theorem keeps_client {id : ClientId} : (client id : EffectM S k o ε Client).Keeps I :=
  fun s hs => (post_client s _).mpr fun _ _ => hs

include hI

/-- A reply to the client itself. -/
theorem keeps_addReply {id : ClientId} (data : Bytes) :
    (EffectM.addReply data : EffectM S k (some id) ε Unit).Keeps I :=
  keeps_call fun _ _ => hI.reply

/-- A tame change of a client. -/
theorem keeps_modifyClient {id : ClientId} {f : Client → Client} {h : ∀ cl : Client, cl.SameTables (f cl)}
    {hinput : ∀ cl : Client, (f cl).inputBuffer = cl.inputBuffer} (hf : ∀ cl : Client, cl.Tame (f cl)) :
    (modifyClient id f h hinput : EffectM S k o ε Unit).Keeps I :=
  keeps_call fun s t ht hs => by
    obtain ⟨cl, hcl, rfl⟩ := Option.map_eq_some_iff.mp ht
    exact hI.own hcl (hf cl) hs

/-- A change that is no business of clients or data. -/
theorem keeps_modify {f : Server S → Server S} {h : ∀ s : Server S, s.Aside (f s)} :
    (modify f h : EffectM S k o ε Unit).Keeps I :=
  keeps_call fun s _ ht hs => Option.some.inj ht ▸ hI.aside (h s) hs

/-- The outside world is asked for something, the heights of nodes for example. -/
theorem keeps_draw {f : Server S → α × Server S} {h : ∀ s : Server S, s.Aside (f s).2} :
    (draw f h : EffectM S k o ε α).Keeps I :=
  Program.Keeps.step fun s a t hf hs => by
    obtain rfl : (f s).2 = t := congrArg Prod.snd (Option.some.inj hf)
    exact hI.aside (h s) hs

omit hI in
/-- An access to the database that the client has selected, whichever that is. -/
theorem keeps_onDatabase {c : ClientId} {p : DbM S α}
    (hp : ∀ i, (onDatabaseAt i p : EffectM S k (some c) Exn α).Keeps I) :
    (onDatabase p : EffectM S k (some c) Exn α).Keeps I :=
  .bind keeps_client fun _ => .bind (.read _) fun _ => hp _

/-! ### The handlers -/

variable {c : ClientId} {args : List RespValue}

/-- A handler that works on the selected database and replies. -/
theorem keeps_databaseCommand {f : DatabaseCommand S}
    (hf : ∀ i, (onDatabaseAt i (f args) : ServerM S c Bytes).Keeps I) :
    (databaseCommand f c args).Keeps I :=
  .bind (keeps_onDatabase hf) fun _ => hI.keeps_addReply _

/-! #### Server commands -/

/-- With an argument `PING` replies it. -/
theorem keeps_pingCommand : (pingCommand c args : ServerM S c Unit).Keeps I :=
  .ite (.bind (keeps_argString _ _) fun _ => hI.keeps_addReply _) (hI.keeps_addReply _)

theorem keeps_echoCommand : (echoCommand c args : ServerM S c Unit).Keeps I :=
  .bind (keeps_argString _ _) fun _ => hI.keeps_addReply _

/-- The replies of `COMMAND` are made of the registry and of the arguments. -/
theorem keeps_commandCommand : (commandCommand c args : ServerM S c Unit).Keeps I := by
  refine .ite (.bind (keeps_argString _ _) fun subcommand => .ite (hI.keeps_addReply _)
    (.ite (hI.keeps_addReply _) (.ite (.bind (.foldlM _ (fun response arg _ => ?_) _) fun _ =>
      hI.keeps_addReply _) (hI.keeps_addReply _)))) (hI.keeps_addReply _)
  refine .bind (.ofExcept _) fun name => ?_
  split <;> exact .pure _

/-- An index that is out of range gets an error, and any other is selected. -/
theorem keeps_selectCommand : (selectCommand c args : ServerM S c Unit).Keeps I := by
  refine .bind (keeps_argConverted _ _ _) fun dbIndex => ?_
  cases dbIndex with
  | none => exact hI.keeps_addReply _
  | some dbIndex =>
    exact .bind (.read _) fun _ => .ite (hI.keeps_addReply _)
      (.bind (hI.keeps_modifyClient fun _ => .selectedDb _) fun _ => hI.keeps_addReply _)

/-- The client is flagged, to be closed once it has its reply. -/
theorem keeps_quitCommand (args : List RespValue) : (quitCommand c args : ServerM S c Unit).Keeps I :=
  .bind (hI.keeps_addReply _) fun _ => hI.keeps_modifyClient fun _ =>
    .setFlag (by decide) (by decide) (by decide) (by decide)

/-- `INFO` looks at the clock and at the counters. -/
theorem keeps_infoCommand (args : List RespValue) : (infoCommand c args : ServerM S c Unit).Keeps I :=
  .bind hI.keeps_draw fun _ => .bind (.read _) fun _ => hI.keeps_addReply _

/-- `SAVE` writes the snapshot at once, which is an access to all databases. -/
theorem keeps_saveCommand [Double S] [Inhabited S] (hsave : (save : ServerM S c Bool).Keeps I)
    (args : List RespValue) : (saveCommand c args : ServerM S c Unit).Keeps I :=
  .bind hsave fun _ => .ite (hI.keeps_addReply _) (hI.keeps_addReply _)

/-- `BGSAVE` copies the databases for a thread that is to write them, which is no business of the data. -/
theorem keeps_bgsaveCommand [Inhabited S] [LT S] [DecidableLT S] [BEq S] (args : List RespValue) :
    (bgsaveCommand c args : ServerM S c Unit).Keeps I :=
  .bind (.bind (.read _) fun _ => .ite (.pure _) (.bind hI.keeps_draw fun _ =>
    .bind hI.keeps_modify fun _ => .pure _)) fun _ => .ite (hI.keeps_addReply _) (hI.keeps_addReply _)

/-- So does `BGREWRITEAOF`, if its file can be opened. -/
theorem keeps_bgrewriteaofCommand [Inhabited S] [LT S] [DecidableLT S] [BEq S] (args : List RespValue) :
    (bgrewriteaofCommand c args : ServerM S c Unit).Keeps I :=
  .bind (.bind (.read _) fun _ => .ite (.pure _) (.bind hI.keeps_modify fun _ => .bind (.read _) fun _ =>
    .ite (.pure _) (.bind hI.keeps_draw fun _ => .bind hI.keeps_modify fun _ => .pure _))) fun _ =>
    .ite (hI.keeps_addReply _) (hI.keeps_addReply _)

/-- Three parameters can be set. -/
theorem keeps_configSet {param value : Bytes} : (configSet param value : ServerM S c Unit).Keeps I :=
  .ite (.bind (.ofExcept _) fun _ => .bind hI.keeps_modify fun _ => hI.keeps_addReply _)
    (.ite (.bind hI.keeps_modify fun _ => hI.keeps_addReply _)
      (.ite (.bind hI.keeps_modify fun _ => hI.keeps_addReply _) (hI.keeps_addReply _)))

/-- `CONFIG GET` reads the configuration, and `CONFIG SET` changes it. -/
theorem keeps_configCommand : (configCommand c args : ServerM S c Unit).Keeps I :=
  .ite (hI.keeps_addReply _) (.bind (keeps_argString _ _) fun _ => .bind (keeps_argString _ _) fun _ =>
    .ite (.bind (.read _) fun _ => hI.keeps_addReply _)
      (.ite (.ite (hI.keeps_addReply _) (.bind (keeps_argString _ _) fun _ => hI.keeps_configSet))
        (hI.keeps_addReply _)))

/-- `DEBUG OBJECT` looks at a key; anything else that `DEBUG` does is undefined or an error. -/
theorem keeps_debugCommand
    (hget : ∀ key i, (onDatabaseAt i (DbM.getObject key) : ServerM S c _).Keeps I) :
    (debugCommand c args : ServerM S c Unit).Keeps I := by
  refine .ite (hI.keeps_addReply _) (.bind (keeps_argString _ _) fun _ => .ite
    (.bind (keeps_argString _ _) fun key => .bind (keeps_onDatabase (hget key)) fun obj => ?_)
    (.ite .undefined (hI.keeps_addReply _)))
  cases obj with
  | none => exact hI.keeps_addReply _
  | some obj => exact .bind hI.keeps_draw fun _ => hI.keeps_addReply _

/-! #### Pushes and blocking pops -/

/-- A push replies, and wakes whoever waits for the key that it has pushed to. -/
theorem keeps_pushGeneric {wake : Bytes → ServerM S c Unit} (hwake : ∀ key, (wake key).Keeps I)
    {left : Bool} (hpush : ∀ i, (onDatabaseAt i (pushElements args left) : ServerM S c _).Keeps I) :
    (pushGeneric wake args left).Keeps I := by
  refine .bind hI.keeps_modify fun _ => .bind (keeps_onDatabase hpush) fun x => ?_
  obtain ⟨reply, pushed⟩ := x
  refine .bind (hI.keeps_addReply _) fun _ => ?_
  cases pushed with
  | some key => exact hwake key
  | none => exact .pure _

/-- A blocking pop replies with an element, or blocks its client. -/
theorem keeps_blockingPop {left : Bool}
    (hpop : ∀ i, (onDatabaseAt i (bpopGeneric args left) : ServerM S c _).Keeps I)
    (hblock : ∀ (s t : Server S) keys timeout, s.blockClient c keys timeout (.array args) [] = some t →
      I s → I t) : (blockingPop left c args : ServerM S c Unit).Keeps I := by
  refine .bind (keeps_onDatabase hpop) fun outcome => ?_
  -- an element was there, or the client waits for one
  cases outcome with
  | reply data => exact hI.keeps_addReply _
  | block keys timeout strings => exact keeps_call fun s t => hblock s t keys timeout

/-! #### Transactions -/

/-- `MULTI` flags its client. -/
theorem keeps_multiCommand (args : List RespValue) : (multiCommand c args : ServerM S c Unit).Keeps I :=
  .bind keeps_client fun _ => .ite (hI.keeps_addReply _)
    (.bind (hI.keeps_modifyClient fun _ => .setFlag (by decide) (by decide) (by decide) (by decide)) fun _ =>
      hI.keeps_addReply _)

/-- `EXEC` runs what the client has queued. -/
theorem keeps_execCommand {runQueued : Handler S} (args : List RespValue)
    (hrun : ∀ s cl, I s → s.clients.lookup c = some cl → ∀ queued ∈ cl.transactionQueue,
      (runQueued c queued).Keeps I) : (execCommand runQueued c args).Keeps I := by
  intro s hs
  rw [execCommand, Program.post_bind, post_client]
  intro cl hcl
  refine Program.Keeps.ite (hI.keeps_addReply _) ?_ s hs
  exact .bind (hI.keeps_modifyClient fun _ => .clearTransaction) fun _ => .ite (hI.keeps_addReply _)
    (.bind (hI.keeps_addReply _) fun _ => .forM _ fun queued hqueued => hrun s cl hs hcl queued hqueued)

/-- `DISCARD` forgets the queue and the watched keys. -/
theorem keeps_discardCommand (args : List RespValue) : (discardCommand c args : ServerM S c Unit).Keeps I :=
  .bind keeps_client fun _ => .ite (hI.keeps_addReply _)
    (.bind (keeps_call fun _ _ => hI.unwatch) fun _ =>
      .bind (hI.keeps_modifyClient fun _ => .clearTransaction) fun _ => hI.keeps_addReply _)

/-- `WATCH` enters its client with each key. -/
theorem keeps_watchCommand (hwatch : ∀ (s t : Server S) i key, s.watch c i key = some t → I s → I t) :
    (watchCommand c args : ServerM S c Unit).Keeps I :=
  .bind keeps_client fun _ => .ite (hI.keeps_addReply _) (.bind (.read _) fun _ =>
    .bind (.forM _ fun _ _ => .bind (.ofExcept _) fun _ => keeps_call fun s t => hwatch s t _ _) fun _ =>
      hI.keeps_addReply _)

/-- `UNWATCH` takes it out again. -/
theorem keeps_unwatchCommand (args : List RespValue) : (unwatchCommand c args : ServerM S c Unit).Keeps I :=
  .bind (keeps_call fun _ _ => hI.unwatch) fun _ =>
    .bind (hI.keeps_modifyClient fun _ => .clearFlag (by decide) (by decide) (by decide)) fun _ =>
      hI.keeps_addReply _

/-! #### Publish and subscribe -/

/-- One channel or pattern, and the reply that counts the subscriptions. -/
theorem keeps_changeSubscription {word channel : Bytes} {method : Bytes → ServerM S c Unit}
    (hmethod : ∀ channel, (method channel).Keeps I) :
    (changeSubscription word method channel).Keeps I :=
  .bind (hmethod channel) fun _ => .bind keeps_client fun _ => hI.keeps_addReply _

/-- The flag is set first, and then the arguments are read one by one. -/
theorem keeps_subscribeWith {word : Bytes} {method : Bytes → ServerM S c Unit}
    (hmethod : ∀ channel, (method channel).Keeps I) : (subscribeWith word method args).Keeps I :=
  .bind (hI.keeps_modifyClient fun _ => .setFlag (by decide) (by decide) (by decide) (by decide)) fun _ =>
    .forM _ fun _ _ => .bind (.ofExcept _) fun _ => hI.keeps_changeSubscription hmethod

/-- Without arguments all subscriptions end; the flag goes with the last one. -/
theorem keeps_unsubscribeWith {word : Bytes} {method : Bytes → ServerM S c Unit}
    {all : Client → UnorderedSet Bytes} (hmethod : ∀ channel, (method channel).Keeps I) :
    (unsubscribeWith word method all args).Keeps I := by
  have hrest : (do
      let cl ← client c
      if cl.pubsubChannels.keys = [] ∧ cl.pubsubPatterns.keys = [] then
        modifyClient c (·.clearFlag .pubsub) fun cl =>
          cl.sameTables_clearFlag (by decide) (by decide) (by decide) : ServerM S c Unit).Keeps I :=
    .bind keeps_client fun _ => .ite (hI.keeps_modifyClient fun _ =>
      .clearFlag (by decide) (by decide) (by decide)) (.pure _)
  unfold unsubscribeWith
  split
  · exact .bind keeps_client fun _ =>
      .bind (.forM _ fun _ _ => hI.keeps_changeSubscription hmethod) fun _ => hrest
  · exact .bind (.forM _ fun _ _ => .bind (.ofExcept _) fun _ => hI.keeps_changeSubscription hmethod)
      fun _ => hrest

theorem keeps_subscribeCommand : (subscribeCommand c args : ServerM S c Unit).Keeps I :=
  hI.keeps_subscribeWith fun _ => keeps_call fun _ _ => hI.subscribe

theorem keeps_unsubscribeCommand : (unsubscribeCommand c args : ServerM S c Unit).Keeps I :=
  hI.keeps_unsubscribeWith fun _ => keeps_call fun _ _ => hI.unsubscribe

theorem keeps_psubscribeCommand : (psubscribeCommand c args : ServerM S c Unit).Keeps I :=
  hI.keeps_subscribeWith fun _ => keeps_call fun _ _ => hI.psubscribe

theorem keeps_punsubscribeCommand : (punsubscribeCommand c args : ServerM S c Unit).Keeps I :=
  hI.keeps_unsubscribeWith fun _ => keeps_call fun _ _ => hI.punsubscribe

/-- A message goes to the subscribers of the channel, and then to those of the patterns. -/
theorem keeps_publishCommand : (publishCommand c args : ServerM S c Unit).Keeps I := by
  have hdeliver (id : ClientId) (data : Bytes) :
      (RedisDb.deliver id data : ServerM S c Unit).Keeps I := keeps_call fun _ _ => hI.deliver
  refine .bind (keeps_argString _ _) fun channel => .bind (keeps_argString _ _) fun message =>
    .bind ?_ fun _ => hI.keeps_addReply _
  exact .bind (.read _) fun _ => .bind (.forM _ fun _ _ => hdeliver _ _) fun _ => .bind (.read _)
    fun _ => .ite .undefined (.bind (.forM _ fun _ _ => hdeliver _ _) fun _ => .pure _)

/-! #### Replication -/

/-- `REPLICAOF` drops a link to a master, and for another master all databases are flushed. -/
theorem keeps_replicaofCommand (hflush : ∀ i, (onDatabaseAt i DbM.flushDb : ServerM S c _).Keeps I) :
    (replicaofCommand c args : ServerM S c Unit).Keeps I := by
  refine .bind (keeps_argString _ _) fun host => .bind (keeps_argString _ _) fun portStr =>
    .ite (.bind (keeps_call fun _ _ => hI.disconnect) fun _ =>
      .bind hI.keeps_modify fun _ => hI.keeps_addReply _) ?_
  split
  · exact hI.keeps_addReply _
  -- the port is a number
  · refine .bind ?_ fun _ => hI.keeps_addReply _
    exact .bind (keeps_call fun _ _ => hI.replicate) fun _ =>
      .bind (.read _) fun _ => .forM _ fun _ _ => hflush _

/-- `REPLCONF` replies, but not to an acknowledgement. -/
theorem keeps_replconfCommand : (replconfCommand c args : ServerM S c Unit).Keeps I :=
  .ite (.bind (keeps_argString _ _) fun _ => .ite (hI.keeps_addReply _) (.pure _)) (hI.keeps_addReply _)

/-- `PSYNC` makes a replica of its client, whether the synchronisation is a full one or goes on. -/
theorem keeps_psyncCommand : (psyncCommand c args : ServerM S c Unit).Keeps I := by
  have hattach : (call (Server.addReplica c) fun _ _ => .attach : ServerM S c Unit).Keeps I :=
    keeps_call fun _ _ => hI.attach
  -- what is done whether or not an id had to be made first
  have hrest (replId : Bytes) : (do
      let ownId ← .read fun s => s.replId
      let offset ← .read fun s => s.masterReplOffset
      if replId = str "?" ∨ replId ≠ ownId then
        EffectM.addReply (str "+FULLRESYNC " ++ ownId ++ str " " ++ toText offset ++ CRLF)
        EffectM.addReply (bulkString emptyRdb)
        call (Server.addReplica c) fun _ _ => .attach
      else
        EffectM.addReply (simpleString (str "CONTINUE"))
        call (Server.addReplica c) fun _ _ => .attach : ServerM S c Unit).Keeps I :=
    .bind (.read _) fun _ => .bind (.read _) fun _ => .ite
      (.bind (hI.keeps_addReply _) fun _ => .bind (hI.keeps_addReply _) fun _ => hattach)
      (.bind (hI.keeps_addReply _) fun _ => hattach)
  refine .bind (keeps_argString _ _) fun replId => .bind (keeps_argString _ _) fun _ =>
    .bind (.read _) fun _ => ?_
  split
  · exact .bind hI.keeps_modify fun _ => hrest replId
  · exact hrest replId

/-- `WAIT` counts the replicas. -/
theorem keeps_waitCommand (args : List RespValue) : (waitCommand c args : ServerM S c Unit).Keeps I :=
  .bind (.read _) fun _ => hI.keeps_addReply _

/-! #### `SET` -/

/-- `SET` counts as a command where it has written. -/
theorem keeps_setHandler (hset : ∀ i, (onDatabaseAt i (setCommand args) : ServerM S c _).Keeps I) :
    (setHandler c args : ServerM S c Unit).Keeps I := by
  refine .bind (keeps_onDatabase hset) fun x => ?_
  obtain ⟨reply, counts⟩ := x
  dsimp only
  split
  · exact .bind hI.keeps_modify fun _ => hI.keeps_addReply _
  · exact hI.keeps_addReply _

/-! ### Eviction -/

section Eviction

omit hI

/-- The rounds of the eviction. By induction on them. -/
theorem keeps_evictRounds {policy : Bytes} {samples : ℤ} {target : ℕ}
    (hevict : ∀ i, (onDatabaseAt i (evictOne policy samples target) : EffectM S k o Exn Bool).Keeps I)
    (rounds : ℕ) : (evictRounds policy samples target rounds : EffectM S k o Exn Unit).Keeps I := by
  induction rounds with
  | zero => exact .pure _
  | succ rounds ih =>
    exact .bind (.read _) fun _ => .ite (.pure _) (.bind (.read _) fun _ =>
      .bind (.foldlM _ (fun _ _ _ => .bind (hevict _) fun _ => .pure _) _) fun _ => .ite ih (.pure _))

/-- What evicting a key keeps, the check of the memory keeps. -/
theorem keeps_outOfMemory {cmd : Command}
    (hevict : ∀ policy samples target i,
      (onDatabaseAt i (evictOne policy samples target) : EffectM S k o Exn Bool).Keeps I) :
    (outOfMemory cmd : EffectM S k o Empty Bool).Keeps I := by
  have hrounds : (evictKeysIfNeeded : EffectM S k o Exn Unit).Keeps I :=
    .bind (.read _) fun _ => .ite (.pure _) (.bind (.read _) fun _ => keeps_evictRounds (hevict _ _ _) _)
  exact .bind (.read _) fun _ => .ite (.pure _) (.bind (.read _) fun _ => .ite (.pure _)
    (.bind (.handle hrounds fun _ => .undefined) fun _ => .read _))

end Eviction

/-! ### The dispatcher -/

section Dispatcher

variable [Double S] [Inhabited S] [LT S] [DecidableLT S] [BEq S] {cb : Callbacks S} {name : RespValue}
  {cmdName : Bytes} {key : Bytes}

/-- The `try` block: the handler, the counter and the completion, and the error reply for an exception from any of
them. -/
theorem post_runHandler {cmd : Command} {s : Server S} (hname : name.IsString)
    (hhandler : (cmd.handler cb c (name :: args)).Post s fun _ t => I t)
    (hcomplete : ∀ s r t, s.complete c (.write ∈ cmd.flags) (name :: args) = some (r, t) → I s → I t) :
    (runHandler (c := c) cb cmd hname args).Post s fun _ t => I t := by
  have hend : (⟨Server.complete c (.write ∈ cmd.flags) (name :: args), fun h => .completed hname h⟩ :
      EffectM S (some (.array (name :: args))) (some c) Exn Unit).Keeps I :=
    fun s hs r t h => hcomplete s r t h hs
  have hfailed (e : Exn) : (EffectM.addReply (internalError e) :
      EffectM S (some (.array (name :: args))) (some c) Empty Unit).Keeps I := hI.keeps_addReply _
  refine (Program.post_handle _ _ _ _).mpr ((Program.post_bind _ _ _ _).mpr ?_)
  -- an exception of the handler gets the error reply, and so does one of the completion
  refine Program.Post.mono ((Program.post_lift _ _ _).mpr hhandler) fun r t ht => ?_
  cases r with
  | error e => exact hfailed e t ht
  | ok _ =>
    refine Program.Post.mono (Program.Keeps.bind hI.keeps_modify (fun _ => hend) t ht) fun r u hu => ?_
    cases r with
    | ok _ => exact hu
    | error e => exact hfailed e u hu

/-- The same, of an invariant. -/
theorem keeps_runHandler {cmd : Command} (hname : name.IsString)
    (hhandler : (cmd.handler cb c (name :: args)).Keeps I)
    (hcomplete : ∀ s r t, s.complete c (.write ∈ cmd.flags) (name :: args) = some (r, t) → I s → I t) :
    (runHandler (c := c) cb cmd hname args).Keeps I :=
  fun s hs => hI.post_runHandler hname (hhandler s hs) hcomplete

omit hI in
/-- A command that is no write and has the arguments it needs is queued or run. -/
theorem executeNamed_accepted {cmd : Command} {s : Server S} {cl : Client} (hname : name.asString = .ok cmdName)
    (hcmd : Command.lookup cmdName = some cmd) (hread : .write ∉ cmd.flags)
    (haccepts : cmd.accepts (asInt (args.length + 1)) = true) (hcl : s.clients.lookup c = some cl) :
    (executeNamed (c := c) cb hname args).run s
      = if cl.hasFlag .multi && !runsInMulti cmdName then
          ((s.updateClient c fun cl => { cl with transactionQueue := cl.transactionQueue ++ [name :: args] }).bind
            (Server.addReply c (simpleString (str "QUEUED")))).map (.ok (), ·)
        else (runHandler (c := c) cb cmd ⟨cmdName, hname⟩ args).run s := by
  -- a command that does not write is not refused for memory
  have hmemory : (outOfMemory cmd : EffectM S (some (.array (name :: args))) (some c) Empty Bool).run s
      = some (.ok false, s) := by
    refine (Program.run_bind_ok (t := s) rfl _).trans ?_
    rw [if_pos (Or.inl hread)]
    rfl
  unfold executeNamed
  rw [hcmd]
  dsimp only
  rw [Program.run_bind_ok hmemory, if_neg Bool.false_ne_true, if_neg (by rw [haccepts]; exact Bool.false_ne_true),
    Program.run_bind_ok (run_client hcl)]
  split
  · rw [Program.run_bind, modifyClient, run_call]
    cases s.updateClient c _ with
    | none => rfl
    | some t => exact run_call _ _ t
  · rfl

omit hI in
/-- A command that is no write and is not queued is run by its handler. -/
theorem executeNamed_run {cmd : Command} {s : Server S} {cl : Client} (hname : name.asString = .ok cmdName)
    (hcmd : Command.lookup cmdName = some cmd) (hread : .write ∉ cmd.flags)
    (haccepts : cmd.accepts (asInt (args.length + 1)) = true) (hcl : s.clients.lookup c = some cl)
    (hnow : cl.hasFlag .multi = true → runsInMulti cmdName = true) :
    (executeNamed (c := c) cb hname args).run s = (runHandler (c := c) cb cmd ⟨cmdName, hname⟩ args).run s := by
  rw [executeNamed_accepted hname hcmd hread haccepts hcl, if_neg]
  intro hqueued
  obtain ⟨hmulti, hno⟩ := Bool.and_eq_true_iff.mp hqueued
  rw [hnow hmulti] at hno
  cases hno

/-- A command is refused, queued or run. -/
theorem keeps_executeNamed (hname : name.asString = .ok cmdName)
    (hevict : ∀ policy samples target i, (onDatabaseAt i (evictOne policy samples target) :
      EffectM S (some (.array (name :: args))) (some c) Exn Bool).Keeps I)
    (hqueue : ∀ cmd, Command.lookup cmdName = some cmd → cmd.accepts (asInt (args.length + 1)) = true →
      ∀ s t : Server S, s.updateClient c
        (fun cl => { cl with transactionQueue := cl.transactionQueue ++ [name :: args] }) = some t → I s → I t)
    (hrun : ∀ cmd, Command.lookup cmdName = some cmd → cmd.accepts (asInt (args.length + 1)) = true →
      (runHandler (c := c) cb cmd ⟨cmdName, hname⟩ args).Keeps I) :
    (executeNamed (c := c) cb hname args).Keeps I := by
  unfold executeNamed
  split
  · exact hI.keeps_addReply _
  · next cmd hcmd =>
    refine .bind (keeps_outOfMemory hevict) fun _ => .ite (hI.keeps_addReply _) ?_
    split
    · exact hI.keeps_addReply _
    · next haccepts =>
      -- the number of arguments is right, so the command is queued or run
      replace haccepts : cmd.accepts (asInt (args.length + 1)) = true := by simpa using haccepts
      exact .bind keeps_client fun _ => .ite
        (.bind (keeps_call (hqueue cmd hcmd haccepts)) fun _ => hI.keeps_addReply _) (hrun cmd hcmd haccepts)

/-- What is no command gets an error reply, and a command is dispatched by its name. -/
theorem keeps_executeCommand {command : RespValue} {program : CommandM S c command}
    (h : executeCommand cb c command = .ok program)
    (hnamed : ∀ (name : RespValue) (args : List RespValue) (cmdName : Bytes)
      (hname : name.asString = .ok cmdName), command = .array (name :: args) →
      (executeNamed (c := c) cb hname args).Keeps I) : program.Keeps I := by
  unfold executeCommand at h
  split at h
  · exact Except.ok.inj h ▸ hI.keeps_addReply _
  · next name args =>
    split at h
    · cases h
    · next cmdName hname => exact Except.ok.inj h ▸ hnamed name args cmdName hname rfl
  · exact Except.ok.inj h ▸ hI.keeps_addReply _

omit hI in
/-- A client that is woken runs the command it has waited with. -/
theorem keeps_handleClientsBlockedOnKey
    (hunblock : ∀ (s t : Server S) id, s.unblockClient id = some t → I s → I t)
    (hnote : ∀ (s : Server S) id command, I s → I (s.note (.woken id command)))
    (hinstall : ∀ (s : Server S) id, I s → I (s.installWriteHandler id))
    (hrun : ∀ (s : Server S) id cl (program : CommandM S id cl.blockCmd), I s → s.clients.lookup id = some cl →
      executeCommand cb id cl.blockCmd = .ok program → program.Keeps I) :
    (handleClientsBlockedOnKey cb c key).Keeps I := by
  intro s hs r t h
  simp only [handleClientsBlockedOnKey] at h
  split at h
  · obtain ⟨-, rfl⟩ := Prod.mk.inj (Option.some.inj h)
    exact hs
  · next id _ =>
    split at h
    · next cl u hcl hu =>
      -- the client is unblocked before its command is run again
      have hwoken : I (u.note (.woken id cl.blockCmd)) := hnote u id _ (hunblock s u id hu hs)
      split at h
      · obtain ⟨-, rfl⟩ := Prod.mk.inj (Option.some.inj h)
        exact hwoken
      · next program hprogram =>
        split at h
        · cases h
        · next r' v hv =>
          split at h
          · cases h
          · obtain ⟨-, rfl⟩ := Prod.mk.inj (Option.some.inj h)
            exact hinstall v id (hrun s id cl program hs hcl hprogram _ hwoken r' v hv)
    · cases h

/-- A command of the queue is run by its handler. -/
theorem keeps_runQueued (hhandler : ∀ name rest cmdName cmd, args = name :: rest →
      name.asString = .ok cmdName → Command.lookup cmdName = some cmd → (cmd.handler cb c args).Keeps I) :
    (runQueued cb c args).Keeps I := by
  intro s hs
  simp only [runQueued, argString, arg, Program.post_bind, Program.post_ofOption]
  intro name hfirst
  -- the name is the first argument, which is there
  obtain ⟨rest, rfl⟩ : ∃ rest, args = name :: rest := by
    cases args with
    | nil => cases hfirst
    | cons first rest => exact ⟨rest, by rw [Option.some.inj hfirst]⟩
  rw [Program.post_ofExcept]
  cases hname : name.asString with
  | error e => exact hs
  | ok cmdName =>
    dsimp only
    split
    · exact hI.keeps_addReply _ s hs
    · next cmd hcmd =>
      exact Program.Keeps.handle (.bind (hhandler name rest cmdName cmd rfl hname hcmd) fun _ =>
        hI.keeps_modify) (fun _ => hI.keeps_addReply _) s hs

end Dispatcher

end Robust

end Server

end RedisDb
