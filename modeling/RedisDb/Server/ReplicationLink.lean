import RedisDb.Server.CommandLog
import RedisDb.Server.WriteCommands

/-!
# The link between a master and its replica

Two servers, and the messages between them in the order in which they were sent. Either end runs what
it reads on the link with the dispatcher that serves every client, and that replies to whatever it is
given. So the replica replies to a command that is propagated to it, the master answers that reply
with an error, the replica answers the error with an error, and so on.

Nothing ever ends such an exchange (`Pair.goesQuiet_iff`): as many messages are in flight as commands have
been propagated, at least, in every order of deliveries. The invariant behind it (`Pair.Invariant`) is that both
directions carry commands and replies only: what is delivered is then answered with one message at least, so a
delivery takes nothing away.

Nor does it end because a message cannot be delivered. Once the commands have been, only replies and errors are on
their way, and these are always taken (`Pair.Invariant.never_stuck`).
-/

namespace RedisDb

open RespParser RespSerializer EffectM

/-- What a message is read as, in one round of the loop of `RespParser::parse`, if that takes all of it. -/
def RespParser.readMessage (reserve : Reserve) (data : Bytes) : Option RespValue :=
  match parseCommand reserve data 0 with
  | .ok (some v, n) => if n = data.length then some v else none
  | _ => none

theorem RespParser.ne_array_of_readMessage {reserve : Reserve} {data : Bytes} {v : RespValue}
    (hdata : Scalar data) (h : readMessage reserve data = some v) (elements : List RespValue) :
    v ≠ .array elements := by
  unfold readMessage at h
  split at h
  · next hparse =>
    split at h
    · exact Option.some.inj h ▸ ne_array_of_scalar hdata hparse elements
    · cases h
  · cases h

/-- An error is read as one, whatever the allocator does. -/
theorem RespParser.isSome_readMessage_error {reserve : Reserve} {msg : Bytes} (hline : ¬ CRLF <:+: str "ERR " ++ msg) :
    (readMessage reserve (error msg)).isSome := by
  have hencodable : Encodable reserve (.error (str "ERR " ++ msg)) := by rwa [Encodable]
  have hround := parseValue_serialize hencodable []
  have hvalue : parseCommand reserve (error msg) 0 = parseValue reserve (error msg) 0 := rfl
  have htext : serialize (.error (str "ERR " ++ msg)) = error msg := rfl
  rw [htext, List.append_nil] at hround
  rw [readMessage, hvalue, hround]
  dsimp only
  rw [if_pos rfl, Option.isSome_some]

/-- A propagated command is read as it was. -/
theorem RespParser.readMessage_replicationText {reserve : Reserve} {command : List Bytes}
    (hfits : CommandFits reserve command) :
    readMessage reserve (Server.replicationText command) = some (commandValue command) := by
  have hround := parseValue_serialize hfits.encodable []
  rw [commandValue, serialize_array_bulkString, List.append_nil] at hround
  have hstar : parseCommand reserve (bulkStringArray command) 0
      = parseValue reserve (bulkStringArray command) 0 := rfl
  rw [Server.replicationText_eq, readMessage, hstar, hround]
  exact if_pos rfl

/-! ### One end of the link -/

/-- The message of an event, if it goes to a client. -/
def Event.sentTo (id : ClientId) : Event → Option Bytes
  | .reply id' data | .propagated id' data _ => if id' = id then some data else none
  | _ => none

/-- The event propagates a command to a client. -/
def Event.isPropagatedTo (id : ClientId) : Event → Bool
  | .propagated id' _ _ => id' = id
  | _ => false

variable {S : Type}

namespace Server

variable {s t : Server S} {id c : ClientId} {data : Bytes}

/-- The messages to a client that have been sent between two states. -/
def linkMessages (id : ClientId) (s t : Server S) : List Bytes :=
  (t.trace.drop s.trace.length).filterMap (Event.sentTo id)

/-- The number of commands that have been propagated to a client between two states. -/
def propagations (id : ClientId) (s t : Server S) : ℕ :=
  (t.trace.drop s.trace.length).countP (Event.isPropagatedTo id)

theorem drop_trace {es : List Event} (h : t.trace = s.trace ++ es) : t.trace.drop s.trace.length = es := by
  rw [h, List.drop_left]

/-- **To another client** a write command sends what it propagates, and nothing else. -/
theorem Writes.messages_other (h : Writes c data s t) (hne : c ≠ id) :
    linkMessages id s t = List.replicate (propagations id s t) data := by
  obtain ⟨es, hes, hall⟩ := h.trace
  rw [linkMessages, propagations, drop_trace hes]
  clear hes
  induction es with
  | nil => rfl
  | cons e es ih =>
    have he := hall e List.mem_cons_self
    have hrest := ih fun e' he' => hall e' (List.mem_cons_of_mem e he')
    rw [List.filterMap_cons, List.countP_cons, hrest]
    cases e with
    | reply id' text =>
      -- the reply goes to the client that has sent the command
      obtain ⟨rfl, -⟩ := he
      simp only [Event.sentTo, if_neg hne, Event.isPropagatedTo, Bool.false_eq_true, if_false,
        Nat.add_zero]
    | propagated id' copy scheduled =>
      obtain ⟨-, rfl⟩ := he
      by_cases heq : id' = id
      · simp only [Event.sentTo, Event.isPropagatedTo, heq, if_true, decide_true, List.replicate_succ]
      · simp only [Event.sentTo, Event.isPropagatedTo, heq, if_false, decide_false,
          Bool.false_eq_true, Nat.add_zero]
    | completed | pushes | zadd => rfl
    | _ => exact he.elim

/-- **To its own client**, where that is no replica, it sends replies that are no arrays. -/
theorem Writes.scalar_messages (h : Writes c data s t) (hreplica : c ∉ s.replicas) :
    ∀ text ∈ linkMessages c s t, Scalar text := by
  obtain ⟨es, hes, hall⟩ := h.trace
  rw [linkMessages, drop_trace hes]
  intro text htext
  obtain ⟨e, he, hsent⟩ := List.mem_filterMap.mp htext
  have he := hall e he
  cases e with
  | reply id' text' =>
    simp only [Event.sentTo] at hsent
    split at hsent
    · exact Option.some.inj hsent ▸ he.2
    · cases hsent
  | propagated id' copy scheduled =>
    -- what is propagated goes to replicas only
    simp only [Event.sentTo] at hsent
    split at hsent
    · next heq => exact absurd (heq ▸ he.1) hreplica
    · cases hsent
  | _ => cases hsent

/-- Nobody waits for a key. -/
structure Waitless (s : Server S) : Prop where
  blockedClients : s.blockedClients = ∅
  clients : ∀ {id cl}, s.clients.lookup id = some cl → cl.hasFlag .blocked = false

theorem Writes.waitless (h : Writes c data s t) (hs : s.Waitless) : t.Waitless where
  blockedClients := h.blockedClients.trans hs.blockedClients
  clients {id cl} hcl := by
    have hrecord : s.tables.records id = some cl.record := by
      rw [← h.quiet.tables]
      exact congrArg (Option.map Client.record) hcl
    obtain ⟨cl', hcl', heq⟩ := Option.map_eq_some_iff.mp hrecord
    have hblocked : cl'.hasFlag .blocked = cl.hasFlag .blocked := congrArg Record.blocked heq
    exact hblocked ▸ hs.clients hcl'

/-- The clients stay. -/
theorem Writes.isSome_lookup (h : Writes c data s t) (hthere : (s.clients.lookup id).isSome) :
    (t.clients.lookup id).isSome := by
  have hrecords : (t.clients.lookup id).map Client.record = (s.clients.lookup id).map Client.record :=
    congrArg (Tables.records · id) h.quiet.tables
  rwa [← Option.isSome_map (f := Client.record), hrecords, Option.isSome_map]

variable [Platform] [Double S] [Inhabited S] [LT S] [DecidableLT S] [BEq S]

/-- A message is read and processed: the loop of `processClientInput`, which it has one turn for. -/
def receive (reserve : Reserve) (depth : ℕ) (id : ClientId) (data : Bytes) (s : Server S) :
    Option (Server S) :=
  (RespParser.readMessage reserve data).bind fun v => s.runCommands depth id [v]

/-- A client that does not wait, and is no link to a master that is not connected, has its command
run. -/
theorem run_of_runCommands {depth : ℕ} {v : RespValue} (hs : s.Waitless)
    (hlink : ∀ cl, s.clients.lookup id = some cl →
      ¬(cl.hasFlag .master = true ∧ s.replState ≠ .connected))
    (h : s.runCommands depth id [v] = some t) :
    ∃ program r, executeCommand (callbacks depth) id v = .ok program ∧ program.run s = some (r, t) := by
  obtain ⟨cl, hcl, h⟩ := Option.bind_eq_some_iff.mp h
  rw [if_neg (by rw [hs.clients hcl]; exact Bool.false_ne_true), if_neg (hlink cl hcl)] at h
  obtain ⟨u, hu, h⟩ := Option.bind_eq_some_iff.mp h
  obtain ⟨cl', -, h⟩ := Option.bind_eq_some_iff.mp h
  -- one command is all that has been read
  have hdone : u = t := by
    split at h
    · exact Option.some.inj h
    · exact Option.some.inj h
  subst hdone
  split at hu
  · cases hu
  · next program hprogram =>
    obtain ⟨⟨r, u'⟩, hrun, rfl⟩ := Option.map_eq_some_iff.mp hu
    exact ⟨program, r, hprogram, hrun⟩

/-- **What is no array is answered with an error**, and that is all. -/
theorem addReply_of_ne_array {depth : ℕ} {v : RespValue} {program : CommandM S id v} {r : Except Empty Unit}
    (hv : ∀ elements, v ≠ .array elements) (hprogram : executeCommand (callbacks depth) id v = .ok program)
    (hrun : program.run s = some (r, t)) :
    s.addReply id (error (str "invalid command format")) = some t := by
  cases v with
  | array elements => exact absurd rfl (hv elements)
  | _ =>
    obtain rfl := Except.ok.inj hprogram
    exact of_run_call hrun

/-- **What is no array can always be answered**, by a client that is there and does not wait. -/
theorem exists_receive {reserve : Reserve} {depth : ℕ} (hs : s.Waitless) (hthere : (s.clients.lookup id).isSome)
    (hlink : ∀ cl, s.clients.lookup id = some cl → ¬(cl.hasFlag .master = true ∧ s.replState ≠ .connected))
    (hdata : Scalar data) (hread : (RespParser.readMessage reserve data).isSome) :
    ∃ t, s.receive reserve depth id data = some t := by
  obtain ⟨v, hv⟩ := Option.isSome_iff_exists.mp hread
  obtain ⟨cl, hcl⟩ := Option.isSome_iff_exists.mp hthere
  obtain ⟨t, ht⟩ : ∃ t, s.addReply id (error (str "invalid command format")) = some t := by
    rw [Server.addReply, Server.updateClient, hcl]
    exact ⟨_, rfl⟩
  -- a reply is no array, and is answered as a command in a wrong format
  have hprogram : ∃ program, executeCommand (callbacks depth) id v = .ok program ∧
      program.run s = some (.ok (), t) := by
    have harray := RespParser.ne_array_of_readMessage hdata hv
    cases v with
    | array elements => exact absurd rfl (harray elements)
    | _ => exact ⟨_, rfl, run_call_some ht⟩
  obtain ⟨program, hprogram, hrun⟩ := hprogram
  obtain ⟨cl', hcl'⟩ : ∃ cl', t.clients.lookup id = some cl' := by
    obtain ⟨u, hu, rfl⟩ := Option.map_eq_some_iff.mp ht
    obtain ⟨cl₁, -, rfl⟩ := Option.map_eq_some_iff.mp hu
    exact ⟨_, AList.lookup_insert _⟩
  refine ⟨t, ?_⟩
  rw [receive, hv, Option.bind_some, runCommands, hcl, Option.bind_some, if_neg (by simp [hs.clients hcl]),
    if_neg (hlink cl hcl), hprogram]
  dsimp only
  rw [hrun, Option.map_some, Option.bind_some, hcl', Option.bind_some, runCommands, ite_self]

end Server

/-! ### Both ends -/

/-- The text of a write command that does not block, as it is propagated and as the replica can read it. -/
def IsWriteText (reserve : Reserve) (data : Bytes) : Prop :=
  ∃ cmdName args cmd, data = Server.replicationText (cmdName :: args) ∧ CommandFits reserve (cmdName :: args) ∧
    Command.lookup cmdName = some cmd ∧ cmd.IsPlainWrite

/-- What is propagated of a write command whose arguments are strings is such a text. -/
theorem isWriteText_of_strings {reserve : Reserve} {name : RespValue} {args : List RespValue} {cmdName : Bytes}
    {cmd : Command} {strs : List Bytes} (hname : name.asString = .ok cmdName)
    (hlookup : Command.lookup cmdName = some cmd) (hcmd : cmd.IsPlainWrite)
    (hstrs : (name :: args).mapM RespValue.asString = .ok strs) (hfits : CommandFits reserve strs) :
    IsWriteText reserve (Server.replicationText strs) := by
  obtain ⟨s, rest, hs, -, rfl⟩ := RespValue.mapM_cons_eq_ok hstrs
  obtain rfl : cmdName = s := Except.ok.inj (hname.symm.trans hs)
  exact ⟨cmdName, rest, cmd, rfl, hfits, hlookup, hcmd⟩

/-- A master, its replica, and the messages between them that have not been delivered. How many commands
have been propagated on the link is kept as a history variable. -/
structure Pair (S : Type) where
  master : Server S
  replica : Server S
  toReplica : List Bytes := []
  toMaster : List Bytes := []
  propagated : ℕ := 0

namespace Pair

open Server

/-- No message is in flight. -/
def Quiet (p : Pair S) : Prop := p.toReplica = [] ∧ p.toMaster = []

/-- The number of messages in flight. -/
def inFlight (p : Pair S) : ℕ := p.toReplica.length + p.toMaster.length

/-- Two servers between which a link is up, where the replica is `peer` among the clients of the master,
and the connection to the master is `link` among those of the replica. Nothing has been propagated yet,
nobody waits for a key, and the replica is no master itself. -/
structure Starts (peer link : ClientId) (p : Pair S) : Prop where
  master : p.master.Waitless
  peer : ∀ cl, p.master.clients.lookup peer = some cl → cl.hasFlag .master = false
  replica : p.replica.Waitless
  connected : p.replica.replState = .connected
  link : link ∉ p.replica.replicas
  quiet : p.Quiet
  propagated : p.propagated = 0

section Steps

variable [Platform] [Double S] [Inhabited S] [LT S] [DecidableLT S] [BEq S]

/-- The first message on its way in one direction is processed. -/
inductive Delivers (reserve : Reserve) (depth : ℕ) (peer link : ClientId) : Pair S → Pair S → Prop
  | toReplica {p : Pair S} {data : Bytes} {rest : List Bytes} {t : Server S} :
      p.toReplica = data :: rest → p.replica.receive reserve depth link data = some t →
      Delivers reserve depth peer link p { p with
        replica := t, toReplica := rest, toMaster := p.toMaster ++ linkMessages link p.replica t }
  | toMaster {p : Pair S} {data : Bytes} {rest : List Bytes} {t : Server S} :
      p.toMaster = data :: rest → p.master.receive reserve depth peer data = some t →
      Delivers reserve depth peer link p { p with
        master := t, toMaster := rest, toReplica := p.toReplica ++ linkMessages peer p.master t }

/-- A step of the two servers: a message is delivered, or a client of the master runs a write command
that does not block. -/
inductive Step (reserve : Reserve) (depth : ℕ) (peer link : ClientId) : Pair S → Pair S → Prop
  | delivers {p q : Pair S} : Delivers reserve depth peer link p q → Step reserve depth peer link p q
  | write {p : Pair S} {c : ClientId} {name : RespValue} {args : List RespValue} {cmdName : Bytes}
      {cmd : Command} {program : CommandM S c (.array (name :: args))} {r : Except Empty Unit}
      {t : Server S} : c ≠ peer → name.asString = .ok cmdName → Command.lookup cmdName = some cmd →
      cmd.IsPlainWrite →
      (∀ strs, (name :: args).mapM RespValue.asString = .ok strs → CommandFits reserve strs) →
      executeCommand (callbacks depth) c (.array (name :: args)) = .ok program →
      program.run p.master = some (r, t) →
      Step reserve depth peer link p { p with
        master := t, toReplica := p.toReplica ++ linkMessages peer p.master t
        propagated := p.propagated + propagations peer p.master t }

end Steps

/-- Both ends of the link are there. -/
structure Linked (peer link : ClientId) (p : Pair S) : Prop where
  peer : (p.master.clients.lookup peer).isSome
  link : (p.replica.clients.lookup link).isSome

/-- Every message in flight is a reply, one that can be read. -/
def OnlyReplies (reserve : Reserve) (p : Pair S) : Prop :=
  ∀ data ∈ p.toReplica ++ p.toMaster, Scalar data ∧ (readMessage reserve data).isSome

/-- What holds in every state of a run. -/
structure Invariant (reserve : Reserve) (peer link : ClientId) (p : Pair S) : Prop where
  master : p.master.Waitless
  peer : ∀ cl, p.master.clients.lookup peer = some cl → cl.hasFlag .master = false
  replica : p.replica.Waitless
  connected : p.replica.replState = .connected
  link : link ∉ p.replica.replicas
  toReplica : ∀ data ∈ p.toReplica, Scalar data ∨ IsWriteText reserve data
  toMaster : ∀ data ∈ p.toMaster, Scalar data
  propagated : p.propagated ≤ p.inFlight
  quiet : p.propagated = 0 → p.Quiet

namespace Invariant

variable {reserve : Reserve} {peer link : ClientId} {p q : Pair S}

theorem of_starts (h : p.Starts peer link) : Invariant reserve peer link p where
  master := h.master
  peer := h.peer
  replica := h.replica
  connected := h.connected
  link := h.link
  toReplica := by simp [h.quiet.1]
  toMaster := by simp [h.quiet.2]
  propagated := h.propagated ▸ Nat.zero_le _
  quiet _ := h.quiet

/-- A write command at the master leaves nobody waiting, and makes no client a link. -/
theorem peer_of_writes {c : ClientId} {data : Bytes} {t : Server S} (hp : Invariant reserve peer link p)
    (h : Writes c data p.master t) :
    ∀ cl, t.clients.lookup peer = some cl → cl.hasFlag .master = false := by
  intro cl hcl
  refine Bool.eq_false_of_not_eq_true fun hflag => ?_
  obtain ⟨cl', hcl', hflag'⟩ := h.link.clients hcl hflag
  exact Bool.false_ne_true ((hp.peer cl' hcl').symm.trans hflag')

variable [Platform] [Double S] [Inhabited S] [LT S] [DecidableLT S] [BEq S] {depth : ℕ}

/-- **A write command of a client**: it is sent to the replica, as often as it is propagated. The copies that are
propagated are counted in the trace, and each is one message more in flight. -/
theorem write {c : ClientId} {name : RespValue} {args : List RespValue} {cmdName : Bytes} {cmd : Command}
    {program : CommandM S c (.array (name :: args))} {r : Except Empty Unit} {t : Server S}
    (hp : Invariant reserve peer link p) (hne : c ≠ peer) (hname : name.asString = .ok cmdName)
    (hlookup : Command.lookup cmdName = some cmd) (hcmd : cmd.IsPlainWrite)
    (hfits : ∀ strs, (name :: args).mapM RespValue.asString = .ok strs → CommandFits reserve strs)
    (hprogram : executeCommand (callbacks depth) c (.array (name :: args)) = .ok program)
    (hrun : program.run p.master = some (r, t)) :
    Invariant reserve peer link { p with
      master := t, toReplica := p.toReplica ++ linkMessages peer p.master t
      propagated := p.propagated + propagations peer p.master t } := by
  obtain rfl : executeNamed (callbacks depth) hname args = program :=
    Except.ok.inj ((executeCommand_of_name hname).symm.trans hprogram)
  -- the handler writes the same data to the backlog and to every replica
  have hruns {data : Bytes}
      (hdata : ∀ strs, (name :: args).mapM RespValue.asString = .ok strs → data = replicationText strs) :
      Writes c data p.master t :=
    writes_executeNamed (idle_callbacks depth) hlookup hcmd hname hp.master.blockedClients hdata
      p.master (.refl _) r t hrun
  obtain ⟨data, hwrites, htexts⟩ : ∃ data, Writes c data p.master t ∧
      ∀ text ∈ linkMessages peer p.master t, IsWriteText reserve text := by
    cases hstrs : (name :: args).mapM RespValue.asString with
    | ok strs =>
      have hwrites : Writes c (replicationText strs) p.master t :=
        hruns fun strs' h => by rw [Except.ok.inj (hstrs.symm.trans h)]
      refine ⟨replicationText strs, hwrites, fun text htext => ?_⟩
      rw [hwrites.messages_other hne] at htext
      exact (List.mem_replicate.mp htext).2 ▸
        isWriteText_of_strings hname hlookup hcmd hstrs (hfits strs hstrs)
    | error e =>
      -- nothing is propagated: a message would have to be every text at once
      have hany (data : Bytes) : Writes c data p.master t := hruns fun _ h => by cases hstrs.symm.trans h
      have hsame {text : Bytes} (htext : text ∈ linkMessages peer p.master t) (data : Bytes) : text = data := by
        rw [(hany data).messages_other hne] at htext
        exact (List.mem_replicate.mp htext).2
      exact ⟨[], hany [], fun text htext => absurd ((hsame htext []).symm.trans (hsame htext [0])) (by simp)⟩
  -- what is on its way afterwards, and how much of it the write has added
  have hmessages := hwrites.messages_other hne
  refine
    { master := hwrites.waitless hp.master
      peer := hp.peer_of_writes hwrites
      replica := hp.replica
      connected := hp.connected
      link := hp.link
      toReplica := fun text htext => ?_
      toMaster := hp.toMaster
      propagated := ?_
      quiet := fun hzero => ?_ }
  · rcases List.mem_append.mp htext with hmem | hmem
    · exact hp.toReplica text hmem
    · exact .inr (htexts text hmem)
  · have hcount := hp.propagated
    simp only [inFlight, List.length_append, hmessages, List.length_replicate] at hcount ⊢
    omega
  · obtain ⟨hbefore, hnone⟩ := Nat.add_eq_zero_iff.mp hzero
    obtain ⟨htoReplica, htoMaster⟩ := hp.quiet hbefore
    refine ⟨?_, htoMaster⟩
    rw [htoReplica, hmessages, hnone]
    rfl

/-- **A reply that is delivered** is answered with one message, an error. -/
theorem messages_of_scalar {id : ClientId} {s t : Server S} {data : Bytes} (hs : s.Waitless)
    (hlink : ∀ cl, s.clients.lookup id = some cl →
      ¬(cl.hasFlag .master = true ∧ s.replState ≠ .connected))
    (hdata : Scalar data) (h : s.receive reserve depth id data = some t) :
    Writes id [] s t ∧ linkMessages id s t = [error (str "invalid command format")] := by
  obtain ⟨v, hv, h⟩ := Option.bind_eq_some_iff.mp h
  obtain ⟨program, r, hprogram, hrun⟩ := run_of_runCommands hs hlink h
  have hreply := addReply_of_ne_array (ne_array_of_readMessage hdata hv) hprogram hrun
  refine ⟨.addReply (scalar_error _) hreply, ?_⟩
  obtain ⟨u, hu, rfl⟩ := Option.map_eq_some_iff.mp hreply
  obtain ⟨cl, -, rfl⟩ := Option.map_eq_some_iff.mp hu
  have hdrop : (s.trace ++ [Event.reply id (error (str "invalid command format"))]).drop s.trace.length
      = [.reply id (error (str "invalid command format"))] := List.drop_left
  refine (congrArg (List.filterMap (Event.sentTo id)) hdrop).trans ?_
  simp [Event.sentTo]

/-- **A propagated command that is delivered** is answered, and never with an array. -/
theorem messages_of_isWriteText {id : ClientId} {s t : Server S} {data : Bytes} (hs : s.Waitless)
    (hlink : ∀ cl, s.clients.lookup id = some cl →
      ¬(cl.hasFlag .master = true ∧ s.replState ≠ .connected))
    (hdata : IsWriteText reserve data) (h : s.receive reserve depth id data = some t) :
    Writes id data s t ∧ linkMessages id s t ≠ [] := by
  obtain ⟨cmdName, args, cmd, rfl, hfits, hlookup, hcmd⟩ := hdata
  obtain ⟨v, hv, h⟩ := Option.bind_eq_some_iff.mp h
  rw [readMessage_replicationText hfits] at hv
  obtain rfl := Option.some.inj hv
  obtain ⟨program, r, hprogram, hrun⟩ := run_of_runCommands hs hlink h
  have hname : (RespValue.bulkString cmdName).asString = .ok cmdName := rfl
  obtain rfl : executeNamed (callbacks depth) hname (args.map .bulkString) = program :=
    Except.ok.inj ((executeCommand_of_name hname).symm.trans hprogram)
  -- what is read is what was written, so its text is the same again
  have hstrs (strs : List Bytes)
      (h : (RespValue.bulkString cmdName :: args.map .bulkString).mapM RespValue.asString = .ok strs) :
      replicationText (cmdName :: args) = replicationText strs := by
    have hsame : ((cmdName :: args).map RespValue.bulkString).mapM RespValue.asString
        = .ok (cmdName :: args) := RespValue.mapM_bulkString _
    rw [← Except.ok.inj (hsame.symm.trans h)]
  refine ⟨writes_executeNamed (idle_callbacks depth) hlookup hcmd hname hs.blockedClients hstrs s (.refl s)
    r t hrun, ?_⟩
  cases r with
  | error e => exact e.elim
  | ok _ =>
    -- some reply is sent, whatever the command does
    obtain ⟨reply, es, hes, hmem⟩ := answers_executeNamed hlookup hcmd hname s _ t hrun
    rw [linkMessages, drop_trace hes]
    exact List.ne_nil_of_mem (List.mem_filterMap.mpr ⟨_, hmem, if_pos rfl⟩)

/-- **A message that is delivered is answered.** A copy of a command is executed by the replica and answered; a reply
is read by the other side as a command that cannot be one, and is answered with an error. -/
theorem delivers (hp : Invariant reserve peer link p)
    (h : Delivers reserve depth peer link p q) : Invariant reserve peer link q := by
  cases h with
  | @toReplica data rest t hdata h =>
    have hmem : data ∈ p.toReplica := hdata ▸ List.mem_cons_self
    -- the link is up, so the message is no part of the handshake
    have hlink (cl : Client) (_ : p.replica.clients.lookup link = some cl) :
        ¬(cl.hasFlag .master = true ∧ p.replica.replState ≠ .connected) := fun h => h.2 hp.connected
    obtain ⟨text, hwrites, hne⟩ : ∃ text, Writes link text p.replica t ∧
        linkMessages link p.replica t ≠ [] := by
      rcases hp.toReplica data hmem with hscalar | hwrite
      · obtain ⟨hwrites, heq⟩ := messages_of_scalar hp.replica hlink hscalar h
        exact ⟨_, hwrites, by simp [heq]⟩
      · exact ⟨_, messages_of_isWriteText hp.replica hlink hwrite h⟩
    -- the replica takes the message and puts at least one answer on the way back
    have hpos := List.length_pos_of_ne_nil hne
    have hcount := hp.propagated
    refine
      { master := hp.master
        peer := hp.peer
        replica := hwrites.waitless hp.replica
        connected := hwrites.replState.trans hp.connected
        link := hwrites.replicas.symm ▸ hp.link
        toReplica := fun d hd => hp.toReplica d (hdata ▸ List.mem_cons_of_mem data hd)
        toMaster := fun d hd => ?_
        propagated := ?_
        quiet := fun hzero => ?_ }
    · rcases List.mem_append.mp hd with hd | hd
      · exact hp.toMaster d hd
      · exact hwrites.scalar_messages hp.link d hd
    · simp only [inFlight, hdata, List.length_cons, List.length_append] at hcount ⊢
      omega
    · rw [(hp.quiet hzero).1] at hdata
      cases hdata
  | @toMaster data rest t hdata h =>
    have hmem : data ∈ p.toMaster := hdata ▸ List.mem_cons_self
    have hlink (cl : Client) (hcl : p.master.clients.lookup peer = some cl) :
        ¬(cl.hasFlag .master = true ∧ p.master.replState ≠ .connected) := fun h =>
      Bool.false_ne_true ((hp.peer cl hcl).symm.trans h.1)
    -- an answer is no command, and the master answers it with one error
    obtain ⟨hwrites, heq⟩ := messages_of_scalar hp.master hlink (hp.toMaster data hmem) h
    have hcount := hp.propagated
    refine
      { master := hwrites.waitless hp.master
        peer := hp.peer_of_writes hwrites
        replica := hp.replica
        connected := hp.connected
        link := hp.link
        toReplica := fun d hd => ?_
        toMaster := fun d hd => hp.toMaster d (hdata ▸ List.mem_cons_of_mem data hd)
        propagated := ?_
        quiet := fun hzero => ?_ }
    · rcases List.mem_append.mp hd with hd | hd
      · exact hp.toReplica d hd
      · rw [heq, List.mem_singleton] at hd
        exact .inl (hd ▸ scalar_error _)
    · simp only [inFlight, hdata, heq, List.length_cons, List.length_append, List.length_nil] at hcount ⊢
      omega
    · rw [(hp.quiet hzero).2] at hdata
      cases hdata

/-- By induction on the run. -/
theorem run (hp : Invariant reserve peer link p)
    (hrun : Relation.ReflTransGen (Step reserve depth peer link) p q) : Invariant reserve peer link q := by
  induction hrun with
  | refl => exact hp
  | tail _ hstep ih =>
    cases hstep with
    | delivers h => exact ih.delivers h
    | write hne hname hlookup hcmd hfits hprogram hrun =>
      exact ih.write hne hname hlookup hcmd hfits hprogram hrun

end Invariant

section Runs

variable [Platform] [Double S] [Inhabited S] [LT S] [DecidableLT S] [BEq S] {reserve : Reserve} {depth : ℕ}
  {peer link : ClientId} {start p q : Pair S}

theorem Delivers.propagated (h : Delivers reserve depth peer link p q) : q.propagated = p.propagated := by
  cases h <;> rfl

theorem run_of_delivers (h : Relation.ReflTransGen (Delivers reserve depth peer link) p q) :
    Relation.ReflTransGen (Step reserve depth peer link) p q := by
  induction h with
  | refl => exact .refl
  | tail _ hstep ih => exact ih.tail (.delivers hstep)

/-- A link that some deliveries leave quiet had not been used: each message that is delivered is
answered with another. -/
theorem Invariant.propagated_eq_zero
    (hp : Invariant reserve peer link p) (hdelivers : Relation.ReflTransGen (Delivers reserve depth peer link) p q)
    (hquiet : q.Quiet) : p.propagated = 0 := by
  obtain ⟨htoReplica, htoMaster⟩ := hquiet
  have hcount := (hp.run (run_of_delivers hdelivers)).propagated
  have hsame : q.propagated = p.propagated := by
    clear htoReplica htoMaster hcount
    induction hdelivers with
    | refl => rfl
    | tail _ h ih => exact h.propagated.trans ih
  rw [inFlight, htoReplica, htoMaster, hsame] at hcount
  exact Nat.le_zero.mp hcount

/-- **The link goes quiet exactly where nothing has been propagated.** In every run of write commands that do not
block and of deliveries, in any order: if a command has been propagated, every order in which the messages are
delivered leaves one in flight. A message that is delivered is answered, by the replica or by the master, so the
number of those in flight does not fall; the invariant has at least as many in flight as commands have been
propagated. -/
theorem goesQuiet_iff (hstart : start.Starts peer link)
    (hrun : Relation.ReflTransGen (Step reserve depth peer link) start p) :
    (∃ q, Relation.ReflTransGen (Delivers reserve depth peer link) p q ∧ q.Quiet) ↔ p.propagated = 0 := by
  have hp := (Invariant.of_starts hstart).run hrun
  constructor
  · rintro ⟨q, hdelivers, hquiet⟩
    exact hp.propagated_eq_zero hdelivers hquiet
  · exact fun hzero => ⟨p, .refl, hp.quiet hzero⟩

/-! ### The exchange goes on -/

namespace Invariant

/-- **A reply in flight can always be delivered.** -/
theorem exists_delivers (hp : Invariant reserve peer link p) (hlinked : p.Linked peer link)
    (hreplies : p.OnlyReplies reserve) (hflight : p.inFlight ≠ 0) : ∃ q, Delivers reserve depth peer link p q := by
  cases hreplica : p.toReplica with
  | cons data rest =>
    obtain ⟨hscalar, hread⟩ := hreplies data (by rw [hreplica]; exact List.mem_append_left _ List.mem_cons_self)
    obtain ⟨t, ht⟩ : ∃ t, p.replica.receive reserve depth link data = some t :=
      exists_receive hp.replica hlinked.link (fun cl _ h => h.2 hp.connected) hscalar hread
    exact ⟨_, .toReplica hreplica ht⟩
  | nil =>
    cases hmaster : p.toMaster with
    | cons data rest =>
      obtain ⟨hscalar, hread⟩ := hreplies data (by rw [hmaster]; exact List.mem_append_right _ List.mem_cons_self)
      obtain ⟨t, ht⟩ : ∃ t, p.master.receive reserve depth peer data = some t :=
        exists_receive hp.master hlinked.peer
          (fun cl hcl h => Bool.false_ne_true ((hp.peer cl hcl).symm.trans h.1)) hscalar hread
      exact ⟨_, .toMaster hmaster ht⟩
    | nil => exact absurd (by rw [inFlight, hreplica, hmaster]; rfl) hflight

/-- Its delivery puts an error in flight in its place. -/
theorem delivers_reply (hp : Invariant reserve peer link p) (hlinked : p.Linked peer link)
    (hreplies : p.OnlyReplies reserve) (h : Delivers reserve depth peer link p q) :
    q.Linked peer link ∧ q.OnlyReplies reserve ∧ q.inFlight = p.inFlight := by
  have herror : Scalar (error (str "invalid command format")) ∧
      (readMessage reserve (error (str "invalid command format"))).isSome :=
    ⟨scalar_error _, isSome_readMessage_error (by decide +kernel)⟩
  cases h with
  | @toReplica data rest t hdata h =>
    -- one message is taken, and one error comes back
    obtain ⟨hwrites, heq⟩ := messages_of_scalar hp.replica (fun cl _ h => h.2 hp.connected)
      (hreplies data (by rw [hdata]; exact List.mem_append_left _ List.mem_cons_self)).1 h
    refine ⟨⟨hlinked.peer, hwrites.isSome_lookup hlinked.link⟩, fun d hd => ?_, ?_⟩
    · rw [heq, ← List.append_assoc] at hd
      rcases List.mem_append.mp hd with hd | hd
      · refine hreplies d ?_
        rw [hdata]
        exact List.mem_cons_of_mem data hd
      · exact List.mem_singleton.mp hd ▸ herror
    · simp only [inFlight, hdata, heq, List.length_cons, List.length_append, List.length_nil]
      omega
  | @toMaster data rest t hdata h =>
    obtain ⟨hwrites, heq⟩ := messages_of_scalar hp.master
      (fun cl hcl h => Bool.false_ne_true ((hp.peer cl hcl).symm.trans h.1))
      (hreplies data (by rw [hdata]; exact List.mem_append_right _ List.mem_cons_self)).1 h
    refine ⟨⟨hwrites.isSome_lookup hlinked.peer, hlinked.link⟩, fun d hd => ?_, ?_⟩
    · rw [heq] at hd
      rcases List.mem_append.mp hd with hd | hd
      · rcases List.mem_append.mp hd with hd | hd
        · exact hreplies d (List.mem_append_left _ hd)
        · exact List.mem_singleton.mp hd ▸ herror
      · refine hreplies d (List.mem_append_right _ ?_)
        rw [hdata]
        exact List.mem_cons_of_mem data hd
    · simp only [inFlight, hdata, heq, List.length_cons, List.length_append, List.length_nil]
      omega

/-- **So an exchange of replies never gets stuck**: whatever has been delivered, a message can be. By induction on
the deliveries. -/
theorem never_stuck (hp : Invariant reserve peer link p) (hlinked : p.Linked peer link)
    (hreplies : p.OnlyReplies reserve) (hflight : p.inFlight ≠ 0)
    (h : Relation.ReflTransGen (Delivers reserve depth peer link) p q) :
    ∃ r, Delivers reserve depth peer link q r := by
  suffices hstep : q.Linked peer link ∧ q.OnlyReplies reserve ∧ q.inFlight = p.inFlight by
    obtain ⟨hlinked', hreplies', hsame⟩ := hstep
    exact (hp.run (run_of_delivers h)).exists_delivers hlinked' hreplies' (hsame ▸ hflight)
  induction h with
  | refl => exact ⟨hlinked, hreplies, rfl⟩
  | tail hdelivers hnext ih =>
    obtain ⟨hlinked', hreplies', hsame⟩ := ih
    obtain ⟨hlinked'', hreplies'', hsame'⟩ :=
      (hp.run (run_of_delivers hdelivers)).delivers_reply hlinked' hreplies' hnext
    exact ⟨hlinked'', hreplies'', hsame'.trans hsame⟩

end Invariant

end Runs

/-! ### A pair of servers -/

section Sample

open Sample

/-- What `Waitless` says, as a test. -/
def isWaitless (s : Server S) : Bool :=
  s.blockedClients.entries.isEmpty &&
    s.clients.entries.all fun e : (_ : ClientId) × Client => !e.2.hasFlag .blocked

theorem waitless_of_isWaitless {s : Server S} (h : isWaitless s = true) : s.Waitless := by
  obtain ⟨hempty, hall⟩ := Bool.and_eq_true_iff.mp h
  refine ⟨AList.ext (List.isEmpty_iff.mp hempty), fun {id cl} hcl => ?_⟩
  have hclear := List.all_eq_true.mp hall _ (UnorderedMap.mem_entries_iff.mpr hcl)
  exact Bool.not_eq_true' _ ▸ hclear

/-- The callbacks of a server that becomes a replica: its client 1 is the link. -/
def linkedReplica : List Turn :=
  [.accept, sends 0 ["REPLICAOF", "h", "1"], .cron,
    .readable 1 (.data (str "+PONG\r\n+OK\r\n+CONTINUE\r\n"))]

/-- A master that client 0 has become the replica of, and that replica. -/
def samplePair : Option (Pair Score) :=
  (ran (attachedReplica 1)).bind fun master => (ran linkedReplica).map fun replica =>
    { master := master, replica := replica }

/-- What `Starts` says of servers with a link of their own between them, as a test. -/
def isReady (p : Pair Score) : Bool :=
  isWaitless p.master && isWaitless p.replica &&
    ((p.master.clients.lookup 0).all fun cl => !cl.hasFlag .master) &&
    p.replica.replState = .connected && p.replica.replicas.isEmpty

theorem starts_samplePair {p : Pair Score} (hp : samplePair = some p) (h : isReady p = true) :
    p.Starts 0 1 := by
  obtain ⟨master, -, hp⟩ := Option.bind_eq_some_iff.mp hp
  obtain ⟨replica, -, rfl⟩ := Option.map_eq_some_iff.mp hp
  simp only [isReady, Bool.and_eq_true, decide_eq_true_eq] at h
  obtain ⟨⟨⟨⟨hmaster, hreplica⟩, hpeer⟩, hconnected⟩, hlink⟩ := h
  exact
    { master := waitless_of_isWaitless hmaster
      peer := fun cl hcl => by simpa [hcl] using hpeer
      replica := waitless_of_isWaitless hreplica
      connected := hconnected
      link := by simp [List.isEmpty_iff.mp hlink]
      quiet := ⟨rfl, rfl⟩
      propagated := rfl }

/-- `SET k v` at the master. -/
theorem step_set {p : Pair Score} {r : Except Empty Unit} {t : Server Score}
    (hrun : sampleSet.run p.master = some (r, t)) :
    Step (fun _ => none) 0 0 1 p { p with
      master := t, toReplica := p.toReplica ++ linkMessages 0 p.master t
      propagated := p.propagated + propagations 0 p.master t } := by
  have hlookup : Command.lookup (str "SET") = some .set := by decide +kernel
  refine .write Nat.one_ne_zero asString_set hlookup (by decide) ?_
    (executeCommand_of_name asString_set) hrun
  intro strs hstrs
  have hshort : isShort [.bulkString (str "SET"), .bulkString (str "k"), .bulkString (str "v")] = true := by
    decide +kernel
  exact commandFits_of_isShort hshort hstrs

/-- A run of the pair in which a command is propagated. -/
theorem exists_propagated : ∃ start p : Pair Score, start.Starts 0 1 ∧
    Reachable (fun _ => none) 2 start.master ∧ Reachable (fun _ => none) 2 start.replica ∧
    Relation.ReflTransGen (Step (fun _ => none) 0 0 1) start p ∧ p.propagated ≠ 0 := by
  have hran : (samplePair.bind fun p => (sampleSet.run p.master).map fun x =>
      isReady p && propagations 0 p.master x.2 != 0) = some true := by decide +kernel
  obtain ⟨p, hp, hstep⟩ := Option.bind_eq_some_iff.mp hran
  obtain ⟨⟨r, t⟩, ht, hsample⟩ := Option.map_eq_some_iff.mp hstep
  obtain ⟨hready, hsent⟩ := Bool.and_eq_true_iff.mp hsample
  have hstart := starts_samplePair hp hready
  refine ⟨p, _, hstart, ?_, ?_, .single (step_set ht), ?_⟩
  · obtain ⟨master, hmaster, hp⟩ := Option.bind_eq_some_iff.mp hp
    obtain ⟨replica, -, rfl⟩ := Option.map_eq_some_iff.mp hp
    exact reachable_ran hmaster
  · obtain ⟨master, -, hp⟩ := Option.bind_eq_some_iff.mp hp
    obtain ⟨replica, hreplica, rfl⟩ := Option.map_eq_some_iff.mp hp
    exact reachable_ran hreplica
  · simpa [hstart.propagated] using hsent

theorem goesQuiet_iff_set : ∃ start p : Pair Score, start.Starts 0 1 ∧
    Relation.ReflTransGen (Step (fun _ => none) 0 0 1) start p ∧
    ((∃ q, Relation.ReflTransGen (Delivers (fun _ => none) 0 0 1) p q ∧ q.Quiet) ↔
      p.propagated = 0) := by
  obtain ⟨start, p, hstart, -, -, hrun, -⟩ := exists_propagated
  exact ⟨start, p, hstart, hrun, goesQuiet_iff hstart hrun⟩

/-- One `SET` is enough for a link that never goes quiet. -/
theorem never_quiet_set : ¬∀ start p : Pair Score, start.Starts 0 1 →
    Reachable (fun _ => none) 2 start.master → Reachable (fun _ => none) 2 start.replica →
    Relation.ReflTransGen (Step (fun _ => none) 0 0 1) start p →
    ∃ q, Relation.ReflTransGen (Delivers (fun _ => none) 0 0 1) p q ∧ q.Quiet := by
  intro hall
  obtain ⟨start, p, hstart, hmaster, hreplica, hrun, hpropagated⟩ := exists_propagated
  obtain ⟨q, hdelivers, hquiet⟩ := hall start p hstart hmaster hreplica hrun
  have hp : Invariant _ _ _ p := (Invariant.of_starts hstart).run hrun
  exact hpropagated (hp.propagated_eq_zero hdelivers hquiet)

/-- After one `SET` and the replica's answer to it, errors go to and fro for ever. -/
theorem never_stuck_set : ∃ start p : Pair Score, start.Starts 0 1 ∧
    Relation.ReflTransGen (Step (fun _ => none) 0 0 1) start p ∧
    ∀ q, Relation.ReflTransGen (Delivers (fun _ => none) 0 0 1) p q → ∃ r, Delivers (fun _ => none) 0 0 1 q r := by
  have hran : (samplePair.bind fun p => (sampleSet.run p.master).bind fun x =>
      (linkMessages 0 p.master x.2).head?.bind fun data => (p.replica.receive (fun _ => none) 0 1 data).map fun t =>
        isReady p && (linkMessages 0 p.master x.2 == [data]) && (linkMessages 1 p.replica t == [ok]) &&
          (x.2.clients.lookup 0).isSome && (t.clients.lookup 1).isSome) = some true := by decide +kernel
  obtain ⟨p, hp, hran⟩ := Option.bind_eq_some_iff.mp hran
  obtain ⟨⟨r, u⟩, hu, hran⟩ := Option.bind_eq_some_iff.mp hran
  obtain ⟨data, -, hran⟩ := Option.bind_eq_some_iff.mp hran
  obtain ⟨t, ht, hsample⟩ := Option.map_eq_some_iff.mp hran
  simp only [Bool.and_eq_true, beq_iff_eq] at hsample
  obtain ⟨⟨⟨⟨hready, hsent⟩, hreply⟩, hpeer⟩, hlink⟩ := hsample
  have hstart := starts_samplePair hp hready
  have hfirst : p.toReplica ++ linkMessages 0 p.master u = [data] := by rw [hstart.quiet.1, hsent, List.nil_append]
  have hrun := (Relation.ReflTransGen.single (step_set hu)).tail (.delivers (.toReplica hfirst ht))
  -- the reply of the replica is in flight
  have hflight : p.toMaster ++ linkMessages 1 p.replica t = [ok] := by rw [hstart.quiet.2, hreply, List.nil_append]
  refine ⟨p, _, hstart, hrun, fun q hq => ((Invariant.of_starts hstart).run hrun).never_stuck ⟨hpeer, hlink⟩ ?_ ?_ hq⟩
  · intro text htext
    obtain rfl : text = ok := by
      rw [List.nil_append, hflight] at htext
      exact List.mem_singleton.mp htext
    exact ⟨scalar_ok, by decide +kernel⟩
  · simp only [inFlight, hflight]
    decide

end Sample

end Pair

end RedisDb
